import Lockstep.Storage.SSTable

/-!
# SSTables are read back

Parsing the image of a table gives the reader that `adoptBuilt` makes of the same build, and the
reader holds the entries the table was built from.
-/

namespace Lockstep.Storage

open Library Library.ByteCodec SSTableBuilder SSTableLoader SSTableReader RecordStream Crc32 List

variable {r : IndexRec} {block : List SstEntry} {e : SstEntry} {count fuel : ℕ}

/-! ### Blocks of a run -/

namespace SSTableBuilder

lemma takeBlock_append (size : ℕ) (entries : List SstEntry) :
    (takeBlock size entries).1 ++ (takeBlock size entries).2 = entries := by
  induction entries generalizing size with
  | nil => rfl
  | cons e entries ih =>
    rw [takeBlock]
    split_ifs
    · rfl
    · exact congrArg (e :: ·) (ih _)

lemma takeBlock_zero_cons (e : SstEntry) (entries : List SstEntry) :
    takeBlock 0 (e :: entries) =
      (e :: (takeBlock (entrySize e) entries).1, (takeBlock (entrySize e) entries).2) := by
  rw [takeBlock, if_neg fun h ↦ h.1 rfl, Nat.zero_add]

lemma packBlocks_cons (fuel : ℕ) (e : SstEntry) (entries : List SstEntry) :
    packBlocks (fuel + 1) (e :: entries) =
      (takeBlock 0 (e :: entries)).1 :: packBlocks fuel (takeBlock 0 (e :: entries)).2 := by
  rw [packBlocks]
  exact cons_ne_nil e entries

lemma length_takeBlock_snd (e : SstEntry) (entries : List SstEntry) :
    (takeBlock 0 (e :: entries)).2.length ≤ entries.length := by
  have hlength := congrArg length (takeBlock_append (entrySize e) entries)
  rw [length_append] at hlength
  rw [takeBlock_zero_cons]
  dsimp only
  omega

lemma flatten_packBlocks {entries : List SstEntry} (hfuel : entries.length ≤ fuel) :
    (packBlocks fuel entries).flatten = entries := by
  induction fuel generalizing entries with
  | zero =>
    rw [length_eq_zero_iff.mp (Nat.le_zero.mp hfuel)]
    rfl
  | succ fuel ih =>
    rcases entries with _ | ⟨e, entries⟩
    · rfl
    · have hrest := length_takeBlock_snd e entries
      rw [length_cons] at hfuel
      rw [packBlocks_cons, flatten_cons, ih (by omega), takeBlock_append]

lemma takeBlock_of_mem_packBlocks {entries : List SstEntry}
    (hblock : block ∈ packBlocks fuel entries) :
    ∃ e rest, e :: rest <:+ entries ∧ block = (takeBlock 0 (e :: rest)).1 := by
  induction fuel generalizing entries with
  | zero =>
    rcases entries with _ | ⟨e, entries⟩ <;> cases hblock
  | succ fuel ih =>
    rcases entries with _ | ⟨e, entries⟩
    · cases hblock
    rcases mem_cons.mp hblock with rfl | hrest
    · exact ⟨e, entries, suffix_rfl, rfl⟩
    · obtain ⟨d, rest, hsuffix, heq⟩ := ih hrest
      exact ⟨d, rest, hsuffix.trans ⟨_, takeBlock_append 0 (e :: entries)⟩, heq⟩

lemma ne_nil_of_mem_packBlocks {entries : List SstEntry}
    (hblock : block ∈ packBlocks fuel entries) : block ≠ [] := by
  obtain ⟨e, rest, -, rfl⟩ := takeBlock_of_mem_packBlocks hblock
  exact cons_ne_nil _ _

lemma length_writeBlock (payload : List UInt8) :
    (writeBlock payload).length = payload.length + kBlockCrcBytes := by
  rw [writeBlock, length_append, length_putU32, kBlockCrcBytes]

end SSTableBuilder

/-! ### Reading one part back -/

structure Entry.Fits (e : Entry) : Prop where
  seq : e.seq < 2 ^ 64
  key : e.key.length < 2 ^ 32
  value : e.value.length < 2 ^ 32

instance (e : Entry) : Decidable e.Fits :=
  decidable_of_iff (e.seq < 2 ^ 64 ∧ e.key.length < 2 ^ 32 ∧ e.value.length < 2 ^ 32)
    ⟨fun h ↦ ⟨h.1, h.2.1, h.2.2⟩, fun h ↦ ⟨h.seq, h.key, h.value⟩⟩

lemma length_encodeEntry (e : SstEntry) : (encodeEntry e).length = entrySize e := by
  simp only [encodeEntry, entrySize, length_append, length_putU32, length_putU64, length_singleton]
  omega

lemma flags_toNat (e : SstEntry) :
    decide ((flags e) &&& 1 ≠ 0) = e.tombstone ∧ decide ((flags e) &&& 2 ≠ 0) = e.vlog := by
  unfold flags
  cases e.tombstone <;> cases e.vlog <;> decide

lemma decodeEntry_encodeEntry (hfits : e.Fits) (rest : List UInt8) :
    decodeEntry (encodeEntry e ++ rest) = some (e, rest) := by
  have hbyte : [flags e] = putLE 1 (flags e).toNat := by simp [putLE]
  have hsize := length_encodeEntry e
  rw [entrySize] at hsize
  have hdrop : (encodeEntry e ++ rest).drop (17 + (e.key.length + e.value.length)) = rest :=
    drop_left' (by omega)
  have hfields : getU32 (encodeEntry e ++ rest) 0 = e.key.length ∧
      getU32 (encodeEntry e ++ rest) 4 = e.value.length ∧
      getU64 (encodeEntry e ++ rest) 8 = e.seq ∧
      getAt 1 (encodeEntry e ++ rest) 16 = (flags e).toNat ∧
      slice (encodeEntry e ++ rest) 17 e.key.length = e.key ∧
      slice (encodeEntry e ++ rest) (17 + e.key.length) e.value.length = e.value := by
    simp (disch := simp +arith) only [encodeEntry, hbyte, append_assoc, getU32_skip, getU64_skip,
      getAt_skip, slice_skip, length_putU32, length_putU64, length_putLE, Nat.sub_sub,
      Nat.add_sub_cancel_left, Nat.sub_self]
    exact ⟨getU32_putU32 hfits.key _, getU32_putU32 hfits.value _, getU64_putU64 hfits.seq _,
      getAt_putLE (UInt8.toNat_lt _) _, slice_left rfl _, slice_left rfl _⟩
  obtain ⟨hklen, hvlen, hseq, hflags, hkey, hvalue⟩ := hfields
  obtain ⟨htombstone, hvlog⟩ := flags_toNat e
  rw [decodeEntry, if_neg (by rw [length_append]; omega)]
  simp only [hklen, hvlen, hseq, hflags, UInt8.ofNat_toNat, hkey, hvalue, hdrop, htombstone, hvlog]
  rw [if_neg (by rw [length_append]; omega)]

structure IndexRec.Fits (r : IndexRec) : Prop where
  off : r.off < 2 ^ 64
  len : r.len < 2 ^ 32
  firstKey : r.firstKey.length < 2 ^ 32

lemma length_encodeIndexRec (r : IndexRec) :
    (encodeIndexRec r).length = 16 + r.firstKey.length := by
  simp only [encodeIndexRec, length_append, length_putU32, length_putU64]
  omega

lemma parseIndexRec_encodeIndexRec (hfits : r.Fits) (rest : List UInt8) :
    parseIndexRec (encodeIndexRec r ++ rest) = some (r, rest) := by
  have hsize := length_encodeIndexRec r
  have hdrop : (encodeIndexRec r ++ rest).drop (16 + r.firstKey.length) = rest := drop_left' hsize
  have hfields : getU64 (encodeIndexRec r ++ rest) 0 = r.off ∧
      getU32 (encodeIndexRec r ++ rest) 8 = r.len ∧
      getU32 (encodeIndexRec r ++ rest) 12 = r.firstKey.length ∧
      slice (encodeIndexRec r ++ rest) 16 r.firstKey.length = r.firstKey := by
    simp (disch := simp) only [encodeIndexRec, append_assoc, getU32_skip, slice_skip,
      length_putU32, length_putU64]
    exact ⟨getU64_putU64 hfits.off _, getU32_putU32 hfits.len _, getU32_putU32 hfits.firstKey _,
      slice_left rfl _⟩
  obtain ⟨hoff, hlen, hklen, hkey⟩ := hfields
  rw [parseIndexRec, if_neg (by rw [length_append]; omega)]
  simp only [hoff, hlen, hklen, hkey, hdrop]
  rw [if_neg (by rw [length_append]; omega)]

lemma readBlock_writeBlock (before payload rest : List UInt8)
    (hpayload : payload.length + kBlockCrcBytes < 2 ^ 32)
    (hend : before.length + (payload.length + kBlockCrcBytes) < 2 ^ 64) {off len : ℕ}
    (hoff : off = before.length) (hlen : len = framedLen payload) :
    readBlock (before ++ (writeBlock payload ++ rest)) off len = some payload := by
  have hframed : len = payload.length + kBlockCrcBytes := by
    rw [hlen, framedLen, Nat.mod_eq_of_lt hpayload]
  have hslice : slice (before ++ (writeBlock payload ++ rest)) off payload.length = payload := by
    rw [hoff, slice_skip le_rfl, Nat.sub_self, writeBlock, append_assoc, slice_left rfl]
  have hcrc : getU32 (before ++ (writeBlock payload ++ rest)) (off + payload.length) =
      compute payload := by
    rw [hoff, getU32_skip (by omega), Nat.add_sub_cancel_left, writeBlock, append_assoc,
      getU32_skip le_rfl, Nat.sub_self, getU32_putU32 (compute_lt _)]
  have hlength : (before ++ (writeBlock payload ++ rest)).length =
      before.length + (payload.length + kBlockCrcBytes) + rest.length := by
    simp only [length_append, length_writeBlock]
    omega
  rw [readBlock, hframed, Nat.add_sub_cancel, hslice, hcrc, if_neg (by omega), if_neg,
    if_neg (not_not.mpr rfl)]
  omega

lemma decodeDataBlock_blockPayload (hfits : ∀ e ∈ block, e.Fits) :
    decodeDataBlock (blockPayload block) = some block := by
  have hpos : ∀ e ∈ block, 0 < (encodeEntry e).length := by
    intro e _
    rw [length_encodeEntry, entrySize]
    omega
  exact decodeAll_flatMap (fun e he rest ↦ decodeEntry_encodeEntry (hfits e he) rest)
    hpos (length_le_length_flatMap hpos)

lemma parseIndex_flatMap {index : List IndexRec} (hfits : ∀ r ∈ index, r.Fits) :
    parseIndex (index.flatMap encodeIndexRec) = some index := by
  have hpos : ∀ r ∈ index, 0 < (encodeIndexRec r).length := by
    intro r _
    rw [length_encodeIndexRec]
    omega
  exact decodeAll_flatMap
    (fun r hr rest ↦ parseIndexRec_encodeIndexRec (hfits r hr) rest)
    hpos (length_le_length_flatMap hpos)

/-! ### The data blocks -/

def dataBytes (blocks : List (List SstEntry)) : List UInt8 :=
  blocks.flatMap fun block ↦ writeBlock (blockPayload block)

lemma dataBytes_cons (block : List SstEntry) (blocks : List (List SstEntry)) :
    dataBytes (block :: blocks) = writeBlock (blockPayload block) ++ dataBytes blocks :=
  flatMap_cons ..

variable {blocks : List (List SstEntry)}

lemma readBlocks_indexOf (hentries : ∀ block ∈ blocks, ∀ e ∈ block, e.Fits)
    (hblocks : ∀ block ∈ blocks, (blockPayload block).length + kBlockCrcBytes < 2 ^ 32)
    (before rest : List UInt8) (hend : before.length + (dataBytes blocks).length < 2 ^ 64) :
    readBlocks (before ++ (dataBytes blocks ++ rest)) (indexOf before.length blocks) =
      some blocks := by
  induction blocks generalizing before with
  | nil => rfl
  | cons block blocks ih =>
    rw [dataBytes_cons, length_append, length_writeBlock] at hend
    have hblock : readBlock (before ++ (dataBytes (block :: blocks) ++ rest)) before.length
        (framedLen (blockPayload block)) = some (blockPayload block) := by
      rw [dataBytes_cons, append_assoc]
      exact readBlock_writeBlock before _ _ (hblocks block mem_cons_self) (by omega) rfl rfl
    -- The blocks after this one are read from behind it.
    have hrest := ih (forall_mem_cons.mp hentries).2
      (forall_mem_cons.mp hblocks).2
      (before ++ writeBlock (blockPayload block))
      (by rw [length_append, length_writeBlock]; omega)
    have hsplit : before ++ (dataBytes (block :: blocks) ++ rest) =
        (before ++ writeBlock (blockPayload block)) ++ (dataBytes blocks ++ rest) := by
      rw [dataBytes_cons, append_assoc, append_assoc]
    rw [← hsplit, length_append] at hrest
    rw [indexOf, readBlocks]
    simp [hblock, decodeDataBlock_blockPayload (hentries block mem_cons_self), hrest]

lemma length_indexOf (off : ℕ) (blocks : List (List SstEntry)) :
    (indexOf off blocks).length = blocks.length := by
  induction blocks generalizing off with
  | nil => rfl
  | cons block blocks ih => rw [indexOf, length_cons, ih, length_cons]

lemma of_mem_indexOf {off : ℕ} (hr : r ∈ indexOf off blocks) :
    (∃ block ∈ blocks, r.firstKey = frontKey block ∧ r.len = framedLen (blockPayload block)) ∧
      r.off ≤ off + (dataBytes blocks).length := by
  induction blocks generalizing off with
  | nil => cases hr
  | cons block blocks ih =>
    rcases mem_cons.mp hr with rfl | hr
    · exact ⟨⟨block, mem_cons_self, rfl, rfl⟩, Nat.le_add_right _ _⟩
    · obtain ⟨⟨b, hb, hfields⟩, hoff⟩ := ih hr
      refine ⟨⟨b, mem_cons_of_mem block hb, hfields⟩, ?_⟩
      rw [dataBytes_cons, length_append]
      omega

lemma zip_indexOf (off : ℕ) (blocks : List (List SstEntry)) :
    (blocks.zip (((indexOf off blocks).map IndexRec.off).zip
      ((indexOf off blocks).map IndexRec.len))).map (fun (block, off, len) ↦
        ({ off := off, len := len, firstKey := frontKey block } : IndexRec)) =
      indexOf off blocks := by
  induction blocks generalizing off with
  | nil => rfl
  | cons block blocks ih =>
    simp only [indexOf, map_cons, zip_cons_cons]
    rw [ih]

/-! ### The whole table -/

section Parts

variable (entries : List SstEntry)

def dataSection : List UInt8 := dataBytes (packBlocks entries.length entries)

def indexPayload : List UInt8 :=
  (indexOf 0 (packBlocks entries.length entries)).flatMap encodeIndexRec

def bloomPayload : List UInt8 := (BloomFilter.build (distinctKeys entries)).encode

def footPayload : List UInt8 :=
  footer (dataSection entries).length (framedLen (indexPayload entries))
    (dataSection entries ++ writeBlock (indexPayload entries)).length
    (framedLen (bloomPayload entries)) (minSeq entries) (maxSeq entries)

lemma build_bytes :
    (build entries).bytes =
      dataSection entries ++ writeBlock (indexPayload entries) ++
        writeBlock (bloomPayload entries) ++ writeBlock (footPayload entries) :=
  rfl

lemma length_bloomPayload_lt : (bloomPayload entries).length + kBlockCrcBytes < 2 ^ 32 := by
  obtain ⟨-, -, hlength⟩ := BloomFilter.build_fields (distinctKeys entries)
  have hlt := Nat.mod_lt (BloomFilter.bitCount (distinctKeys entries).length + 7)
    (Nat.two_pow_pos 32)
  rw [bloomPayload, BloomFilter.length_encode, kBlockCrcBytes]
  omega

end Parts

structure TableFits (entries : List SstEntry) : Prop where
  entry : ∀ e ∈ entries, e.Fits
  block : ∀ block ∈ packBlocks entries.length entries,
    (blockPayload block).length + kBlockCrcBytes < 2 ^ 32
  index : (indexPayload entries).length + kBlockCrcBytes < 2 ^ 32

instance (entries : List SstEntry) : Decidable (TableFits entries) :=
  decidable_of_iff ((∀ e ∈ entries, e.Fits) ∧
      (∀ block ∈ packBlocks entries.length entries,
        (blockPayload block).length + kBlockCrcBytes < 2 ^ 32) ∧
      (indexPayload entries).length + kBlockCrcBytes < 2 ^ 32)
    ⟨fun h ↦ ⟨h.1, h.2.1, h.2.2⟩, fun h ↦ ⟨h.entry, h.block, h.index⟩⟩

lemma foldl_seq_lt (pick : Seq → SstEntry → Prop) [∀ seq e, Decidable (pick seq e)]
    {entries : List SstEntry} {first bound : Seq} (hfirst : first < bound)
    (hbound : ∀ e ∈ entries, e.seq < bound) :
    entries.foldl (fun seq e ↦ if pick seq e then e.seq else seq) first < bound := by
  refine foldlRecOn (motive := (· < bound)) entries _ hfirst fun seq hseq e he ↦ ?_
  split_ifs
  · exact hbound e he
  · exact hseq

lemma le_maxSeq {entries : List SstEntry} {v : SstEntry} (hv : v ∈ entries) :
    v.seq ≤ maxSeq entries := by
  have hgrows : ∀ (most : Seq) (e : SstEntry), most ≤ (if most < e.seq then e.seq else most) ∧
      e.seq ≤ if most < e.seq then e.seq else most := by
    intro most e
    split_ifs with hlt
    · exact ⟨hlt.le, le_rfl⟩
    · exact ⟨le_rfl, not_lt.mp hlt⟩
  obtain ⟨before, after, rfl⟩ := append_of_mem hv
  rw [SSTableBuilder.maxSeq, foldl_append]
  exact foldlRecOn (motive := (v.seq ≤ ·)) after _ (hgrows _ v).2 fun most h e _ ↦
    h.trans (hgrows most e).1

namespace TableFits

variable {entries : List SstEntry}

section

variable (h : TableFits entries)

include h

lemma entry_of_mem_block
    (hblock : block ∈ packBlocks entries.length entries) (he : e ∈ block) : e.Fits := by
  apply h.entry
  rw [← flatten_packBlocks (le_refl entries.length)]
  exact mem_flatten_of_mem hblock he

lemma data_lt : (dataSection entries).length < 2 ^ 60 := by
  have hcount : (indexOf 0 (packBlocks entries.length entries)).length * 16 ≤
      (indexPayload entries).length := mul_le_length_flatMap fun r _ ↦ by
    rw [length_encodeIndexRec]
    omega
  have hsize : (dataSection entries).length ≤
      (packBlocks entries.length entries).length * 2 ^ 32 :=
    length_flatMap_le_mul fun block hblock ↦ by
      rw [length_writeBlock]
      exact (h.block block hblock).le
  have hindex := h.index
  rw [length_indexOf] at hcount
  omega

lemma indexRec (hr : r ∈ indexOf 0 (packBlocks entries.length entries)) :
    r.Fits := by
  obtain ⟨⟨block, hblock, hkey, hlen⟩, hoff⟩ := of_mem_indexOf hr
  have hdata : (dataBytes (packBlocks entries.length entries)).length < 2 ^ 60 := h.data_lt
  refine ⟨by omega, ?_, ?_⟩
  · rw [hlen]
    exact Nat.mod_lt _ (by decide)
  · obtain ⟨e, tail, rfl⟩ := exists_cons_of_ne_nil (ne_nil_of_mem_packBlocks hblock)
    rw [hkey]
    exact (h.entry_of_mem_block hblock mem_cons_self).key

lemma bytes_lt : (build entries).bytes.length < 2 ^ 64 := by
  have hdata := h.data_lt
  have hindex := h.index
  have hbloom := length_bloomPayload_lt entries
  have hfoot : (footPayload entries).length = 48 := by
    simp [footPayload, footer]
  rw [build_bytes]
  simp only [length_append, length_writeBlock, hfoot]
  omega

lemma minSeq_lt : minSeq entries < 2 ^ 64 :=
  foldl_seq_lt _ (by decide) fun e he ↦ (h.entry e he).seq

lemma maxSeq_lt : maxSeq entries < 2 ^ 64 :=
  foldl_seq_lt _ (by decide) fun e he ↦ (h.entry e he).seq

end

end TableFits

lemma length_footer (indexOff indexLen bloomOff bloomLen least most : ℕ) :
    (footer indexOff indexLen bloomOff bloomLen least most).length = 48 := by
  simp [footer]

lemma footer_fields {indexOff indexLen bloomOff bloomLen least most : ℕ} (rest : List UInt8)
    (hindexOff : indexOff < 2 ^ 64) (hindexLen : indexLen < 2 ^ 32) (hbloomOff : bloomOff < 2 ^ 64)
    (hbloomLen : bloomLen < 2 ^ 32) (hleast : least < 2 ^ 64) (hmost : most < 2 ^ 64) :
    let foot := footer indexOff indexLen bloomOff bloomLen least most ++ rest
    getU64 foot 0 = indexOff ∧ getU32 foot 8 = indexLen ∧ getU64 foot 12 = bloomOff ∧
      getU32 foot 20 = bloomLen ∧ getU64 foot 24 = least ∧ getU64 foot 32 = most ∧
      getU32 foot 40 = Format.kSstableVersion ∧ getU32 foot 44 = kSstMagic := by
  simp (disch := simp) only [footer, append_assoc, getU32_skip, getU64_skip, length_putU32,
    length_putU64]
  exact ⟨getU64_putU64 hindexOff _, getU32_putU32 hindexLen _, getU64_putU64 hbloomOff _,
    getU32_putU32 hbloomLen _, getU64_putU64 hleast _, getU64_putU64 hmost _,
    getU32_putU32 (by decide) _, getU32_putU32 (by decide) _⟩

variable (entries : List SstEntry)

lemma adoptBuilt_build (id : ℕ) : adoptBuilt (build entries) id =
      { minSeq := minSeq entries, maxSeq := maxSeq entries, sstableId := id,
        index := indexOf 0 (packBlocks entries.length entries),
        blocks := packBlocks entries.length entries,
        bloom := BloomFilter.build (distinctKeys entries) } := by
  have hindex := zip_indexOf 0 (packBlocks entries.length entries)
  simp only [adoptBuilt, build, hindex]

lemma kSstFooterBytes_le : kSstFooterBytes ≤ (build entries).bytes.length := by
  rw [build_bytes, length_append, length_writeBlock, footPayload, length_footer,
    kBlockCrcBytes, kSstFooterBytes]
  omega

lemma drop_build_bytes :
    (build entries).bytes.drop ((build entries).bytes.length - kSstFooterBytes) =
      footPayload entries ++ putU32 (compute (footPayload entries)) := by
  have hfoot : (writeBlock (footPayload entries)).length = kSstFooterBytes := by
    rfl
  rw [build_bytes, length_append, hfoot, Nat.add_sub_cancel, drop_left, writeBlock]

lemma footPayload_fields {entries : List SstEntry} (h : TableFits entries)
    (rest : List UInt8) :
    let foot := footPayload entries ++ rest
    getU64 foot 0 = (dataSection entries).length ∧
      getU32 foot 8 = framedLen (indexPayload entries) ∧
      getU64 foot 12 = (dataSection entries ++ writeBlock (indexPayload entries)).length ∧
      getU32 foot 20 = framedLen (bloomPayload entries) ∧
      getU64 foot 24 = minSeq entries ∧ getU64 foot 32 = maxSeq entries ∧
      getU32 foot 40 = Format.kSstableVersion ∧ getU32 foot 44 = kSstMagic := by
  have hdata := h.data_lt
  have hindex := h.index
  have hframed : ∀ payload, framedLen payload < 2 ^ 32 := fun payload ↦ Nat.mod_lt _ (by decide)
  refine footer_fields rest (by omega) (hframed _) ?_ (hframed _) h.minSeq_lt h.maxSeq_lt
  rw [length_append, length_writeBlock]
  omega

lemma readBlock_index {entries : List SstEntry} (h : TableFits entries) :
    readBlock (build entries).bytes (dataSection entries).length
      (framedLen (indexPayload entries)) = some (indexPayload entries) := by
  have hdata := h.data_lt
  have hindex := h.index
  rw [build_bytes, append_assoc, append_assoc]
  exact readBlock_writeBlock _ _ _ hindex (by omega) rfl rfl

lemma readBlock_bloom {entries : List SstEntry} (h : TableFits entries) :
    readBlock (build entries).bytes
      (dataSection entries ++ writeBlock (indexPayload entries)).length
      (framedLen (bloomPayload entries)) = some (bloomPayload entries) := by
  have hdata := h.data_lt
  have hindex := h.index
  have hbloom := length_bloomPayload_lt entries
  rw [build_bytes, append_assoc]
  refine readBlock_writeBlock _ _ _ hbloom ?_ rfl rfl
  rw [length_append, length_writeBlock]
  omega

lemma readBlocks_build {entries : List SstEntry} (h : TableFits entries) :
    readBlocks (build entries).bytes (indexOf 0 (packBlocks entries.length entries)) =
      some (packBlocks entries.length entries) := by
  have hdata := h.data_lt
  rw [build_bytes, append_assoc, append_assoc]
  refine readBlocks_indexOf (fun block hblock e he ↦ h.entry_of_mem_block hblock he) h.block []
    _ ?_
  rw [length_nil, Nat.zero_add]
  exact hdata.trans (by decide)

lemma parse_build {entries : List SstEntry} (h : TableFits entries) (id : ℕ) :
    parse (build entries).bytes id =
      if BloomFilter.SizeFits (distinctKeys entries).length then
        some (adoptBuilt (build entries) id)
      else none := by
  have hlong := not_lt.mpr (kSstFooterBytes_le entries)
  obtain ⟨hindexOff, hindexLen, hbloomOff, hbloomLen, hmin, hmax, hversion, hmagic⟩ :=
    footPayload_fields h (putU32 (compute (footPayload entries)))
  have hlength : (footPayload entries).length = 48 := length_footer ..
  have hcrc : getU32 (footPayload entries ++ putU32 (compute (footPayload entries))) 48 =
      compute (footPayload entries) := by
    rw [getU32_skip hlength.le, hlength, Nat.sub_self, ← append_nil (putU32 _),
      getU32_putU32 (compute_lt _)]
  have htake : (footPayload entries ++ putU32 (compute (footPayload entries))).take
      (kSstFooterBytes - 4) = footPayload entries := take_left' hlength
  have hindex : parseIndex (indexPayload entries) =
      some (indexOf 0 (packBlocks entries.length entries)) :=
    parseIndex_flatMap fun r hr ↦ h.indexRec hr
  have hbloom : BloomFilter.decode (bloomPayload entries) = _ :=
    BloomFilter.decode_encode_build (distinctKeys entries)
  rw [parse, if_neg hlong]
  simp only [drop_build_bytes, hmagic, hcrc, htake, hversion, hindexOff, hindexLen, hbloomOff,
    hbloomLen, hmin, hmax, readBlock_index h, hindex, readBlock_bloom h, hbloom]
  by_cases hfits : BloomFilter.SizeFits (distinctKeys entries).length
  · simp [if_pos hfits, readBlocks_build h, adoptBuilt_build]
  · simp only [if_neg hfits, ne_eq, not_true_eq_false, if_false]

lemma collectEntries_adoptBuilt (id : ℕ) :
    (adoptBuilt (build entries) id).collectEntries = entries := by
  rw [adoptBuilt_build, collectEntries, flatten_packBlocks le_rfl]

/-- A table is read back, with every entry, exactly when the size of its Bloom filter does not
wrap. -/
theorem parse_build_iff {entries : List SstEntry} (hfits : TableFits entries) (id : ℕ) :
    (parse (build entries).bytes id = some (adoptBuilt (build entries) id) ∧
        (adoptBuilt (build entries) id).collectEntries = entries) ↔
      BloomFilter.SizeFits (distinctKeys entries).length := by
  rw [parse_build hfits]
  by_cases hsize : BloomFilter.SizeFits (distinctKeys entries).length
  · rw [if_pos hsize]
    exact ⟨fun _ ↦ hsize, fun _ ↦ ⟨rfl, collectEntries_adoptBuilt entries id⟩⟩
  · rw [if_neg hsize]
    exact ⟨fun h ↦ absurd h.1 nofun, fun h ↦ absurd h hsize⟩

/-! ### A run of many small entries

Keys of four bytes and no values: the blocks and the index stay small, and the Bloom filter of
429496729 keys needs 4294967290 bits, which do not leave room for rounding up to bytes. -/

lemma lt_of_takeBlock {size width : ℕ} {entries : List SstEntry}
    (hwidth : ∀ e ∈ entries, entrySize e = width) (hrest : (takeBlock size entries).2 ≠ []) :
    kSstTargetBlockBytes < size + ((takeBlock size entries).1.length + 1) * width := by
  induction entries generalizing size with
  | nil => exact absurd rfl hrest
  | cons e entries ih =>
    rw [takeBlock] at hrest ⊢
    rw [hwidth e mem_cons_self] at hrest ⊢
    split_ifs at hrest ⊢ with hfull
    · rw [length_nil, Nat.one_mul]
      exact hfull.2
    · have hlt := ih (forall_mem_cons.mp hwidth).2 hrest
      rw [length_cons, Nat.add_mul _ 1]
      omega

lemma length_packBlocks_le {fuel width : ℕ} {entries : List SstEntry}
    (hwidth : ∀ e ∈ entries, entrySize e = width) :
    (packBlocks fuel entries).length * (kSstTargetBlockBytes - width) ≤
      entries.length * width + kSstTargetBlockBytes := by
  induction fuel generalizing entries with
  | zero => rcases entries with _ | ⟨e, entries⟩ <;> simp [packBlocks]
  | succ fuel ih =>
    rcases entries with _ | ⟨e, entries⟩
    · simp [packBlocks]
    have hsplit := takeBlock_append 0 (e :: entries)
    have hlength := congrArg length hsplit
    rw [length_append] at hlength
    rw [packBlocks_cons, length_cons, Nat.add_mul, ← hlength, Nat.add_mul]
    by_cases hrest : (takeBlock 0 (e :: entries)).2 = []
    · rw [hrest]
      rcases fuel with _ | fuel <;> simp only [packBlocks, length_nil] <;> omega
    have hfull := lt_of_takeBlock hwidth hrest
    have hmore := @ih (takeBlock 0 (e :: entries)).2 fun d hd ↦
      hwidth d (hsplit ▸ mem_append_right _ hd)
    rw [Nat.add_mul] at hfull
    omega

lemma length_blockPayload_takeBlock {size : ℕ} {entries : List SstEntry}
    (hsize : size ≤ kSstTargetBlockBytes)
    (hentries : ∀ e ∈ entries, entrySize e ≤ kSstTargetBlockBytes) :
    size + (blockPayload (takeBlock size entries).1).length ≤ kSstTargetBlockBytes := by
  induction entries generalizing size with
  | nil => exact hsize
  | cons e entries ih =>
    have he := hentries e mem_cons_self
    rw [takeBlock]
    split_ifs with hfull
    · exact hsize
    · have hle := @ih (size + entrySize e) (by rcases Nat.eq_zero_or_pos size <;> omega)
        (forall_mem_cons.mp hentries).2
      simp only [blockPayload, flatMap_cons, length_append, length_encodeEntry] at hle ⊢
      omega

lemma length_blockPayload_le {entries : List SstEntry}
    (hentries : ∀ e ∈ entries, entrySize e ≤ kSstTargetBlockBytes)
    (hblock : block ∈ packBlocks fuel entries) :
    (blockPayload block).length ≤ kSstTargetBlockBytes := by
  obtain ⟨e, rest, hsuffix, rfl⟩ := takeBlock_of_mem_packBlocks hblock
  have hle := length_blockPayload_takeBlock (Nat.zero_le _) fun d hd ↦
    hentries d (hsuffix.subset hd)
  rwa [Nat.zero_add] at hle

lemma distinctKeys_of_nodup {entries : List SstEntry} (hkeys : (entries.map Entry.key).Nodup) :
    distinctKeys entries = entries.map Entry.key := by
  have hfold : ∀ keys : List Key, (keys ++ entries.map Entry.key).Nodup →
      entries.foldl addKey keys = keys ++ entries.map Entry.key := by
    clear hkeys
    induction entries with
    | nil => intro keys _; simp
    | cons e entries ih =>
      intro keys hkeys
      have hlast : keys.getLast? ≠ some e.key := by
        intro heq
        have hmem := mem_of_getLast? heq
        rw [nodup_append] at hkeys
        exact hkeys.2.2 e.key hmem e.key mem_cons_self rfl
      rw [map_cons, append_cons] at hkeys ⊢
      rw [foldl_cons, addKey, if_neg hlast]
      exact ih _ hkeys
  exact hfold [] hkeys

lemma length_indexPayload_le {entries : List SstEntry} {width : ℕ}
    (hwidth : ∀ e ∈ entries, e.key.length ≤ width) :
    (indexPayload entries).length ≤
      (packBlocks entries.length entries).length * (16 + width) := by
  rw [← length_indexOf 0]
  refine length_flatMap_le_mul fun r hr ↦ ?_
  obtain ⟨⟨block, hblock, hkey, -⟩, -⟩ := of_mem_indexOf hr
  obtain ⟨e, tail, rfl⟩ := exists_cons_of_ne_nil (ne_nil_of_mem_packBlocks hblock)
  have he : e ∈ entries := by
    rw [← flatten_packBlocks (le_refl entries.length)]
    exact mem_flatten_of_mem hblock mem_cons_self
  have hle : r.firstKey.length ≤ width := hkey ▸ hwidth e he
  rw [length_encodeIndexRec]
  omega

def bigEndian : ℕ → ℕ → Key
  | 0, _ => []
  | width + 1, value => UInt8.ofNat (value / 256 ^ width) :: bigEndian width (value % 256 ^ width)

lemma length_bigEndian (width value : ℕ) : (bigEndian width value).length = width := by
  induction width generalizing value with
  | zero => rfl
  | succ width ih => rw [bigEndian, length_cons, ih]

lemma bigEndian_lt {width i j : ℕ} (hlt : i < j) (hj : j < 256 ^ width) :
    bigEndian width i < bigEndian width j := by
  induction width generalizing i j with
  | zero => omega
  | succ width ih =>
    have hpos : 0 < 256 ^ width := Nat.pow_pos (by decide)
    have htop : j / 256 ^ width < 256 := by rwa [Nat.div_lt_iff_lt_mul hpos, mul_comm, ← pow_succ]
    have hle : i / 256 ^ width ≤ j / 256 ^ width := Nat.div_le_div_right hlt.le
    have hi := Nat.div_add_mod i (256 ^ width)
    have hj := Nat.div_add_mod j (256 ^ width)
    rw [bigEndian, bigEndian, cons_lt_cons_iff]
    rcases hle.lt_or_eq with hbyte | hbyte
    · left
      rw [UInt8.lt_iff_toNat_lt, UInt8.toNat_ofNat', UInt8.toNat_ofNat',
        Nat.mod_eq_of_lt (by omega), Nat.mod_eq_of_lt (by omega)]
      exact hbyte
    · right
      rw [hbyte] at hi ⊢
      exact ⟨rfl, ih (by omega) (Nat.mod_lt _ hpos)⟩

def wideRun (count : ℕ) : List SstEntry :=
  (range count).map fun i ↦ { seq := i + 1, key := bigEndian 4 i, value := [] }

lemma of_mem_wideRun (he : e ∈ wideRun count) :
    ∃ i < count, e = { seq := i + 1, key := bigEndian 4 i, value := [] } := by
  obtain ⟨i, hi, rfl⟩ := mem_map.mp he
  exact ⟨i, mem_range.mp hi, rfl⟩

lemma entrySize_of_mem_wideRun (he : e ∈ wideRun count) : entrySize e = 21 := by
  obtain ⟨i, -, rfl⟩ := of_mem_wideRun he
  simp [entrySize, length_bigEndian]

lemma pairwise_wideRun (hcount : count ≤ 2 ^ 32) :
    (wideRun count).Pairwise fun first second ↦ first.key < second.key := by
  refine pairwise_map.mpr (List.Pairwise.imp_of_mem ?_ pairwise_lt_range)
  intro i j _ hj hlt
  exact bigEndian_lt hlt ((mem_range.mp hj).trans_le hcount)

lemma ascending_wideRun (hcount : count ≤ 2 ^ 32) : Ascending (wideRun count) :=
  (pairwise_wideRun hcount).imp Or.inl

lemma length_distinctKeys_wideRun (hcount : count ≤ 2 ^ 32) :
    (distinctKeys (wideRun count)).length = count := by
  have hnodup : ((wideRun count).map Entry.key).Nodup :=
    pairwise_map.mpr ((pairwise_wideRun hcount).imp fun hlt ↦ hlt.ne)
  rw [distinctKeys_of_nodup hnodup, length_map, wideRun, length_map, length_range]

lemma tableFits_wideRun (hcount : count ≤ 2 ^ 30) : TableFits (wideRun count) := by
  refine ⟨?_, ?_, ?_⟩
  · intro e he
    obtain ⟨i, hi, rfl⟩ := of_mem_wideRun he
    refine ⟨?_, ?_, Nat.two_pow_pos 32⟩
    · show i + 1 < 2 ^ 64
      omega
    · rw [length_bigEndian]
      decide
  · intro block hblock
    have hle := length_blockPayload_le
      (fun e he ↦ (entrySize_of_mem_wideRun he).le.trans (by decide)) hblock
    rw [kSstTargetBlockBytes] at hle
    rw [kBlockCrcBytes]
    omega
  · have hblocks := @length_packBlocks_le (wideRun count).length 21 (wideRun count)
      fun e he ↦ entrySize_of_mem_wideRun he
    have hindex := @length_indexPayload_le (wideRun count) 4 fun e he ↦ by
      obtain ⟨i, -, rfl⟩ := of_mem_wideRun he
      exact (length_bigEndian 4 i).le
    have hlength : (wideRun count).length = count := by
      rw [wideRun, length_map, length_range]
    rw [kSstTargetBlockBytes, hlength] at hblocks
    rw [kBlockCrcBytes]
    rw [hlength] at hindex
    omega

theorem parse_build_two :
    parse (build (wideRun 2)).bytes 3 = some (adoptBuilt (build (wideRun 2)) 3) ∧
      (adoptBuilt (build (wideRun 2)) 3).collectEntries = wideRun 2 := by
  refine (parse_build_iff (tableFits_wideRun (by decide)) 3).mpr ?_
  decide

theorem parse_wideRun :
    wideRun 429496729 ≠ [] ∧ Ascending (wideRun 429496729) ∧ TableFits (wideRun 429496729) ∧
      (bloomPayload (wideRun 429496729)).length + kBlockCrcBytes < 2 ^ 32 ∧
      parse (build (wideRun 429496729)).bytes 1 = none := by
  have hfits : TableFits (wideRun 429496729) := tableFits_wideRun (by decide)
  refine ⟨?_, ascending_wideRun (by decide), hfits, length_bloomPayload_lt _, ?_⟩
  · intro hnil
    have hlength := congrArg length hnil
    rw [wideRun, length_map, length_range] at hlength
    exact absurd hlength (by decide)
  · rw [parse_build hfits, length_distinctKeys_wideRun (by decide), if_neg (by decide)]

end Lockstep.Storage
