import Lockstep.Library.Newest
import Lockstep.Storage.SSTableRoundTrip

/-!
# Reading an SSTable

A reader is well formed when its blocks are not empty, its index names their first keys, its entries
ascend and its Bloom filter accepts every key it holds.
-/

namespace Lockstep.Storage

open Library SSTableBuilder BinarySearch Newest Entry List

variable {key : Key} {entries : List Entry} {block : List SstEntry} {e : SstEntry} {pos : ℕ}

lemma Entry.Precedes.key_le {first second : Entry} (h : first.Precedes second) :
    first.key ≤ second.key := by
  rcases h with hlt | ⟨heq, -⟩
  · exact hlt.le
  · exact heq.le

lemma Ascending.key_le_of_append {first second : List Entry} (h : Ascending (first ++ second))
    {d e : Entry} (hd : d ∈ first) (he : e ∈ second) : d.key ≤ e.key :=
  ((pairwise_append.mp h).2.2 d hd e he).key_le

lemma Ascending.key_le_of_mem {first : Entry} (h : Ascending (first :: entries)) :
    ∀ d ∈ first :: entries, first.key ≤ d.key :=
  forall_mem_cons.mpr ⟨le_rfl, fun d hd ↦ ((pairwise_cons.mp h).1 d hd).key_le⟩

lemma Ascending.filter (h : Ascending entries) (keep : Entry → Bool) :
    Ascending (entries.filter keep) :=
  List.Pairwise.filter keep h

lemma pairwise_seq_of_ascending (hasc : Ascending entries) (key : Key) :
    (entries.filter fun e ↦ e.key = key).Pairwise fun first second ↦ first.seq ≤ second.seq := by
  refine (hasc.filter _).imp_of_mem ?_
  intro first second hfirst hsecond hprec
  have h₁ : first.key = key := of_decide_eq_true (mem_filter.mp hfirst).2
  have h₂ : second.key = key := of_decide_eq_true (mem_filter.mp hsecond).2
  rcases hprec with hlt | ⟨-, hle⟩
  · exact absurd (h₁.trans h₂.symm) hlt.ne
  · exact hle

lemma filter_visibleAt (entries : List Entry) (key : Key) (at_ : Seq) :
    entries.filter (fun e ↦ e.VisibleAt key at_) =
      (entries.filter fun e ↦ e.key = key).filter fun e ↦ e.seq ≤ at_ := by
  rw [filter_filter]
  congr 1
  funext e
  rw [← Bool.decide_and]
  exact decide_eq_decide.mpr and_comm

lemma addKey_concat (keys : List Key) (key : Key) (e : Entry) :
    addKey (keys ++ [key]) e =
      if key = e.key then keys ++ [key] else keys ++ [key] ++ [e.key] := by
  have hlast : (keys ++ [key]).getLast? = some e.key ↔ key = e.key := by
    rw [getLast?_concat, Option.some.injEq]
  rw [addKey, if_congr hlast rfl rfl]

lemma foldl_addKey (keys : List Key) (key : Key) (entries : List Entry) :
    entries.foldl addKey (keys ++ [key]) = keys ++ entries.foldl addKey [key] := by
  induction entries generalizing keys key with
  | nil => rfl
  | cons e entries ih =>
    rw [foldl_cons, foldl_cons, addKey_concat, ← nil_append [key], addKey_concat]
    split_ifs
    · exact ih keys key
    · rw [nil_append, ih (keys ++ [key]) e.key, ih [key] e.key, append_assoc]

lemma distinctKeys_cons_cons (first second : Entry) (entries : List Entry) :
    distinctKeys (first :: second :: entries) =
      if first.key = second.key then distinctKeys (second :: entries)
      else first.key :: distinctKeys (second :: entries) := by
  have hstart : ∀ e : Entry, addKey [] e = [e.key] := fun e ↦ if_neg nofun
  have hnext := addKey_concat [] first.key second
  simp only [distinctKeys, foldl_cons, hstart]
  rw [← nil_append [first.key], hnext]
  split_ifs with heq
  · rw [heq, nil_append]
  · exact foldl_addKey [first.key] second.key entries

lemma mem_distinctKeys_iff : key ∈ distinctKeys entries ↔ ∃ e ∈ entries, e.key = key := by
  induction entries with
  | nil => simp [distinctKeys]
  | cons first entries ih =>
    rcases entries with _ | ⟨second, entries⟩
    · simp [distinctKeys, addKey, eq_comm]
    rw [distinctKeys_cons_cons, exists_mem_cons_iff, ← ih]
    split_ifs with heq
    · refine ⟨.inr, fun h ↦ h.elim (fun hfirst ↦ ih.mpr ?_) id⟩
      exact ⟨second, mem_cons_self, heq ▸ hfirst⟩
    · rw [mem_cons, eq_comm]

lemma distinctKeys_pairwise (hkeys : entries.Pairwise fun first second ↦ first.key ≤ second.key) :
    (distinctKeys entries).Pairwise (· < ·) := by
  induction entries with
  | nil => exact List.Pairwise.nil
  | cons first entries ih =>
    obtain ⟨hfirst, hrest⟩ := pairwise_cons.mp hkeys
    rcases entries with _ | ⟨second, entries⟩
    · exact pairwise_singleton _ _
    rw [distinctKeys_cons_cons]
    split_ifs with heq
    · exact ih hrest
    refine pairwise_cons.mpr ⟨fun key hkey ↦ ?_, ih hrest⟩
    obtain ⟨e, he, rfl⟩ := mem_distinctKeys_iff.mp hkey
    have hlt := lt_of_le_of_ne (hfirst second mem_cons_self) heq
    rcases mem_cons.mp he with rfl | hmem
    · exact hlt
    · exact hlt.trans_le ((pairwise_cons.mp hrest).1 e hmem)

/-! ### Blocks -/

structure Blocks (blocks : List (List SstEntry)) : Prop where
  nonempty : ∀ block ∈ blocks, block ≠ []
  ascending : Ascending blocks.flatten

namespace Blocks

variable {blocks : List (List SstEntry)} {first second : List (List SstEntry)}

lemma of_append (h : Blocks (first ++ second)) : Blocks first ∧ Blocks second := by
  have hasc := h.ascending
  rw [flatten_append, Ascending, pairwise_append] at hasc
  exact ⟨⟨fun b hb ↦ h.nonempty b (mem_append_left _ hb), hasc.1⟩,
    ⟨fun b hb ↦ h.nonempty b (mem_append_right _ hb), hasc.2.1⟩⟩

lemma frontKey_mem (h : Blocks blocks) (hblock : block ∈ blocks) :
    ∃ e ∈ block, e.key = frontKey block := by
  obtain ⟨e, rest, rfl⟩ := exists_cons_of_ne_nil (h.nonempty block hblock)
  exact ⟨e, mem_cons_self, rfl⟩

lemma frontKey_le (h : Blocks blocks) (hblock : block ∈ blocks) (he : e ∈ block) :
    frontKey block ≤ e.key := by
  obtain ⟨first, rest, rfl⟩ := exists_cons_of_ne_nil (h.nonempty block hblock)
  have hasc : Ascending (first :: rest) := h.ascending.sublist (sublist_flatten_of_mem hblock)
  exact hasc.key_le_of_mem e he

lemma key_le_frontKey (h : Blocks (first ++ second))
    (hblock : block ∈ second) (he : e ∈ first.flatten) : e.key ≤ frontKey block := by
  obtain ⟨d, hd, hkey⟩ := h.of_append.2.frontKey_mem hblock
  rw [← hkey]
  have hasc := h.ascending
  rw [flatten_append] at hasc
  exact hasc.key_le_of_append he (mem_flatten_of_mem hblock hd)

section

variable (h : Blocks blocks)

include h

lemma frontKey_pairwise :
    blocks.Pairwise fun first second ↦ frontKey first ≤ frontKey second := by
  induction blocks with
  | nil => exact List.Pairwise.nil
  | cons block blocks ih =>
    have happend : Blocks ([block] ++ blocks) := h
    refine pairwise_cons.mpr ⟨fun other hother ↦ ?_, ih happend.of_append.2⟩
    obtain ⟨e, he, hkey⟩ := h.frontKey_mem mem_cons_self
    rw [← hkey]
    exact happend.key_le_frontKey hother (mem_flatten_of_mem mem_cons_self he)

lemma lt_takeWhile_iff (go : Key → Bool)
    (hgo : ∀ first second : Key, first ≤ second → go second = true → go first = true)
    (hpos : pos < blocks.length) :
    go (frontKey blocks[pos]) = true ↔
      pos < (blocks.takeWhile fun b ↦ go (frontKey b)).length :=
  lt_length_takeWhile_iff (h.frontKey_pairwise.imp fun hle ↦ hgo _ _ hle)
    (getElem?_eq_getElem hpos)

lemma lt_takeWhile_le_iff (key : Key) (hpos : pos < blocks.length) : frontKey blocks[pos] ≤ key ↔
      pos < (blocks.takeWhile fun b ↦ frontKey b ≤ key).length := by
  rw [← h.lt_takeWhile_iff (· ≤ key) _ hpos, decide_eq_true_eq]
  intro first second hle hgo
  exact decide_eq_true (hle.trans (of_decide_eq_true hgo))

lemma lt_takeWhile_lt_iff (key : Key) (hpos : pos < blocks.length) : frontKey blocks[pos] < key ↔
      pos < (blocks.takeWhile fun b ↦ frontKey b < key).length := by
  rw [← h.lt_takeWhile_iff (· < key) _ hpos, decide_eq_true_eq]
  intro first second hle hgo
  exact decide_eq_true (hle.trans_lt (of_decide_eq_true hgo))

lemma key_lt_of_take {start : ℕ}
    (hstart : start + 1 ≤ (blocks.takeWhile fun b ↦ frontKey b < key).length)
    (he : e ∈ (blocks.take start).flatten) : e.key < key := by
  have hlt : start < blocks.length :=
    hstart.trans (List.takeWhile_prefix _).length_le
  have hget : (blocks.drop start)[0]? = some blocks[start] := by simp [hlt]
  have hmem : blocks[start] ∈ blocks.drop start := mem_of_getElem? hget
  have hsplit : Blocks (blocks.take start ++ blocks.drop start) := by
    rwa [take_append_drop]
  have hfront : frontKey blocks[start] < key := (h.lt_takeWhile_lt_iff key hlt).mpr hstart
  exact (hsplit.key_le_frontKey hmem he).trans_lt hfront

lemma frontKey_stop_le (stop : Key → Bool)
    (hclosed : ∀ first second : Key, first ≤ second → stop first = true → stop second = true)
    (he : e ∈ (blocks.dropWhile fun b ↦ !stop (frontKey b)).flatten) : stop e.key = true := by
  set rest := blocks.dropWhile fun b ↦ !stop (frontKey b) with hrest
  rcases hcases : rest with _ | ⟨block, more⟩
  · rw [hcases] at he
    cases he
  have hsplit : Blocks (blocks.takeWhile (fun b ↦ !stop (frontKey b)) ++ rest) := by
    rw [takeWhile_append_dropWhile]
    exact h
  have hfirst : stop (frontKey block) = true := by
    have hnot := head?_dropWhile_not (fun b ↦ !stop (frontKey b)) blocks
    rw [← hrest, hcases] at hnot
    simpa using hnot
  have hblocks := hsplit.of_append.2
  rw [hcases] at hblocks he
  rw [flatten_cons, mem_append] at he
  rcases he with he | he
  · exact hclosed _ _ (hblocks.frontKey_le mem_cons_self he) hfirst
  · obtain ⟨d, hd, hkey⟩ := hblocks.frontKey_mem mem_cons_self
    have hasc := hblocks.ascending
    exact hclosed _ _ (hkey ▸ hasc.key_le_of_append hd he) hfirst

end

end Blocks

/-! ### Well formed readers -/

namespace SSTableReader

/-- No block is empty, the index has the first key of each, and the entries are in order. -/
structure Ordered (t : SSTableReader) : Prop where
  nonempty : ∀ block ∈ t.blocks, block ≠ []
  index : t.index.map IndexRec.firstKey = t.blocks.map frontKey
  ascending : Ascending t.collectEntries

/-- The Bloom filter of an ordered table denies none of its keys. -/
structure WellFormed (t : SSTableReader) : Prop extends t.Ordered where
  bloom : ∀ e ∈ t.collectEntries, t.bloom.maybeContains e.key = true

namespace Ordered

variable {t : SSTableReader}

section

variable (h : t.Ordered)

include h

lemma toBlocks : Blocks t.blocks := ⟨h.nonempty, h.ascending⟩

lemma length_index : t.index.length = t.blocks.length := by
  have hlength := congrArg length h.index
  rwa [length_map, length_map] at hlength

lemma firstKeyAt (b : ℕ) : (t.blocks[b]?).map frontKey = (t.index[b]?).map IndexRec.firstKey := by
  rw [← getElem?_map, ← getElem?_map, h.index]

lemma firstKeyAt_eq {b : ℕ} (hblock : t.blocks[b]? = some block) :
    t.firstKeyAt b = frontKey block := by
  have hkey := h.firstKeyAt b
  rw [hblock] at hkey
  rw [SSTableReader.firstKeyAt]
  cases hrec : t.index[b]? with
  | none => simp [hrec] at hkey
  | some r => simpa [hrec] using hkey.symm

lemma map_snd_zip : (t.index.zip t.blocks).map Prod.snd = t.blocks :=
  List.map_snd_zip h.length_index.ge

lemma firstKey_of_mem_zip {b : IndexRec × List SstEntry}
    (hb : b ∈ t.index.zip t.blocks) : b.1.firstKey = frontKey b.2 := by
  obtain ⟨i, hi⟩ := mem_iff_getElem?.mp hb
  rw [getElem?_zip_eq_some] at hi
  have hkey := h.firstKeyAt i
  rw [hi.1, hi.2] at hkey
  exact (Option.some.inj hkey).symm

lemma map_snd_takeWhile (start : ℕ) (go : Key → Bool) :
    ((t.blocksFrom start).takeWhile fun b ↦ go b.1.firstKey).map Prod.snd =
      (t.blocks.drop start).takeWhile fun b ↦ go (frontKey b) := by
  have hmem : ∀ b ∈ t.blocksFrom start, b.1.firstKey = frontKey b.2 :=
    fun b hb ↦ h.firstKey_of_mem_zip (mem_of_mem_drop hb)
  have hblocks : t.blocks.drop start = (t.blocksFrom start).map Prod.snd := by
    rw [blocksFrom, map_drop, h.map_snd_zip]
  rw [hblocks, takeWhile_map]
  congr 1
  generalize t.blocksFrom start = walk at hmem
  induction walk with
  | nil => rfl
  | cons b walk ih =>
    rw [takeWhile_cons, takeWhile_cons, hmem b mem_cons_self,
      ih (forall_mem_cons.mp hmem).2]
    rfl

end

/-! ### Seeking -/

lemma seekBlock_eq (h : t.Ordered) (key : Key) :
    t.seekBlock key =
      before (t.blocks.takeWhile fun b ↦ frontKey b ≤ key).length := by
  refine loop_eq_before (fun pos (hpos : pos < t.index.length) ↦ ?_)
    (Nat.zero_le _) ?_ le_rfl le_rfl
  · rw [h.length_index] at hpos
    rw [h.firstKeyAt_eq (getElem?_eq_getElem hpos), decide_eq_true_eq]
    exact h.toBlocks.lt_takeWhile_le_iff key hpos
  · rw [h.length_index]
    exact (List.takeWhile_prefix _).length_le

lemma backUpEqual_le (key : Key) (b : ℕ) : t.backUpEqual key b ≤ b := by
  induction b with
  | zero => exact le_rfl
  | succ b ih =>
    rw [backUpEqual]
    split_ifs
    · exact ih.trans (Nat.le_succ b)
    · exact le_rfl

lemma firstKeyAt_backUpEqual (key : Key) (b lo : ℕ) (hlo : t.backUpEqual key b = lo + 1) :
    t.firstKeyAt lo ≠ key := by
  induction b with
  | zero => cases hlo
  | succ b ih =>
    rw [backUpEqual] at hlo
    split_ifs at hlo with heq
    · exact ih hlo
    · obtain rfl : b = lo := by omega
      exact heq

lemma firstKeyAt_mono (h : t.Ordered) {i j : ℕ} (hij : i ≤ j) (hj : j < t.blocks.length) :
    t.firstKeyAt i ≤ t.firstKeyAt j := by
  have hi : i < t.blocks.length := hij.trans_lt hj
  rw [h.firstKeyAt_eq (getElem?_eq_getElem hi), h.firstKeyAt_eq (getElem?_eq_getElem hj)]
  rcases hij.lt_or_eq with hlt | rfl
  · exact pairwise_iff_getElem.mp h.toBlocks.frontKey_pairwise i j hi hj hlt
  · exact le_rfl

lemma key_lt_of_backUp (h : t.Ordered) {blk : ℕ} (hseek : t.seekBlock key = some blk)
    (he : e ∈ (t.blocks.take (t.backUp key blk)).flatten) : e.key < key := by
  rw [h.seekBlock_eq] at hseek
  have hcut : (t.blocks.takeWhile fun b ↦ frontKey b ≤ key).length = blk + 1 := by
    cases hlength : (t.blocks.takeWhile fun b ↦ frontKey b ≤ key).length with
    | zero => simp [hlength, before] at hseek
    | succ pos => simpa [hlength, before] using hseek
  have hblk : blk < t.blocks.length := by
    have hle := (List.takeWhile_prefix (l := t.blocks) fun b ↦ frontKey b ≤ key).length_le
    omega
  have hle : t.firstKeyAt blk ≤ key := by
    rw [h.firstKeyAt_eq (getElem?_eq_getElem hblk), h.toBlocks.lt_takeWhile_le_iff key hblk]
    omega
  -- The last block the back-up passes over starts below the key.
  rcases hstart : t.backUp key blk with _ | start
  · rw [hstart] at he
    cases he
  have hlow : ∃ lo, start < lo ∧ lo < t.blocks.length ∧ t.firstKeyAt lo < key := by
    have hup := backUpEqual_le (t := t) key blk
    rw [backUp] at hstart
    rcases hlo : t.backUpEqual key blk with _ | lo
    · simp [hlo] at hstart
    have hne := firstKeyAt_backUpEqual key blk lo hlo
    have hlt : t.firstKeyAt lo < key :=
      lt_of_le_of_ne ((h.firstKeyAt_mono (by omega) hblk).trans hle) hne
    simp only [hlo, Nat.succ_sub_one, Nat.zero_lt_succ, true_and, if_pos hlt] at hstart
    exact ⟨lo, by omega, by omega, hlt⟩
  obtain ⟨lo, hlt, hlength, hkey⟩ := hlow
  refine h.toBlocks.key_lt_of_take ?_ he
  rw [h.firstKeyAt_eq (getElem?_eq_getElem hlength),
    h.toBlocks.lt_takeWhile_lt_iff key hlength] at hkey
  omega

/-! ### Point lookups -/

lemma filter_walk (h : t.Ordered) {keep : SstEntry → Bool} (go : Key → Bool) (start : ℕ)
    (hgo : ∀ first second : Key, first ≤ second → go second = true → go first = true)
    (hbefore : ∀ e ∈ (t.blocks.take start).flatten, keep e = false)
    (hafter : ∀ e, go e.key = false → keep e = false) :
    ((t.blocks.drop start).takeWhile fun b ↦ go (frontKey b)).flatten.filter keep =
      t.collectEntries.filter keep := by
  have hsplit : Blocks (t.blocks.take start ++ t.blocks.drop start) := by
    rw [take_append_drop]
    exact h.toBlocks
  have hstop : ((t.blocks.drop start).dropWhile fun b ↦ go (frontKey b)).flatten.filter keep =
      [] := by
    rw [filter_eq_nil_iff]
    intro e he
    rw [Bool.not_eq_true]
    refine hafter e ?_
    have hpast := hsplit.of_append.2.frontKey_stop_le (fun key ↦ !go key) (e := e)
      (fun first second hle hfirst ↦ by
        rw [Bool.not_eq_true'] at hfirst ⊢
        by_contra hsecond
        rw [Bool.not_eq_false] at hsecond
        rw [hgo first second hle hsecond] at hfirst
        cases hfirst)
      (by simpa only [Bool.not_not] using he)
    rwa [Bool.not_eq_true'] at hpast
  have hskip : (t.blocks.take start).flatten.filter keep = [] := by
    rw [filter_eq_nil_iff]
    intro e he
    rw [hbefore e he]
    exact Bool.false_ne_true
  calc ((t.blocks.drop start).takeWhile fun b ↦ go (frontKey b)).flatten.filter keep
      = (((t.blocks.drop start).takeWhile fun b ↦ go (frontKey b)) ++
          (t.blocks.drop start).dropWhile fun b ↦ go (frontKey b)).flatten.filter keep := by
        rw [flatten_append, filter_append, hstop, append_nil]
    _ = (t.blocks.take start ++ t.blocks.drop start).flatten.filter keep := by
        rw [takeWhile_append_dropWhile, flatten_append, filter_append, hskip, nil_append]
    _ = t.collectEntries.filter keep := by rw [take_append_drop, collectEntries]

end Ordered

lemma scanBlockForKey_eq (block : List SstEntry) (key : Key) (at_ : Seq)
    (hit : Option SstEntry) :
    scanBlockForKey block key at_ hit =
      later seq hit
        (newest seq (block.filter fun e ↦ e.VisibleAt key at_)) := by
  rw [scanBlockForKey, ← foldl_later, foldl_filter]
  congr 1
  funext hit e
  by_cases hkey : e.key = key
  · by_cases hseq : e.seq ≤ at_
    · rcases hit with _ | best
      · simp [VisibleAt, hkey, hseq, hitSeq, kNoSeq]
      · simp [VisibleAt, hkey, hseq, hitSeq, later]
    · simp [VisibleAt, hkey, hseq]
  · simp [VisibleAt, hkey]

lemma foldl_scanBlockForKey (blocks : List (List SstEntry)) (key : Key) (at_ : Seq) :
    blocks.foldl (fun hit b ↦ scanBlockForKey b key at_ hit) none =
      newest seq (blocks.flatten.filter fun e ↦ e.VisibleAt key at_) := by
  simp only [scanBlockForKey_eq]
  rw [← newest_flatMap, filter_flatten, ← flatMap_def]

variable {t : SSTableReader}

lemma WellFormed.lookup_eq_newest (h : t.WellFormed) (key : Key) (at_ : Seq) : t.lookup key at_ =
      newest seq (t.collectEntries.filter fun e ↦ e.VisibleAt key at_) := by
  have hnone : (∀ e ∈ t.collectEntries, e.key ≠ key) →
      t.collectEntries.filter (fun e ↦ e.VisibleAt key at_) = [] := by
    intro hkeys
    rw [filter_eq_nil_iff]
    intro e he hvisible
    exact hkeys e he (of_decide_eq_true hvisible).1
  rw [lookup]
  by_cases hbloom : t.bloom.maybeContains key = true
  · rw [hbloom]
    simp only [Bool.not_true, Bool.false_eq_true, if_false]
    cases hseek : t.seekBlock key with
    | none =>
      rw [hnone, newest_nil]
      -- Every block starts past the key.
      intro e he hkey
      obtain ⟨block, hblock, heblock⟩ := mem_flatten.mp he
      obtain ⟨pos, hpos, rfl⟩ := getElem_of_mem hblock
      have hle := (h.toBlocks.lt_takeWhile_le_iff key hpos).mp
        (hkey ▸ h.toBlocks.frontKey_le hblock heblock)
      rw [h.seekBlock_eq] at hseek
      cases hlength : (t.blocks.takeWhile fun b ↦ frontKey b ≤ key).length with
      | zero => omega
      | succ cut => simp [hlength, before] at hseek
    | some blk =>
      have hwalk := h.map_snd_takeWhile (t.backUp key blk) (· ≤ key)
      rw [← h.filter_walk (· ≤ key) (t.backUp key blk), ← hwalk, ← foldl_scanBlockForKey, foldl_map]
      · intro first second hle hgo
        exact decide_eq_true (hle.trans (of_decide_eq_true hgo))
      · intro e he
        have hlt := h.key_lt_of_backUp hseek he
        exact decide_eq_false fun hvisible ↦ hlt.ne hvisible.1
      · intro e hgo
        exact decide_eq_false fun hvisible ↦ of_decide_eq_false hgo hvisible.1.le
  · rw [Bool.not_eq_true] at hbloom
    rw [hbloom, hnone]
    · rfl
    · intro e he hkey
      rw [← hkey, h.bloom e he] at hbloom
      cases hbloom

/-! ### Range scans -/

def InScan (lo hi : Key) (at_ : Seq) (hiUnbounded : Bool) (e : SstEntry) : Prop :=
  e.seq ≤ at_ ∧ lo ≤ e.key ∧ (hiUnbounded = true ∨ e.key < hi)

instance (lo hi : Key) (at_ : Seq) (hiUnbounded : Bool) (e : SstEntry) :
    Decidable (InScan lo hi at_ hiUnbounded e) :=
  inferInstanceAs (Decidable (_ ∧ _))

lemma scanBlock_eq_filter (hasc : Ascending block) (lo hi : Key) (at_ : Seq)
    (hiUnbounded : Bool) :
    scanBlock lo hi at_ hiUnbounded block =
      block.filter fun e ↦ InScan lo hi at_ hiUnbounded e := by
  induction block with
  | nil => rfl
  | cons e block ih =>
    obtain ⟨hfirst, hrest⟩ := pairwise_cons.mp hasc
    rw [scanBlock]
    split_ifs with hseq hlo hhi
    · rw [ih hrest, filter_cons_of_neg]
      exact fun hin ↦ absurd (of_decide_eq_true hin).1 (not_le.mpr hseq)
    · rw [ih hrest, filter_cons_of_neg]
      exact fun hin ↦ absurd (of_decide_eq_true hin).2.1 (not_le.mpr hlo)
    · -- The keys ascend, so everything after this entry is past the range too.
      obtain ⟨hbounded, hpast⟩ := hhi
      rw [Bool.not_eq_true'] at hbounded
      refine (filter_eq_nil_iff.mpr fun d hd hin ↦ ?_).symm
      rcases (of_decide_eq_true hin).2.2 with hfree | hlt
      · rw [hbounded] at hfree
        cases hfree
      · exact hpast ((hasc.key_le_of_mem d hd).trans_lt hlt)
    · rw [ih hrest, filter_cons_of_pos]
      refine decide_eq_true ⟨not_lt.mp hseq, not_lt.mp hlo, ?_⟩
      by_contra hout
      rw [not_or, Bool.not_eq_true] at hout
      exact hhi ⟨by rw [hout.1]; rfl, hout.2⟩

lemma Ordered.key_lt_of_scanStart (h : t.Ordered) {lo : Key} {e : SstEntry}
    (he : e ∈ (t.blocks.take (if lo = [] then 0 else
      match t.seekBlock lo with
      | none => 0
      | some blk => t.backUp lo blk)).flatten) : e.key < lo := by
  split_ifs at he
  · cases he
  cases hseek : t.seekBlock lo with
  | none =>
    rw [hseek] at he
    cases he
  | some blk =>
    rw [hseek] at he
    exact h.key_lt_of_backUp hseek he

lemma Ordered.scanInto_eq_filter (h : t.Ordered) (lo hi : Key)
    (at_ : Seq) (hiUnbounded : Bool) :
    t.scanInto lo hi at_ hiUnbounded =
      t.collectEntries.filter fun e ↦ InScan lo hi at_ hiUnbounded e := by
  have hclosed : ∀ first second : Key, first ≤ second →
      decide (hiUnbounded = true ∨ second < hi) = true →
      decide (hiUnbounded = true ∨ first < hi) = true := by
    intro first second hle hgo
    exact decide_eq_true ((of_decide_eq_true hgo).imp_right hle.trans_lt)
  have hbefore := @key_lt_of_scanStart t h lo
  rw [scanInto]
  generalize (if lo = [] then 0 else
    match t.seekBlock lo with
    | none => 0
    | some blk => t.backUp lo blk) = start at hbefore ⊢
  have hwalk := h.map_snd_takeWhile start fun key ↦ decide (hiUnbounded = true ∨ key < hi)
  rw [← h.filter_walk (fun key ↦ decide (hiUnbounded = true ∨ key < hi)) start
    hclosed, ← hwalk]
  · rw [filter_flatten, flatMap_def, map_map]
    congr 1
    refine map_congr_left fun b hb ↦ ?_
    have hmem : b.2 ∈ t.blocks := by
      rw [← h.map_snd_zip]
      exact mem_map_of_mem (mem_of_mem_drop ((List.takeWhile_prefix _).subset hb))
    exact scanBlock_eq_filter (h.ascending.sublist (sublist_flatten_of_mem hmem)) ..
  · intro e he
    exact decide_eq_false fun hin ↦ absurd hin.2.1 (not_le.mpr (hbefore he))
  · intro e hgo
    exact decide_eq_false fun hin ↦ of_decide_eq_false hgo hin.2.2

/-! ### Freshly built readers -/

lemma firstKey_indexOf (off : ℕ) (blocks : List (List SstEntry)) :
    (indexOf off blocks).map IndexRec.firstKey = blocks.map frontKey := by
  induction blocks generalizing off with
  | nil => rfl
  | cons block blocks ih => rw [indexOf, map_cons, ih, map_cons]

lemma ordered_adoptBuilt {entries : List SstEntry} (hasc : Ascending entries) (id : ℕ) :
    (adoptBuilt (build entries) id).Ordered := by
  refine ⟨?_, ?_, (collectEntries_adoptBuilt entries id).symm ▸ hasc⟩
  · exact fun block hblock ↦ ne_nil_of_mem_packBlocks hblock
  · rw [adoptBuilt_build]
    exact firstKey_indexOf 0 _

/-- The filter is the one that the builder makes for the keys of the table. -/
def BloomBuilt (t : SSTableReader) : Prop :=
  t.bloom = BloomFilter.build (distinctKeys t.collectEntries)

lemma bloomBuilt_adoptBuilt (entries : List SstEntry) (id : ℕ) :
    (adoptBuilt (build entries) id).BloomBuilt := by
  rw [BloomBuilt, collectEntries_adoptBuilt, adoptBuilt_build]

lemma BloomBuilt.wellFormed (hbuilt : t.BloomBuilt) (h : t.Ordered)
    (hsize : BloomFilter.SizeFits (distinctKeys t.collectEntries).length) : t.WellFormed where
  toOrdered := h
  bloom e he := by
    rw [hbuilt]
    exact BloomFilter.maybeContains_build hsize (mem_distinctKeys_iff.mpr ⟨e, he, rfl⟩)

lemma wellFormed_adoptBuilt {entries : List SstEntry} (hasc : Ascending entries)
    (hsize : BloomFilter.SizeFits (distinctKeys entries).length) (id : ℕ) :
    (adoptBuilt (build entries) id).WellFormed :=
  (bloomBuilt_adoptBuilt entries id).wellFormed (ordered_adoptBuilt hasc id)
    ((collectEntries_adoptBuilt entries id).symm ▸ hsize)

/-- The version a lookup has to return: the newest one of the key that the snapshot sees. -/
def Answers (entries : List SstEntry) (key : Key) (at_ : Seq) : Option SstEntry → Prop
  | none => ∀ e ∈ entries, ¬ e.VisibleAt key at_
  | some v => v ∈ entries ∧ v.VisibleAt key at_ ∧
    ∀ e ∈ entries, e.VisibleAt key at_ → e.seq ≤ v.seq

lemma lookup_adoptBuilt_eq_none
    (hwraps : ¬ BloomFilter.SizeFits (distinctKeys entries).length) (id : ℕ) (key : Key)
    (at_ : Seq) : (adoptBuilt (build entries) id).lookup key at_ = none := by
  rw [lookup, adoptBuilt_build, BloomFilter.maybeContains_build_eq_false hwraps]
  rfl

/-- Every lookup in a built table finds the newest visible version exactly when the size of the
Bloom filter does not wrap. -/
theorem lookup_complete_iff (entries : List SstEntry) (hasc : Ascending entries) (id : ℕ) :
    (∀ key at_, Answers entries key at_ ((adoptBuilt (build entries) id).lookup key at_)) ↔
      BloomFilter.SizeFits (distinctKeys entries).length := by
  constructor
  · intro hfinds
    by_contra hwraps
    obtain ⟨key, hkey⟩ := exists_mem_of_ne_nil (distinctKeys entries) fun hnil ↦
      hwraps (hnil ▸ by decide)
    obtain ⟨e, he, -⟩ := mem_distinctKeys_iff.mp hkey
    have hnone := hfinds e.key e.seq
    rw [lookup_adoptBuilt_eq_none hwraps] at hnone
    exact hnone e he ⟨rfl, le_rfl⟩
  · intro hsize key at_
    rw [(wellFormed_adoptBuilt hasc hsize id).lookup_eq_newest, collectEntries_adoptBuilt]
    cases hnewest : newest seq (entries.filter fun e ↦ e.VisibleAt key at_) with
    | none =>
      rw [newest_eq_none, filter_eq_nil_iff] at hnewest
      exact fun e he hvisible ↦ hnewest e he (decide_eq_true hvisible)
    | some v =>
      obtain ⟨hv, hvisible⟩ := mem_filter.mp (newest_mem hnewest)
      exact ⟨hv, of_decide_eq_true hvisible, fun e he hseen ↦
        le_newest hnewest (mem_filter.mpr ⟨he, decide_eq_true hseen⟩)⟩

theorem lookup_complete_two :
    Answers (wideRun 2) [0, 0, 0, 1] 1
      ((adoptBuilt (build (wideRun 2)) 1).lookup [0, 0, 0, 1] 1) := by
  refine (lookup_complete_iff _ (ascending_wideRun (by decide)) 1).mpr ?_ _ _
  decide

/-- A key of the run is not found. -/
theorem lookup_wideRun :
    Ascending (wideRun 429496729) ∧ ∃ e ∈ wideRun 429496729,
      (adoptBuilt (build (wideRun 429496729)) 1).lookup e.key e.seq = none := by
  have hlength : 0 < (wideRun 429496729).length := by rw [wideRun]; simp
  refine ⟨ascending_wideRun (by decide), _, getElem_mem hlength,
    lookup_adoptBuilt_eq_none ?_ _ _ _⟩
  rw [length_distinctKeys_wideRun (by decide)]
  decide

end SSTableReader

end Lockstep.Storage
