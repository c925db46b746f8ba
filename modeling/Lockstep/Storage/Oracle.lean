import Lockstep.Storage.ReadPath

/-!
# The reference store

The in-memory reference of `storage/Oracle.hpp`: keys in order, each with its versions in the order
of their sequence numbers.
-/

namespace Lockstep.Storage

open Library Newest SortedByKey SSTableBuilder Entry List Option

namespace Oracle

structure Version where
  seq : Seq := kNoSeq
  value : Value
  tombstone : Bool := false
  deriving DecidableEq

structure KeyVersions where
  key : Key
  versions : List Version
  deriving DecidableEq

end Oracle

structure Oracle where
  keys : List Oracle.KeyVersions := []
  lastSeq : Seq := kNoSeq
  deriving DecidableEq

namespace Oracle

def find (o : Oracle) (key : Key) : Option KeyVersions := o.keys.find? fun kv ↦ kv.key = key

def lookup (o : Oracle) (key : Key) (at_ : Seq) : Option Value :=
  match o.find key with
  | none => none
  | some kv =>
    match (kv.versions.takeWhile fun v ↦ v.seq ≤ at_).getLast? with
    | none => none
    | some v => if v.tombstone then none else some v.value

def scanImpl (o : Oracle) (range : Range) (at_ : Seq) : List (Key × Value) :=
  o.keys.filterMap fun kv ↦
    if kv.key < range.lo then none
    else if !range.hiUnbounded ∧ ¬ kv.key < range.hi then none
    else (o.lookup kv.key at_).map fun value ↦ (kv.key, value)

end Oracle

/-! ### What a store holds -/

def Entry.version (e : Entry) : Oracle.Version where
  seq := e.seq
  value := e.value
  tombstone := e.tombstone

namespace Oracle

structure Holds (o : Oracle) (entries : List Entry) : Prop where
  keys : o.keys.Pairwise fun first second ↦ first.key < second.key
  versions : ∀ kv ∈ o.keys, kv.versions.Pairwise fun first second ↦ first.seq ≤ second.seq
  mem : ∀ key v, (∃ kv ∈ o.keys, kv.key = key ∧ v ∈ kv.versions) ↔
    ∃ e ∈ entries, e.key = key ∧ e.version = v

def ofEntries (entries : List Entry) : Oracle :=
  let sorted := entries.insertionSort Precedes
  { keys := (distinctKeys sorted).map fun key ↦
      { key := key, versions := (sorted.filter fun e ↦ e.key = key).map version } }

lemma holds_ofEntries (entries : List Entry) : (ofEntries entries).Holds entries := by
  have hasc : Ascending (entries.insertionSort Precedes) :=
    pairwise_insertionSort Precedes entries
  have hperm := perm_insertionSort Precedes entries
  refine ⟨?_, ?_, fun key v ↦ ⟨?_, ?_⟩⟩
  · exact pairwise_map.mpr (distinctKeys_pairwise (hasc.imp Entry.Precedes.key_le))
  · intro kv hkv
    obtain ⟨key, -, rfl⟩ := mem_map.mp hkv
    exact pairwise_map.mpr (pairwise_seq_of_ascending hasc key)
  · rintro ⟨kv, hkv, rfl, hv⟩
    obtain ⟨key, -, rfl⟩ := mem_map.mp hkv
    obtain ⟨e, he, rfl⟩ := mem_map.mp hv
    obtain ⟨hmem, hkey⟩ := mem_filter.mp he
    exact ⟨e, hperm.subset hmem, of_decide_eq_true hkey, rfl⟩
  · rintro ⟨e, he, rfl, rfl⟩
    have hmem := hperm.symm.subset he
    refine ⟨_, mem_map_of_mem (mem_distinctKeys_iff.mpr ⟨e, hmem, rfl⟩), rfl, ?_⟩
    exact mem_map_of_mem (mem_filter.mpr ⟨hmem, decide_eq_true rfl⟩)

variable {o : Oracle} {entries : List Entry}

lemma Holds.find_eq_some (h : o.Holds entries) {kv : KeyVersions} (hkv : kv ∈ o.keys) :
    o.find kv.key = some kv := by
  have hfound := @Sorted.find_of_mem KeyVersions Key _ KeyVersions.key o.keys h.keys kv hkv
  rw [SortedByKey.find] at hfound
  rw [find, ← hfound]
  congr 1
  funext other
  exact decide_eq_decide.mpr Iff.rfl

lemma Holds.lookup_eq (h : o.Holds entries) (hcons : Consistent entries) (key : Key)
    (at_ : Seq) :
    o.lookup key at_ =
      (newest seq (entries.filter fun e ↦ e.VisibleAt key at_)).bind fun e ↦
        if e.tombstone then none else some e.value := by
  have hentries : ∀ kv, o.find key = some kv → kv ∈ o.keys ∧ kv.key = key := by
    intro kv hkv
    have hkey := find?_some hkv
    exact ⟨mem_of_find?_eq_some hkv, of_decide_eq_true hkey⟩
  rw [lookup]
  cases hfind : o.find key with
  | none =>
    have hnone : newest seq (entries.filter fun e ↦ e.VisibleAt key at_) = none := by
      rw [newest_eq_none, filter_eq_nil_iff]
      intro e he hvisible
      obtain ⟨kv, hkv, hkey, -⟩ :=
        (h.mem key e.version).mpr ⟨e, he, (of_decide_eq_true hvisible).1, rfl⟩
      rw [← hkey, h.find_eq_some hkv] at hfind
      cases hfind
    rw [hnone]
    rfl
  | some kv =>
    obtain ⟨hkv, hkey⟩ := hentries kv hfind
    dsimp only
    rw [getLast?_takeWhile (h.versions kv hkv)]
    -- The versions of the key are those of the entries with that key.
    have hmem : ∀ v, v ∈ kv.versions.filter (fun v ↦ v.seq ≤ at_) ↔
        ∃ e ∈ entries.filter (fun e ↦ e.VisibleAt key at_), e.version = v := by
      intro v
      simp only [mem_filter, decide_eq_true_eq]
      constructor
      · rintro ⟨hv, hseq⟩
        obtain ⟨e, he, hekey, rfl⟩ := (h.mem key v).mp ⟨kv, hkv, hkey, hv⟩
        exact ⟨e, ⟨he, hekey, hseq⟩, rfl⟩
      rintro ⟨e, ⟨he, hekey, hseq⟩, rfl⟩
      obtain ⟨other, hother, hokey, hv⟩ := (h.mem key e.version).mpr ⟨e, he, hekey, rfl⟩
      have hsame := h.find_eq_some hother
      rw [hokey, hfind] at hsame
      obtain rfl := some.inj hsame
      exact ⟨hv, hseq⟩
    cases hnewest : newest seq (entries.filter fun e ↦ e.VisibleAt key at_) with
    | none =>
      rw [newest_eq_none] at hnewest
      have hnil : kv.versions.filter (fun v ↦ v.seq ≤ at_) = [] := by
        refine eq_nil_iff_forall_not_mem.mpr fun v hv ↦ ?_
        obtain ⟨e, he, -⟩ := (hmem v).mp hv
        exact not_mem_nil (hnewest ▸ he)
      rw [hnil]
      rfl
    | some e =>
      obtain ⟨v, hv⟩ : ∃ v, newest Version.seq (kv.versions.filter fun v ↦ v.seq ≤ at_) = some v :=
        newest_isSome ((hmem e.version).mpr ⟨e, newest_mem hnewest, rfl⟩)
      have hversion : v = e.version := by
        obtain ⟨d, hd, rfl⟩ := (hmem v).mp (newest_mem hv)
        have hle : e.version.seq ≤ d.version.seq :=
          le_newest hv ((hmem e.version).mpr ⟨e, newest_mem hnewest, rfl⟩)
        have hge : d.seq ≤ e.seq := le_newest hnewest hd
        obtain ⟨hdmem, hdvis⟩ := mem_filter.mp hd
        obtain ⟨hemem, hevis⟩ := mem_filter.mp (newest_mem hnewest)
        rw [hcons d hdmem e hemem ((of_decide_eq_true hdvis).1.trans
          (of_decide_eq_true hevis).1.symm) (Nat.le_antisymm hge hle)]
      rw [hv, hversion]
      rfl

lemma Holds.scanImpl_pairwise (h : o.Holds entries) (range : Range) (at_ : Seq) :
    (o.scanImpl range at_).Pairwise fun first second ↦ first.1 < second.1 := by
  refine pairwise_filterMap.mpr (h.keys.imp ?_)
  intro first second hlt kv hkv kv' hkv'
  have hfst : ∀ {kv : KeyVersions} {pair : Key × Value},
      (if kv.key < range.lo then none
        else if !range.hiUnbounded ∧ ¬ kv.key < range.hi then none
        else (o.lookup kv.key at_).map fun value ↦ (kv.key, value)) = some pair →
      pair.1 = kv.key := by
    intro kv pair hpair
    split_ifs at hpair
    obtain ⟨value, -, rfl⟩ := map_eq_some_iff.mp hpair
    rfl
  rw [hfst hkv, hfst hkv']
  exact hlt

lemma mem_scanImpl {range : Range} {at_ : Seq} {key : Key} {value : Value} :
    (key, value) ∈ o.scanImpl range at_ ↔
      range.Contains key ∧ o.lookup key at_ = some value := by
  have hcontains : ∀ k : Key, range.Contains k ↔
      ¬ k < range.lo ∧ ¬ (!range.hiUnbounded ∧ ¬ k < range.hi) := by
    intro k
    rw [Range.Contains, Range.inHi, decide_eq_true_iff, not_lt]
    cases range.hiUnbounded <;> simp
  rw [scanImpl, mem_filterMap]
  constructor
  · rintro ⟨kv, -, hpair⟩
    split_ifs at hpair with hlo hhi
    obtain ⟨found, hfound, heq⟩ := map_eq_some_iff.mp hpair
    cases heq
    exact ⟨(hcontains _).mpr ⟨hlo, hhi⟩, hfound⟩
  · rintro ⟨hin, hlookup⟩
    obtain ⟨hlo, hhi⟩ := (hcontains key).mp hin
    cases hfind : o.find key with
    | none =>
      rw [lookup, hfind] at hlookup
      cases hlookup
    | some kv =>
      have hkey := find?_some hfind
      obtain rfl : kv.key = key := of_decide_eq_true hkey
      refine ⟨kv, mem_of_find?_eq_some hfind, ?_⟩
      rw [if_neg hlo, if_neg hhi, hlookup, map_some]

end Oracle

/-! ### The engine and the reference store -/

namespace WalEngine

lemma Readable.get_eq_bind {e : WalEngine} (h : e.Readable)
    (hinline : ∀ v ∈ e.versions, v.vlog = false) (key : Key) (at_ : Seq) :
    e.get key at_ =
      (e.newestAt key at_).bind fun v ↦ if v.tombstone then none else some v.value := by
  rw [get, h.getHit_eq_newest]
  cases hnewest : e.newestAt key at_ with
  | none => rfl
  | some v =>
    have hvlog := hinline v (mem_filter.mp (newest_mem hnewest)).1
    rw [bind_some, bind_some, materialise, hvlog]
    rfl

lemma get_eq_some_iff {e : WalEngine} (h : e.Readable) (hcons : Consistent e.versions)
    (hinline : ∀ v ∈ e.versions, v.vlog = false) {key : Key} {at_ : Seq} {value : Value} :
    e.get key at_ = some value ↔
      ∃ v ∈ e.versions, v.VisibleAt key at_ ∧
        (∀ w ∈ e.versions, w.VisibleAt key at_ → w.seq ≤ v.seq) ∧
        v.tombstone = false ∧ v.value = value := by
  rw [h.get_eq_bind hinline, bind_eq_some_iff]
  simp only [newestAt, hcons.newest_eq_some_iff]
  constructor
  · rintro ⟨v, ⟨hmem, hvisible, hmax⟩, hvalue⟩
    split_ifs at hvalue with htomb
    exact ⟨v, hmem, hvisible, hmax, Bool.eq_false_of_not_eq_true htomb, some.inj hvalue⟩
  · rintro ⟨v, hmem, hvisible, hmax, htomb, rfl⟩
    exact ⟨v, ⟨hmem, hvisible, hmax⟩, by rw [htomb]; rfl⟩

/-- Where the size of no table's Bloom filter wraps, point reads return the value of the newest
visible version over all sources, scans the keys of the range with a present value in ascending
order, and both what a reference store that holds the same versions returns. -/
theorem reads_eq_oracle {e : WalEngine} (horder : e.InOrder)
    (hbuilt : ∀ t ∈ e.sstables, t.BloomBuilt)
    (hsize : ∀ t ∈ e.sstables, BloomFilter.SizeFits (distinctKeys t.collectEntries).length)
    (hcons : Consistent e.versions) (hinline : ∀ v ∈ e.versions, v.vlog = false) {o : Oracle}
    (ho : o.Holds e.versions) :
    (∀ key at_ value, e.get key at_ = some value ↔
      ∃ v ∈ e.versions, v.VisibleAt key at_ ∧
        (∀ w ∈ e.versions, w.VisibleAt key at_ → w.seq ≤ v.seq) ∧
        v.tombstone = false ∧ v.value = value) ∧
      (∀ range at_, ((e.scan range at_).Pairwise fun first second ↦ first.1 < second.1) ∧
        ∀ key value, (key, value) ∈ e.scan range at_ ↔
          range.Contains key ∧ e.get key at_ = some value) ∧
      (∀ key at_, e.get key at_ = o.lookup key at_) ∧
      ∀ range at_, e.scan range at_ = o.scanImpl range at_ := by
  have hread : e.Readable :=
    ⟨horder.mem, fun t ht ↦ (hbuilt t ht).wellFormed (horder.tables t ht) (hsize t ht)⟩
  have hlookup : ∀ key at_, e.get key at_ = o.lookup key at_ := by
    intro key at_
    rw [hread.get_eq_bind hinline, ho.lookup_eq hcons]
    rfl
  refine ⟨fun key at_ value ↦ get_eq_some_iff hread hcons hinline,
    fun range at_ ↦ ⟨horder.scan_pairwise range at_, fun key value ↦ hread.mem_scan⟩, hlookup,
    fun range at_ ↦ ?_⟩
  have hscan : Sorted Prod.fst (e.scan range at_) := horder.scan_pairwise range at_
  have horacle : Sorted Prod.fst (o.scanImpl range at_) := ho.scanImpl_pairwise range at_
  refine hscan.eq_of_mem_iff horacle ?_
  rintro ⟨key, value⟩
  rw [hread.mem_scan, Oracle.mem_scanImpl, hlookup]

theorem reads_eq_oracle_overlapping :
    overlapping.get [2] 4 = (Oracle.ofEntries overlapping.versions).lookup [2] 4 ∧
      overlapping.scan { lo := [1], hi := [3], hiUnbounded := false } 4 =
        (Oracle.ofEntries overlapping.versions).scanImpl
          { lo := [1], hi := [3], hiUnbounded := false } 4 := by
  have hcons : Consistent overlapping.versions := by
    rw [versions_overlapping, Consistent]
    decide
  have hinline : ∀ v ∈ overlapping.versions, v.vlog = false := by
    rw [versions_overlapping]
    decide
  have htables : ∀ t ∈ overlapping.sstables, t.BloomBuilt ∧
      BloomFilter.SizeFits (distinctKeys t.collectEntries).length := by
    simp only [overlapping, forall_mem_cons, SSTableReader.bloomBuilt_adoptBuilt,
      collectEntries_adoptBuilt]
    exact ⟨⟨trivial, by decide⟩, ⟨trivial, by decide⟩, forall_mem_nil _⟩
  obtain ⟨-, -, hget, hscan⟩ := reads_eq_oracle readable_overlapping.inOrder
    (fun t ht ↦ (htables t ht).1) (fun t ht ↦ (htables t ht).2) hcons hinline
    (Oracle.holds_ofEntries overlapping.versions)
  exact ⟨hget [2] 4, hscan { lo := [1], hi := [3], hiUnbounded := false } 4⟩

def wideEngine : WalEngine where
  sstables := [SSTableReader.adoptBuilt (build (wideRun 429496729)) 1]

/-- The size of the filter wraps, and the one version of a key is not found. -/
theorem get_misses_version :
    wideEngine.InOrder ∧ (∀ t ∈ wideEngine.sstables, t.BloomBuilt) ∧
      ∃ v ∈ wideEngine.versions, v.tombstone = false ∧ v.vlog = false ∧
        (∀ w ∈ wideEngine.versions, w.key = v.key → w = v) ∧
        wideEngine.get v.key v.seq = none := by
  have hversions : wideEngine.versions = wideRun 429496729 := by
    simp only [versions, wideEngine, flatMap_cons, flatMap_nil, collectEntries_adoptBuilt,
      append_nil]
    exact nil_append _
  have hwraps : ¬ BloomFilter.SizeFits (distinctKeys (wideRun 429496729)).length := by
    rw [length_distinctKeys_wideRun (by decide)]
    decide
  have hmem : { seq := 0 + 1, key := bigEndian 4 0, value := [] } ∈ wideRun 429496729 :=
    mem_map_of_mem (mem_range.mpr (by decide))
  refine ⟨⟨List.Pairwise.nil, ?_⟩, ?_, _, hversions ▸ hmem, rfl, rfl, ?_, ?_⟩
  · exact forall_mem_singleton.mpr
      (SSTableReader.ordered_adoptBuilt (ascending_wideRun (by decide)) 1)
  · exact forall_mem_singleton.mpr (SSTableReader.bloomBuilt_adoptBuilt _ 1)
  · rw [hversions]
    intro w hw hkey
    obtain ⟨i, hi, rfl⟩ := of_mem_wideRun hw
    rcases Nat.eq_zero_or_pos i with rfl | hpos
    · rfl
    · exact absurd hkey (bigEndian_lt hpos (hi.trans (by decide))).ne'
  · rw [get, getHit, wideEngine, foldl_cons, foldl_nil,
      SSTableReader.lookup_adoptBuilt_eq_none hwraps]
    rfl

end WalEngine

end Lockstep.Storage
