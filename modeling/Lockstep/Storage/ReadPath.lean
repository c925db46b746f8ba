import Lockstep.Library.SortedByKey
import Lockstep.Storage.WalEngine

/-!
# The read path

Point reads and range scans of `WalEngine` (`storage/WalEngine.hpp`) over the memtable and the
SSTables.
-/

namespace Lockstep.Storage

open Library Newest SortedByKey Entry SSTableReader List Option

variable {merged run : List Entry} {e : WalEngine}

structure Range where
  lo : Key := []
  hi : Key := []
  hiUnbounded : Bool := true
  deriving DecidableEq

namespace Range

def inHi (r : Range) (key : Key) : Bool := r.hiUnbounded ∨ key < r.hi

def Contains (r : Range) (key : Key) : Prop := r.lo ≤ key ∧ r.inHi key = true

instance (r : Range) (key : Key) : Decidable (r.Contains key) := inferInstanceAs (Decidable (_ ∧ _))

lemma inHi_of_le (r : Range) {first second : Key} (hle : first ≤ second)
    (h : r.inHi second = true) : r.inHi first = true :=
  decide_eq_true ((of_decide_eq_true h).imp_right hle.trans_lt)

end Range

namespace WalEngine

def getHit (e : WalEngine) (key : Key) (at_ : Seq) : Option Entry :=
  e.sstables.foldl (fun best sst ↦ later seq best (sst.lookup key at_))
    (e.mem.lookupHit key at_)

def materialise (e : WalEngine) (hit : Entry) : Option Value :=
  if hit.tombstone then none else if hit.vlog then e.derefValue hit.value else some hit.value

def get (e : WalEngine) (key : Key) (at_ : Seq) : Option Value :=
  (e.getHit key at_).bind e.materialise

def offer (merged : List Entry) (e : Entry) : List Entry :=
  match merged.getLast? with
  | none => [e]
  | some last =>
    if last.key < e.key then merged ++ [e]
    else
      let below := merged.takeWhile fun d ↦ d.key < e.key
      match merged.dropWhile fun d ↦ d.key < e.key with
      | [] => merged ++ [e]
      | held :: above =>
        if held.key = e.key then
          if held.seq ≤ e.seq then below ++ e :: above else merged
        else below ++ e :: held :: above

def foldRun (merged run : List Entry) : List Entry :=
  if ¬ run.IsChain fun first second ↦ first.key < second.key then run.foldl offer merged
  else
    match run.head?, merged.getLast? with
    | none, _ => merged
    | some _, none => merged ++ run
    | some first, some last =>
      if last.key < first.key then merged ++ run else merge key seq merged run

def memHits (e : WalEngine) (range : Range) (at_ : Seq) : List Entry :=
  ((e.mem.keys.dropWhile (· < range.lo)).takeWhile range.inHi).filterMap
    fun key ↦ e.mem.lookupHit key at_

def buildScanMerged (e : WalEngine) (range : Range) (at_ : Seq) : List Entry :=
  let hi := if range.hiUnbounded then [] else range.hi
  e.sstables.foldl
    (fun merged sst ↦ foldRun merged (sst.scanInto range.lo hi at_ range.hiUnbounded))
    ((e.memHits range at_).foldl offer [])

def scan (e : WalEngine) (range : Range) (at_ : Seq) : List (Key × Value) :=
  (e.buildScanMerged range at_).filterMap fun b ↦ (e.materialise b).map fun value ↦ (b.key, value)

def versions (e : WalEngine) : List Entry :=
  e.mem.entries ++ e.sstables.flatMap collectEntries

/-- The memtable and the tables are in order. -/
structure InOrder (e : WalEngine) : Prop where
  mem : Ascending e.mem.entries
  tables : ∀ t ∈ e.sstables, t.Ordered

/-- Moreover no Bloom filter denies a key of its table. -/
structure Readable (e : WalEngine) : Prop where
  mem : Ascending e.mem.entries
  tables : ∀ t ∈ e.sstables, t.WellFormed

lemma Readable.inOrder (h : e.Readable) : e.InOrder :=
  ⟨h.mem, fun t ht ↦ (h.tables t ht).toOrdered⟩

def seenAt (entries : List Entry) (key : Key) (at_ : Seq) : Option Entry :=
  newest seq (entries.filter fun v ↦ v.VisibleAt key at_)

def shown (hit : Option Entry) : Option Value :=
  hit.bind fun v ↦ if v.tombstone then none else some v.value

def newestAt (e : WalEngine) (key : Key) (at_ : Seq) : Option Entry :=
  newest seq (e.versions.filter fun v ↦ v.VisibleAt key at_)

lemma newestAt_eq_foldl (e : WalEngine) (key : Key) (at_ : Seq) :
    e.newestAt key at_ =
      e.sstables.foldl (fun best sst ↦ later seq best
          (newest seq (sst.collectEntries.filter fun v ↦ v.VisibleAt key at_)))
        (newest seq (e.mem.entries.filter fun v ↦ v.VisibleAt key at_)) := by
  have hfold : ∀ (tables : List SSTableReader) (first : Option Entry),
      later seq first (newest seq
        ((tables.flatMap collectEntries).filter fun v ↦ v.VisibleAt key at_)) =
      tables.foldl (fun best sst ↦ later seq best
        (newest seq (sst.collectEntries.filter fun v ↦ v.VisibleAt key at_))) first := by
    intro tables
    induction tables with
    | nil => exact fun first ↦ later_none_right first
    | cons t tables ih =>
      intro first
      rw [flatMap_cons, filter_append, newest_append, ← later_assoc, ih, foldl_cons]
  rw [newestAt, versions, filter_append, newest_append, hfold]

lemma Readable.getHit_eq_newest (h : e.Readable) (key : Key) (at_ : Seq) :
    e.getHit key at_ = e.newestAt key at_ := by
  rw [getHit, newestAt_eq_foldl, Memtable.lookupHit_eq_newest h.mem]
  refine foldl_ext _ _ _ fun best sst hmem ↦ ?_
  rw [(h.tables sst hmem).lookup_eq_newest]

/-! ### Offering -/

lemma offer_eq_upsert (h : Sorted key merged) (e : Entry) :
    offer merged e = upsert key seq e merged := by
  have hspec : ∀ items : List Entry, Sorted key items →
      upsert key seq e items =
        (items.takeWhile fun d ↦ d.key < e.key) ++
          match items.dropWhile fun d ↦ d.key < e.key with
          | [] => [e]
          | held :: above =>
            if held.key = e.key then pick seq held e :: above else e :: held :: above := by
    intro items hitems
    induction items with
    | nil => rfl
    | cons d items ih =>
      rw [upsert]
      rcases lt_trichotomy e.key d.key with hlt | heq | hlt
      · rw [if_pos hlt, takeWhile_cons_of_neg (by simpa using hlt.le),
          dropWhile_cons_of_neg (by simpa using hlt.le), nil_append]
        exact (if_neg hlt.ne').symm
      · rw [if_neg heq.not_lt, if_neg heq.symm.not_lt,
          takeWhile_cons_of_neg (by simpa using heq.le),
          dropWhile_cons_of_neg (by simpa using heq.le), nil_append]
        exact (if_pos heq.symm).symm
      · rw [if_neg hlt.not_gt, if_pos hlt, ih hitems.tail,
          takeWhile_cons_of_pos (by simpa using hlt),
          dropWhile_cons_of_pos (by simpa using hlt), cons_append]
  have hsplit := takeWhile_append_dropWhile (p := fun d : Entry ↦ d.key < e.key) (l := merged)
  rw [hspec merged h, offer]
  cases hlast : merged.getLast? with
  | none =>
    rw [getLast?_eq_none_iff.mp hlast]
    rfl
  | some last =>
    dsimp only
    split_ifs with hend
    · -- Every key is below the offered one.
      have hall : ∀ d ∈ merged, decide (d.key < e.key) = true := by
        obtain ⟨front, rfl⟩ := getLast?_eq_some_iff.mp hlast
        refine forall_mem_append.mpr ⟨fun d hd ↦ decide_eq_true ?_,
          forall_mem_singleton.mpr (decide_eq_true hend)⟩
        exact ((pairwise_append.mp h).2.2 d hd last mem_cons_self).trans hend
      rw [takeWhile_eq_self_iff.mpr hall, dropWhile_eq_nil_iff.mpr hall]
    · cases hrest : merged.dropWhile fun d ↦ d.key < e.key with
      | nil =>
        rw [hrest, append_nil] at hsplit
        rw [hsplit]
      | cons held above =>
        dsimp only
        split_ifs with hkey hseq
        · rw [pick, if_pos hseq]
        · rw [pick, if_neg hseq, ← hrest, hsplit]
        · rfl

lemma foldl_offer (h : Sorted key merged) :
    run.foldl offer merged =
      run.foldl (fun merged e ↦ upsert key seq e merged) merged := by
  induction run generalizing merged with
  | nil => rfl
  | cons e run ih => rw [foldl_cons, foldl_cons, offer_eq_upsert h, ih h.upsert]

lemma sorted_append (hmerged : Sorted key merged) (hrun : Sorted key run)
    (hends : ∀ last ∈ merged.getLast?, ∀ first ∈ run.head?, last.key < first.key) :
    Sorted key (merged ++ run) := by
  refine pairwise_append.mpr ⟨hmerged, hrun, fun d hd e he ↦ ?_⟩
  rcases run with _ | ⟨first, run⟩
  · cases he
  obtain ⟨last, hlast⟩ : ∃ last, merged.getLast? = some last :=
    isSome_iff_exists.mp (getLast?_isSome.mpr (ne_nil_of_mem hd))
  have hlt := hends last hlast first rfl
  have hd' : d.key ≤ last.key := by
    obtain ⟨front, rfl⟩ := getLast?_eq_some_iff.mp hlast
    rcases mem_append.mp hd with hfront | hlast
    · exact ((pairwise_append.mp hmerged).2.2 d hfront last mem_cons_self).le
    · rw [mem_singleton.mp hlast]
  exact hd'.trans_lt (hlt.trans_le (hrun.le_of_mem e he))

lemma find_append_eq_later (h : Sorted key (merged ++ run)) (k : Key) :
    find key k (merged ++ run) =
      later seq (find key k merged) (find key k run) := by
  rw [find_append]
  cases hmerged : find key k merged with
  | none => rfl
  | some d =>
    have hnone : find key k run = none := find_eq_none_iff.mpr fun e he heq ↦ by
      have hlt := (pairwise_append.mp h).2.2 d (mem_of_find hmerged) e he
      exact absurd ((key_of_find hmerged).trans heq.symm) hlt.ne
    rw [hnone, later_none_right]
    rfl

lemma foldRun_spec (h : Sorted key merged) (run : List Entry) :
    Sorted key (foldRun merged run) ∧
      ∀ k, find key k (foldRun merged run) =
        later seq (find key k merged)
          (newest seq (run.filter fun e ↦ e.key = k)) := by
  rw [foldRun]
  by_cases hchain : run.IsChain fun first second ↦ first.key < second.key
  · have hrun : Sorted key run := isChain_iff_pairwise.mp hchain
    rw [if_neg (not_not.mpr hchain)]
    have hnewest : ∀ k, newest seq (run.filter fun e ↦ e.key = k) =
        find key k run := fun k ↦ hrun.newest_filter fun e ↦ decide_eq_true_iff
    simp only [hnewest]
    rcases run with _ | ⟨first, run⟩
    · exact ⟨h, fun k ↦ (later_none_right _).symm⟩
    cases hlast : merged.getLast? with
    | none =>
      have hnil := getLast?_eq_none_iff.mp hlast
      subst hnil
      exact ⟨hrun, fun k ↦ rfl⟩
    | some last =>
      simp only [head?_cons]
      split_ifs with hlt
      · have hsorted := sorted_append h hrun fun d hd f hf ↦ by
          rw [hlast] at hd
          obtain rfl := some.inj hd
          obtain rfl := some.inj hf
          exact hlt
        exact ⟨hsorted, find_append_eq_later hsorted⟩
      · exact merge_spec h hrun
  · rw [if_pos hchain, foldl_offer h]
    obtain ⟨hsorted, hfind⟩ := @find_foldl_upsert _ _ _ key seq run merged h
    exact ⟨hsorted, fun k ↦ hfind k _ fun e ↦ decide_eq_true_iff⟩

/-! ### The merged view -/

lemma dropWhile_takeWhile_eq_filter {keys : List Key} (h : keys.Pairwise (· < ·))
    (range : Range) :
    (keys.dropWhile (· < range.lo)).takeWhile range.inHi =
      keys.filter fun key ↦ range.Contains key := by
  have htake : ∀ keys : List Key, keys.Pairwise (· < ·) → (∀ key ∈ keys, range.lo ≤ key) →
      keys.takeWhile range.inHi = keys.filter fun key ↦ range.Contains key := by
    intro keys hkeys hlo
    induction keys with
    | nil => rfl
    | cons key keys ih =>
      obtain ⟨hfirst, hrest⟩ := pairwise_cons.mp hkeys
      have hle := hlo key mem_cons_self
      by_cases hhi : range.inHi key = true
      · have hin : range.Contains key := ⟨hle, hhi⟩
        rw [takeWhile_cons_of_pos hhi, filter_cons, if_pos (decide_eq_true hin),
          ih hrest (forall_mem_cons.mp hlo).2]
      rw [takeWhile_cons_of_neg hhi]
      refine (filter_eq_nil_iff.mpr fun k hk hin ↦ hhi ?_).symm
      have hkhi := (of_decide_eq_true hin).2
      rcases mem_cons.mp hk with rfl | hmem
      · exact hkhi
      · exact range.inHi_of_le (hfirst k hmem).le hkhi
  induction keys with
  | nil => rfl
  | cons key keys ih =>
    obtain ⟨hfirst, hrest⟩ := pairwise_cons.mp h
    by_cases hlt : key < range.lo
    · rw [dropWhile_cons_of_pos (by simpa using hlt), ih hrest, filter_cons_of_neg]
      exact fun hin ↦ absurd (of_decide_eq_true hin).1 (not_le.mpr hlt)
    rw [dropWhile_cons_of_neg (by simpa using hlt)]
    exact htake (key :: keys) h (forall_mem_cons.mpr
      ⟨not_lt.mp hlt, fun k hk ↦ (not_lt.mp hlt).trans (hfirst k hk).le⟩)

lemma memHits_spec (hasc : Ascending e.mem.entries) (range : Range) (at_ : Seq) :
    Sorted key (e.memHits range at_) ∧
      ∀ k, find key k (e.memHits range at_) =
        if range.Contains k then
          newest seq (e.mem.entries.filter fun v ↦ v.VisibleAt k at_)
        else none := by
  have hkeys : e.mem.keys.Pairwise (· < ·) :=
    distinctKeys_pairwise (hasc.imp Entry.Precedes.key_le)
  have hhit : ∀ {k v}, e.mem.lookupHit k at_ = some v → v.key = k := by
    intro k v hv
    rw [Memtable.lookupHit_eq_newest hasc] at hv
    exact (of_decide_eq_true (mem_filter.mp (newest_mem hv)).2).1
  have hsorted : Sorted key (e.memHits range at_) := by
    rw [memHits, dropWhile_takeWhile_eq_filter hkeys]
    refine pairwise_filterMap.mpr ((hkeys.filter _).imp ?_)
    intro first second hlt v hv w hw
    rw [hhit hv, hhit hw]
    exact hlt
  refine ⟨hsorted, fun k ↦ ?_⟩
  rw [← Memtable.lookupHit_eq_newest hasc]
  split_ifs with hin
  · cases hv : e.mem.lookupHit k at_ with
    | none =>
      refine find_eq_none_iff.mpr fun v hv' heq ↦ ?_
      obtain ⟨k', -, hk'⟩ := mem_filterMap.mp hv'
      rw [← heq, hhit hk', hk'] at hv
      cases hv
    | some v =>
      have hvkey := hhit hv
      have hmem : v ∈ e.memHits range at_ := by
        rw [memHits, dropWhile_takeWhile_eq_filter hkeys]
        refine mem_filterMap.mpr ⟨k, mem_filter.mpr ⟨?_, decide_eq_true hin⟩, hv⟩
        rw [Memtable.lookupHit_eq_newest hasc] at hv
        exact mem_distinctKeys_iff.mpr ⟨v, (mem_filter.mp (newest_mem hv)).1, hvkey⟩
      rw [← hvkey]
      exact hsorted.find_of_mem hmem
  · refine find_eq_none_iff.mpr fun v hv heq ↦ hin ?_
    rw [memHits, dropWhile_takeWhile_eq_filter hkeys] at hv
    obtain ⟨k', hk', hv'⟩ := mem_filterMap.mp hv
    rw [← heq, hhit hv']
    exact of_decide_eq_true (mem_filter.mp hk').2

lemma newest_scanInto {t : SSTableReader} (h : t.Ordered) (range : Range) (at_ : Seq)
    (k : Key) :
    newest seq ((t.scanInto range.lo (if range.hiUnbounded then [] else range.hi) at_
        range.hiUnbounded).filter fun v ↦ v.key = k) =
      if range.Contains k then
        newest seq (t.collectEntries.filter fun v ↦ v.VisibleAt k at_)
      else none := by
  have hhi : ∀ key : Key, (range.hiUnbounded = true ∨
      key < if range.hiUnbounded then [] else range.hi) ↔ range.inHi key = true := by
    intro key
    rw [Range.inHi, decide_eq_true_iff]
    cases range.hiUnbounded <;> simp
  rw [h.scanInto_eq_filter, List.filter_filter]
  by_cases hin : range.Contains k
  · rw [if_pos hin]
    congr 1
    refine filter_congr fun v _ ↦ ?_
    rw [← Bool.decide_and]
    refine decide_eq_decide.mpr ⟨fun hv ↦ ⟨hv.1, hv.2.1⟩, fun hv ↦ ⟨hv.1, hv.2, ?_, ?_⟩⟩
    · exact hv.1 ▸ hin.1
    · exact (hhi v.key).mpr (hv.1 ▸ hin.2)
  · rw [if_neg hin, newest_eq_none, filter_eq_nil_iff]
    intro v _ hv
    rw [Bool.and_eq_true] at hv
    obtain ⟨hkey, hscan⟩ := hv
    have hscan := of_decide_eq_true hscan
    rw [← of_decide_eq_true hkey] at hin
    exact hin ⟨hscan.2.1, (hhi v.key).mp hscan.2.2⟩

lemma InOrder.buildScanMerged_spec (h : e.InOrder) (range : Range) (at_ : Seq) :
    Sorted key (e.buildScanMerged range at_) ∧
      ∀ k, find key k (e.buildScanMerged range at_) =
        if range.Contains k then e.newestAt k at_ else none := by
  obtain ⟨hmem, hmemFind⟩ := memHits_spec h.mem range at_
  obtain ⟨hoffered, hofferedFind⟩ :=
    @find_foldl_upsert _ _ _ key seq (e.memHits range at_) [] List.Pairwise.nil
  have hfold : ∀ (tables : List SSTableReader) (merged : List Entry),
      (∀ t ∈ tables, t.Ordered) → Sorted key merged →
      let folded := tables.foldl (fun merged sst ↦ foldRun merged (sst.scanInto range.lo
        (if range.hiUnbounded then [] else range.hi) at_ range.hiUnbounded)) merged
      Sorted key folded ∧ ∀ k, find key k folded =
        if range.Contains k then
          tables.foldl (fun best sst ↦ later seq best
              (newest seq (sst.collectEntries.filter fun v ↦ v.VisibleAt k at_)))
            (find key k merged)
        else find key k merged := by
    intro tables
    induction tables with
    | nil => exact fun merged _ hmerged ↦ ⟨hmerged, fun k ↦ (ite_self _).symm⟩
    | cons t tables ih =>
      intro merged htables hmerged
      obtain ⟨hrun, hrunFind⟩ := foldRun_spec hmerged (t.scanInto range.lo
        (if range.hiUnbounded then [] else range.hi) at_ range.hiUnbounded)
      obtain ⟨hsorted, hfind⟩ := ih _ (forall_mem_cons.mp htables).2 hrun
      refine ⟨hsorted, fun k ↦ ?_⟩
      rw [foldl_cons, hfind, hrunFind, newest_scanInto (htables t mem_cons_self)]
      split_ifs
      · rfl
      · rw [later_none_right]
  obtain ⟨hsorted, hfind⟩ := hfold e.sstables _ h.tables hoffered
  have hoffer : (e.memHits range at_).foldl offer [] =
      (e.memHits range at_).foldl (fun merged v ↦ upsert key seq v merged) [] :=
    foldl_offer List.Pairwise.nil
  rw [buildScanMerged, hoffer]
  refine ⟨hsorted, fun k ↦ ?_⟩
  have hfirst : find key k ((e.memHits range at_).foldl
      (fun merged v ↦ upsert key seq v merged) []) =
      if range.Contains k then
        newest seq (e.mem.entries.filter fun v ↦ v.VisibleAt k at_)
      else none := by
    rw [hofferedFind k (fun v ↦ v.key = k) fun v ↦ decide_eq_true_iff, find_nil, later_none_left,
      hmem.newest_filter fun v ↦ decide_eq_true_iff, hmemFind]
  rw [hfind, hfirst, newestAt_eq_foldl]
  split_ifs <;> rfl

lemma InOrder.scan_pairwise (h : e.InOrder) (range : Range) (at_ : Seq) :
    (e.scan range at_).Pairwise fun first second ↦ first.1 < second.1 := by
  refine pairwise_filterMap.mpr ((h.buildScanMerged_spec range at_).1.imp ?_)
  intro first second hlt kv hkv kv' hkv'
  obtain ⟨value, -, rfl⟩ := map_eq_some_iff.mp hkv
  obtain ⟨value', -, rfl⟩ := map_eq_some_iff.mp hkv'
  exact hlt

lemma Readable.mem_scan (h : e.Readable) {range : Range} {at_ : Seq} {key : Key} {value : Value} :
    (key, value) ∈ e.scan range at_ ↔ range.Contains key ∧ e.get key at_ = some value := by
  obtain ⟨hsorted, hfind⟩ := h.inOrder.buildScanMerged_spec range at_
  rw [scan, mem_filterMap, get, h.getHit_eq_newest]
  constructor
  · rintro ⟨v, hv, hvalue⟩
    obtain ⟨value', hvalue', hpair⟩ := map_eq_some_iff.mp hvalue
    cases hpair
    have hfound := hsorted.find_of_mem hv
    rw [hfind] at hfound
    split_ifs at hfound with hin
    exact ⟨hin, by rw [hfound]; exact hvalue'⟩
  · rintro ⟨hin, hget⟩
    obtain ⟨v, hv, hvalue⟩ := bind_eq_some_iff.mp hget
    have hfound := hfind key
    rw [if_pos hin, hv] at hfound
    refine ⟨v, mem_of_find hfound, ?_⟩
    rw [hvalue, map_some, key_of_find hfound]

lemma Readable.scan_eq {other : WalEngine} (h : e.Readable) (hother : other.Readable)
    {at_ : Seq} (hget : ∀ key, other.get key at_ = e.get key at_) (range : Range) :
    other.scan range at_ = e.scan range at_ := by
  have hfirst : Sorted Prod.fst (other.scan range at_) := hother.inOrder.scan_pairwise range at_
  have hsecond : Sorted Prod.fst (e.scan range at_) := h.inOrder.scan_pairwise range at_
  refine hfirst.eq_of_mem_iff hsecond ?_
  rintro ⟨key, value⟩
  rw [h.mem_scan, hother.mem_scan, hget]

def overlapping : WalEngine where
  lastSeq := 5
  mem :=
    { entries := [{ seq := 4, key := [1], value := [40] },
        { seq := 5, key := [2], value := [], tombstone := true }] }
  sstables :=
    [adoptBuilt (SSTableBuilder.build
        [{ seq := 1, key := [1], value := [10] }, { seq := 2, key := [2], value := [20] }]) 0,
      adoptBuilt (SSTableBuilder.build
        [{ seq := 2, key := [2], value := [20] }, { seq := 3, key := [3], value := [30] }]) 1]

lemma readable_overlapping : overlapping.Readable := by
  refine ⟨by decide, fun t ht ↦ ?_⟩
  rcases mem_cons.mp ht with rfl | ht
  · exact wellFormed_adoptBuilt (by decide) (by decide) 0
  · rw [mem_singleton.mp ht]
    exact wellFormed_adoptBuilt (by decide) (by decide) 1

lemma versions_overlapping : overlapping.versions =
    [{ seq := 4, key := [1], value := [40] },
      { seq := 5, key := [2], value := [], tombstone := true },
      { seq := 1, key := [1], value := [10] }, { seq := 2, key := [2], value := [20] },
      { seq := 2, key := [2], value := [20] }, { seq := 3, key := [3], value := [30] }] := by
  simp only [versions, overlapping, flatMap_cons, flatMap_nil, collectEntries_adoptBuilt]
  rfl

end WalEngine

end Lockstep.Storage
