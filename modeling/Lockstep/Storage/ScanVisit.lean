import Lockstep.Library.KWayMerge
import Lockstep.Storage.ReadPath

/-!
# The visiting scan

`scan_visit` of `storage/WalEngine.hpp`: a streaming merge of cursors over the memtable and the
tables, in place of the lists that `scan` builds.
-/

namespace Lockstep.Storage

open Library Newest SortedByKey KWayMerge Entry List

variable {k : Key} {entries : List SstEntry} {entry : SstEntry}

inductive Cursor where
  | mem (keys : List Key)
  | sst (entries : List SstEntry)
  deriving DecidableEq

namespace WalEngine

def advanceMem (e : WalEngine) (range : Range) (at_ : Seq) : List Key → Option (Entry × Cursor)
  | [] => none
  | key :: keys =>
    if !range.inHi key then none
    else
      match Memtable.hitFrom (e.mem.versions key) at_ with
      | none => e.advanceMem range at_ keys
      | some best => some (best, .mem keys)

def advanceSst (range : Range) (at_ : Seq) : ℕ → List SstEntry → Option (Entry × Cursor)
  | 0, _ => none
  | _, [] => none
  | fuel + 1, entry :: entries =>
    if entry.key < range.lo then advanceSst range at_ fuel entries
    else if !range.inHi entry.key then none
    else
      let run := (entry :: entries).takeWhile fun v ↦ v.key = entry.key
      let rest := (entry :: entries).dropWhile fun v ↦ v.key = entry.key
      match (run.filter fun v ↦ v.seq ≤ at_).getLast? with
      | none => advanceSst range at_ fuel rest
      | some best => some (best, .sst rest)

def advanceCursor (e : WalEngine) (range : Range) (at_ : Seq) : Cursor → Option (Entry × Cursor)
  | .mem keys => e.advanceMem range at_ keys
  | .sst entries => advanceSst range at_ entries.length entries

def cursors (e : WalEngine) (range : Range) : List Cursor :=
  .mem (e.mem.keys.dropWhile (· < range.lo)) ::
    e.sstables.map fun t ↦ .sst (t.blocks.drop (t.scanStartBlock range.lo)).flatten

def visitWinners (e : WalEngine) (range : Range) (at_ : Seq) : List Entry :=
  KWayMerge.merge key seq (e.advanceCursor range at_)
    (e.mem.keys.length + (e.sstables.map fun t ↦ t.collectEntries.length).sum + 1)
    ((e.cursors range).map (e.advanceCursor range at_))

def scanVisit (e : WalEngine) (range : Range) (at_ : Seq) : Bool × List (Key × Value) :=
  if e.valueLogActive then (false, [])
  else
    let winners := e.visitWinners range at_
    if winners.any fun v ↦ v.vlog && !v.tombstone then (false, [])
    else (true, (winners.filter fun v ↦ !v.tombstone).map fun v ↦ (v.key, v.value))

lemma runs_advanceMem (e : WalEngine) (range : Range) (at_ : Seq) (keys : List Key) :
    Runs (e.advanceCursor range at_) (e.advanceMem range at_ keys)
      ((keys.takeWhile range.inHi).filterMap fun key ↦ e.mem.lookupHit key at_) := by
  induction keys with
  | nil => exact Runs.done
  | cons key keys ih =>
    rw [advanceMem]
    by_cases hhi : range.inHi key = true
    · rw [hhi, takeWhile_cons_of_pos hhi, filterMap_cons, Memtable.lookupHit]
      cases hhit : Memtable.hitFrom (e.mem.versions key) at_ with
      | none => exact ih
      | some best => exact Runs.item best (Cursor.mem keys) _ ih
    · rw [takeWhile_cons_of_neg hhi]
      rw [Bool.not_eq_true] at hhi
      rw [hhi]
      exact Runs.done

/-! ### The cursor over a table -/

lemma key_lt_of_mem_dropWhile (hasc : Ascending (entry :: entries)) {v : SstEntry}
    (hv : v ∈ (entry :: entries).dropWhile fun v ↦ v.key = entry.key) : entry.key < v.key := by
  set rest := (entry :: entries).dropWhile fun v ↦ v.key = entry.key with hrest
  rcases hcases : rest with _ | ⟨first, more⟩
  · rw [hcases] at hv
    cases hv
  have hsub : rest.Sublist (entry :: entries) := dropWhile_sublist _
  have hne : first.key ≠ entry.key := by
    have hnot := head?_dropWhile_not (fun v : SstEntry ↦ decide (v.key = entry.key))
      (entry :: entries)
    rw [← hrest, hcases] at hnot
    simpa using hnot
  have hle := hasc.key_le_of_mem first (hsub.subset (hcases ▸ mem_cons_self))
  have hascRest : Ascending (first :: more) := hcases ▸ hasc.sublist hsub
  exact (lt_of_le_of_ne hle hne.symm).trans_le (hascRest.key_le_of_mem v (hcases ▸ hv))

/-- What a cursor over ascending entries runs through: the newest visible version of each key of
the range. -/
structure SstStream (e : WalEngine) (range : Range) (at_ : Seq) (head : Option (Entry × Cursor))
    (entries : List SstEntry) (items : List Entry) : Prop where
  runs : Runs (e.advanceCursor range at_) head items
  sorted : Sorted key items
  find : ∀ k, find key k items =
    if range.Contains k then newest seq (entries.filter fun v ↦ v.VisibleAt k at_) else none
  length : items.length ≤ entries.length

lemma filter_visible_of_forall_ne {entries : List Entry} {at_ : Seq}
    (h : ∀ v ∈ entries, v.key ≠ k) : entries.filter (fun v ↦ v.VisibleAt k at_) = [] :=
  filter_eq_nil_iff.mpr fun v hv hvisible ↦ h v hv (of_decide_eq_true hvisible).1

/-- The versions of the first key of ascending entries, and the entries behind them. -/
structure FirstRun (entry : SstEntry) (entries run rest : List SstEntry) (at_ : Seq) : Prop where
  ascending : Ascending rest
  key_lt : ∀ v ∈ rest, entry.key < v.key
  length_lt : rest.length < (entry :: entries).length
  last : (run.filter fun v ↦ v.seq ≤ at_).getLast? =
    newest seq ((entry :: entries).filter fun v ↦ v.VisibleAt entry.key at_)
  other : ∀ k, k ≠ entry.key → (entry :: entries).filter (fun v ↦ v.VisibleAt k at_) =
    rest.filter fun v ↦ v.VisibleAt k at_

lemma firstRun (hasc : Ascending (entry :: entries)) (at_ : Seq) :
    FirstRun entry entries ((entry :: entries).takeWhile fun v ↦ v.key = entry.key)
      ((entry :: entries).dropWhile fun v ↦ v.key = entry.key) at_ := by
  set run := (entry :: entries).takeWhile fun v ↦ v.key = entry.key with hrun
  set rest := (entry :: entries).dropWhile fun v ↦ v.key = entry.key with hrest
  have hsplit : run ++ rest = entry :: entries := takeWhile_append_dropWhile
  have hrunKey : ∀ v ∈ run, v.key = entry.key := by
    intro v hv
    have hdecide := mem_takeWhile_imp hv
    exact of_decide_eq_true hdecide
  have hrestKey : ∀ v ∈ rest, entry.key < v.key := fun v hv ↦ key_lt_of_mem_dropWhile hasc hv
  refine ⟨hasc.sublist (dropWhile_sublist _), hrestKey, ?_, ?_, fun k hk ↦ ?_⟩
  · have hpos : 0 < run.length := by
      rw [hrun, takeWhile_cons_of_pos (by simp)]
      exact Nat.succ_pos _
    rw [← hsplit, length_append]
    omega
  · have hvisible : (entry :: entries).filter (fun v ↦ v.VisibleAt entry.key at_) =
        run.filter fun v ↦ v.seq ≤ at_ := by
      rw [← hsplit, filter_append,
        filter_visible_of_forall_ne fun v hv ↦ (hrestKey v hv).ne', append_nil]
      refine filter_congr fun v hv ↦ decide_eq_decide.mpr ?_
      exact ⟨fun h ↦ h.2, fun h ↦ ⟨hrunKey v hv, h⟩⟩
    rw [← hvisible, newest_eq_getLast?]
    rw [filter_visibleAt]
    exact (pairwise_seq_of_ascending hasc entry.key).filter _
  · rw [← hsplit, filter_append,
      filter_visible_of_forall_ne fun v hv heq ↦ hk (heq.symm.trans (hrunKey v hv)),
      nil_append]

lemma filter_visible_of_past {range : Range} (hasc : Ascending (entry :: entries))
    (hhi : range.inHi entry.key = false) (hin : range.Contains k) (at_ : Seq) :
    (entry :: entries).filter (fun v ↦ v.VisibleAt k at_) = [] := by
  refine filter_visible_of_forall_ne fun v hv heq ↦ ?_
  rw [range.inHi_of_le (heq ▸ hasc.key_le_of_mem v hv) hin.2] at hhi
  cases hhi

lemma exists_sstStream (e : WalEngine) (range : Range) (at_ : Seq) (hasc : Ascending entries)
    {fuel : ℕ} (hfuel : entries.length ≤ fuel) :
    ∃ items, SstStream e range at_ (advanceSst range at_ fuel entries) entries items := by
  -- A cursor skips an entry or a whole run, so what is left is shorter.
  induction hlength : entries.length using Nat.strong_induction_on generalizing entries fuel with
  | _ count ih =>
    rcases entries with _ | ⟨entry, entries⟩
    · refine ⟨[], ?_, List.Pairwise.nil, fun k ↦ (ite_self _).symm, Nat.le_refl _⟩
      rcases fuel with _ | fuel <;> exact Runs.done
    obtain ⟨fuel, rfl⟩ : ∃ n, fuel = n + 1 := Nat.exists_eq_add_one_of_ne_zero (by
      rw [length_cons] at hfuel
      omega)
    rw [length_cons] at hlength hfuel
    rw [advanceSst]
    by_cases hlo : entry.key < range.lo
    · obtain ⟨items, hitems⟩ := @ih entries.length (by omega) entries
        (pairwise_cons.mp hasc).2 fuel (by omega) rfl
      rw [if_pos hlo]
      refine ⟨items, hitems.runs, hitems.sorted, fun k ↦ ?_,
        hitems.length.trans (Nat.le_succ _)⟩
      rw [hitems.find]
      split_ifs with hin
      · rw [filter_cons_of_neg]
        exact fun hvisible ↦
          absurd (hin.1.trans (of_decide_eq_true hvisible).1.ge) (not_le.mpr hlo)
      · rfl
    rw [if_neg hlo]
    by_cases hhi : range.inHi entry.key = true
    · have hrun := firstRun hasc at_
      have hin : range.Contains entry.key := ⟨not_lt.mp hlo, hhi⟩
      have hshort := hrun.length_lt
      rw [length_cons] at hshort
      rw [hhi]
      simp only [Bool.not_true, Bool.false_eq_true, if_false]
      set rest := (entry :: entries).dropWhile fun v ↦ v.key = entry.key
      rw [hrun.last]
      cases hbest : newest seq
          ((entry :: entries).filter fun v ↦ v.VisibleAt entry.key at_) with
      | none =>
        obtain ⟨items, hitems⟩ :=
          @ih rest.length (by omega) rest hrun.ascending fuel (by omega) rfl
        refine ⟨items, hitems.runs, hitems.sorted, fun k ↦ ?_, ?_⟩
        · rw [hitems.find]
          by_cases hk : k = entry.key
          · rw [hk, if_pos hin, if_pos hin, hbest,
              filter_visible_of_forall_ne fun v hv ↦ (hrun.key_lt v hv).ne', newest_nil]
          · rw [hrun.other k hk]
        · rw [length_cons]
          exact hitems.length.trans (by omega)
      | some best =>
        obtain ⟨items, hitems⟩ :=
          @ih rest.length (by omega) rest hrun.ascending rest.length le_rfl rfl
        have hbestKey : best.key = entry.key :=
          (of_decide_eq_true (mem_filter.mp (newest_mem hbest)).2).1
        refine ⟨best :: items, Runs.item best (Cursor.sst rest) items hitems.runs, ?_,
          fun k ↦ ?_, ?_⟩
        · refine pairwise_cons.mpr ⟨fun v hv ↦ ?_, hitems.sorted⟩
          have hfound := hitems.sorted.find_of_mem hv
          rw [hitems.find] at hfound
          split_ifs at hfound
          rw [hbestKey]
          exact hrun.key_lt v (mem_filter.mp (newest_mem hfound)).1
        · rw [find_cons, hbestKey, hitems.find]
          by_cases hk : k = entry.key
          · rw [hk, if_pos rfl, if_pos hin, hbest]
          · rw [if_neg (Ne.symm hk), hrun.other k hk]
        · rw [length_cons, length_cons]
          have hle := hitems.length
          omega
    · rw [Bool.not_eq_true] at hhi
      rw [hhi]
      refine ⟨[], Runs.done, List.Pairwise.nil, fun k ↦ ?_, Nat.zero_le _⟩
      rw [find_nil]
      split_ifs with hin
      · rw [filter_visible_of_past hasc hhi hin, newest_nil]
      · rfl

/-! ### All sources -/

lemma newest_visible_from_start {t : SSTableReader} (h : t.Ordered) (range : Range)
    (at_ : Seq) (hin : range.Contains k) :
    newest seq ((t.blocks.drop (t.scanStartBlock range.lo)).flatten.filter
        fun v ↦ v.VisibleAt k at_) =
      newest seq (t.collectEntries.filter fun v ↦ v.VisibleAt k at_) := by
  have hbefore : ∀ v ∈ (t.blocks.take (t.scanStartBlock range.lo)).flatten,
      v.key < range.lo := by
    intro v hv
    rw [SSTableReader.scanStartBlock] at hv
    by_cases hempty : range.lo = [] ∨ t.blocks = []
    · rw [if_pos hempty, take_zero] at hv
      cases hv
    rw [if_neg hempty] at hv
    cases hseek : t.seekBlock range.lo with
    | none =>
      rw [hseek] at hv
      cases hv
    | some blk =>
      rw [hseek] at hv
      exact h.key_lt_of_backUp hseek hv
  rw [SSTableReader.collectEntries]
  conv => rhs; rw [← take_append_drop (t.scanStartBlock range.lo) t.blocks]
  rw [flatten_append, filter_append, filter_visible_of_forall_ne fun v hv heq ↦
      absurd (heq ▸ hin.1) (not_le.mpr (hbefore v hv)), nil_append]

lemma InOrder.exists_streams {e : WalEngine} (h : e.InOrder) (range : Range) (at_ : Seq) :
    ∃ lists, Follows key (e.advanceCursor range at_)
        ((e.cursors range).map (e.advanceCursor range at_)) lists ∧
      (lists.map length).sum ≤
        e.mem.keys.length + (e.sstables.map fun t ↦ t.collectEntries.length).sum ∧
      ∀ k, latest key seq k lists =
        if range.Contains k then e.newestAt k at_ else none := by
  have htables : ∀ tables : List SSTableReader, (∀ t ∈ tables, t.Ordered) →
      ∃ lists, Follows key (e.advanceCursor range at_)
          ((tables.map fun t ↦ Cursor.sst (t.blocks.drop (t.scanStartBlock range.lo)).flatten).map
            (e.advanceCursor range at_)) lists ∧
        (lists.map length).sum ≤ (tables.map fun t ↦ t.collectEntries.length).sum ∧
        ∀ k first, lists.foldl (fun best items ↦ later seq best (find key k items))
          first = if range.Contains k then
            tables.foldl (fun best sst ↦ later seq best
              (newest seq (sst.collectEntries.filter fun v ↦ v.VisibleAt k at_))) first
            else first := by
    intro tables hwell
    induction tables with
    | nil => exact ⟨[], List.Forall₂.nil, Nat.le_refl _, fun k first ↦ (ite_self _).symm⟩
    | cons t tables ih =>
      obtain ⟨lists, hfollows, hsum, hfold⟩ :=
        ih (forall_mem_cons.mp hwell).2
      have ht := hwell t mem_cons_self
      have hsub : (t.blocks.drop (t.scanStartBlock range.lo)).flatten.Sublist t.collectEntries := by
        conv => rhs; rw [SSTableReader.collectEntries,
          ← take_append_drop (t.scanStartBlock range.lo) t.blocks, flatten_append]
        exact sublist_append_right _ _
      obtain ⟨items, hitems⟩ :=
        exists_sstStream e range at_ (ht.ascending.sublist hsub) (Nat.le_refl _)
      refine ⟨items :: lists, List.Forall₂.cons ⟨hitems.runs, hitems.sorted⟩ hfollows, ?_,
        fun k first ↦ ?_⟩
      · simp only [map_cons, sum_cons]
        exact Nat.add_le_add (hitems.length.trans hsub.length_le) hsum
      · rw [foldl_cons, hfold, hitems.find]
        split_ifs with hin
        · rw [foldl_cons, newest_visible_from_start ht range at_ hin]
        · rw [later_none_right]
  obtain ⟨lists, hfollows, hsum, hfold⟩ := htables e.sstables h.tables
  obtain ⟨hsorted, hfind⟩ := memHits_spec h.mem range at_
  refine ⟨e.memHits range at_ :: lists,
    List.Forall₂.cons ⟨runs_advanceMem e range at_ _, hsorted⟩ hfollows, ?_, fun k ↦ ?_⟩
  · simp only [map_cons, sum_cons]
    refine Nat.add_le_add (le_trans (length_filterMap_le ..) ?_) hsum
    exact le_trans (List.takeWhile_prefix _).length_le (dropWhile_suffix _).length_le
  · rw [latest, foldl_cons, hfold, hfind, newestAt_eq_foldl, later_none_left]
    split_ifs <;> rfl

lemma InOrder.visitWinners_eq {e : WalEngine} (h : e.InOrder) (range : Range) (at_ : Seq) :
    e.visitWinners range at_ = e.buildScanMerged range at_ := by
  obtain ⟨lists, hfollows, hsum, hlatest⟩ := h.exists_streams range at_
  obtain ⟨hsorted, hfind⟩ := KWayMerge.merge_spec hfollows (Nat.lt_succ_of_le hsum)
  obtain ⟨hscan, hscanFind⟩ := h.buildScanMerged_spec range at_
  refine hsorted.ext hscan fun k ↦ ?_
  rw [hfind, hlatest, hscanFind]

/-- A scan that visits makes the callbacks for what `scan` returns; one that does not makes
none. -/
theorem scanVisit_eq_scan {e : WalEngine} (h : e.InOrder) (range : Range) (at_ : Seq) :
    ((e.scanVisit range at_).1 = true → (e.scanVisit range at_).2 = e.scan range at_) ∧
      ((e.scanVisit range at_).1 = false → (e.scanVisit range at_).2 = []) := by
  rw [scanVisit, h.visitWinners_eq]
  by_cases hactive : e.valueLogActive = true
  · rw [if_pos hactive]
    exact ⟨nofun, fun _ ↦ rfl⟩
  rw [if_neg hactive]
  by_cases hvlog : (e.buildScanMerged range at_).any fun v ↦ v.vlog && !v.tombstone
  · simp only [hvlog, if_true]
    exact ⟨nofun, fun _ ↦ trivial⟩
  simp only [hvlog]
  refine ⟨fun _ ↦ ?_, nofun⟩
  rw [scan, ← filterMap_eq_map, filterMap_filter]
  refine filterMap_congr fun v hv ↦ ?_
  -- No surviving version is a pointer.
  have hinline : v.tombstone = false → v.vlog = false := by
    intro htomb
    by_contra hne
    rw [Bool.not_eq_false] at hne
    exact hvlog (any_eq_true.mpr ⟨v, hv, by rw [hne, htomb]; rfl⟩)
  rw [materialise]
  cases htomb : v.tombstone with
  | true => rfl
  | false =>
    rw [hinline htomb]
    rfl

theorem scanVisit_overlapping :
    (overlapping.scanVisit {} 5).1 = true ∧
      (overlapping.scanVisit {} 5).2 = [([1], [40]), ([3], [30])] ∧
      (overlapping.scanVisit {} 5).2 = overlapping.scan {} 5 := by
  have hvisits : (overlapping.scanVisit {} 5).1 = true := by decide +kernel
  exact ⟨hvisits, by decide +kernel,
    (scanVisit_eq_scan readable_overlapping.inOrder {} 5).1 hvisits⟩

end WalEngine

end Lockstep.Storage
