import Mathlib.Data.List.Sort
import Lockstep.Storage.SSTableRead

/-!
# The compaction merge

`compactMerge` of `storage/SSTable.hpp`: the entries of several tables are sorted, copies of one
version are dropped, and of each key only the versions that a snapshot at or above the watermark can
see are kept.
-/

namespace Lockstep.Storage

open Library SSTableBuilder Entry Newest Entry.Precedes List

variable {key : Key} {at_ watermark : Seq} {e : SstEntry}

def dedupAfter (last : SstEntry) : List SstEntry → List SstEntry
  | [] => []
  | e :: entries =>
    if last.key = e.key ∧ last.seq = e.seq then dedupAfter last entries
    else e :: dedupAfter e entries

def dedup : List SstEntry → List SstEntry
  | [] => []
  | e :: entries => e :: dedupAfter e entries

def gcVersions (watermark : Seq) (versions : List SstEntry) : List SstEntry :=
  let above := versions.dropWhile fun e ↦ e.seq ≤ watermark
  match (versions.takeWhile fun e ↦ e.seq ≤ watermark).getLast? with
  | none => versions
  | some floor => if floor.tombstone ∧ above = [] then [] else floor :: above

/-- The entries of all runs in order, without copies. -/
def uniqOf (runs : List (List SstEntry)) : List SstEntry :=
  dedup (runs.flatten.insertionSort Precedes)

def compactMerge (runs : List (List SstEntry)) (watermark : Seq) : List SstEntry :=
  (distinctKeys (uniqOf runs)).flatMap fun key ↦
    gcVersions watermark ((uniqOf runs).filter fun e ↦ e.key = key)

def Consistent (entries : List Entry) : Prop :=
  ∀ first ∈ entries, ∀ second ∈ entries,
    first.key = second.key → first.seq = second.seq → first = second

lemma Consistent.mono {entries more : List Entry} (h : Consistent more)
    (hsub : ∀ e ∈ entries, e ∈ more) : Consistent entries :=
  fun first hfirst second hsecond ↦ h first (hsub first hfirst) second (hsub second hsecond)

lemma Consistent.newest_eq_some_iff {entries : List Entry} (h : Consistent entries) {v : Entry} :
    Newest.newest seq (entries.filter fun e ↦ e.VisibleAt key at_) = some v ↔
      v ∈ entries ∧ v.VisibleAt key at_ ∧ ∀ w ∈ entries, w.VisibleAt key at_ → w.seq ≤ v.seq := by
  rw [Newest.newest_eq_some_iff]
  · simp [and_assoc]
  · intro a ha b hb hseq
    obtain ⟨ha, hva⟩ := mem_filter.mp ha
    obtain ⟨hb, hvb⟩ := mem_filter.mp hb
    exact h a ha b hb ((of_decide_eq_true hva).1.trans (of_decide_eq_true hvb).1.symm) hseq

/-! ### Sorting and copies -/

instance : Std.Total Precedes where
  total first second := by
    rcases lt_trichotomy first.key second.key with hlt | heq | hlt
    · exact .inl (.inl hlt)
    · rcases Nat.le_total first.seq second.seq with hle | hle
      · exact .inl (.inr ⟨heq, hle⟩)
      · exact .inr (.inr ⟨heq.symm, hle⟩)
    · exact .inr (.inl hlt)

instance : IsTrans Entry Precedes where
  trans first second third h₁ h₂ := by
    rcases h₁ with hlt | ⟨heq, hle⟩
    · exact .inl (hlt.trans_le (key_le h₂))
    · rcases h₂ with hlt | ⟨heq', hle'⟩
      · exact .inl (heq ▸ hlt)
      · exact .inr ⟨heq.trans heq', hle.trans hle'⟩

lemma dedupAfter_sublist (last : SstEntry) (entries : List SstEntry) :
    (dedupAfter last entries).Sublist entries := by
  induction entries generalizing last with
  | nil => exact List.Sublist.refl _
  | cons e entries ih =>
    rw [dedupAfter]
    split_ifs
    · exact (ih last).cons e
    · exact (ih e).cons_cons e

lemma dedup_sublist (entries : List SstEntry) : (dedup entries).Sublist entries := by
  cases entries with
  | nil => exact List.Sublist.refl _
  | cons e entries => exact (dedupAfter_sublist e entries).cons_cons e

variable {entries : List SstEntry}

lemma mem_dedup (hcons : Consistent entries) : e ∈ dedup entries ↔ e ∈ entries := by
  refine ⟨fun he ↦ (dedup_sublist entries).subset he, fun he ↦ ?_⟩
  have hafter : ∀ (rest : List SstEntry) (last : SstEntry), Consistent (last :: rest) →
      e ∈ last :: rest → e ∈ last :: dedupAfter last rest := by
    intro rest
    induction rest with
    | nil => exact fun last _ hmem ↦ hmem
    | cons d rest ih =>
      intro last hlast hmem
      rw [dedupAfter]
      split_ifs with hcopy
      · have heq : last = d := hlast last mem_cons_self d
          (mem_cons_of_mem _ mem_cons_self) hcopy.1 hcopy.2
        subst heq
        refine ih last (hlast.mono fun x hx ↦ mem_cons_of_mem _ hx) ?_
        rcases mem_cons.mp hmem with rfl | hmem
        · exact mem_cons_self
        · exact hmem
      · rcases mem_cons.mp hmem with rfl | hmem
        · exact mem_cons_self
        · exact mem_cons_of_mem _
            (ih d (hlast.mono fun x hx ↦ mem_cons_of_mem _ hx) hmem)
  rcases entries with _ | ⟨first, rest⟩
  · exact he
  · exact hafter rest first hcons he

def Before (first second : SstEntry) : Prop :=
  first.key < second.key ∨ first.key = second.key ∧ first.seq < second.seq

lemma Before.precedes {first second : SstEntry} (h : Before first second) :
    first.Precedes second :=
  h.imp_right fun ⟨hkey, hlt⟩ ↦ ⟨hkey, hlt.le⟩

lemma strict_dedupAfter {last : SstEntry} (hasc : Ascending (last :: entries)) :
    (last :: dedupAfter last entries).Pairwise Before := by
  induction entries generalizing last with
  | nil => exact pairwise_singleton _ _
  | cons d entries ih =>
    rw [dedupAfter]
    obtain ⟨hlast, hrest⟩ := pairwise_cons.mp hasc
    split_ifs with hcopy
    · exact ih (hasc.sublist ((sublist_cons_self d entries).cons_cons last))
    have hstrict := ih hrest
    refine pairwise_cons.mpr ⟨fun e he ↦ ?_, hstrict⟩
    have hprec : d.Precedes e := by
      rcases mem_cons.mp he with rfl | he
      · exact .inr ⟨rfl, le_rfl⟩
      · exact (rel_of_pairwise_cons hstrict he).precedes
    unfold Before Precedes at *
    grind

section Uniq

variable (runs : List (List SstEntry))

lemma strict_uniqOf : (uniqOf runs).Pairwise Before := by
  have hsorted := pairwise_insertionSort Precedes runs.flatten
  rw [uniqOf]
  generalize runs.flatten.insertionSort Precedes = sorted at hsorted
  cases sorted with
  | nil => exact List.Pairwise.nil
  | cons e sorted => exact strict_dedupAfter hsorted

lemma ascending_uniqOf : Ascending (uniqOf runs) := (strict_uniqOf runs).imp Before.precedes

lemma mem_uniqOf {runs : List (List SstEntry)} (hcons : Consistent runs.flatten) :
    e ∈ uniqOf runs ↔ e ∈ runs.flatten := by
  have hperm := perm_insertionSort Precedes runs.flatten
  rw [uniqOf, mem_dedup (hcons.mono fun x hx ↦ hperm.subset hx), hperm.mem_iff]

end Uniq

/-! ### One key -/

lemma gcVersions_sublist (watermark : Seq) (versions : List SstEntry) :
    (gcVersions watermark versions).Sublist versions := by
  have hsplit := takeWhile_append_dropWhile (p := fun e : SstEntry ↦ e.seq ≤ watermark)
    (l := versions)
  rw [gcVersions]
  cases hlast : (versions.takeWhile fun e ↦ e.seq ≤ watermark).getLast? with
  | none => exact List.Sublist.refl _
  | some floor =>
    dsimp only
    split_ifs
    · exact nil_sublist _
    · obtain ⟨front, hfront⟩ := getLast?_eq_some_iff.mp hlast
      conv => rhs; rw [← hsplit, hfront, append_assoc]
      exact sublist_append_right _ _

/-- The key vanishes: its last version is a tombstone no snapshot below it can be told from. -/
def LoneTombstone (watermark : Seq) (versions : List SstEntry) : Prop :=
  ∃ last, versions.getLast? = some last ∧ last.tombstone = true ∧ last.seq ≤ watermark

variable {versions : List SstEntry}

lemma newest_gcVersions (hasc : versions.Pairwise fun first second ↦ first.seq ≤ second.seq)
    (hat : watermark ≤ at_) (hlone : ¬ LoneTombstone watermark versions) :
    newest seq ((gcVersions watermark versions).filter fun e ↦ e.seq ≤ at_) =
      newest seq (versions.filter fun e ↦ e.seq ≤ at_) := by
  have hsplit := takeWhile_append_dropWhile (p := fun e : SstEntry ↦ e.seq ≤ watermark)
    (l := versions)
  rw [newest_eq_getLast? ((hasc.sublist (gcVersions_sublist _ _)).filter _),
    newest_eq_getLast? (hasc.filter _), gcVersions]
  cases hlast : (versions.takeWhile fun e ↦ e.seq ≤ watermark).getLast? with
  | none => rfl
  | some floor =>
    obtain ⟨front, hfront⟩ := getLast?_eq_some_iff.mp hlast
    have hfloor : floor.seq ≤ watermark := by
      have hmem : floor ∈ versions.takeWhile fun e ↦ e.seq ≤ watermark :=
        mem_of_getLast? hlast
      have hle := mem_takeWhile_imp hmem
      exact of_decide_eq_true hle
    rw [hfront, append_assoc] at hsplit
    have hkeep : ¬ (floor.tombstone = true ∧
        (versions.dropWhile fun e ↦ e.seq ≤ watermark) = []) := by
      rintro ⟨htomb, hnil⟩
      refine hlone ⟨floor, ?_, htomb, hfloor⟩
      rw [← hsplit, hnil, append_nil, getLast?_concat]
    dsimp only
    rw [if_neg hkeep]
    -- Both lists end with the floor and what is above the watermark.
    conv => rhs; rw [← hsplit, filter_append, singleton_append]
    have hfirst : (floor :: versions.dropWhile fun e ↦ e.seq ≤ watermark).filter
        (fun e ↦ e.seq ≤ at_) ≠ [] := by
      rw [filter_cons_of_pos (by simpa using hfloor.trans hat)]
      exact cons_ne_nil _ _
    rw [getLast?_append_of_ne_nil _ hfirst]

lemma gcVersions_of_lone (hasc : versions.Pairwise fun first second ↦ first.seq ≤ second.seq)
    (hlone : LoneTombstone watermark versions) : gcVersions watermark versions = [] := by
  obtain ⟨last, hlast, htomb, hle⟩ := hlone
  obtain ⟨front, rfl⟩ := getLast?_eq_some_iff.mp hlast
  have hall : ∀ e ∈ front ++ [last], decide (e.seq ≤ watermark) = true := by
    refine forall_mem_append.mpr ⟨fun e he ↦ ?_, forall_mem_singleton.mpr (decide_eq_true hle)⟩
    exact decide_eq_true (((pairwise_append.mp hasc).2.2 e he last mem_cons_self).trans hle)
  have htake : (front ++ [last]).takeWhile (fun e ↦ e.seq ≤ watermark) = front ++ [last] :=
    takeWhile_eq_self_iff.mpr hall
  have hdrop : (front ++ [last]).dropWhile (fun e ↦ e.seq ≤ watermark) = [] :=
    dropWhile_eq_nil_iff.mpr hall
  rw [gcVersions, htake, hdrop, getLast?_concat]
  exact if_pos ⟨htomb, rfl⟩

lemma mem_gcVersions (he : e ∈ versions) (hlt : watermark < e.seq) :
    e ∈ gcVersions watermark versions := by
  rw [← takeWhile_append_dropWhile (p := fun e : SstEntry ↦ e.seq ≤ watermark) (l := versions),
    mem_append] at he
  have habove := he.resolve_left fun hbelow ↦ by
    have hle := mem_takeWhile_imp hbelow
    exact hlt.not_ge (of_decide_eq_true hle)
  rw [gcVersions]
  split
  · exact (dropWhile_sublist _).subset habove
  · rw [if_neg fun hlone ↦ ne_nil_of_mem habove hlone.2]
    exact mem_cons_of_mem _ habove

/-! ### All keys -/

lemma key_of_mem_gcVersions (he : e ∈ gcVersions watermark (entries.filter fun d ↦ d.key = key))
    : e.key = key :=
  of_decide_eq_true (mem_filter.mp ((gcVersions_sublist _ _).subset he)).2

lemma mem_of_mem_compactMerge {runs : List (List SstEntry)}
    (he : e ∈ compactMerge runs watermark) : e ∈ runs.flatten := by
  obtain ⟨key, -, hmem⟩ := mem_flatMap.mp he
  have huniq : e ∈ uniqOf runs :=
    (mem_filter.mp ((gcVersions_sublist _ _).subset hmem)).1
  exact (perm_insertionSort Precedes runs.flatten).subset
    ((dedup_sublist _).subset huniq)

variable (runs : List (List SstEntry))

lemma strict_compactMerge (watermark : Seq) :
    (compactMerge runs watermark).Pairwise Before := by
  refine pairwise_flatMap.mpr ⟨fun key _ ↦ ?_, ?_⟩
  · exact ((strict_uniqOf runs).filter _).sublist (gcVersions_sublist _ _)
  · refine (distinctKeys_pairwise ((ascending_uniqOf runs).imp key_le)).imp ?_
    intro first second hlt d hd e he
    exact .inl (key_of_mem_gcVersions hd ▸ key_of_mem_gcVersions he ▸ hlt)

lemma ascending_compactMerge (watermark : Seq) : Ascending (compactMerge runs watermark) :=
  (strict_compactMerge runs watermark).imp Before.precedes

lemma filter_compactMerge (watermark : Seq) (key : Key) :
    (compactMerge runs watermark).filter (fun e ↦ e.key = key) =
      gcVersions watermark ((uniqOf runs).filter fun e ↦ e.key = key) := by
  have hgroups : ∀ keys : List Key, keys.Nodup →
      (keys.flatMap fun k ↦ gcVersions watermark ((uniqOf runs).filter fun e ↦ e.key = k)).filter
        (fun e ↦ e.key = key) =
      if key ∈ keys then gcVersions watermark ((uniqOf runs).filter fun e ↦ e.key = key)
      else [] := by
    intro keys hnodup
    induction keys with
    | nil => rfl
    | cons k keys ih =>
      obtain ⟨hnot, hrest⟩ := nodup_cons.mp hnodup
      rw [flatMap_cons, filter_append, ih hrest]
      by_cases hk : k = key
      · subst hk
        rw [if_neg hnot, if_pos mem_cons_self, append_nil, filter_eq_self]
        exact fun e he ↦ decide_eq_true (key_of_mem_gcVersions he)
      have hnone : (gcVersions watermark ((uniqOf runs).filter fun e ↦ e.key = k)).filter
          (fun e ↦ e.key = key) = [] :=
        filter_eq_nil_iff.mpr fun e he hkey ↦
          hk ((key_of_mem_gcVersions he).symm.trans (of_decide_eq_true hkey))
      rw [hnone, nil_append]
      simp [Ne.symm hk]
  have hasc := ascending_uniqOf runs
  have hnodup : (distinctKeys (uniqOf runs)).Nodup :=
    (distinctKeys_pairwise (hasc.imp key_le)).imp ne_of_lt
  have hmerge := hgroups (distinctKeys (uniqOf runs)) hnodup
  rw [compactMerge]
  rw [hmerge]
  split_ifs with hmem
  · rfl
  rw [mem_distinctKeys_iff] at hmem
  have hnil : (uniqOf runs).filter (fun e ↦ e.key = key) = [] :=
    filter_eq_nil_iff.mpr fun e he hkey ↦ hmem ⟨e, he, of_decide_eq_true hkey⟩
  rw [hnil]
  rfl

lemma nodup_compactMerge (watermark : Seq) : (compactMerge runs watermark).Nodup := by
  refine (strict_compactMerge runs watermark).imp fun hbefore heq ↦ ?_
  subst heq
  exact hbefore.elim (lt_irrefl _) fun h ↦ lt_irrefl _ h.2

lemma compactMerge_subperm (watermark : Seq) :
    (compactMerge runs watermark).Subperm runs.flatten :=
  subperm_of_subset (nodup_compactMerge runs watermark) fun _ he ↦ mem_of_mem_compactMerge he

lemma newest_visibleAt_congr {first second : List Entry} (hcons : Consistent first)
    (hmem : ∀ e, e ∈ first ↔ e ∈ second) (key : Key) (at_ : Seq) :
    newest seq (first.filter fun e ↦ e.VisibleAt key at_) =
      newest seq (second.filter fun e ↦ e.VisibleAt key at_) := by
  apply Option.ext
  intro v
  rw [hcons.newest_eq_some_iff, (hcons.mono fun e he ↦ (hmem e).mpr he).newest_eq_some_iff]
  simp only [hmem]

def Vanishes (runs : List (List SstEntry)) (watermark : Seq) (key : Key) : Prop :=
  LoneTombstone watermark ((uniqOf runs).filter fun e ↦ e.key = key)

lemma newest_compactMerge {runs : List (List SstEntry)} (hcons : Consistent runs.flatten)
    (hat : watermark ≤ at_) (hkeep : ¬ Vanishes runs watermark key) :
    newest seq
        ((compactMerge runs watermark).filter fun e ↦ e.VisibleAt key at_) =
      newest seq (runs.flatten.filter fun e ↦ e.VisibleAt key at_) := by
  have hasc := pairwise_seq_of_ascending (ascending_uniqOf runs) key
  rw [filter_visibleAt, filter_compactMerge, newest_gcVersions hasc hat hkeep, ← filter_visibleAt]
  exact newest_visibleAt_congr (hcons.mono fun e he ↦ (mem_uniqOf hcons).mp he)
    (fun e ↦ mem_uniqOf hcons) key at_

lemma filter_compactMerge_of_vanishes {runs : List (List SstEntry)}
    (hgone : Vanishes runs watermark key) (at_ : Seq) :
    (compactMerge runs watermark).filter (fun e ↦ e.VisibleAt key at_) = [] := by
  have hasc := pairwise_seq_of_ascending (ascending_uniqOf runs) key
  rw [filter_visibleAt, filter_compactMerge, gcVersions_of_lone hasc hgone]
  rfl

lemma exists_tombstone_of_vanishes {runs : List (List SstEntry)}
    (hcons : Consistent runs.flatten) (hgone : Vanishes runs watermark key) :
    ∃ last ∈ runs.flatten, last.key = key ∧ last.tombstone = true ∧ last.seq ≤ watermark ∧
      (∀ e ∈ runs.flatten, e.key = key → e.seq ≤ last.seq) ∧
      ∀ at_, watermark ≤ at_ → newest seq
        (runs.flatten.filter fun e ↦ e.VisibleAt key at_) = some last := by
  obtain ⟨last, hlast, htomb, hle⟩ := hgone
  have hasc := pairwise_seq_of_ascending (ascending_uniqOf runs) key
  obtain ⟨huniq, hkey⟩ := mem_filter.mp (mem_of_getLast? hlast)
  have hkey : last.key = key := of_decide_eq_true hkey
  have hmem := (mem_uniqOf hcons).mp huniq
  have hmax : ∀ e ∈ runs.flatten, e.key = key → e.seq ≤ last.seq := by
    intro e he hekey
    have hnewest := (newest_eq_getLast? hasc).trans hlast
    exact le_newest hnewest
      (mem_filter.mpr ⟨(mem_uniqOf hcons).mpr he, decide_eq_true hekey⟩)
  refine ⟨last, hmem, hkey, htomb, hle, hmax, fun at_ hat ↦ hcons.newest_eq_some_iff.mpr ?_⟩
  exact ⟨hmem, ⟨hkey, hle.trans hat⟩, fun e he hvisible ↦ hmax e he hvisible.1⟩

/-- The merged run ascends strictly, holds what is above the watermark once and nothing new, and
shows every snapshot at or above the watermark the same values. -/
theorem compactMerge_law (runs : List (List SstEntry)) (watermark : Seq)
    (hcons : Consistent runs.flatten) : (compactMerge runs watermark).Pairwise Before ∧
      (∀ e ∈ runs.flatten, watermark < e.seq → (compactMerge runs watermark).count e = 1) ∧
      (∀ e ∈ compactMerge runs watermark, e ∈ runs.flatten) ∧
      ∀ key at_, watermark ≤ at_ → ∀ e, e.tombstone = false →
        (newest seq ((compactMerge runs watermark).filter fun d ↦ d.VisibleAt key at_) = some e ↔
          newest seq (runs.flatten.filter fun d ↦ d.VisibleAt key at_) = some e) := by
  refine ⟨strict_compactMerge runs watermark, fun e he hlt ↦ ?_,
    fun e he ↦ mem_of_mem_compactMerge he, fun key at_ hat e hvalue ↦ ?_⟩
  · refine count_eq_one_of_mem (nodup_compactMerge runs watermark) ?_
    have hkey : e ∈ (uniqOf runs).filter fun d ↦ d.key = e.key :=
      mem_filter.mpr ⟨(mem_uniqOf hcons).mpr he, decide_eq_true rfl⟩
    have hversion := mem_gcVersions hkey hlt
    rw [← filter_compactMerge] at hversion
    exact (mem_filter.mp hversion).1
  · by_cases hgone : Vanishes runs watermark key
    · obtain ⟨last, -, -, htomb, -, -, hlast⟩ := exists_tombstone_of_vanishes hcons hgone
      rw [filter_compactMerge_of_vanishes hgone, newest_nil, hlast at_ hat]
      simp only [reduceCtorEq, Option.some.injEq, false_iff]
      rintro rfl
      exact absurd htomb (by simp [hvalue])
    · rw [newest_compactMerge hcons hat hgone]

/-- A copy, an old version and a deleted key, merged at the watermark 2. -/
theorem compactMerge_law_copied :
    let kept : SstEntry := ⟨2, [7], [2], false, false⟩
    let runs : List (List SstEntry) := [[⟨1, [7], [1], false, false⟩, kept],
      [kept, ⟨3, [7], [3], false, false⟩, ⟨1, [9], [], true, false⟩]]
    compactMerge runs 2 = [kept, ⟨3, [7], [3], false, false⟩] ∧
      (compactMerge runs 2).Pairwise Before ∧
      (compactMerge runs 2).count ⟨3, [7], [3], false, false⟩ = 1 ∧
      newest seq ((compactMerge runs 2).filter fun e ↦ e.VisibleAt [7] 2) = some kept := by
  intro kept runs
  obtain ⟨hstrict, hcount, -, hnewest⟩ := compactMerge_law runs 2 (by unfold Consistent; decide)
  refine ⟨by decide, hstrict, hcount _ (by decide) (by decide), ?_⟩
  exact (hnewest [7] 2 le_rfl kept rfl).mpr (by decide)

end Lockstep.Storage
