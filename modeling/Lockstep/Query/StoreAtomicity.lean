import Lockstep.Query.PersistentStore

/-!
# Write-sets and crashes

A write-set is a run of records without a mark at its end, and a crash may cut the log between two
of them.
-/

namespace Lockstep.Query.PersistentStore

open Library Storage OrderedMap List Option

variable {e : WalEngine}

def applied (sets : List WriteSet) : PersistentStore :=
  (sets.map Call.apply).foldl call (injected Script.honest)

def unsynced (s : PersistentStore) (ws : WriteSet) : PersistentStore :=
  { s with engine := applyWrites s.engine ws }

/-- Wherever a crash cuts the log in a call, recovery gives what some number of whole write-sets
give. A crash between two calls is one of the cuts, and so is one after the sync. -/
def Atomic (done : List WriteSet) (current : WriteSet) : Prop :=
  ∀ bytes, Logged.Leaves ((applied done).unsynced current).engine.disk bytes →
    ∃ count ≤ done.length + 1, ∀ key,
      ((((applied done).unsynced current).crashed bytes).recover bytes.length).live key =
        (applied ((done ++ [current]).take count)).live key

variable (sets : List WriteSet)

lemma foldl_addTo_apply (writes : List (Key × Value)) :
    (sets.map Call.apply).foldl addTo (writes, []) =
      (writes ++ sets.flatMap entries, []) := by
  induction sets generalizing writes with
  | nil => rw [flatMap_nil, append_nil]; rfl
  | cons ws sets ih =>
    rw [map_cons, foldl_cons, addTo, ih, flatMap_cons, append_assoc]
    rfl

lemma serves_applied : Serves (applied sets) (sets.flatMap entries) [] := by
  have hrun := Serves.start.run (sets.map Call.apply)
  rwa [foldl_addTo_apply] at hrun

lemma live_applied (key : Key) :
    (applied sets).live key = contents (sets.flatMap entries) key := by
  rw [(serves_applied sets).live_eq, append_nil]

lemma logged_unsynced (done : List WriteSet) (current : WriteSet) :
    Logged ((applied done).unsynced current).engine (done.flatMap entries)
      current.entries :=
  (serves_applied done).toLogged.foldl current.entries

lemma atomic_of_length_le_one {done : List WriteSet} {current : WriteSet}
    (hdone : FitsLog (done.flatMap entries)) (hcurrent : FitsLog current.entries)
    (hone : current.entries.length ≤ 1) : Atomic done current := by
  intro bytes hleaves
  obtain ⟨kept, hkept, hlive⟩ := recover_crash (logged_unsynced done current) hdone hcurrent hleaves
  rcases eq_or_ne kept [] with rfl | hne
  · refine ⟨done.length, Nat.le_succ _, fun key ↦ ?_⟩
    rw [hlive, live_applied, take_left, append_nil]
  · have hall : kept = current.entries :=
      hkept.eq_of_length_le (hone.trans (length_pos_of_ne_nil hne))
    refine ⟨done.length + 1, le_rfl, fun key ↦ ?_⟩
    rw [hlive, live_applied, hall, take_of_length_le (by simp), flatMap_append, flatMap_singleton]

/-! ### A write-set that is torn -/

lemma grows_foldl {synced pending : List (Key × Value)}
    (h : Logged e synced pending) (writes : List (Key × Value)) :
    e.disk.durable = (writes.foldl applyWrite e).disk.durable ∧
      e.disk.image <+: (writes.foldl applyWrite e).disk.image := by
  induction writes generalizing e pending with
  | nil => exact ⟨rfl, prefix_rfl⟩
  | cons kv writes ih =>
    obtain ⟨hdurable, himage⟩ := ih (h.applyWrite kv)
    obtain ⟨_, _, d, hwritten, heq, -⟩ := h.walOnly.commit_spec kv.1 ((effect kv.2).getD [])
      (effect kv.2).isNone
    have hd : (applyWrite e kv).disk = d := by rw [applyWrite_eq, heq]
    rw [hd] at hdurable himage
    refine ⟨hwritten.durable_eq.symm.trans hdurable, List.IsPrefix.trans ?_ himage⟩
    cases hwritten with
    | landed front _ =>
      rw [Disk.image_append, Disk.image_append, append_assoc]
      exact prefix_append _ _
    | lost front _ =>
      rw [Disk.image_append]
      exact prefix_append _ _

lemma exists_crash_after {done : List WriteSet} {current : WriteSet}
    {first rest : List (Key × Value)} (hsplit : current.entries = first ++ rest)
    (hdone : FitsLog (done.flatMap entries ++ first)) :
    ∃ bytes, Logged.Leaves ((applied done).unsynced current).engine.disk bytes ∧ ∀ key,
      ((((applied done).unsynced current).crashed bytes).recover bytes.length).live key =
        contents (done.flatMap entries ++ first) key := by
  have hbefore := (serves_applied done).toLogged
  have hfirst : Logged (first.foldl applyWrite (applied done).engine)
      (done.flatMap entries) first := hbefore.foldl first
  have hunsynced : ((applied done).unsynced current).engine =
      rest.foldl applyWrite (first.foldl applyWrite (applied done).engine) := by
    rw [← foldl_append, ← hsplit]
    rfl
  set e := first.foldl applyWrite (applied done).engine with he
  have hsync := hfirst.sync
  obtain ⟨ok, io, factory, d, heq, -, hsynced, -, hhonest⟩ := e.sync_spec
  obtain ⟨rfl, rfl⟩ := hhonest hfirst.honest
  obtain ⟨rfl, -⟩ := hsynced rfl
  refine ⟨e.disk.image, ?_, fun key ↦ ?_⟩
  · obtain ⟨hdurable, himage⟩ := grows_foldl hfirst rest
    rw [hunsynced]
    refine ⟨?_, himage⟩
    rw [← hdurable]
    exact prefix_append _ _
  · -- A store that has synced the first writes recovers from the same bytes.
    have hleaves : Logged.Leaves e.sync.2.disk e.disk.image := by
      rw [heq]
      exact ⟨prefix_rfl, by rw [Disk.image_sync]⟩
    obtain ⟨kept, hkept, hlive⟩ := @recover_crash _ { engine := e.sync.2 } _ _ hsync hdone
      ⟨nofun, nofun, by decide⟩ hleaves
    obtain rfl := prefix_nil.mp hkept
    rw [append_nil] at hlive
    unfold recover crashed at hlive ⊢
    rw [← hlive, (logged_unsynced done current).honest, hsync.honest]

def other (value : Value) : Value := if value = [0] then [1] else [0]

variable (value : Value)

lemma length_other : (other value).length = 1 := by
  rw [other]
  split_ifs <;> rfl

lemma effect_other : effect (other value) = some (other value) := by
  rw [effect, if_neg]
  rw [other]
  split_ifs <;> decide

lemma some_other_ne : some (other value) ≠ effect value := by
  rw [effect, other]
  split_ifs with hzero hdelete
  · exact some_ne_none _
  · rw [hzero]
    decide
  · exact some_ne_none _
  · exact fun heq ↦ hzero (some.inj heq).symm

def otherwise (key key' : Key) (value value' : Value) (hkeys : key < key') : WriteSet :=
  ⟨[(key, other value), (key', other value')], pairwise_pair.mpr hkeys⟩

lemma not_atomic_of_two {current : WriteSet} {key key' : Key} {value value' : Value}
    {rest : List (Key × Value)}
    (hentries : current.entries = (key, value) :: (key', value') :: rest)
    (hkeys : key < key')
    (hfits : FitsLog ((otherwise key key' value value' hkeys).entries ++ [(key, value)])) :
    ¬ Atomic [otherwise key key' value value' hkeys] current := by
  set before := otherwise key key' value value' hkeys with hbefore
  have hdone : [before].flatMap entries = before.entries := flatMap_singleton _ _
  intro hatomic
  obtain ⟨bytes, hleaves, hlive⟩ := @exists_crash_after [before] current [(key, value)] _ hentries
    (by rwa [hdone])
  obtain ⟨count, hcount, hsame⟩ := hatomic bytes hleaves
  have htorn : ∀ k, contents (before.entries ++ [(key, value)]) k =
      contents (([before, current].take count).flatMap entries) k := by
    intro k
    have heq := (hlive k).symm.trans ((hsame k).trans (live_applied _ k))
    rwa [hdone] at heq
  -- What the crash left under the two keys.
  have hfirst : contents (before.entries ++ [(key, value)]) key = effect value := by
    rw [contents_concat, if_pos rfl]
  have hsecond : contents (before.entries ++ [(key, value)]) key' = some (other value') := by
    rw [contents_concat, if_neg hkeys.ne, ← effect_other]
    exact contents_concat [(key, other value)] (key', other value') key' |>.trans (if_pos rfl)
  match count with
  | 0 => cases hsecond.symm.trans (htorn key')
  | 1 =>
    have hold : contents before.entries key = some (other value) := by
      change contents ([(key, other value)] ++ [(key', other value')]) key = _
      rw [contents_concat, if_neg hkeys.ne', ← effect_other]
      exact contents_concat [] (key, other value) key |>.trans (if_pos rfl)
    have hboth := htorn key
    rw [hfirst, take_succ_cons, take_zero, hdone, hold] at hboth
    exact some_other_ne value hboth.symm
  | count + 2 =>
    have hfound : current.find key' = some value' := by
      rw [find_eq_some_iff, hentries]
      exact mem_cons_of_mem _ mem_cons_self
    have hboth := htorn key'
    rw [hsecond, take_of_length_le (Nat.le_add_left 2 count), flatMap_cons,
      flatMap_singleton, contents_append_entries, hfound] at hboth
    exact some_other_ne value' hboth

/-- A write-set survives a crash as a whole or not at all, whatever was there before it, exactly
when it has at most one entry. -/
theorem apply_atomic_iff (current : WriteSet) (hcurrent : FitsLog current.entries) :
    (∀ done : List WriteSet, FitsLog (done.flatMap entries) → Atomic done current) ↔
      current.entries.length ≤ 1 := by
  constructor
  · intro hatomic
    match hentries : current.entries with
    | [] => exact Nat.zero_le 1
    | [_] => exact le_rfl
    | (key, value) :: (key', value') :: rest =>
      have hsorted := current.sorted
      rw [hentries] at hsorted
      have hkeys : key < key' := rel_of_pairwise_cons hsorted mem_cons_self
      have hmem : (key, value) ∈ current.entries := by
        rw [hentries]
        exact mem_cons_self
      have hmem' : (key', value') ∈ current.entries := by
        rw [hentries]
        exact mem_cons_of_mem _ mem_cons_self
      have hone : ∀ v, (other v).length < 2 ^ 32 := fun v ↦ by
        rw [length_other]
        decide
      have hbefore : FitsLog (otherwise key key' value value' hkeys).entries := by
        refine ⟨?_, ?_, show 2 < 2 ^ 63 by decide⟩
        · have hkey : key.length < 2 ^ 32 := hcurrent.key _ hmem
          have hkey' : key'.length < 2 ^ 32 := hcurrent.key _ hmem'
          exact forall_mem_cons.mpr ⟨hkey, forall_mem_singleton.mpr hkey'⟩
        · exact forall_mem_cons.mpr ⟨hone value, forall_mem_singleton.mpr (hone value')⟩
      refine absurd (hatomic [_] ?_) (not_atomic_of_two hentries hkeys ?_)
      · rwa [flatMap_singleton]
      · refine ⟨forall_mem_append.mpr ⟨hbefore.key, ?_⟩,
          forall_mem_append.mpr ⟨hbefore.value, ?_⟩, show 3 < 2 ^ 63 by decide⟩
        · exact forall_mem_singleton.mpr (hcurrent.key _ hmem)
        · exact forall_mem_singleton.mpr (hcurrent.value _ hmem)
  · intro hone done hdone
    exact atomic_of_length_le_one hdone hcurrent hone

/-- One entry over an earlier write-set that has its key. -/
theorem apply_atomic_single :
    let before : WriteSet := ⟨[([0x61], [0x39])], pairwise_singleton _ _⟩
    Atomic [before] ⟨[([0x61], [0x31])], pairwise_singleton _ _⟩ :=
  (apply_atomic_iff ⟨[([0x61], [0x31])], pairwise_singleton _ _⟩
    ⟨by decide, by decide, by decide⟩).mpr (by decide) [_] ⟨by decide, by decide, by decide⟩

def opened : WriteSet := ⟨[([0x61], [0x39]), ([0x62], [0x31])], pairwise_pair.mpr (by decide)⟩

def transfer : WriteSet :=
  ⟨[([0x61], [0x35]), ([0x62], [0x35])], pairwise_pair.mpr (by decide)⟩

/-- A crash in a transfer takes the amount from one account and gives it to none: what recovery
finds is not what any number of whole write-sets give. -/
theorem transfer_torn : ¬ Atomic [opened] transfer := by
  intro hatomic
  obtain ⟨bytes, hleaves, hlive⟩ := @exists_crash_after [opened] transfer [([0x61], [0x35])]
    [([0x62], [0x35])] rfl ⟨by decide, by decide, by decide⟩
  obtain ⟨count, hcount, hsame⟩ := hatomic bytes hleaves
  have htorn : ∀ key, contents [([0x61], [0x39]), ([0x62], [0x31]), ([0x61], [0x35])] key =
      contents (([opened, transfer].take count).flatMap entries) key :=
    fun key ↦ (hlive key).symm.trans ((hsame key).trans (live_applied _ key))
  match count, hcount with
  | 0, _ => exact absurd (htorn [0x61]) (by decide)
  | 1, _ => exact absurd (htorn [0x61]) (by decide)
  | 2, _ => exact absurd (htorn [0x62]) (by decide)

end Lockstep.Query.PersistentStore
