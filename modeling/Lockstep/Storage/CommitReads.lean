import Lockstep.Storage.CommitValues

/-!
# Reads after commits that overlap

A flush takes the versions in the memtable, writes them to a table and then drops every version that
could be flushed.
-/

namespace Lockstep.Storage

open List

open Library GuardedRun Newest WalEngine SSTableBuilder BloomFilter Write SSTableReader

def Write.version (w : Write) : Entry := w.record w.value false

namespace CommitPool

/-- A version is inserted while no flush is between taking the memtable and dropping its versions,
and behind smaller numbers of its key only. The Bloom filter of a table has a size that fits. -/
def InsertsInOrder (pool : CommitPool) (w : Write) : Place → Prop
  | .walRecord _ => (∀ t ∈ pool.tasks, t.2.place.installing = none) ∧
    ∀ v ∈ pool.state.mem.entries, v.key = w.key → v.seq ≤ w.seq
  | .flushCalled | .vlogSync _ =>
    SizeFits (distinctKeys pool.state.mem.flushEntries).length
  | _ => True

instance (pool : CommitPool) (w : Write) : (place : Place) →
    Decidable (InsertsInOrder pool w place)
  | .walRecord _ => inferInstanceAs (Decidable (_ ∧ _))
  | .flushCalled => inferInstanceAs (Decidable (SizeFits _))
  | .vlogSync _ => inferInstanceAs (Decidable (SizeFits _))
  | .spawned | .valueLog _ _ | .walHeader _ | .tableAppend _ _ | .tableSync _ _
  | .manifestHeader _ _ _ | .manifestRecord _ _ _ | .manifestSync _ _ | .flushReturned
  | .finished => isTrue trivial

def InOrder (pool : CommitPool) : CommitEvent → Prop
  | .resume task => ∀ t ∈ pool.tasks[task]?,
    AppendsAlone pool t.1 t.2 ∧ InsertsInOrder pool t.1 t.2.place
  | _ => True

instance (pool : CommitPool) : (event : CommitEvent) → Decidable (InOrder pool event)
  | .resume task => inferInstanceAs (Decidable (∀ t ∈ pool.tasks[task]?, _ ∧ _))
  | .call _ _ _ | .complete _ _ => isTrue trivial

variable {event : CommitEvent}

lemma InOrder.oneAppend {pool : CommitPool} (h : InOrder pool event) : OneAppend pool event := by
  cases event with
  | resume task => exact fun t ht ↦ (h t ht).1
  | _ => trivial

/-! ### What holds between turns -/

structure Numbered (e : WalEngine) (writes : List Write) : Prop where
  readable : e.Readable
  seqs : writes.map seq = range' 1 e.lastSeq

structure Keeping (e : WalEngine) (_ : List Write) (w : Write) (p : Position) : Prop where
  held : p.place.inserted = true → ∃ v ∈ e.versions, v.seq = w.seq
  taken : ∀ t ∈ p.place.installing, (∀ v ∈ e.mem.flushEntries, v ∈ t.2) ∧ Ascending t.2 ∧
    SizeFits (distinctKeys t.2).length

structure Complete (pool : CommitPool) : Prop where
  coherent : Coherent pool
  holds : pool.Holds Numbered Keeping fun _ _ ↦ True

variable {pool : CommitPool} {i : ℕ} {e after : WalEngine} {w : Write} {p p' : Position}
  {writes more : List Write}

lemma Keeping.mono (h : Keeping e writes w p) (hversions : ∀ v ∈ e.versions, v ∈ after.versions)
    (hmem : p.place.installing ≠ none →
      ∀ v ∈ after.mem.flushEntries, v ∈ e.mem.flushEntries) : Keeping after more w p where
  held hinserted := by
    obtain ⟨v, hv, hseq⟩ := h.held hinserted
    exact ⟨v, hversions v hv, hseq⟩
  taken t ht := by
    obtain ⟨htaken, hasc, hsize⟩ := h.taken t ht
    refine ⟨fun v hv ↦ htaken v (hmem ?_ v hv), hasc, hsize⟩
    rw [ht]
    nofun

structure Keeps (pool : CommitPool) (w : Write) (after : WalEngine) (p' : Position) : Prop where
  readable : after.Readable
  lastSeq : after.lastSeq = pool.state.lastSeq
  versions : ∀ v ∈ pool.state.versions, v ∈ after.versions
  mem : (∀ v ∈ after.mem.flushEntries, v ∈ pool.state.mem.flushEntries) ∨
    ∀ t ∈ pool.tasks, t.2.place.installing = none
  own : Keeping after pool.arguments w p'

lemma Complete.turn (h : Complete pool)
    {act : WalEngine → Write → Position → WalEngine × Position}
    (hcoherent : Coherent (pool.turn act i))
    (hturn : ∀ w p, pool.tasks[i]? = some (w, p) →
      Keeps pool w (act pool.state w p).1 (act pool.state w p).2) :
    Complete (pool.turn act i) := by
  refine ⟨hcoherent, h.holds.turn fun w p hi ↦ ?_⟩
  have ht := hturn w p hi
  refine ⟨⟨ht.readable, ?_⟩, ht.own, fun j w' other hne hj ↦ ⟨?_, trivial, trivial⟩⟩
  · rw [ht.lastSeq]
    exact h.holds.shared.seqs
  · refine (h.holds.each j w' other hj).mono ht.versions fun hinstalling ↦ ?_
    rcases ht.mem with hmem | hnone
    · exact hmem
    · exact absurd (hnone _ (mem_of_getElem? hj)) hinstalling

lemma Complete.keeps_of_eq (h : Complete pool) (hlast : after.lastSeq = pool.state.lastSeq)
    (hmem : after.mem = pool.state.mem) (htables : after.sstables = pool.state.sstables)
    (hown : Keeping pool.state pool.arguments w p') : Keeps pool w after p' := by
  have hversions : after.versions = pool.state.versions := by
    rw [versions, versions, hmem, htables]
  refine ⟨⟨?_, ?_⟩, hlast, fun v hv ↦ by rwa [hversions], .inl fun v hv ↦ hmem ▸ hv, ?_⟩
  · rw [hmem]
    exact h.holds.shared.readable.mem
  · rw [htables]
    exact h.holds.shared.readable.tables
  · exact hown.mono (fun v hv ↦ by rwa [hversions]) fun _ v hv ↦ hmem ▸ hv

lemma keeping_of_none (hinserted : p.place.inserted = false)
    (hnone : p.place.installing = none) : Keeping e writes w p where
  held h := absurd (hinserted.symm.trans h) nofun
  taken t ht := by
    rw [hnone] at ht
    cases ht

lemma keeping_of_held (hheld : ∃ v ∈ e.versions, v.seq = w.seq)
    (hnone : p.place.installing = none) : Keeping e writes w p where
  held _ := hheld
  taken t ht := by
    rw [hnone] at ht
    cases ht

/-! ### One turn -/

section

variable (h : Complete pool)

include h

lemma Complete.inserts {record : WalRecord}
    (hstands : pool.state.Stands w record) (hsafe : InsertsInOrder pool w (.walRecord record))
    {next : Place} (hnext : next = .flushCalled ∨ next = .finished) :
    Keeps pool w { pool.state with mem := pool.state.mem.insert record } { place := next } := by
  obtain ⟨hidle, horder⟩ := hsafe
  refine ⟨⟨?_, h.holds.shared.readable.tables⟩, rfl, fun v hv ↦ ?_, .inr hidle, ?_⟩
  · refine Memtable.Ascending.place h.holds.shared.readable.mem fun v hv hkey ↦ ?_
    rw [hstands.seq]
    exact horder v hv (hkey.trans hstands.key)
  · exact (mem_append.mp hv).elim
      (fun hmem ↦ mem_append_left _ (Memtable.mem_place.mpr (.inr hmem)))
      (mem_append_right _)
  · refine keeping_of_held ⟨record, ?_, hstands.seq⟩ (by rcases hnext with rfl | rfl <;> rfl)
    exact mem_append_left _ (Memtable.mem_place.mpr (.inl rfl))

lemma Complete.installs {id : ℕ} {entries : List SstEntry}
    (hi : pool.tasks[i]? = some (w, p)) (hplace : p.place = .manifestSync id entries) :
    Keeps pool w
      { pool.state with
        sstables := pool.state.sstables ++ [adoptBuilt (build entries) id],
        mem := pool.state.mem.eraseFlushable }
      { place := .flushReturned } := by
  have hkeeping := h.holds.each i w p hi
  obtain ⟨htaken, hasc, hsize⟩ := hkeeping.taken (id, entries) (by rw [hplace]; rfl)
  have hread := h.holds.shared.readable
  have hversions : ∀ v ∈ pool.state.versions,
      v ∈ pool.state.mem.eraseFlushable.entries ++ (pool.state.sstables ++
        [adoptBuilt (build entries) id]).flatMap
          collectEntries := by
    intro v hv
    rw [flatMap_append, flatMap_singleton, collectEntries_adoptBuilt]
    rcases mem_append.mp hv with hmem | htable
    · rcases mem_eraseFlushable_or.mpr hmem with hstays | hdropped
      · exact mem_append_left _ hstays
      · exact mem_append_right _ (mem_append_right _ (htaken v hdropped))
    · exact mem_append_right _ (mem_append_left _ htable)
  refine ⟨⟨?_, forall_mem_append.mpr
    ⟨hread.tables, forall_mem_singleton.mpr (wellFormed_adoptBuilt hasc hsize id)⟩⟩, rfl,
    hversions, .inl fun v hv ↦ ?_, ?_⟩
  · change Ascending pool.state.mem.eraseFlushable.entries
    rw [Memtable.eraseFlushable_entries]
    exact hread.mem.filter _
  · obtain ⟨hmem, hflushable⟩ := mem_filter.mp hv
    rw [Memtable.isResident_eraseFlushable] at hflushable
    exact mem_filter.mpr ⟨mem_eraseFlushable_or.mp (.inl hmem), hflushable⟩
  · obtain ⟨v, hv, hseq⟩ := hkeeping.held (by rw [hplace]; rfl)
    exact keeping_of_held ⟨v, hversions v hv, hseq⟩ rfl

lemma Complete.moves (hi : pool.tasks[i]? = some (w, p)) {ok : Bool}
    {place : Place} (hsafe : InsertsInOrder pool w p.place)
    (hmoves : Moves pool.state w ok p.place after place) :
    Keeps pool w after { place := place } := by
  have hkeeping := h.holds.each i w p hi
  generalize hplace : p.place = before at hmoves
  cases hmoves with
  | separates => exact h.keeps_of_eq rfl rfl rfl (keeping_of_none rfl rfl)
  | inline _ hnext | separated _ hnext =>
    obtain ⟨hnone, -, hinserted⟩ := Place.of_record hnext
    exact h.keeps_of_eq rfl rfl rfl (keeping_of_none hinserted hnone)
  | logs => exact h.keeps_of_eq rfl rfl rfl (keeping_of_none rfl rfl)
  | inserts record hnext =>
    have hstands := (h.coherent.holds.each i w p hi).record record (by rw [hplace]; rfl)
    exact h.inserts hstands (hplace ▸ hsafe) hnext
  | syncs =>
    have hheld := hkeeping.held (by rw [hplace]; rfl)
    exact h.keeps_of_eq rfl rfl rfl (keeping_of_held hheld rfl)
  | snapshots hbefore =>
    rw [hplace] at hsafe
    have hsize : SizeFits
        (distinctKeys pool.state.mem.flushEntries).length := by
      rcases hbefore with rfl | ⟨gen, rfl⟩ <;> exact hsafe
    have hheld := hkeeping.held (by rcases hbefore with rfl | ⟨gen, rfl⟩ <;> rw [hplace] <;> rfl)
    refine h.keeps_of_eq rfl rfl rfl ⟨fun _ ↦ hheld, ?_⟩
    rintro _ ⟨⟩
    exact ⟨fun v hv ↦ hv, h.holds.shared.readable.mem.filter _, hsize⟩
  | proceeds tip started hbefore hnext =>
    rw [← hplace] at hbefore
    have hheld := hkeeping.held (Place.of_installing hbefore).2.2
    refine h.keeps_of_eq rfl rfl rfl ⟨fun _ ↦ hheld, fun t ht ↦ ?_⟩
    exact hkeeping.taken t (Option.some.inj (hnext.symm.trans ht) ▸ hbefore)
  | installs id entries => exact h.installs hi hplace
  | returns tip hbefore hnext =>
    have hheld := hkeeping.held (hplace ▸ hbefore)
    refine h.keeps_of_eq rfl rfl rfl (keeping_of_held hheld ?_)
    rcases hnext with rfl | rfl <;> rfl

lemma Complete.complete (ok : Bool) : Complete (pool.turn (completes ok) i) := by
  refine h.turn (h.coherent.complete ok) fun w p hi ↦ ?_
  have hkeeping := h.holds.each i w p hi
  rcases completes_cases ok pool.state w p with hsame | ⟨-, d, factory, man, heq, -⟩
  · rw [hsame]
    exact h.keeps_of_eq rfl rfl rfl hkeeping
  · rw [heq]
    exact h.keeps_of_eq rfl rfl rfl ⟨hkeeping.held, hkeeping.taken⟩

lemma Complete.resume (hsafe : InOrder pool (.resume i)) : Complete (pool.turn resumes i) := by
  refine h.turn (h.coherent.resume hsafe.oneAppend) fun w p hi ↦ ?_
  rcases resumes_cases pool.state w p with hsame | ⟨ok, after, place, -, heq, hmoves⟩
  · rw [hsame]
    exact h.keeps_of_eq rfl rfl rfl (h.holds.each i w p hi)
  · rw [heq]
    exact h.moves hi (hsafe (w, p) hi).2 hmoves

lemma Complete.call {key : Key} {value : Value} {tombstone : Bool} :
    Complete (pool.step (.call key value tombstone)) := by
  refine ⟨h.coherent.call _ _, h.holds.spawn ⟨?_, ?_⟩ (keeping_of_none rfl rfl)
    fun j w' p hj ↦ ⟨?_, trivial, trivial⟩⟩
  · exact ⟨h.holds.shared.readable.mem, h.holds.shared.readable.tables⟩
  · rw [map_append, h.holds.shared.seqs]
    change _ = range' 1 (pool.state.lastSeq + 1)
    rw [range'_concat]
    exact congrArg _ (congrArg (fun n ↦ [n]) (by rw [Nat.one_mul, Nat.add_comm]))
  · exact (h.holds.each j w' p hj).mono (fun v hv ↦ hv) fun _ v hv ↦ hv

lemma Complete.step (hsafe : InOrder pool event) : Complete (pool.step event) := by
  cases event with
  | call key value tombstone => exact h.call
  | complete task ok => exact h.complete ok
  | resume task => exact h.resume hsafe

end

lemma Complete.start (c : Config) (io : Script) :
    Complete { state := c.engine io } where
  coherent := Coherent.start c io
  holds := by
    refine ⟨⟨⟨List.Pairwise.nil, nofun⟩, rfl⟩, fun i w p hi ↦ ?_,
      fun i j w p w' p' _ hi ↦ ?_⟩
    all_goals cases hi

/-! ### Reads -/

lemma Complete.eq_of_seq (h : Complete pool) {w w' : Write} (hw : w ∈ pool.arguments)
    (hw' : w' ∈ pool.arguments) (hseq : w.seq = w'.seq) : w = w' := by
  have hnodup : (pool.arguments.map seq).Nodup := by
    rw [h.holds.shared.seqs]
    exact nodup_range'
  exact inj_on_of_nodup_map hnodup hw hw' hseq

lemma Complete.exists_stands (h : Complete pool)
    (hdone : ∀ t ∈ pool.tasks, t.2.place = .finished) (hw : w ∈ pool.arguments) :
    ∃ v ∈ pool.state.versions, pool.state.Stands w v := by
  obtain ⟨t, ht, rfl⟩ := mem_map.mp hw
  obtain ⟨i, hi⟩ := getElem?_of_mem ht
  obtain ⟨v, hv, hseq⟩ := (h.holds.each i t.1 t.2 hi).held (by rw [hdone t ht]; rfl)
  obtain ⟨w', hw', hstands⟩ := h.coherent.holds.shared.2 v hv
  rw [h.eq_of_seq hw hw' (hseq.symm.trans hstands.seq)]
  exact ⟨v, hv, hstands⟩

lemma Complete.get_eq (h : Complete pool) (hdone : ∀ t ∈ pool.tasks, t.2.place = .finished)
    (key : Key) (at_ : Seq) :
    pool.state.get key at_ =
      shown (seenAt (pool.arguments.map version) key at_) := by
  have hrel := @newest_related Entry Entry.seq Entry Entry.seq
    (fun v version ↦ ∃ w ∈ pool.arguments, version = w.version ∧ pool.state.Stands w v)
    (pool.state.versions.filter fun v ↦ v.VisibleAt key at_)
    ((pool.arguments.map version).filter fun v ↦ v.VisibleAt key at_)
    ?_ ?_ ?_ ?_
  · rw [WalEngine.get, h.holds.shared.readable.getHit_eq_newest, WalEngine.newestAt,
      WalEngine.seenAt]
    generalize newest Entry.seq (pool.state.versions.filter _) = held at hrel ⊢
    generalize newest Entry.seq ((pool.arguments.map version).filter _) = asked at hrel ⊢
    cases hrel with
    | none => rfl
    | some hrelated =>
      obtain ⟨w, -, rfl, hstands⟩ := hrelated
      rw [Option.bind_some, hstands.keeps.materialise_eq, hstands.tombstone]
      rfl
  · rintro v _ ⟨w, -, rfl, hstands⟩
    exact hstands.seq
  · intro v hv v' hv' hseq
    obtain ⟨w, hw, rfl⟩ := mem_map.mp (mem_filter.mp hv).1
    obtain ⟨w', hw', rfl⟩ := mem_map.mp (mem_filter.mp hv').1
    rw [h.eq_of_seq hw hw' hseq]
  · intro v hv
    obtain ⟨hmem, hvisible⟩ := mem_filter.mp hv
    obtain ⟨w, hw, hstands⟩ := h.coherent.holds.shared.2 v hmem
    refine ⟨w.version, mem_filter.mpr ⟨mem_map_of_mem hw, ?_⟩, w, hw, rfl, hstands⟩
    obtain ⟨hkey, hseq⟩ := of_decide_eq_true hvisible
    exact decide_eq_true ⟨hstands.key.symm.trans hkey, hstands.seq.symm.trans_le hseq⟩
  · intro v hv
    obtain ⟨hmem, hvisible⟩ := mem_filter.mp hv
    obtain ⟨w, hw, rfl⟩ := mem_map.mp hmem
    obtain ⟨v, hv, hstands⟩ := h.exists_stands hdone hw
    refine ⟨v, mem_filter.mpr ⟨hv, ?_⟩, w, hw, rfl, hstands⟩
    obtain ⟨hkey, hseq⟩ := of_decide_eq_true hvisible
    exact decide_eq_true ⟨hstands.key.trans hkey, hstands.seq.trans_le hseq⟩

/-- In every run in which values and versions are stored in order, once all commits have finished a
read returns the value of the newest write to the key that the snapshot sees, and nothing for a
delete. -/
theorem overlapping_commits_read (c : Config) (io : Script) {events : List CommitEvent}
    (hsafe : Meets step InOrder { state := c.engine io } events)
    (hdone : ∀ t ∈ (run step { state := c.engine io } events).tasks,
      t.2.place = .finished) (key : Key) (at_ : Seq) :
    let pool := run step { state := c.engine io } events
    pool.state.get key at_ =
      shown (seenAt (pool.arguments.map version) key at_) :=
  (hsafe.induction Complete (fun _ _ hcomplete ↦ hcomplete.step)
    (Complete.start c io)).get_eq hdone key at_

def commitsInOrder : List CommitEvent :=
  [.call [1] [10, 11] false, .resume 0, .complete 0 true, .resume 0, .complete 0 true, .resume 0,
    .complete 0 true, .resume 0, .call [1] [] true, .call [2] [20] false, .resume 1, .resume 2,
    .complete 2 true, .complete 1 false, .resume 1, .resume 2, .resume 1, .complete 1 true,
    .resume 1, .complete 1 true, .resume 1, .complete 1 true, .resume 1, .complete 1 true,
    .resume 1, .complete 1 true, .resume 1, .complete 1 true, .resume 1, .resume 1, .resume 2,
    .resume 2]

theorem overlapping_commits_read_inOrder :
    let c : Config := { flushThreshold := 1, valueThreshold := 1 }
    let pool := run step { state := c.engine Script.honest } commitsInOrder
    (pool.state.sstables.length = 1) ∧
      pool.state.get [1] 3 =
        shown (seenAt (pool.arguments.map version) [1] 3) :=
  ⟨by decide +kernel, overlapping_commits_read _ _ (by decide +kernel) (by decide +kernel) [1] 3⟩

def commitDuringFlush : List CommitEvent :=
  [.call [1] [10] false, .resume 0, .complete 0 true, .resume 0, .complete 0 true, .resume 0,
    .call [2] [20] false, .call [3] [30] false, .resume 1, .complete 1 true, .resume 1, .resume 1,
    .complete 1 true, .resume 1, .complete 1 true, .resume 1, .complete 1 true, .resume 1,
    .complete 1 true, .resume 1, .complete 1 true, .resume 2, .complete 2 true, .resume 2,
    .resume 1, .resume 1, .resume 2, .resume 2]

/-- The flush drops the third version, which is not in its table. -/
theorem overlapping_commit_lost :
    let pool := run step
      { state := WalEngine.Config.engine { flushThreshold := 1 } Script.honest } commitDuringFlush
    (∀ t ∈ pool.tasks, t.2.place = .finished) ∧
      pool.arguments.map version =
        [{ seq := 1, key := [1], value := [10] }, { seq := 2, key := [2], value := [20] },
          { seq := 3, key := [3], value := [30] }] ∧
      pool.state.get [3] 3 = none := by
  decide +kernel

end CommitPool

end Lockstep.Storage
