import Lockstep.Storage.Logged

/-!
# Synced writes across restarts

Runs of writes, syncs, flushes and restarts without I/O errors.
-/

namespace Lockstep.Storage.WalEngine

open Library GuardedRun Newest Script List

/-- A write finds in the log as many records as the engine has given out numbers, and what an
action writes has the widths of the formats. -/
def LogComplete (e : WalEngine) : Event → Prop
  | .call (.write key value tombstone) =>
    e.walRecords.length = e.lastSeq ∧ e.WriteFits key value tombstone
  | .call .flush => TableFits e.mem.flushEntries
  | _ => True

instance (e : WalEngine) : (event : Event) → Decidable (e.LogComplete event)
  | .call (.write _ _ _) => inferInstanceAs (Decidable (_ ∧ _))
  | .call .flush => inferInstanceAs (Decidable (TableFits _))
  | .call .compact | .call .sync | .call (.watermark _) | .restart => isTrue trivial

def outcome (value : Value) (tombstone : Bool) : Option Value :=
  if tombstone then none else some value

def outcomes (key : Key) (events : List Event) : List (Option Value) :=
  events.filterMap fun event ↦
    match event with
    | .call (.write written value tombstone) =>
      if written = key then some (outcome value tombstone) else none
    | _ => none

/-! ### What was written since -/

def Since (e : WalEngine) (records : List WalRecord) (first : Option (List SstEntry)) (key : Key)
    (seq : Seq) (found : List (Option Value)) : Prop :=
  ∀ v, (v ∈ records ∨ ∃ t ∈ firstTables first, v ∈ t.collectEntries) → v.key = key → seq ≤ v.seq →
    ∃ value, e.Keeps v value ∧ outcome value v.tombstone ∈ found

variable {e after : WalEngine} {synced records : List WalRecord} {first : Option (List SstEntry)}
  {key : Key} {seq : Seq} {found : List (Option Value)}

lemma Since.of_keeps {records' : List WalRecord} {first' : Option (List SstEntry)}
    (h : Since e records first key seq found)
    (hsub : ∀ v, (v ∈ records' ∨ ∃ t ∈ firstTables first', v ∈ t.collectEntries) →
      v ∈ records ∨ ∃ t ∈ firstTables first, v ∈ t.collectEntries)
    (hkeeps : ∀ v, (v ∈ records' ∨ ∃ t ∈ firstTables first', v ∈ t.collectEntries) → ∀ value,
      e.Keeps v value → after.Keeps v value) :
    Since after records' first' key seq found := by
  intro v hv hkey hseq
  obtain ⟨value, hvalue, hfound⟩ := h v (hsub v hv) hkey hseq
  exact ⟨value, hkeeps v hv value hvalue, hfound⟩

variable {value : Value}

lemma Keeps.of_grows {v : Entry} (h : e.Keeps v value)
    (hlsm : after.lsm = e.lsm) (hgrows : e.FactoryGrows after) : after.Keeps v value :=
  h.of_isPrefix hlsm fun id ↦ (hgrows id).image

lemma outcomes_append (key : Key) (first second : List Event) :
    outcomes key (first ++ second) = outcomes key first ++ outcomes key second :=
  filterMap_append ..

lemma Since.mono {more : List (Option Value)} (h : Since e records first key seq found)
    (hsub : ∀ out ∈ found, out ∈ more) : Since e records first key seq more := by
  intro v hv hkey hseq
  obtain ⟨value, hvalue, hfound⟩ := h v hv hkey hseq
  exact ⟨value, hvalue, hsub _ hfound⟩

lemma Since.settled (h : Since e records first key seq found) (hlsm : after.lsm = e.lsm)
    (hsettled : Settled e after) : Since after records first key seq found :=
  h.of_keeps (fun _ hv ↦ hv) fun _ _ _ hkeeps ↦ hkeeps.of_grows hlsm hsettled.grows

variable {record : WalRecord}

lemma Since.write (h : Since e records first key seq found)
    (hlsm : after.lsm = e.lsm) (hwrote : Wrote e after record value) :
    Since after (records ++ [record]) first key seq
      (found ++ if record.key = key then [outcome value record.tombstone] else []) := by
  intro v hv hkey hseq
  have hcases : (v ∈ records ∨ ∃ t ∈ firstTables first, v ∈ t.collectEntries) ∨ v = record := by
    rcases hv with hv | htable
    · exact (mem_append.mp hv).imp .inl mem_singleton.mp
    · exact .inl (.inr htable)
  rcases hcases with hold | rfl
  · obtain ⟨old, hold, hfound⟩ := h v hold hkey hseq
    exact ⟨old, hold.of_grows hlsm hwrote.grows, mem_append_left _ hfound⟩
  · refine ⟨value, hwrote.keeps, mem_append_right _ ?_⟩
    rw [if_pos hkey]
    exact mem_singleton_self _

lemma Logged.mem_flushFirst (h : e.Logged synced records first) {v : Entry}
    (hv : v ∈ records ∨ ∃ t ∈ firstTables (e.flushFirst first), v ∈ t.collectEntries) :
    v ∈ records ∨ ∃ t ∈ firstTables first, v ∈ t.collectEntries := by
  rcases hv with hv | ⟨t, ht, hv⟩
  · exact .inl hv
  cases first with
  | some entries => exact .inr ⟨t, ht, hv⟩
  | none =>
    obtain ⟨entries, hsome, -, rfl, -⟩ := mem_firstTables ht
    obtain rfl := Option.some.inj hsome
    rw [collectEntries_adoptBuilt] at hv
    exact .inl (h.memLogged v (mem_filter.mp hv).1)

lemma Logged.since_restart (h : e.Logged synced records first)
    (hsince : Since e records first key seq found) :
    Since e.restart synced first key seq found := by
  obtain ⟨hafter, -⟩ := restart_spec h.lsm
  have hcrash : ∀ v, e.Durably v → ∀ value, e.Keeps v value → e.restart.Keeps v value := by
    intro v hdurably value hkeeps
    refine (hkeeps.crash hdurably).of_isPrefix hafter.lsm fun id ↦ ?_
    rw [hafter.factory]
    exact prefix_rfl
  refine hsince.of_keeps (fun v hv ↦ hv.imp_left fun hv ↦ h.synced_le.subset hv) fun v hv ↦ ?_
  rcases hv with hv | ⟨t, ht, hv⟩
  · exact hcrash v (h.durably v hv)
  · obtain ⟨entries, hsome, -, rfl, -⟩ := mem_firstTables ht
    rw [collectEntries_adoptBuilt] at hv
    exact hcrash v ((h.table entries hsome).durably v hv)

/-! ### One event -/

structure Advances (e after : WalEngine) (synced records synced' records' : List WalRecord)
    (first first' : Option (List SstEntry)) (event : Event) : Prop where
  io : after.io = honest
  synced_le : synced <+: synced'
  records_le : event ≠ .restart → records <+: records'
  sync : event = .call .sync → records <+: synced'
  since : ∀ key seq found, Since e records first key seq found →
    Since after records' first' key seq (found ++ outcomes key [event])

lemma Settled.advances {synced' : List WalRecord} {event : Event} (h : Settled e after)
    (hlsm : after.lsm = e.lsm) (hle : synced <+: synced')
    (hsync : event = .call .sync → records <+: synced') (hnone : ∀ key, outcomes key [event] = []) :
    Advances e after synced records synced' records first first event where
  io := h.io
  synced_le := hle
  records_le _ := prefix_rfl
  sync := hsync
  since key seq found hsince := by
    rw [hnone, append_nil]
    exact hsince.settled hlsm h

lemma Logged.step (h : e.Logged synced records first) (hio : e.io = honest)
    {event : Event} (hfits : e.LogComplete event) (hevent : event ≠ .call .compact) :
    ∃ synced' records' first', (e.step event).Logged synced' records' first' ∧
      Advances e (e.step event) synced records synced' records' first first' event := by
  cases event with
  | restart =>
    refine ⟨synced, synced, first, h.restart,
      ⟨?_, prefix_rfl, fun hne ↦ absurd rfl hne, nofun, fun key seq found hsince ↦ ?_⟩⟩
    · exact (restart_spec h.lsm).1.io.trans hio
    · exact (h.since_restart hsince).mono fun out hout ↦ mem_append_left _ hout
  | call action =>
    cases action with
    | write key value tombstone =>
      obtain ⟨record, rfl, rfl, hwrote, hafter⟩ :=
        h.write hio (h.walRecords_eq ▸ hfits.1) hfits.2
      refine ⟨synced, _, first, hafter, ⟨hwrote.io, prefix_rfl,
        fun _ ↦ prefix_append _ _, nofun, fun key seq found hsince ↦ ?_⟩⟩
      refine (hsince.write (hafter.lsm.trans h.lsm.symm) hwrote).mono fun out hout ↦ ?_
      refine (mem_append.mp hout).elim (mem_append_left _) fun hnew ↦ ?_
      refine mem_append_right _ ?_
      split_ifs at hnew with hkey
      · simpa [outcomes, hkey] using hnew
      · cases hnew
    | flush =>
      rcases h.flush hio hfits (e.doFlush_spec h.lsm) with
        ⟨-, hsettled, hafter⟩ | ⟨-, hmoved, hafter⟩
      · exact ⟨synced, records, first, hafter, hsettled.advances (hafter.lsm.trans h.lsm.symm)
          prefix_rfl nofun fun _ ↦ rfl⟩
      refine ⟨synced, records, _, hafter, ⟨hmoved.io, prefix_rfl,
        fun _ ↦ prefix_rfl, nofun, fun key seq found hsince ↦ ?_⟩⟩
      rw [show outcomes key [.call .flush] = [] from rfl, append_nil]
      exact hsince.of_keeps (fun v hv ↦ h.mem_flushFirst hv) fun v _ value hkeeps ↦
        hkeeps.of_grows (hafter.lsm.trans h.lsm.symm) hmoved.grows
    | compact => exact absurd rfl hevent
    | sync =>
      obtain ⟨hsettled, hafter⟩ := h.sync hio
      exact ⟨records, records, first, hafter, hsettled.advances (hafter.lsm.trans h.lsm.symm)
        h.synced_le (fun _ ↦ prefix_rfl) fun _ ↦ rfl⟩
    | watermark bound =>
      obtain ⟨hsettled, hafter⟩ := h.watermark hio bound
      exact ⟨synced, records, first, hafter, hsettled.advances rfl prefix_rfl nofun
        fun _ ↦ rfl⟩

/-! ### Runs -/

lemma Logged.run (h : e.Logged synced records first) (hio : e.io = honest)
    {events : List Event} (hmeets : Meets WalEngine.step LogComplete e events)
    (hcompact : .call .compact ∉ events) :
    ∃ synced' records' first',
      (run WalEngine.step e events).Logged synced' records' first' ∧
      (run WalEngine.step e events).io = honest ∧ synced <+: synced' ∧
      (.restart ∉ events → records <+: records') ∧
      ∀ key seq found, Since e records first key seq found →
        Since (run WalEngine.step e events) records' first' key seq
          (found ++ outcomes key events) := by
  induction events generalizing e synced records first with
  | nil =>
    refine ⟨synced, records, first, h, hio, prefix_rfl, fun _ ↦ prefix_rfl,
      fun key seq found hsince ↦ ?_⟩
    rw [show outcomes key [] = [] from rfl, append_nil]
    exact hsince
  | cons event events ih =>
    rw [mem_cons, not_or] at hcompact
    obtain ⟨_, _, _, hstep, hadvances⟩ := h.step hio hmeets.1 fun heq ↦ hcompact.1 heq.symm
    obtain ⟨synced', records', first', hrun, hio', hsynced, hrecords, hsince⟩ :=
      ih hstep hadvances.io hmeets.2 hcompact.2
    refine ⟨synced', records', first', hrun, hio', hadvances.synced_le.trans hsynced,
      fun hlife ↦ ?_, fun key seq found hfound ↦ ?_⟩
    · rw [mem_cons, not_or] at hlife
      exact (hadvances.records_le fun heq ↦ hlife.1 heq.symm).trans (hrecords hlife.2)
    · have hboth := hsince key seq _ (hadvances.since key seq found hfound)
      rw [append_assoc, ← outcomes_append] at hboth
      exact hboth

lemma Logged.get_restart_mem (h : e.Logged synced records first) {r : WalRecord}
    (hr : r ∈ synced) (hsince : Since e.restart synced first r.key r.seq found) :
    e.restart.get r.key e.restart.lastSeq ∈ found := by
  obtain ⟨htables, -, hmem, hlast⟩ := h.toOnDisk.restart h.lsm
  have hversions : ∀ v, v ∈ e.restart.versions ↔
      v ∈ synced ∨ ∃ t ∈ firstTables first, v ∈ t.collectEntries := by
    intro v
    rw [versions, mem_append, hmem, htables, mem_flatMap]
  have hseen : r ∈ e.restart.versions.filter fun v ↦ v.VisibleAt r.key e.restart.lastSeq := by
    refine mem_filter.mpr ⟨(hversions r).mpr (.inl hr), decide_eq_true ⟨rfl, ?_⟩⟩
    rw [hlast]
    exact (h.numbered.seq_le hr).trans (le_max_right _ _)
  obtain ⟨v, hv⟩ : ∃ v, e.restart.newestAt r.key e.restart.lastSeq = some v := newest_isSome hseen
  have hseq : r.seq ≤ v.seq := le_newest hv hseen
  obtain ⟨hmember, hvisible⟩ := mem_filter.mp (newest_mem hv)
  obtain ⟨value, hvalue, hfound⟩ :=
    hsince v ((hversions v).mp hmember) (of_decide_eq_true hvisible).1 hseq
  rw [get, (h.toOnDisk.restart_readable h.lsm).getHit_eq_newest, hv, Option.bind_some,
    hvalue.materialise_eq]
  exact hfound

lemma Logged.since_write (h : e.Logged synced records first)
    (hcount : records.length = e.lastSeq) (hwrote : Wrote e after record value) :
    Since after (records ++ [record]) first record.key record.seq
      [outcome value record.tombstone] := by
  intro v hv _ hseq
  have hnew : ∀ w : Entry, w.seq ≤ e.lastSeq → ¬ record.seq ≤ w.seq := by
    intro w hw hle
    rw [hwrote.seq] at hle
    exact absurd (hle.trans hw) (Nat.not_succ_le_self _)
  obtain rfl : v = record := by
    rcases hv with hv | ⟨t, ht, hv⟩
    · rcases mem_append.mp hv with hold | hlast
      · exact absurd hseq (hnew v (hcount ▸ h.numberedAll.seq_le hold))
      · exact mem_singleton.mp hlast
    · exact absurd hseq (hnew v (h.tableSeq t ht v hv).1)
  exact ⟨value, hwrote.keeps, mem_singleton_self _⟩

/-- A write that was synced before a crash, or a later write to its key, is read after every
restart, in every run in which each write finds the log complete. -/
theorem synced_write_survives (c : Config) {before mid later : List Event} {key : Key}
    {value : Value} {tombstone : Bool}
    (hmeets : Meets step LogComplete (c.engine honest)
      (before ++ .call (.write key value tombstone) :: (mid ++ .call .sync ::
        (later ++ [.restart]))))
    (hlife : .restart ∉ mid) (hcompact : .call .compact ∉ before ++ (mid ++ later)) :
    let e := run step (c.engine honest)
      (before ++ .call (.write key value tombstone) ::
        (mid ++ .call .sync :: (later ++ [.restart])))
    e.get key e.lastSeq ∈ outcome value tombstone :: outcomes key (mid ++ later) := by
  simp only [mem_append, not_or] at hcompact
  obtain ⟨hbefore, hwrite, hrest⟩ := hmeets.of_append
  obtain ⟨hmid, -, hrest⟩ := hrest.of_append
  obtain ⟨hlater, -⟩ := hrest.of_append
  -- Up to the write, and the write itself.
  obtain ⟨_, _, _, hstart, hio, -⟩ := (Logged.start c honest).run rfl hbefore hcompact.1
  have hcount := hstart.walRecords_eq ▸ hwrite.1
  obtain ⟨record, rfl, rfl, hwrote, hwritten⟩ := hstart.write hio hcount hwrite.2
  have hsince := hstart.since_write hcount hwrote
  -- The record stays in the log up to the sync, which makes it durable.
  obtain ⟨_, _, _, hended, hio, -, hgrown, hmidSince⟩ :=
    hwritten.run hwrote.io hmid hcompact.2.1
  obtain ⟨_, _, _, hsynced, hadvances⟩ :=
    @Logged.step _ _ _ _ hended hio (.call .sync) trivial nofun
  have hrecord := (hadvances.sync rfl).subset ((hgrown hlife).subset
    (mem_append_right _ mem_cons_self))
  -- From there on no restart takes it away.
  obtain ⟨_, _, _, hlast, -, hkept, -, hlaterSince⟩ :=
    hsynced.run hadvances.io hlater hcompact.2.2
  have hfinal := hlast.since_restart (hlaterSince _ _ _ (hadvances.since _ _ _
    (hmidSince _ _ _ hsince)))
  have hread := hlast.get_restart_mem (hkept.subset hrecord) hfinal
  have hall : [outcome value record.tombstone] ++ outcomes record.key mid ++
      outcomes record.key [.call .sync] ++ outcomes record.key later =
      outcome value record.tombstone :: outcomes record.key (mid ++ later) := by
    rw [show outcomes record.key [.call .sync] = [] from rfl, append_nil, outcomes_append,
      append_assoc]
    rfl
  rw [hall] at hread
  simp only [run, foldl_append, foldl_cons, foldl_nil]
  exact hread

/-- A large value, a flush and a restart before the write; a flush and a restart after it. -/
theorem synced_write_survives_twoRestarts :
    let c : Config := { valueThreshold := 1, resident := [0x41] }
    let before : List Event := [.call (.write [1] [10, 11] false), .call (.write [0x41] [5] false),
      .call .sync, .call .flush, .restart]
    let later : List Event := [.restart, .call (.write [1] [] true), .call .flush]
    let e := run step (c.engine honest)
      (before ++ .call (.write [2] [20, 21] false) ::
        ([.call .flush] ++ .call .sync :: (later ++ [.restart])))
    Meets step LogComplete (c.engine honest)
        (before ++ .call (.write [2] [20, 21] false) ::
          ([.call .flush] ++ .call .sync :: (later ++ [.restart]))) ∧
      e.get [2] e.lastSeq ∈ [some [20, 21]] := by
  have hmeets : Meets step LogComplete
      (Config.engine { valueThreshold := 1, resident := [0x41] } honest)
      ([.call (.write [1] [10, 11] false), .call (.write [0x41] [5] false), .call .sync,
          .call .flush, .restart] ++ .call (.write [2] [20, 21] false) ::
        ([.call .flush] ++ .call .sync ::
          ([.restart, .call (.write [1] [] true), .call .flush] ++ [.restart]))) := by
    decide +kernel
  exact ⟨hmeets, synced_write_survives { valueThreshold := 1, resident := [0x41] } hmeets
    (by decide) (by decide)⟩

def gapRun : List Event :=
  [.call (.write [1] [10] false), .call .flush, .restart, .call (.write [2] [20] false),
    .call .sync, .restart]

/-- The flush made the first write durable in a table but not in the log. The second write gets
number 2 in an empty log, its sync succeeds, and the restart drops it. -/
theorem synced_write_lost :
    let e := run step (Config.engine {} honest) gapRun
    (run step (Config.engine {} honest) (gapRun.take 4)).sync.1 = true ∧
      e.get [2] e.lastSeq = none ∧
      e.get [2] e.lastSeq ∉ outcome [20] false :: outcomes [2] [] := by
  decide +kernel

end Lockstep.Storage.WalEngine
