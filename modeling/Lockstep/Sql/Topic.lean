import Lockstep.Query.PersistentStore

/-!
# Topics

A topic of `query/sql/Engine.hpp`: PUBLISH writes its payloads under the next offsets and reports
the first of them, and CONSUME scans them. The next offset is cached, and found in the store when it
is not. ROLLBACK drops the cache, ROLLBACK TO leaves it as it is. A payload is stored raw, and one
that is the mark of a deleted key deletes.

`Client` is what a client knows from its statements and their results: the PUBLISHes that are
committed and those of the open transaction, each with the offset that was reported.
-/

namespace Lockstep.Sql

open Library Storage Query GuardedRun List Option

structure Topic where
  log : OrderedMap ℕ Value := .empty
  tail : Option ℕ := none
  txn : Option (List (ℕ × Value)) := none
  savepoints : List (String × ℕ) := []

inductive TopicStmt where
  | publish (first : Value) (rest : List Value)
  | begin
  | commit
  | rollback
  | savepoint (name : String)
  | rollbackTo (name : String)
  | restart
  deriving DecidableEq

namespace Topic

def apply (log : OrderedMap ℕ Value) (kv : ℕ × Value) : OrderedMap ℕ Value :=
  if kv.2 = deleteSentinel then log.erase kv.1 else log.insert kv.1 kv.2

def commitWrites (t : Topic) (kvs : List (ℕ × Value)) : Topic :=
  match t.txn with
  | some buffer => { t with txn := some (buffer ++ kvs) }
  | none => { t with log := kvs.foldl apply t.log }

def topicTail (t : Topic) : ℕ :=
  t.tail.getD ((t.log.entries.getLast?.map fun kv ↦ kv.1 + 1).getD 0)

def numbered (off : ℕ) (payloads : List Value) : List (ℕ × Value) :=
  (payloads.zipIdx off).map Prod.swap

def execPublish (t : Topic) (payloads : List Value) : ℕ × Topic :=
  (t.topicTail, { t.commitWrites (numbered t.topicTail payloads) with
    tail := some (t.topicTail + payloads.length) })

/-- The offset that the statement reports, if it is a PUBLISH, and the topic after it. -/
def exec (t : Topic) : TopicStmt → Option ℕ × Topic
  | .publish first rest =>
    let (off, t) := t.execPublish (first :: rest)
    (some off, t)
  | .begin => (none, if t.txn.isSome then t else { t with txn := some [], savepoints := [] })
  | .commit =>
    (none, match t.txn with
    | none => t
    | some flush => ({ t with txn := none, savepoints := [] } : Topic).commitWrites flush)
  | .rollback =>
    (none, if t.txn.isNone then t else { t with txn := none, savepoints := [], tail := none })
  | .savepoint name =>
    (none, match t.txn with
    | none => t
    | some buffer => { t with savepoints := (name, buffer.length) :: t.savepoints })
  | .rollbackTo name =>
    (none, match t.txn, t.savepoints.dropWhile (·.1 ≠ name) with
    | some buffer, sp :: rest => { t with txn := some (buffer.take sp.2), savepoints := sp :: rest }
    | _, _ => t)
  | .restart => (none, { log := t.log })

def consume (t : Topic) : List (ℕ × Value) := t.log.entries

/-! ### The client -/

abbrev Publish := ℕ × List Value

def payloads (published : List Publish) : List Value := published.flatMap Prod.snd

structure Client where
  committed : List Publish := []
  txn : Option (List Publish) := none
  savepoints : List (String × List Publish) := []

def Client.observe (c : Client) : TopicStmt → Option ℕ → Client
  | .publish first rest, reported =>
    let published := reported.toList.map fun off ↦ (off, first :: rest)
    match c.txn with
    | none => { c with committed := c.committed ++ published }
    | some earlier => { c with txn := some (earlier ++ published) }
  | .begin, _ => if c.txn.isSome then c else { c with txn := some [], savepoints := [] }
  | .commit, _ =>
    match c.txn with
    | none => c
    | some published => { committed := c.committed ++ published }
  | .rollback, _ => if c.txn.isNone then c else { committed := c.committed }
  | .savepoint name, _ =>
    match c.txn with
    | none => c
    | some published => { c with savepoints := (name, published) :: c.savepoints }
  | .rollbackTo name, _ =>
    match c.txn, c.savepoints.dropWhile (·.1 ≠ name) with
    | some _, sp :: rest => { c with txn := some sp.2, savepoints := sp :: rest }
    | _, _ => c
  | .restart, _ => { committed := c.committed }

/-- A statement, run by the engine and seen by the client. -/
def step (x : Topic × Client) (s : TopicStmt) : Topic × Client :=
  ((x.1.exec s).2, x.2.observe s (x.1.exec s).1)

/-- No payload is the mark of a deleted key, offsets stay in the 63 bits in which they are reported,
and going back to a savepoint undoes no PUBLISH. -/
def Keeps (x : Topic × Client) : TopicStmt → Prop
  | .publish first rest => deleteSentinel ∉ first :: rest ∧
    (payloads x.2.committed ++ payloads (x.2.txn.getD []) ++ first :: rest).length ≤ 2 ^ 63
  | .rollbackTo name => ∀ published ∈ x.2.txn,
    ∀ sp ∈ (x.2.savepoints.dropWhile (·.1 ≠ name)).head?, published = sp.2
  | _ => True

instance decidableKeeps (x : Topic × Client) : ∀ s, Decidable (Keeps x s)
  | .publish _ _ => inferInstanceAs (Decidable (_ ∧ _))
  | .rollbackTo _ => inferInstanceAs (Decidable (∀ published ∈ x.2.txn, ∀ sp ∈ _, _ = Prod.snd sp))
  | .begin | .commit | .rollback | .savepoint _ | .restart => isTrue trivial

/-! ### The log is dense -/

/-- Each PUBLISH has reported the offset of its first payload. -/
def Reported : ℕ → List Publish → Prop
  | _, [] => True
  | off, p :: later => p.1 = off ∧ Reported (off + p.2.length) later

lemma reported_append {off : ℕ} {published later : List Publish} :
    Reported off (published ++ later) ↔
      Reported off published ∧ Reported (off + (payloads published).length) later := by
  induction published generalizing off with
  | nil => simp [Reported, payloads]
  | cons p published ih => simp [Reported, payloads, ih, and_assoc, Nat.add_assoc]

lemma payloads_append (published later : List Publish) :
    payloads (published ++ later) = payloads published ++ payloads later := flatMap_append

lemma numbered_append (off : ℕ) (first second : List Value) :
    numbered off (first ++ second) =
      numbered off first ++ numbered (off + first.length) second := by
  rw [numbered, zipIdx_append, map_append, Nat.add_comm]
  rfl

lemma entries_foldl_apply {log : OrderedMap ℕ Value} {held new : List Value}
    (hlog : log.entries = numbered 0 held) (hnew : deleteSentinel ∉ new) :
    ((numbered held.length new).foldl apply log).entries = numbered 0 (held ++ new) := by
  induction new generalizing log held with
  | nil => simpa [numbered] using hlog
  | cons value new ih =>
    have hlast : (apply log (held.length, value)).entries = numbered 0 (held ++ [value]) := by
      have hne : value ≠ deleteSentinel := fun heq ↦ hnew (heq ▸ mem_cons_self)
      rw [apply, if_neg hne, numbered_append, ← hlog]
      refine (OrderedMap.entries_insert_last value fun old hold ↦ ?_).trans (by simp [numbered])
      rw [hlog, numbered, List.mem_map] at hold
      obtain ⟨item, hitem, rfl⟩ := hold
      exact snd_lt_of_mem_zipIdx hitem
    have hrest := ih hlast fun hmem ↦ hnew (mem_cons_of_mem _ hmem)
    rw [append_assoc, length_append] at hrest
    exact hrest

/-- The log holds what the client has committed, the buffer what it has published since. -/
structure Dense (t : Topic) (c : Client) : Prop where
  entries : t.log.entries = numbered 0 (payloads c.committed)
  reported : Reported 0 (c.committed ++ c.txn.getD [])
  plain : deleteSentinel ∉ payloads (c.committed ++ c.txn.getD [])
  buffer : t.txn = c.txn.map fun published ↦
    numbered (payloads c.committed).length (payloads published)
  savepoints : t.savepoints = c.savepoints.map fun sp ↦ (sp.1, (payloads sp.2).length)
  tail : ∀ off, t.tail = some off → off = (payloads (c.committed ++ c.txn.getD [])).length
  cold : t.tail = none → payloads (c.txn.getD []) = []

lemma Dense.topicTail_eq {t : Topic} {c : Client} (h : Dense t c) :
    t.topicTail = (payloads (c.committed ++ c.txn.getD [])).length := by
  rw [topicTail]
  cases htail : t.tail with
  | some off => exact h.tail off htail
  | none =>
    rw [h.entries, payloads_append, h.cold htail, append_nil]
    obtain hnil | ⟨init, last, hlast⟩ := eq_nil_or_concat' (payloads c.committed)
    · rw [hnil]
      rfl
    · simp [hlast, numbered]

lemma Dense.publish {x : Topic × Client} (h : Dense x.1 x.2) {first : Value} {rest : List Value}
    (hkeeps : Keeps x (.publish first rest)) :
    Dense (step x (.publish first rest)).1 (step x (.publish first rest)).2 := by
  obtain ⟨t, c⟩ := x
  have hoff := h.topicTail_eq
  obtain ⟨log, tail, buffer, marks⟩ := t
  obtain ⟨committed, txn, savepoints⟩ := c
  obtain ⟨hentries, hreported, hplain, hbuffer, hmarks, htail, hcold⟩ := h
  dsimp only at *
  subst hbuffer hmarks
  have hone (off : ℕ) : payloads [(off, first :: rest)] = first :: rest := by simp [payloads]
  have hreported' := reported_append.mpr ⟨hreported, (by simp [Reported] :
    Reported (0 + _) [((payloads (committed ++ txn.getD [])).length, first :: rest)])⟩
  simp only [Topic.step, exec, execPublish, hoff, Client.observe]
  cases txn with
  | none =>
    simp only [getD_none, append_nil] at hreported' hplain ⊢
    refine ⟨?_, by simpa using hreported', ?_, rfl, rfl, ?_, nofun⟩
    · rw [toList_some, map_singleton, payloads_append, hone]
      exact entries_foldl_apply hentries hkeeps.1
    · simp_all [payloads_append, Keeps]
    · simp [payloads_append, hone]
  | some published =>
    refine ⟨hentries, by simpa using hreported', ?_, ?_, rfl, ?_, nofun⟩
    · simp_all [payloads_append, Keeps]
    · simp [commitWrites, payloads_append, hone, numbered_append]
    · simp [payloads_append, hone, Nat.add_assoc]

lemma Dense.step {x : Topic × Client} (h : Dense x.1 x.2) {s : TopicStmt} (hkeeps : Keeps x s) :
    Dense (step x s).1 (step x s).2 := by
  have hdense := h
  obtain ⟨t, c⟩ := x
  obtain ⟨log, tail, buffer, marks⟩ := t
  obtain ⟨committed, txn, savepoints⟩ := c
  obtain ⟨hentries, hreported, hplain, hbuffer, hmarks, htail, hcold⟩ := h
  dsimp only at *
  subst hbuffer hmarks
  -- what is left when a transaction is given up
  have hkept : Dense { log := log } { committed := committed } := by
    refine ⟨hentries, ?_, fun hmem ↦ hplain ?_, rfl, rfl, nofun, fun _ ↦ rfl⟩
    · simpa using (reported_append.mp hreported).1
    · rw [payloads_append, mem_append]
      exact .inl (by simpa using hmem)
  cases s with
  | restart => exact hkept
  | publish first rest => exact hdense.publish hkeeps
  | begin =>
    cases txn with
    | none => exact ⟨hentries, hreported, hplain, rfl, rfl, htail, fun _ ↦ rfl⟩
    | some published => exact ⟨hentries, hreported, hplain, rfl, rfl, htail, hcold⟩
  | commit =>
    cases txn with
    | none => exact ⟨hentries, hreported, hplain, rfl, rfl, htail, hcold⟩
    | some published =>
      refine ⟨?_, by simpa [Topic.step, Client.observe] using hreported,
        by simpa [Topic.step, Client.observe] using hplain, rfl, rfl,
        by simpa [Topic.step, exec, commitWrites, Client.observe] using htail, fun _ ↦ rfl⟩
      simp only [Topic.step, Client.observe, getD_some, payloads_append, mem_append, not_or]
        at hplain ⊢
      exact entries_foldl_apply hentries hplain.2
  | rollback =>
    cases txn with
    | none => exact ⟨hentries, hreported, hplain, rfl, rfl, htail, hcold⟩
    | some published => exact hkept
  | savepoint name =>
    cases txn with
    | none => exact ⟨hentries, hreported, hplain, rfl, rfl, htail, hcold⟩
    | some published =>
      refine ⟨hentries, hreported, hplain, rfl, ?_, htail, hcold⟩
      simp [Topic.step, exec, Client.observe, numbered]
  | rollbackTo name =>
    cases txn with
    | none => exact ⟨hentries, hreported, hplain, rfl, rfl, htail, hcold⟩
    | some published =>
      simp only [Topic.step, exec, Client.observe, Option.map_some, dropWhile_map,
        Function.comp_def]
      cases hat : savepoints.dropWhile fun sp ↦ sp.1 ≠ name with
      | nil => exact ⟨hentries, hreported, hplain, rfl, rfl, htail, hcold⟩
      | cons sp later =>
        obtain rfl : published = sp.2 := hkeeps published rfl sp (congrArg head? hat)
        refine ⟨hentries, hreported, hplain, ?_, rfl, htail, hcold⟩
        simp [numbered, take_of_length_le]

end Topic

end Lockstep.Sql
