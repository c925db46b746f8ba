import Lockstep.Library.GuardedRun
import Lockstep.Library.OrderedMap

/-!
# Queues

A SQL queue of `query/sql/Engine.hpp`: a table of messages by their id and a table of dead letters.
RECEIVE scans the messages in the order of their ids and marks those it returns as in flight, until
a sequence number; a message that was returned five times is moved to the dead letters instead. The
sequence number is a sum of signed 64-bit numbers and so is the next id; where one of them
overflows, the program is undefined.

`Ledger` is what an onlooker writes down: the payloads of the SENDs, the rows that RECEIVE returned,
and the messages in the queue table that an ACK named.
-/

namespace Lockstep.Sql.Queue

open Library OrderedMap List

/-- A TEXT whose length fits the 32 bits that a row has for it. -/
abbrev Payload := {bytes : List UInt8 // bytes.length < 2 ^ 32}

structure Message where
  payload : Payload
  state : ℤ := 0
  deliveries : ℤ := 0
  visibleSeq : ℤ := 0
  deriving DecidableEq

structure DeadLetter where
  payload : Payload
  deliveries : ℤ
  deriving DecidableEq

/-- A row that RECEIVE returns. -/
structure Delivery where
  mid : ℤ
  payload : Payload
  deliveries : ℤ
  deriving DecidableEq

structure Tables where
  table : OrderedMap ℤ Message := .empty
  dlq : OrderedMap ℤ DeadLetter := .empty
  nextAutoId : ℤ := 1

inductive QueueStmt where
  | send (payload : Payload)
  | receive (batch visibility : ℕ) (now : ℤ)
  | ack (mids : List ℤ)
  deriving DecidableEq

/-- The sequence number of a RECEIVE is a signed 64-bit one. -/
def QueueStmt.Fits : QueueStmt → Prop
  | .receive _ visibility now => now + visibility < 2 ^ 63
  | _ => True

instance : DecidablePred QueueStmt.Fits
  | .send _ => isTrue trivial
  | .receive _ visibility now => inferInstanceAs (Decidable (now + visibility < 2 ^ 63))
  | .ack _ => isTrue trivial

def kQueueMaxDeliveries : ℤ := 5

inductive Mark where
  | dead (letter : DeadLetter)
  | returned (message : Message)

def Message.visible (m : Message) (now : ℤ) : Bool :=
  m.state = 0 || (m.state = 1 && m.visibleSeq ≤ now)

/-- `none` where the sum overflows. -/
def Message.mark (m : Message) (now : ℤ) (visibility : ℕ) : Option Mark :=
  if kQueueMaxDeliveries < m.deliveries + 1 then some (.dead ⟨m.payload, m.deliveries + 1⟩)
  else if now + visibility < 2 ^ 63 then
    some (.returned
      { m with state := 1, deliveries := m.deliveries + 1, visibleSeq := now + visibility })
  else none

def Mark.returns : Mark → ℕ
  | .dead _ => 0
  | .returned _ => 1

def scan (now : ℤ) (visibility : ℕ) : ℕ → List (ℤ × Message) → Option (List (ℤ × Mark))
  | _, [] => some []
  | room, (mid, m) :: rest =>
    if room = 0 then some []
    else if m.visible now then do
      let mark ← m.mark now visibility
      return (mid, mark) :: (← scan now visibility (room - mark.returns) rest)
    else scan now visibility room rest

def delivery : ℤ × Mark → Option Delivery
  | (_, .dead _) => none
  | (mid, .returned m) => some ⟨mid, m.payload, m.deliveries⟩

namespace Tables

def execSend (q : Tables) (payload : Payload) : Option Tables :=
  if q.nextAutoId + 1 < 2 ^ 63 then
    some { q with
      table := q.table.insert q.nextAutoId { payload := payload }
      nextAutoId := q.nextAutoId + 1 }
  else none

def write (q : Tables) : ℤ × Mark → Tables
  | (mid, .dead letter) =>
    { q with table := q.table.erase mid, dlq := q.dlq.insert mid letter }
  | (mid, .returned m) => { q with table := q.table.insert mid m }

def execReceive (q : Tables) (batch visibility : ℕ) (now : ℤ) :
    Option (List Delivery × Tables) := do
  let marks ← scan now visibility batch q.table.entries
  return (marks.filterMap delivery, marks.foldl write q)

def tombstone (q : Tables) (mid : ℤ) : Tables := { q with table := q.table.erase mid }

def execAck (q : Tables) (mids : List ℤ) : Tables :=
  (mids.filter fun mid ↦ (q.table.find mid).isSome).foldl tombstone q

def exec (q : Tables) : QueueStmt → Option (List Delivery × Tables)
  | .send payload => do return ([], ← q.execSend payload)
  | .receive batch visibility now => q.execReceive batch visibility now
  | .ack mids => some ([], q.execAck mids)

end Tables

/-! ### What an onlooker sees -/

inductive Event where
  | returned (d : Delivery) (now visibleSeq : ℤ)
  | acked (mid : ℤ)
  deriving DecidableEq

/-- The payloads in the order of their SENDs, and the deliveries and acknowledgements, the last one
first. -/
structure Ledger where
  sent : List Payload := []
  events : List Event := []

def Ledger.observe (l : Ledger) (before : Tables) (rows : List Delivery) : QueueStmt → Ledger
  | .send payload => { l with sent := l.sent ++ [payload] }
  | .receive _ visibility now => { l with
    events := (rows.map fun d ↦ .returned d now (now + visibility)).reverse ++ l.events }
  | .ack mids => { l with
    events := ((mids.filter fun mid ↦ (before.table.find mid).isSome).map .acked).reverse ++
      l.events }

def step (x : Tables × Ledger) (s : QueueStmt) : Option (Tables × Ledger) := do
  let (rows, q) ← x.1.exec s
  return (q, x.2.observe x.1 rows s)

def returns (mid : ℤ) : List Event → ℤ
  | [] => 0
  | .returned d _ _ :: events => if d.mid = mid then returns mid events + 1 else returns mid events
  | _ :: events => returns mid events

def hiddenUntil (mid : ℤ) : List Event → Option ℤ
  | [] => none
  | .returned d _ visibleSeq :: events =>
    if d.mid = mid then some visibleSeq else hiddenUntil mid events
  | _ :: events => hiddenUntil mid events

/-- A message is returned at most five times, not before the sequence number that its last delivery
has set, and not after it was acknowledged. -/
def Lawful : List Event → Prop
  | [] => True
  | .returned d now _ :: events =>
    Lawful events ∧ returns d.mid events + 1 ≤ kQueueMaxDeliveries ∧
    (∀ seq ∈ hiddenUntil d.mid events, seq ≤ now) ∧ .acked d.mid ∉ events
  | _ :: events => Lawful events

def Event.mid : Event → ℤ
  | .returned d _ _ => d.mid
  | .acked mid => mid

/-- The payload of the message with an id, which counts the SENDs from 1 on. -/
def Ledger.sentAs (l : Ledger) (mid : ℤ) : Option Payload :=
  if 1 ≤ mid then l.sent[(mid - 1).toNat]? else none

/-! ### What is kept -/

/-- What is stored for one message agrees with what was seen of it. -/
def KeptAt (sent : Option Payload) (events : List Event) (mid : ℤ) :
    Option Message → Option DeadLetter → Prop
  | some m, none => sent = some m.payload ∧ .acked mid ∉ events ∧
    returns mid events = m.deliveries ∧
    hiddenUntil mid events = if m.state = 0 then none else some m.visibleSeq
  | none, some letter => sent = some letter.payload ∧ .acked mid ∉ events
  | none, none => sent.isSome → .acked mid ∈ events
  | some _, some _ => False

namespace KeptAt

variable {sent : Option Payload} {events : List Event} {mid : ℤ} {m : Option Message}
  {letter : Option DeadLetter}

lemma cons (h : KeptAt sent events mid m letter) {event : Event} (hne : event.mid ≠ mid) :
    KeptAt sent (event :: events) mid m letter := by
  cases m <;> cases letter <;> cases event <;>
    grind [KeptAt, Event.mid, returns, hiddenUntil]

lemma sent_isSome (h : KeptAt sent events mid m letter) :
    (sent.isSome ∨ letter = none) ∧ (m ≠ none → sent.isSome ∧ letter = none) := by
  cases m <;> cases letter <;> simp_all [KeptAt]

lemma new (h : ∀ event ∈ events, event.mid ≠ mid) (payload : Payload) :
    KeptAt (some payload) events mid (some { payload := payload }) none := by
  have hnone : returns mid events = 0 ∧ hiddenUntil mid events = none := by
    induction events with
    | nil => exact ⟨rfl, rfl⟩
    | cons event events ih =>
      obtain ⟨hevent, hevents⟩ := forall_mem_cons.mp h
      cases event with
      | acked => exact ih hevents
      | returned d _ _ =>
        rw [returns, hiddenUntil, if_neg (show d.mid ≠ mid from hevent),
          if_neg (show d.mid ≠ mid from hevent)]
        exact ih hevents
  exact ⟨rfl, fun hmem ↦ h _ hmem rfl, hnone⟩

end KeptAt

/-- The tables are as the ledger says. -/
structure Kept (q : Tables) (l : Ledger) : Prop where
  lawful : Lawful l.events
  next : q.nextAutoId = l.sent.length + 1
  known : ∀ event ∈ l.events, (l.sentAs event.mid).isSome
  payloads : ∀ d now seq, .returned d now seq ∈ l.events → l.sentAs d.mid = some d.payload
  each : ∀ mid, KeptAt (l.sentAs mid) l.events mid (q.table.find mid) (q.dlq.find mid)

namespace Kept

variable {q : Tables} {l : Ledger} {mid now : ℤ} {m : Message}

section

variable (h : Kept q l) (hm : q.table.find mid = some m)
include h hm

lemma message : q.dlq.find mid = none ∧ KeptAt (l.sentAs mid) l.events mid (some m) none := by
  have hmid := h.each mid
  have hdlq := (hmid.sent_isSome.2 (by simp [hm])).2
  rw [hm, hdlq] at hmid
  exact ⟨hdlq, hmid⟩

lemma dead (deliveries : ℤ) : Kept (q.write (mid, .dead ⟨m.payload, deliveries⟩)) l := by
  obtain ⟨-, hsent, hacked, -⟩ := h.message hm
  refine ⟨h.lawful, h.next, h.known, h.payloads, fun k ↦ ?_⟩
  simp only [Tables.write, find_erase, find_insert]
  split_ifs with hk
  · exact hk ▸ ⟨hsent, hacked⟩
  · exact h.each k

lemma returned (hvisible : m.visible now = true) (hmost : ¬kQueueMaxDeliveries < m.deliveries + 1)
    (seq : ℤ) :
    Kept (q.write (mid, .returned
        { m with state := 1, deliveries := m.deliveries + 1, visibleSeq := seq }))
      { l with events := .returned ⟨mid, m.payload, m.deliveries + 1⟩ now seq :: l.events } := by
  obtain ⟨hdlq, hsent, hacked, hdeliveries, hhidden⟩ := h.message hm
  have hsome : (l.sentAs mid).isSome := by rw [hsent]; rfl
  refine ⟨⟨h.lawful, by dsimp only; omega, ?_, hacked⟩, h.next,
    forall_mem_cons.mpr ⟨hsome, h.known⟩, fun d now seq hd ↦ ?_, fun k ↦ ?_⟩
  · grind [Message.visible]
  · rcases mem_cons.mp hd with heq | hd
    · rw [(Event.returned.inj heq).1]
      exact hsent
    · exact h.payloads d now seq hd
  simp only [Tables.write, find_insert]
  split_ifs with hk
  · subst hk
    rw [hdlq]
    refine ⟨hsent, by simpa using hacked, ?_, ?_⟩
    · rw [returns, if_pos rfl, hdeliveries]
    · rw [hiddenUntil, if_pos rfl]
      rfl
  · exact (h.each k).cons hk

end

lemma find_write {k : ℤ} {kv : ℤ × Mark} (hne : kv.1 ≠ k) :
    (q.write kv).table.find k = q.table.find k := by
  obtain ⟨mid, mark | mark⟩ := kv
  · exact (find_erase ..).trans (if_neg hne)
  · exact (find_insert ..).trans (if_neg hne)

def written (now : ℤ) (visibility : ℕ) (marks : List (ℤ × Mark)) (l : Ledger) : Ledger :=
  { l with events := ((marks.filterMap delivery).map fun d ↦
      .returned d now (now + visibility)).reverse ++ l.events }

lemma scan {visibility : ℕ} (hfits : now + visibility < 2 ^ 63) (h : Kept q l) (room : ℕ)
    {rows : List (ℤ × Message)} (hrows : rows.Pairwise fun a b ↦ a.1 < b.1)
    (hfind : ∀ kv ∈ rows, q.table.find kv.1 = some kv.2) :
    ∃ marks, Queue.scan now visibility room rows = some marks ∧
      Kept (marks.foldl Tables.write q) (written now visibility marks l) := by
  induction rows generalizing q l room with
  | nil => exact ⟨[], rfl, h⟩
  | cons row rows ih =>
    obtain ⟨mid, m⟩ := row
    obtain ⟨hfirst, hrest⟩ := pairwise_cons.mp hrows
    obtain ⟨hm, hfind⟩ := forall_mem_cons.mp hfind
    rw [Queue.scan]
    split_ifs with hroom hvisible
    · exact ⟨[], rfl, h⟩
    · have hnext : ∀ mark, ∀ kv ∈ rows, (q.write (mid, mark)).table.find kv.1 = some kv.2 :=
        fun mark kv hkv ↦ (find_write (hfirst kv hkv).ne).trans (hfind kv hkv)
      rw [Message.mark]
      split_ifs with hmost
      · obtain ⟨marks, hscan, hkept⟩ := ih (h.dead hm _) room hrest (hnext _)
        exact ⟨(mid, .dead ⟨m.payload, m.deliveries + 1⟩) :: marks,
          by simp [Mark.returns, hscan], hkept⟩
      · obtain ⟨marks, hscan, hkept⟩ :=
          ih (h.returned hm hvisible hmost (now + visibility)) (room - 1) hrest (hnext _)
        refine ⟨_ :: marks, by simp [Mark.returns, hscan]; rfl, ?_⟩
        simpa [written, delivery] using hkept
    · exact ih h room hrest hfind

lemma tombstone (h : Kept q l) {mids : List ℤ}
    (hmids : ∀ mid ∈ mids, (l.sentAs mid).isSome ∧ q.dlq.find mid = none) :
    Kept (mids.foldl Tables.tombstone q)
      { l with events := (mids.map .acked).reverse ++ l.events } := by
  induction mids generalizing q l with
  | nil => exact h
  | cons mid mids ih =>
    obtain ⟨⟨hsent, hdlq⟩, hmids⟩ := forall_mem_cons.mp hmids
    have hfirst : Kept (q.tombstone mid) { l with events := .acked mid :: l.events } := by
      refine ⟨h.lawful, h.next, forall_mem_cons.mpr ⟨hsent, h.known⟩, fun d now seq hd ↦ ?_,
        fun k ↦ ?_⟩
      · exact h.payloads d now seq ((mem_cons.mp hd).resolve_left nofun)
      simp only [Tables.tombstone, find_erase]
      split_ifs with hk
      · subst hk
        rw [hdlq]
        exact fun _ ↦ mem_cons_self
      · exact (h.each k).cons hk
    simpa using ih hfirst hmids

lemma sentAs_isSome (h : Kept q l) : (l.sentAs mid).isSome ↔ 1 ≤ mid ∧ mid < q.nextAutoId := by
  rw [Ledger.sentAs, h.next]
  split_ifs with hmid <;> simp <;> omega

lemma send (h : Kept q l) (payload : Payload) (hroom : q.nextAutoId + 1 < 2 ^ 63) :
    ∃ q', q.execSend payload = some q' ∧ Kept q' { l with sent := l.sent ++ [payload] } := by
  have hfresh : ∀ {mid}, (l.sentAs mid).isSome → mid ≠ q.nextAutoId :=
    fun hmid ↦ (h.sentAs_isSome.mp hmid).2.ne
  have hold : ∀ mid ≠ q.nextAutoId,
      ({ l with sent := l.sent ++ [payload] } : Ledger).sentAs mid = l.sentAs mid := by
    intro mid hmid
    have hnext := h.next
    rw [Ledger.sentAs, Ledger.sentAs, getElem?_append]
    split_ifs with _ hlt
    · rfl
    · rw [getElem?_eq_none (by simp only [length_singleton]; omega),
        getElem?_eq_none (by omega)]
    · rfl
  refine ⟨_, if_pos hroom, h.lawful, by simp [h.next], fun event he ↦ ?_, fun d now seq hd ↦ ?_,
    fun k ↦ ?_⟩
  · rw [hold _ (hfresh (h.known event he))]
    exact h.known event he
  · rw [hold d.mid (hfresh (h.known _ hd))]
    exact h.payloads d now seq hd
  simp only [find_insert]
  split_ifs with hk
  · subst hk
    have hdlq := (h.each q.nextAutoId).sent_isSome.1.resolve_left fun hsent ↦ hfresh hsent rfl
    have hsent : ({ l with sent := l.sent ++ [payload] } : Ledger).sentAs q.nextAutoId =
        some payload := by
      simp [Ledger.sentAs, h.next]
    rw [hdlq, hsent]
    exact .new (fun event he ↦ hfresh (h.known event he)) payload
  · rw [hold k (Ne.symm hk)]
    exact h.each k

lemma step (h : Kept q l) {s : QueueStmt} (hroom : q.nextAutoId + 1 < 2 ^ 63) (hfits : s.Fits) :
    ∃ x, Queue.step (q, l) s = some x ∧ Kept x.1 x.2 ∧
      x.2.sent.length ≤ l.sent.length + 1 := by
  cases s with
  | send payload =>
    obtain ⟨q', hsend, hkept⟩ := h.send payload hroom
    exact ⟨_, by simp [Queue.step, Tables.exec, hsend]; rfl, hkept, by simp [Ledger.observe]⟩
  | receive batch visibility now =>
    obtain ⟨marks, hscan, hkept⟩ :=
      h.scan hfits batch q.table.sorted fun _ ↦ find_eq_some_iff.mpr
    exact ⟨_, by simp [Queue.step, Tables.exec, Tables.execReceive, hscan]; rfl, hkept,
      Nat.le_succ _⟩
  | ack mids =>
    refine ⟨_, rfl, h.tombstone fun mid hmid ↦ ?_, Nat.le_succ _⟩
    exact (h.each mid).sent_isSome.2 (Option.isSome_iff_ne_none.mp (mem_filter.mp hmid).2)

lemma run {stmts : List QueueStmt} (h : Kept q l)
    (hsends : l.sent.length + stmts.length + 1 < 2 ^ 63) (hfits : ∀ s ∈ stmts, s.Fits) :
    ∃ x, stmts.foldlM Queue.step (q, l) = some x ∧ Kept x.1 x.2 := by
  induction stmts generalizing q l with
  | nil => exact ⟨_, rfl, h⟩
  | cons s stmts ih =>
    obtain ⟨hs, hfits⟩ := forall_mem_cons.mp hfits
    have hnext := h.next
    rw [length_cons] at hsends
    obtain ⟨x, hstep, hkept, hsent⟩ := h.step (by omega) hs
    rw [foldlM_cons, hstep]
    exact ih hkept (by omega) hfits

end Kept

/-- In every run of a queue on which no sum overflows, each message that was sent is in one place:
among the messages or among the dead letters, with its payload, or acknowledged. RECEIVE returns
payloads as they were sent, and it has kept to what `Lawful` says. -/
theorem messages_conserved (stmts : List QueueStmt) (hsends : stmts.length + 1 < 2 ^ 63)
    (hfits : ∀ s ∈ stmts, s.Fits) :
    ∃ x, stmts.foldlM step ({}, {}) = some x ∧ Lawful x.2.events ∧
      (∀ d now seq, .returned d now seq ∈ x.2.events → x.2.sentAs d.mid = some d.payload) ∧
      ∀ mid payload, x.2.sentAs mid = some payload →
        [decide ((x.1.table.find mid).map Message.payload = some payload),
          decide ((x.1.dlq.find mid).map DeadLetter.payload = some payload),
          decide (.acked mid ∈ x.2.events)].count true = 1 := by
  have hstart : Kept {} {} := by
    refine ⟨trivial, rfl, forall_mem_nil _, fun _ _ _ ↦ (nomatch ·), fun mid ↦ ?_⟩
    simp [KeptAt, Ledger.sentAs]
  obtain ⟨x, hrun, h⟩ := hstart.run (by simpa using hsends) hfits
  refine ⟨x, hrun, h.lawful, h.payloads, fun mid payload hsent ↦ ?_⟩
  have hmid := h.each mid
  cases htable : x.1.table.find mid <;> cases hdlq : x.1.dlq.find mid <;>
    simp_all [KeptAt]

/-- A message that is returned, one that is returned again when its time is over and is then
acknowledged, and one that is left. -/
theorem messages_conserved_redelivery :
    let a : Payload := ⟨[1], by decide⟩
    let b : Payload := ⟨[2], by decide⟩
    let stmts : List QueueStmt := [.send a, .send b, .receive 1 10 3, .receive 1 10 4,
      .receive 2 10 13, .ack [1, 1, 7], .receive 2 10 30]
    (stmts.foldlM step ({}, {})).map (·.2.events) =
        some [.returned ⟨2, b, 2⟩ 30 40, .acked 1, .acked 1, .returned ⟨1, a, 2⟩ 13 23,
          .returned ⟨2, b, 1⟩ 4 14, .returned ⟨1, a, 1⟩ 3 13] ∧
      ∃ x, stmts.foldlM step ({}, {}) = some x ∧ Lawful x.2.events ∧
        (∀ d now seq, .returned d now seq ∈ x.2.events → x.2.sentAs d.mid = some d.payload) ∧
        ∀ mid payload, x.2.sentAs mid = some payload →
          [decide ((x.1.table.find mid).map Message.payload = some payload),
            decide ((x.1.dlq.find mid).map DeadLetter.payload = some payload),
            decide (.acked mid ∈ x.2.events)].count true = 1 := by
  intro a b stmts
  exact ⟨by decide +kernel, messages_conserved stmts (by decide) (by decide +kernel)⟩

/-- The sum of the sequence number and the longest visibility that can be written overflows. -/
theorem receive_overflows :
    [.send ⟨[1], by decide⟩, .receive 1 (2 ^ 63 - 1) 1].foldlM step ({}, {}) = none := by
  rfl

end Lockstep.Sql.Queue
