import Lockstep.Library.ByteCodec
import Lockstep.Library.GuardedRun

/-!
# Sending over a connection

`queue_framed`, `pump_write` and `complete_sends` of `prod/ProdNetwork.hpp` for a plaintext
connection, under whatever part of the buffer the socket takes at each attempt.

A promise's `done_at` adds `out_base_` to the buffer's whole length, which counts the bytes already
taken twice, so a frame queued after a partial write is completed too late or never.
-/

namespace Lockstep.Prod

open Library ByteCodec GuardedRun List

/-- A send is known by the number of bytes the socket has taken once it has the last one of its
frame. -/
structure Connection where
  out : List UInt8 := []
  outBase : ℕ := 0
  /-- `done_at`, and the send. -/
  pending : List (ℕ × ℕ) := []
  connected : Bool := false
  socket : List UInt8 := []
  sends : List ℕ := []
  /-- The sends whose promises are completed with success, in that order. -/
  completed : List ℕ := []

namespace Connection

variable {c : Connection}

def queueFramed (c : Connection) (payload : List UInt8) : Connection :=
  let out := c.out ++ (putLE 4 payload.length ++ payload)
  let send := c.socket.length + (out.length - c.outBase)
  { c with
    out := out, pending := c.pending ++ [(c.outBase + out.length, send)],
    sends := c.sends ++ [send] }

/-- The socket takes some of what remains, at least one byte and at most `w + 1`. -/
def accept (c : Connection) (w : ℕ) : Connection :=
  let taken := (c.out.drop c.outBase).take (w + 1)
  { c with outBase := c.outBase + taken.length, socket := c.socket ++ taken }

def completeSends (c : Connection) : Connection :=
  { c with
    pending := c.pending.dropWhile (·.1 ≤ c.outBase),
    completed := c.completed ++ (c.pending.takeWhile (·.1 ≤ c.outBase)).map Prod.snd }

/-- The loop of `pump_write`, which ends when the socket takes no more for now. -/
def flush : List ℕ → Connection → Connection
  | [], c => c
  | w :: writes, c =>
    if c.outBase < c.out.length then flush writes (c.accept w).completeSends else c

def pumpWrite (c : Connection) (writes : List ℕ) : Connection :=
  if !c.connected then c
  else
    let c := flush writes c
    if c.out.length ≤ c.outBase ∧ c.out ≠ [] then { c with out := [], outBase := 0 } else c

inductive Action
  | send (payload : List UInt8) (writes : List ℕ)
  /-- `EPOLLOUT` -/
  | ready (writes : List ℕ)

def exec (c : Connection) : Action → Connection
  | .send payload writes => (c.queueFramed payload).pumpWrite writes
  | .ready writes => { c with connected := true }.pumpWrite writes

/-- The promises are completed in the order of the sends, each exactly when the socket has taken
the last byte of its frame, and none is left when the buffer is empty. -/
def Exact (c : Connection) : Prop :=
  c.completed = c.sends.filter (· ≤ c.socket.length) ∧
    c.completed ++ c.pending.map Prod.snd = c.sends ∧ (c.out = [] → c.pending = [])

/-- A frame is queued only while nothing of the buffer has been taken. -/
def Untaken (c : Connection) : Action → Prop
  | .send _ _ => c.outBase = 0
  | .ready _ => True

instance (c : Connection) : (action : Action) → Decidable (c.Untaken action)
  | .send _ _ => inferInstanceAs (Decidable (_ = _))
  | .ready _ => isTrue trivial

/-- `gone` bytes were taken before the buffer was last empty. -/
structure Tracks (gone : ℕ) (c : Connection) : Prop where
  taken : gone + c.outBase = c.socket.length
  order : c.completed ++ c.pending.map Prod.snd = c.sends
  done : ∀ send ∈ c.completed, send ≤ c.socket.length
  queued : ∀ p ∈ c.pending, p.2 = gone + p.1 ∧ p.1 ≤ c.out.length
  sorted : c.pending.Pairwise fun p q ↦ p.1 ≤ q.1
  unfinished : ∀ p ∈ c.pending, c.outBase < p.1

namespace Tracks

variable {gone : ℕ}

lemma pending_eq_nil (h : c.Tracks gone) (hdrained : c.out.length ≤ c.outBase) :
    c.pending = [] :=
  eq_nil_iff_forall_not_mem.mpr fun p hp ↦
    absurd ((h.unfinished p hp).trans_le (h.queued p hp).2) (not_lt.mpr hdrained)

lemma exact (h : c.Tracks gone) : c.Exact := by
  have htaken := h.taken
  have hlate : ∀ send ∈ c.pending.map Prod.snd, ¬ decide (send ≤ c.socket.length) = true := by
    intro send hsend
    obtain ⟨p, hp, rfl⟩ := mem_map.mp hsend
    have hqueued := h.queued p hp
    have hunfinished := h.unfinished p hp
    rw [decide_eq_true_eq]
    omega
  refine ⟨?_, h.order, fun hnil ↦ h.pending_eq_nil (by simp [hnil])⟩
  rw [← h.order, filter_append, filter_eq_nil_iff.mpr hlate, append_nil,
    filter_eq_self.mpr fun send hsend ↦ decide_eq_true (h.done send hsend)]

lemma queueFramed (h : c.Tracks gone) (hbase : c.outBase = 0) (payload : List UInt8) :
    (c.queueFramed payload).Tracks gone := by
  have htaken := h.taken
  have hgrows : c.out.length < (c.queueFramed payload).out.length := by
    simp [Connection.queueFramed]
  constructor
  · exact htaken
  · rw [Connection.queueFramed, map_append, ← append_assoc, h.order]
    rfl
  · exact h.done
  · refine forall_mem_append.mpr ⟨fun p hp ↦ ?_, forall_mem_singleton.mpr ⟨?_, ?_⟩⟩
    · exact ⟨(h.queued p hp).1, (h.queued p hp).2.trans hgrows.le⟩
    · dsimp only
      omega
    · exact (hbase.symm ▸ Nat.zero_add _).le
  · refine pairwise_append.mpr ⟨h.sorted, pairwise_singleton _ _, fun p hp ↦ ?_⟩
    exact forall_mem_singleton.mpr
      (((h.queued p hp).2.trans hgrows.le).trans (Nat.le_add_left _ _))
  · exact forall_mem_append.mpr ⟨h.unfinished, forall_mem_singleton.mpr
      (Nat.lt_add_of_pos_right (Nat.zero_lt_of_lt hgrows))⟩

lemma lt_of_mem_dropWhile {pending : List (ℕ × ℕ)} {base : ℕ}
    (hsorted : pending.Pairwise fun p q ↦ p.1 ≤ q.1) :
    ∀ p ∈ pending.dropWhile (·.1 ≤ base), base < p.1 := by
  induction pending with
  | nil => exact nofun
  | cons q pending ih =>
    obtain ⟨hfirst, hrest⟩ := pairwise_cons.mp hsorted
    rw [dropWhile_cons]
    split_ifs with hdone
    · exact ih hrest
    · have hlt : base < q.1 := by simpa using hdone
      exact forall_mem_cons.mpr ⟨hlt, fun p hp ↦ hlt.trans_le (hfirst p hp)⟩

lemma accept (h : c.Tracks gone) (w : ℕ) : (c.accept w).completeSends.Tracks gone := by
  have htaken : gone + (c.accept w).outBase = (c.accept w).socket.length := by
    rw [Connection.accept, length_append, ← h.taken, Nat.add_assoc]
  have hsub : (c.accept w).completeSends.pending <+ c.pending := dropWhile_sublist _
  constructor
  · exact htaken
  · rw [completeSends, append_assoc, ← map_append, takeWhile_append_dropWhile]
    exact h.order
  · refine forall_mem_append.mpr ⟨fun send hsend ↦ ?_, fun send hsend ↦ ?_⟩
    · refine (h.done send hsend).trans ?_
      simp [completeSends, Connection.accept]
    · obtain ⟨p, hp, rfl⟩ := mem_map.mp hsend
      have hle : p.1 ≤ (c.accept w).outBase := 
        of_decide_eq_true (all_eq_true.mp all_takeWhile p hp)
      rw [(h.queued p ((takeWhile_sublist _).subset hp)).1]
      exact (Nat.add_le_add_left hle gone).trans htaken.le
  · exact fun p hp ↦ h.queued p (hsub.subset hp)
  · exact h.sorted.sublist hsub
  · exact lt_of_mem_dropWhile h.sorted

lemma flush (h : c.Tracks gone) (writes : List ℕ) : (flush writes c).Tracks gone := by
  induction writes generalizing c with
  | nil => exact h
  | cons w writes ih =>
    rw [Connection.flush]
    split_ifs
    · exact ih (h.accept w)
    · exact h

lemma pumpWrite (h : c.Tracks gone) (writes : List ℕ) :
    ∃ gone, (c.pumpWrite writes).Tracks gone := by
  have hflushed := h.flush writes
  rw [Connection.pumpWrite]
  dsimp only
  split_ifs with hwaits hdrained
  · exact ⟨gone, h⟩
  · have hnil := hflushed.pending_eq_nil hdrained.1
    exact ⟨_, rfl, hflushed.order, hflushed.done, by simp [hnil], by simp [hnil], by simp [hnil]⟩
  · exact ⟨gone, hflushed⟩

lemma exec (h : c.Tracks gone) {action : Action} (huntaken : c.Untaken action) :
    ∃ gone, (c.exec action).Tracks gone := by
  cases action with
  | send payload writes => exact (h.queueFramed huntaken payload).pumpWrite writes
  | ready writes => exact pumpWrite (c := { c with connected := true }) { h with } writes

end Tracks

theorem send_completion {hello : List UInt8} {connected : Bool} {actions : List Action}
    (h : Meets exec Untaken { out := hello, connected := connected } actions) :
    (run exec { out := hello, connected := connected } actions).Exact := by
  have hstart : Tracks 0 { out := hello, connected := connected } :=
    ⟨rfl, rfl, nofun, nofun, .nil, nofun⟩
  obtain ⟨gone, hfinal⟩ := h.induction (fun c ↦ ∃ gone, Tracks gone c)
    (fun c action ⟨_, hc⟩ huntaken ↦ hc.exec huntaken) ⟨0, hstart⟩
  exact hfinal.exact

theorem send_completion_drained :
    (run exec { out := [7], connected := true } [.ready [0], .send [8] [0, 1], .ready [9]]).Exact :=
  send_completion (by decide)

/-- The second frame is queued when the socket has one byte of the first, and its promise is left
when the buffer is empty. -/
theorem partial_write_strands :
    ¬ (run exec { connected := true } [.send [7] [0], .send [8] [9]]).Exact :=
  fun h ↦ absurd (h.2.2 (by decide)) (by decide)

end Connection

end Lockstep.Prod
