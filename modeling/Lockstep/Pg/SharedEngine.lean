import Lockstep.Pg.BesideTransaction

/-!
# Sessions over one engine

The server of `ProdPgServer.hpp` hands the statements of all its sessions to one engine.

What it is meant to be is a server where every session has a transaction of its own (`Isolated`):
the stores are shared, the buffers are not, and a session that goes away takes its buffer with it.
-/

namespace Lockstep.Pg

open Library Sql GuardedRun
open List Option

variable {L : Language}

/-! ### The server -/

/-- What happens to the server: a connection, a query of a session, the look for its notifications,
the end of a session. -/
inductive PgEvent where
  | connect
  | query (id : ℕ) (sql : Text)
  | pump (id : ℕ)
  | disconnect (id : ℕ)
  deriving DecidableEq

def setSession (sessions : ℕ → Option (Session L)) (id : ℕ) (session : Option (Session L)) :
    ℕ → Option (Session L) :=
  fun j ↦ if j = id then session else sessions j

/-- The server. Next to its state stand the session that opened the transaction of the engine, if
one is open, and what was sent. -/
structure PgServer (L : Language) where
  engine : Engine L
  sessions : ℕ → Option (Session L) := fun _ ↦ none
  nextId : ℕ := 0
  owner : Option ℕ := none
  sent : List (ℕ × Backend) := []

namespace PgServer

def serve (s : PgServer L) (id : ℕ) (act : EngineConn L → List Backend × EngineConn L) :
    PgServer L :=
  match s.sessions id with
  | none => s
  | some session =>
    let r := act ⟨session, s.engine⟩
    { s with
      engine := r.2.engine, sessions := setSession s.sessions id (some r.2.session),
      owner := if r.2.engine.inTxn then (if s.engine.inTxn then s.owner else some id) else none,
      sent := s.sent ++ r.1.map (id, ·) }

def closeConn (s : PgServer L) (id : ℕ) : PgServer L :=
  { s with sessions := setSession s.sessions id none }

def step (cfg : Config L) (s : PgServer L) : PgEvent → PgServer L
  | .connect =>
    { s with sessions := setSession s.sessions s.nextId (some {}), nextId := s.nextId + 1 }
  | .query id sql => s.serve id (·.handleQuery cfg sql)
  | .pump id => s.serve id (·.pollNotifications cfg)
  | .disconnect id => s.closeConn id

def InTransaction (s : PgServer L) (id : ℕ) : Prop :=
  s.engine.inTxn = true ∧ s.owner = some id

/-- While a transaction is open, the other sessions give the engine nothing that it makes a
difference to. -/
def Alone (s : PgServer L) (event : PgEvent) : Prop :=
  match event with
  | .connect | .disconnect _ => True
  | .query id sql => s.engine.inTxn = true → s.owner ≠ some id →
      ∀ session, s.sessions id = some session → Unnoticed s.engine session ∧
        ∀ stmt ∈ splitStatements sql, Unaffected s.engine session stmt
  | .pump id => s.engine.inTxn = true → s.owner ≠ some id →
      ∀ session, s.sessions id = some session → Unnoticed s.engine session

end PgServer

structure Isolated (L : Language) where
  shared : Engine L
  own : ℕ → Pending := fun _ ↦ {}
  sessions : ℕ → Option (Session L) := fun _ ↦ none
  nextId : ℕ := 0
  sent : List (ℕ × Backend) := []

namespace Isolated

def setOwn (own : ℕ → Pending) (id : ℕ) (p : Pending) : ℕ → Pending :=
  fun j ↦ if j = id then p else own j

def serve (i : Isolated L) (id : ℕ) (act : EngineConn L → List Backend × EngineConn L) :
    Isolated L :=
  match i.sessions id with
  | none => i
  | some session =>
    let r := act ⟨session, within i.shared (i.own id)⟩
    { i with
      shared := settle r.2.engine, own := setOwn i.own id (pending r.2.engine),
      sessions := setSession i.sessions id (some r.2.session), sent := i.sent ++ r.1.map (id, ·) }

def closeConn (i : Isolated L) (id : ℕ) : Isolated L :=
  { i with sessions := setSession i.sessions id none, own := setOwn i.own id {} }

def step (cfg : Config L) (i : Isolated L) : PgEvent → Isolated L
  | .connect =>
    { i with sessions := setSession i.sessions i.nextId (some {}), nextId := i.nextId + 1 }
  | .query id sql => i.serve id (·.handleQuery cfg sql)
  | .pump id => i.serve id (·.pollNotifications cfg)
  | .disconnect id => i.closeConn id

end Isolated

/-! ### Simulation -/

/-- The server and the one it is meant to be: the transaction that is open is the one of the session
that opened it, and gone with that session. -/
structure Follows (s : PgServer L) (i : Isolated L) : Prop where
  sessions : i.sessions = s.sessions
  nextId : i.nextId = s.nextId
  sent : i.sent = s.sent
  shared : i.shared = settle s.engine
  own : ∀ id, i.own id =
    if s.owner = some id ∧ (s.sessions id).isSome = true then pending s.engine else {}
  settled : Settled s.engine
  owner : s.owner = none ↔ s.engine.inTxn = false
  used : ∀ id, s.nextId ≤ id → s.owner ≠ some id ∧ s.sessions id = none

variable {events : List PgEvent}

namespace Follows

variable {s : PgServer L} {i : Isolated L} {id : ℕ}
  {act : EngineConn L → List Backend × EngineConn L}

lemma start {e : Engine L} (he : pending e = {}) :
    Follows { engine := e } { shared := e } := by
  have hpending := Pending.mk.inj he
  refine ⟨rfl, rfl, rfl, ?_, fun id ↦ ?_, fun _ ↦ hpending.2, ?_, fun id _ ↦ ⟨?_, rfl⟩⟩
  · conv_lhs => rw [← settle_within_pending e, he]
    rfl
  · rw [if_neg fun h ↦ absurd h.1 (by simp)]
  · simp [hpending.1]
  · simp

lemma connect (h : Follows s i) (cfg : Config L) :
    Follows (s.step cfg .connect) (i.step cfg .connect) := by
  refine ⟨?_, ?_, h.sent, h.shared, fun id ↦ ?_, h.settled, h.owner, fun id hid ↦ ?_⟩
  · simp only [Isolated.step, PgServer.step, h.sessions, h.nextId]
  · simp only [Isolated.step, PgServer.step, h.nextId]
  · show i.own id =
      if s.owner = some id ∧ (setSession s.sessions _ _ id).isSome = true then _ else _
    rw [h.own]
    by_cases hnew : id = s.nextId
    · have howner := (h.used id hnew.ge).1
      rw [if_neg fun hid ↦ howner hid.1, if_neg fun hid ↦ howner hid.1]
    · rw [setSession, if_neg hnew]
      rfl
  · have hused := h.used id (Nat.le_of_succ_le hid)
    refine ⟨hused.1, ?_⟩
    show setSession s.sessions _ _ id = none
    rw [setSession, if_neg (by rintro rfl; exact absurd hid (Nat.not_succ_le_self _))]
    exact hused.2

lemma closeConn (h : Follows s i) (id : ℕ) : Follows (s.closeConn id) (i.closeConn id) := by
  refine ⟨?_, h.nextId, h.sent, h.shared, fun j ↦ ?_, h.settled, h.owner, fun j hj ↦ ?_⟩
  · simp only [Isolated.closeConn, PgServer.closeConn, h.sessions]
  · show Isolated.setOwn i.own id {} j =
      if s.owner = some j ∧ (setSession s.sessions id none j).isSome = true then _ else _
    unfold Isolated.setOwn setSession
    split_ifs with hj hlive hlive
    · simp at hlive
    · rfl
    · rw [h.own, if_pos hlive]
      rfl
    · rw [h.own, if_neg hlive]
  · refine ⟨(h.used j hj).1, ?_⟩
    show setSession s.sessions id none j = none
    unfold setSession
    split_ifs
    · rfl
    · exact (h.used j hj).2

lemma serve_own (h : Follows s i) (hown : s.engine.inTxn = true → s.owner = some id)
    (hlater : ∀ session, Later s.engine (act ⟨session, s.engine⟩).2.engine) :
    Follows (s.serve id act) (i.serve id act) := by
  unfold PgServer.serve Isolated.serve
  rw [h.sessions]
  cases hsession : s.sessions id with
  | none => exact h
  | some session =>
    have hpending : i.own id = pending s.engine := by
      rw [h.own]
      split_ifs with hopen
      · rfl
      · refine (pending_eq h.settled ?_).symm
        by_contra hin
        exact hopen ⟨hown (by simpa using hin), by rw [hsession]; rfl⟩
    have hengine : within i.shared (i.own id) = s.engine := by
      rw [h.shared, hpending, settle_within_pending]
    have hsettled := (hlater session).settled h.settled
    have howner : (if s.engine.inTxn = true then s.owner else some id) = some id := by
      split_ifs with hin
      · exact hown hin
      · rfl
    simp only [hengine, howner]
    refine ⟨rfl, h.nextId, by rw [h.sent], rfl, fun j ↦ ?_, hsettled, ?_, fun j hj ↦ ?_⟩
    · show Isolated.setOwn i.own id _ j = if _ ∧ (setSession s.sessions id _ j).isSome = true then _
        else _
      unfold Isolated.setOwn setSession
      by_cases hj : j = id
      · subst hj
        by_cases hin : (act ⟨session, s.engine⟩).2.engine.inTxn = true
        · simp [hin]
        · simp [pending_eq hsettled (by simpa using hin)]
      · have hnone : i.own j = {} := by
          rw [h.own, if_neg]
          rintro ⟨hj', -⟩
          by_cases hin : s.engine.inTxn = true
          · exact hj (some.inj (hj'.symm.trans (hown hin)))
          · rw [h.owner.mpr (by simpa using hin)] at hj'
            cases hj'
        rw [if_neg hj, hnone]
        refine (if_neg ?_).symm
        rintro ⟨hj', -⟩
        dsimp only at hj'
        split_ifs at hj' with hin
        exact hj (some.inj hj').symm
    · cases (act ⟨session, s.engine⟩).2.engine.inTxn <;> simp
    · have hid : j ≠ id := by
        rintro rfl
        rw [(h.used j hj).2] at hsession
        cases hsession
      refine ⟨?_, ?_⟩
      · show (if _ then some id else none) ≠ some j
        split_ifs
        · exact fun heq ↦ hid (some.inj heq).symm
        · simp
      · show setSession s.sessions id _ j = none
        rw [setSession, if_neg hid]
        exact (h.used j hj).2

lemma serve_beside (h : Follows s i) (hin : s.engine.inTxn = true) (hother : s.owner ≠ some id)
    (hanswer : ∀ session, s.sessions id = some session →
      SameAnswer s.engine (act ⟨session, s.engine⟩) (act ⟨session, settle s.engine⟩)) :
    Follows (s.serve id act) (i.serve id act) := by
  unfold PgServer.serve Isolated.serve
  rw [h.sessions]
  cases hsession : s.sessions id with
  | none => exact h
  | some session =>
    have hnone : i.own id = {} := by
      rw [h.own, if_neg fun hid ↦ hother hid.1]
    have hengine : within i.shared (i.own id) = settle s.engine := by
      rw [h.shared, hnone]
      rfl
    obtain ⟨hout, hbeside⟩ := hanswer session hsession
    simp only [hengine, hbeside.engine, hbeside.engine', hbeside.session, hout, if_pos hin]
    refine ⟨rfl, h.nextId, by rw [h.sent], rfl, fun j ↦ ?_, h.settled, h.owner, fun j hj ↦ ?_⟩
    · show Isolated.setOwn i.own id {} j =
        if s.owner = some j ∧ (setSession s.sessions id _ j).isSome = true then _ else _
      unfold Isolated.setOwn setSession
      by_cases hj : j = id
      · rw [if_pos hj, if_neg fun hopen ↦ hother (hj ▸ hopen.1)]
      · rw [if_neg hj, if_neg hj, h.own]
    · have hid : j ≠ id := by
        rintro rfl
        rw [(h.used j hj).2] at hsession
        cases hsession
      refine ⟨(h.used j hj).1, ?_⟩
      show setSession s.sessions id _ j = none
      rw [setSession, if_neg hid]
      exact (h.used j hj).2

lemma step (hwords : WordKeywords L) (cfg : Config L) (h : Follows s i) {event : PgEvent}
    (halone : s.Alone event) : Follows (s.step cfg event) (i.step cfg event) := by
  cases event with
  | connect => exact h.connect cfg
  | disconnect id => exact h.closeConn id
  | query id sql =>
    show Follows (s.serve id (·.handleQuery cfg sql)) (i.serve id (·.handleQuery cfg sql))
    by_cases hown : s.engine.inTxn = true → s.owner = some id
    · exact h.serve_own hown fun session ↦ Later.handleQuery cfg ⟨session, s.engine⟩ sql
    · obtain ⟨hin, hother⟩ := Classical.not_imp.mp hown
      refine h.serve_beside hin hother fun session hsession ↦ ?_
      obtain ⟨hlistens, hstmts⟩ := halone hin hother session hsession
      exact Beside.handleQuery hwords cfg ⟨rfl, rfl, rfl⟩ hlistens hstmts
  | pump id =>
    show Follows (s.serve id (·.pollNotifications cfg)) (i.serve id (·.pollNotifications cfg))
    by_cases hown : s.engine.inTxn = true → s.owner = some id
    · exact h.serve_own hown fun session ↦ Later.pollNotifications cfg ⟨session, s.engine⟩
    · obtain ⟨hin, hother⟩ := Classical.not_imp.mp hown
      refine h.serve_beside hin hother fun session hsession ↦ ?_
      exact Beside.pollNotifications cfg ⟨rfl, rfl, rfl⟩ (halone hin hother session hsession)

lemma run (hwords : WordKeywords L) (cfg : Config L) (h : Follows s i)
    (halone : Meets (PgServer.step cfg) PgServer.Alone s events) :
    Follows (run (PgServer.step cfg) s events)
      (run (Isolated.step cfg) i events) := by
  induction events generalizing s i with
  | nil => exact h
  | cons event events ih => exact ih (h.step hwords cfg halone.1) halone.2

lemma answer_committed (hwords : WordKeywords L) (cfg : Config L) (h : Follows s i) {sql : Text}
    (halone : s.Alone (.query id sql)) {session : Session L}
    (hsession : s.sessions id = some session) (hout : ¬s.InTransaction id) :
    (s.step cfg (.query id sql)).sent =
        s.sent ++ (Conn.handleQuery cfg ⟨session, settle s.engine⟩ sql).1.map (id, ·) ∧
      (s.step cfg (.query id sql)).engine.db =
        (Conn.handleQuery cfg ⟨session, settle s.engine⟩ sql).2.engine.db := by
  simp only [PgServer.step, PgServer.serve, hsession]
  by_cases hin : s.engine.inTxn = true
  · have hother : s.owner ≠ some id := fun howner ↦ hout ⟨hin, howner⟩
    obtain ⟨hlistens, hstmts⟩ := halone hin hother session hsession
    have hbeside : Beside s.engine ⟨session, s.engine⟩ ⟨session, settle s.engine⟩ :=
      ⟨rfl, rfl, rfl⟩
    obtain ⟨hsame, hlast⟩ := hbeside.handleQuery hwords cfg hlistens hstmts
    rw [hsame, hlast.engine, hlast.engine']
    exact ⟨rfl, rfl⟩
  · have hpending := pending_eq h.settled (by simpa using hin)
    have hsettle : settle s.engine = s.engine := by
      conv_rhs => rw [← settle_within_pending s.engine, hpending]
      rfl
    rw [hsettle]
    exact ⟨rfl, rfl⟩

end Follows

namespace PgServer

variable {act : EngineConn L → List Backend × EngineConn L}

lemma serve_writes (s : PgServer L) (id : ℕ) (hlater : ∀ c, Later c.engine (act c).2.engine) :
    s.engine.db.writes <+: (s.serve id act).engine.db.writes := by
  unfold serve
  split
  · exact prefix_refl _
  · next session _ => exact (hlater ⟨session, s.engine⟩).writes

lemma run_writes (cfg : Config L) (s : PgServer L) (events : List PgEvent) :
    s.engine.db.writes <+: (run (step cfg) s events).engine.db.writes := by
  refine run_keeps (fun s' : PgServer L ↦ s.engine.db.writes <+: s'.engine.db.writes)
    (fun s' event h ↦ h.trans ?_) (prefix_refl _) events
  cases event with
  | connect => exact prefix_refl _
  | disconnect id => exact prefix_refl _
  | query id sql => exact serve_writes s' id fun c ↦ Later.handleQuery cfg c sql
  | pump id => exact serve_writes s' id fun c ↦ Later.pollNotifications cfg c

def rolledBack (s : PgServer L) : PgServer L := { s with engine := settle s.engine, owner := none }

structure Abandoned (s : PgServer L) (id : ℕ) : Prop where
  inTransaction : s.InTransaction id
  gone : s.sessions id = none
  used : id < s.nextId

namespace Abandoned

variable {s : PgServer L} {id : ℕ}

lemma serve (h : s.Abandoned id) {j : ℕ}
    (hanswer : s.owner ≠ some j → ∀ session, s.sessions j = some session →
      SameAnswer s.engine (act ⟨session, s.engine⟩) (act ⟨session, settle s.engine⟩)) :
    (s.serve j act).Abandoned id ∧ s.rolledBack.serve j act = (s.serve j act).rolledBack := by
  unfold PgServer.serve
  show _ ∧ (match s.sessions j with | none => _ | some session => _) = _
  cases hsession : s.sessions j with
  | none => exact ⟨h, rfl⟩
  | some session =>
    have hid : id ≠ j := by
      rintro rfl
      rw [h.gone] at hsession
      cases hsession
    have hother : s.owner ≠ some j := by
      rw [h.inTransaction.2]
      exact fun heq ↦ hid (some.inj heq)
    obtain ⟨hout, hbeside⟩ := hanswer hother session hsession
    have hin := h.inTransaction.1
    refine ⟨⟨⟨?_, ?_⟩, ?_, h.used⟩, ?_⟩
    · show (act ⟨session, s.engine⟩).2.engine.inTxn = true
      rw [hbeside.engine, hin]
    · simp only [hbeside.engine, if_pos hin]
      exact h.inTransaction.2
    · show setSession s.sessions j _ id = none
      rw [setSession, if_neg hid, h.gone]
    · simp only [rolledBack, hbeside.engine, hbeside.engine', hbeside.session, hout]
      rfl

lemma run (hwords : WordKeywords L) (cfg : Config L) (h : s.Abandoned id)
    (halone : Meets (step cfg) Alone s events) :
    run (step cfg) s.rolledBack events =
      (run (step cfg) s events).rolledBack := by
  induction events generalizing s with
  | nil => rfl
  | cons event events ih =>
    have hstep : (s.step cfg event).Abandoned id ∧
        s.rolledBack.step cfg event = (s.step cfg event).rolledBack := by
      cases event with
      | connect =>
        refine ⟨⟨h.inTransaction, ?_, Nat.lt_succ_of_lt h.used⟩, rfl⟩
        show setSession s.sessions _ _ id = none
        rw [setSession, if_neg h.used.ne, h.gone]
      | disconnect j =>
        refine ⟨⟨h.inTransaction, ?_, h.used⟩, rfl⟩
        show setSession s.sessions j none id = none
        unfold setSession
        split_ifs
        · rfl
        · exact h.gone
      | query j sql =>
        show (s.serve j (·.handleQuery cfg sql)).Abandoned id ∧ _
        refine h.serve fun hother session hsession ↦ ?_
        obtain ⟨hlistens, hstmts⟩ := halone.1 h.inTransaction.1 hother session hsession
        exact Beside.handleQuery hwords cfg ⟨rfl, rfl, rfl⟩ hlistens hstmts
      | pump j =>
        show (s.serve j (·.pollNotifications cfg)).Abandoned id ∧ _
        refine h.serve fun hother session hsession ↦ ?_
        exact Beside.pollNotifications cfg ⟨rfl, rfl, rfl⟩
          (halone.1 h.inTransaction.1 hother session hsession)
    have hrest := ih hstep.1 halone.2
    rw [← hstep.2] at hrest
    exact hrest

end Abandoned

end PgServer

/-- As long as the sessions keep away from the transactions of others, the server is the one that it
is meant to be. A session outside a transaction is answered from what is committed, and what its
statements commit stays; and a session that goes away in a transaction leaves the server as if it
had rolled back. -/
theorem sessions_isolated (hwords : WordKeywords L) (cfg : Config L) {e : Engine L}
    (he : pending e = {}) {events : List PgEvent}
    (halone : Meets (PgServer.step cfg) PgServer.Alone { engine := e } events) :
    let reached := run (PgServer.step cfg) { engine := e }
    let meant := run (Isolated.step cfg) { shared := e }
    ((reached events).sent = (meant events).sent ∧
      settle (reached events).engine = (meant events).shared) ∧
    (∀ before id sql after, events = before ++ .query id sql :: after →
      ∀ session, (reached before).sessions id = some session →
        ¬(reached before).InTransaction id →
        let answer := Conn.handleQuery cfg ⟨session, settle (reached before).engine⟩ sql
        (reached (before ++ [.query id sql])).sent =
            (reached before).sent ++ answer.1.map (id, ·) ∧
          answer.2.engine.db.writes <+: (reached events).engine.db.writes) ∧
    ∀ before id after, events = before ++ .disconnect id :: after →
      (reached before).InTransaction id →
        (reached events).rolledBack =
          run (PgServer.step cfg) ((reached before).closeConn id).rolledBack after := by
  intro reached meant
  refine ⟨?_, ?_, ?_⟩
  · have hfollows := (Follows.start he).run hwords cfg halone
    exact ⟨hfollows.sent.symm, hfollows.shared.symm⟩
  · rintro before id sql after rfl session hsession hout answer
    obtain ⟨hbefore, halone, -⟩ := halone.of_append
    obtain ⟨hsent, hdb⟩ := ((Follows.start he).run hwords cfg hbefore).answer_committed hwords cfg
      halone hsession hout
    refine ⟨?_, ?_⟩
    · simp only [reached, run_append]
      exact hsent
    · simp only [reached, run_append]
      rw [← hdb]
      exact PgServer.run_writes cfg _ after
  · rintro before id after rfl htxn
    obtain ⟨hbefore, -, hafter⟩ := halone.of_append
    have hfollows := (Follows.start he).run hwords cfg hbefore
    have habandoned : ((reached before).closeConn id).Abandoned id := by
      refine ⟨htxn, if_pos rfl, ?_⟩
      by_contra hused
      exact (hfollows.used id (Nat.le_of_not_lt hused)).1 htxn.2
    simp only [reached, run_append]
    exact (habandoned.run hwords cfg hafter).symm

def separateSessions : List PgEvent :=
  [.connect, .connect, .query 0 "BEGIN; INSERT INTO t (id) VALUES (1)".toList,
    .query 1 "INSERT".toList, .query 0 "COMMIT".toList,
    .query 1 "INSERT INTO t (id) VALUES (2)".toList, .disconnect 0]

theorem sessions_isolated_separate :
    (run (PgServer.step untyped) { engine := { mem := () } } separateSessions).sent =
      (run (Isolated.step untyped) { shared := { mem := () } }
        separateSessions).sent := by
  have hparse : ∀ s ∈ splitStatements "INSERT".toList, listenChannelOf s = none ∧
      (parseSql OneTable.language s).isOk = false := by
    decide +kernel
  have hlistens : ∀ found : Option (Session OneTable.language),
      (found.map fun session ↦ session.listens.entries) = some [] →
        ∀ session, found = some session → session.listens.entries = [] := by
    rintro found hfound session rfl
    exact some.inj hfound
  have hisolated : Meets (PgServer.step untyped) PgServer.Alone
      { engine := { mem := () } } separateSessions → _ :=
    fun halone ↦ (sessions_isolated wordKeywords_oneTable untyped rfl halone).1.1
  refine hisolated ⟨trivial, trivial, ?_, ?_, ?_, ?_, trivial, trivial⟩
  · exact fun hin ↦ absurd hin (by decide +kernel)
  · intro _ _ session hsession
    refine ⟨fun listen hlisten ↦ ?_, fun s hs ↦ ?_⟩
    · rw [hlistens _ (by decide +kernel) session hsession] at hlisten
      cases hlisten
    obtain ⟨hchan, hok⟩ := hparse s hs
    simp only [Unaffected, hchan]
    refine .inr ?_
    unfold Indifferent
    cases hparsed : parseSql OneTable.language s with
    | error msg => trivial
    | ok st =>
      rw [hparsed] at hok
      cases hok
  · exact fun _ hother ↦ absurd (by decide +kernel) hother
  · exact fun hin ↦ absurd hin (by decide +kernel)

/-- The second session inserts a row while the first is in a transaction, and sees it completed.
With the rollback of the first session the row is gone. -/
theorem completed_insert_rolled_back :
    let s := run (PgServer.step untyped) { engine := { mem := () } }
      [.connect, .connect, .query 0 "BEGIN".toList,
        .query 1 "INSERT INTO t (id) VALUES (1)".toList, .query 0 "ROLLBACK".toList]
    (1, Backend.commandComplete "INSERT 0 1".toList) ∈ s.sent ∧ s.engine.inTxn = false ∧
      s.engine.db.writes = [] := by
  decide +kernel

end Lockstep.Pg
