import Lockstep.Pg.Session
import Lockstep.Sql.GroupCommit

/-!
# The session and the transaction of its engine

The session follows the transaction of the engine by the first words of the statements it runs. It
is right about it as long as two things are left out. `ROLLBACK TO` has the first word of
`ROLLBACK`, but does not end the transaction. And the statement of a portal that is described is run
without being followed.
-/

namespace Lockstep.Pg

open Library Sql Conn Engine GuardedRun OneTable
open List

variable {L : Language}

variable {c : EngineConn L} {e : Engine L} {p : Portal L} {s sql : Text}

/-! ### The transaction of the engine -/

def OpensOrEnds (L : Language) (sql : Text) : Prop :=
  ∃ c, parseSql L sql = .ok (.control c) ∧ (c = .begin ∨ c = .commit ∨ c = .rollback)

lemma foldl_commitWrites_inTxn (e : Engine L) (batches : List (List Write)) :
    (batches.foldl commitWrites e).inTxn = e.inTxn := by
  induction batches generalizing e with
  | nil => rfl
  | cons kvs batches ih =>
    rw [foldl_cons, ih, commitWrites_inTxn]

lemma execPrepared_inTxn (params : List L.Datum) (h : ¬OpensOrEnds L sql) :
    (e.execPrepared sql params).2.inTxn = e.inTxn := by
  unfold execPrepared
  cases hparse : parseSql L sql with
  | error msg => rfl
  | ok st =>
    cases st with
    | other s => exact foldl_commitWrites_inTxn _ _
    | control c =>
      show (e.execControl c).2.inTxn = e.inTxn
      cases c with
      | begin => exact absurd ⟨_, hparse, .inl rfl⟩ h
      | commit => exact absurd ⟨_, hparse, .inr (.inl rfl)⟩ h
      | rollback => exact absurd ⟨_, hparse, .inr (.inr rfl)⟩ h
      | savepoint name =>
        simp only [execControl]
        split_ifs <;> rfl
      | rollbackTo name =>
        simp only [execControl]
        split_ifs
        · rfl
        · split <;> rfl
      | release name =>
        simp only [execControl]
        split_ifs
        · rfl
        · split <;> rfl

lemma execPrepared_control {c : Control} (h : parseSql L sql = .ok (.control c))
    (params : List L.Datum) : e.execPrepared sql params = e.execControl c := by
  unfold execPrepared
  rw [h]
  rfl

lemma execPrepared_of_error {msg : String} (h : parseSql L sql = .error msg)
    (params : List L.Datum) : e.execPrepared sql params = (.failure msg, e) := by
  unfold execPrepared
  rw [h]

lemma opensOrEnds_head (h : OpensOrEnds L sql) :
    statementHead sql = kwBegin ∨ statementHead sql = kwCommit ∨
      statementHead sql = kwRollback := by
  obtain ⟨c, hparse, rfl | rfl | rfl⟩ := h
  · exact .inl (statementHead_of_control hparse)
  · exact .inr (.inl (statementHead_of_control hparse))
  · exact .inr (.inr (statementHead_of_control hparse))

lemma execControl_commit_inTxn (h : e.inTxn = true) :
    (e.execControl .commit).1.ok = true ∧ (e.execControl .commit).2.inTxn = false := by
  simp only [execControl, h, Bool.not_true, Bool.false_eq_true, if_false]
  split_ifs
  · exact ⟨trivial, commitWrites_inTxn _ _⟩
  · exact ⟨trivial, rfl⟩

/-! ### Statements that are followed -/

namespace Conn

def Mirrors (c : EngineConn L) : Prop := c.session.inTxn = c.engine.inTxn

def Redundant (c : EngineConn L) (s : Text) : Prop :=
  (statementHead s = kwBegin ∧ c.session.inTxn = true) ∨
    ((statementHead s = kwCommit ∨ statementHead s = kwRollback) ∧ c.session.inTxn = false)

instance (c : EngineConn L) (s : Text) : Decidable (c.Redundant s) :=
  inferInstanceAs (Decidable (_ ∨ _))

lemma runStatement_redundant (h : c.Redundant s) : ∃ tag, c.runStatement s = (.inl tag, c) := by
  rcases h with h | h
  · exact ⟨_, if_pos h⟩
  · have hnot : ¬(statementHead s = kwBegin ∧ c.session.inTxn = true) :=
      fun hb ↦ Bool.false_ne_true (h.2.symm.trans hb.2)
    exact ⟨_, (if_neg hnot).trans (if_pos h)⟩

lemma runStatement_run (h : ¬c.Redundant s) :
    (c.runStatement s).1 = .inr (c.engine.exec s).1 ∧
      (c.runStatement s).2.engine = (c.engine.exec s).2 ∧
      (c.runStatement s).2.session = { c.session with inTxn :=
        if (c.engine.exec s).1.ok = true ∧ statementHead s = kwBegin then true
        else if (c.engine.exec s).1.ok = true ∧ (statementHead s = kwCommit ∨
          statementHead s = kwRollback) then false
        else c.session.inTxn } := by
  obtain ⟨hbegin, hend⟩ := not_or.mp h
  unfold runStatement
  rw [if_neg hbegin, if_neg hend, exec_engine]
  dsimp only
  by_cases hb : (c.engine.exec s).1.ok = true ∧ statementHead s = kwBegin
  · have hne : ¬((c.engine.exec s).1.ok = true ∧ (statementHead s = kwCommit ∨
        statementHead s = kwRollback)) := by
      rw [hb.2]
      exact fun hc ↦ absurd hc.2 (by decide)
    rw [if_pos hb, if_neg hne, if_pos hb]
    exact ⟨rfl, rfl, rfl⟩
  · split_ifs
    · exact ⟨rfl, rfl, rfl⟩
    · exact ⟨rfl, rfl, rfl⟩

lemma Mirrors.exec (h : c.Mirrors) (hs : ¬OpensOrEnds L s) : (c.exec s).2.Mirrors :=
  h.trans (execPrepared_inTxn [] hs).symm

/-- The session sees the first word of a statement that opens or ends a transaction. -/
def LooksLikeControl (s : Text) : Prop :=
  statementHead s = kwBegin ∨ statementHead s = kwCommit ∨ statementHead s = kwRollback

lemma Mirrors.followed (h : c.Mirrors) (hredundant : ¬c.Redundant s) {ctl : Control}
    (hparse : parseSql L s = .ok (.control ctl)) (hlooks : LooksLikeControl s)
    (hrollbackTo : ∀ name, ctl ≠ .rollbackTo name) : (c.runStatement s).2.Mirrors := by
  obtain ⟨-, hengine, hsession⟩ := runStatement_run hredundant
  obtain ⟨hbegin, hend⟩ := not_or.mp hredundant
  have hhead := statementHead_of_control hparse
  have hexec : c.engine.exec s = c.engine.execControl ctl := execPrepared_control hparse []
  unfold Mirrors
  rw [hengine, hsession, hexec]
  have hinside : statementHead s = kwCommit ∨ statementHead s = kwRollback →
      c.engine.inTxn = true := by
    intro hword
    rw [← show c.session.inTxn = c.engine.inTxn from h]
    exact Bool.eq_true_of_not_eq_false fun hout ↦ hend ⟨hword, hout⟩
  cases ctl with
  | begin =>
    have hout : c.engine.inTxn = false := by
      rw [← show c.session.inTxn = c.engine.inTxn from h]
      exact Bool.eq_false_of_not_eq_true fun hin ↦ hbegin ⟨hhead, hin⟩
    have hbegun : c.engine.execControl .begin =
        ({}, { c.engine with inTxn := true, txnWrites := [], savepoints := [] }) := by
      simp [execControl, hout]
    rw [hbegun, if_pos ⟨rfl, hhead⟩]
  | commit =>
    obtain ⟨hok, hdone⟩ := execControl_commit_inTxn (hinside (.inl hhead))
    rw [hdone, if_neg, if_pos ⟨hok, .inl hhead⟩]
    rw [hhead]
    exact fun hb ↦ absurd hb.2 (by decide)
  | rollback =>
    have hin := hinside (.inr hhead)
    have hdone : c.engine.execControl .rollback = ({}, { c.engine with
        inTxn := false, txnWrites := [], savepoints := [],
        mem := L.rollbackMem c.engine.mem }) := by
      simp [execControl, hin]
    rw [hdone, if_neg, if_pos ⟨rfl, .inr hhead⟩]
    rw [hhead]
    exact fun hb ↦ absurd hb.2 (by decide)
  | rollbackTo name => exact absurd rfl (hrollbackTo name)
  | savepoint name =>
    rw [LooksLikeControl, hhead, controlKeyword] at hlooks
    exact absurd hlooks (by decide)
  | release name =>
    rw [LooksLikeControl, hhead, controlKeyword] at hlooks
    exact absurd hlooks (by decide)

lemma Mirrors.runStatement (hwords : WordKeywords L) (h : c.Mirrors)
    (hs : ∀ name, parseSql L s ≠ .ok (.control (.rollbackTo name))) :
    (c.runStatement s).2.Mirrors := by
  by_cases hredundant : c.Redundant s
  · obtain ⟨tag, hrun⟩ := runStatement_redundant hredundant
    rw [hrun]
    exact h
  obtain ⟨-, hengine, hsession⟩ := runStatement_run hredundant
  by_cases hlooks : LooksLikeControl s
  · cases hparse : parseSql L s with
    | error msg =>
      have hexec : c.engine.exec s = (.failure msg, c.engine) := execPrepared_of_error hparse []
      unfold Mirrors
      rw [hengine, hsession, hexec]
      exact h
    | ok st =>
      obtain ⟨ctl, rfl, -⟩ := control_of_statementHead hwords hparse hlooks
      refine h.followed hredundant hparse hlooks fun name hname ↦ hs name ?_
      rw [hparse, hname]
  · obtain ⟨hb, hce⟩ := not_or.mp hlooks
    have hsame : (c.engine.exec s).2.inTxn = c.engine.inTxn :=
      execPrepared_inTxn [] fun hopen ↦ hlooks (opensOrEnds_head hopen)
    unfold Mirrors
    rw [hengine, hsession]
    rw [if_neg fun hok ↦ hb hok.2, if_neg fun hok ↦ hce hok.2, hsame]
    exact h

lemma not_opensOrEnds_of_head (h : ¬LooksLikeControl s) : ¬OpensOrEnds L s :=
  fun hopen ↦ h (opensOrEnds_head hopen)

lemma not_opensOrEnds_fetchText (chan : Text) : ¬OpensOrEnds L (fetchText chan) := by
  refine not_opensOrEnds_of_head ?_
  have hhead : statementHead (fetchText chan) = ['f', 'e', 't', 'c', 'h'] := rfl
  rw [LooksLikeControl, hhead]
  decide

lemma not_opensOrEnds_describeText (table : Text) : ¬OpensOrEnds L (describeText table) := by
  refine not_opensOrEnds_of_head ?_
  have hhead : statementHead (describeText table) =
    ['d', 'e', 's', 'c', 'r', 'i', 'b', 'e'] := rfl
  rw [LooksLikeControl, hhead]
  decide

/-! ### Messages -/

lemma Mirrors.pollNotifications (h : c.Mirrors) (cfg : Config L) :
    (c.pollNotifications cfg).2.Mirrors :=
  pollNotifications_keeps (fun _ _ h ↦ h) (fun _ chan h ↦ h.exec (not_opensOrEnds_fetchText chan))
    cfg h

lemma Mirrors.handleQuery (hwords : WordKeywords L) (h : c.Mirrors) (cfg : Config L)
    (hsql : ∀ s ∈ splitStatements sql, ∀ name, parseSql L s ≠ .ok (.control (.rollbackTo name))) :
    (c.handleQuery cfg sql).2.Mirrors :=
  handleQuery_keeps (fun _ _ h ↦ h) (fun _ chan h ↦ h.exec (not_opensOrEnds_fetchText chan)) cfg
    (fun s hs _ h ↦ h.runStatement hwords (hsql s hs)) h

lemma Mirrors.runPortal (h : c.Mirrors) (hp : ¬OpensOrEnds L p.sql) :
    (c.runPortal p).2.Mirrors := by
  unfold Conn.runPortal
  split_ifs
  · exact h.trans (execPrepared_inTxn p.params hp).symm
  · exact h.exec hp

/-- The messages that the session follows: no `ROLLBACK TO` is run, and no portal of a statement
that opens or ends a transaction is described. -/
def Followed (c : EngineConn L) : Frontend → Prop
  | .query sql => ∀ s ∈ splitStatements sql, ∀ name,
      parseSql L s ≠ .ok (.control (.rollbackTo name))
  | .describePortal name => ∀ p, c.session.portals name = some p → ¬OpensOrEnds L p.sql
  | .execute portal => ∀ p, c.session.portals portal = some p → p.cached = none → ∀ name,
      parseSql L p.sql ≠ .ok (.control (.rollbackTo name))
  | _ => True

lemma Mirrors.handleExecute (hwords : WordKeywords L) (h : c.Mirrors) {name : Text}
    (hmsg : c.Followed (.execute name)) : (c.handleExecute name).2.Mirrors := by
  unfold Conn.handleExecute
  split
  · exact h
  next p hportal =>
  split
  · exact h
  next hcached =>
  dsimp only
  split_ifs with hcontrol
  · have hrun := h.runStatement hwords (hmsg p hportal hcached)
    split
    · next hresult =>
      rw [hresult] at hrun
      exact hrun
    · next hresult =>
      rw [hresult] at hrun
      exact hrun
  · have hlooks : ¬LooksLikeControl p.sql := fun hlooks ↦ hcontrol (.inr hlooks)
    exact h.runPortal (not_opensOrEnds_of_head hlooks)

lemma Mirrors.receive (hwords : WordKeywords L) (h : c.Mirrors) (cfg : Config L)
    {msg : Frontend} (hmsg : c.Followed msg) : (c.receive cfg msg).2.Mirrors := by
  unfold Conn.receive
  split_ifs
  · exact h
  cases msg with
  | query sql => exact h.handleQuery hwords cfg hmsg
  | parse name query types => exact h
  | bind portal stmt formats params results =>
    dsimp only
    unfold handleBind
    split
    · exact h
    · split_ifs <;> exact h
  | describeStatement name =>
    dsimp only
    unfold handleDescribeStatement
    split
    · exact h
    dsimp only
    split_ifs
    · exact h
    · split
      · exact h
      · next table _ => exact h.exec (not_opensOrEnds_describeText (L := L) table)
  | describePortal name =>
    dsimp only
    unfold handleDescribePortal
    split
    · exact h
    · next p hportal => exact h.runPortal (hmsg p hportal)
  | execute portal => exact h.handleExecute hwords hmsg
  | closeStatement name => exact h
  | closePortal name => exact h
  | sync => exact h.pollNotifications cfg
  | terminate => exact h
  | other => exact h

/-! ### Portals -/

lemma runPortal_of_looksLikeControl (hwords : WordKeywords L) (c : EngineConn L)
    (hlooks : LooksLikeControl p.sql) : c.runPortal p = c.exec p.sql := by
  unfold runPortal
  split_ifs
  · have hsame : c.engine.execPrepared p.sql p.params = c.engine.exec p.sql := by
      cases hparse : parseSql L p.sql with
      | error msg =>
        rw [Engine.exec, execPrepared_of_error hparse, execPrepared_of_error hparse]
      | ok st =>
        obtain ⟨ctl, rfl, -⟩ := control_of_statementHead hwords hparse hlooks
        rw [Engine.exec, execPrepared_control hparse, execPrepared_control hparse]
    exact congrArg (fun r ↦ (r.1, { c with engine := r.2 })) hsame
  · rfl

/-- What the messages about a portal run: a description runs its statement and keeps the result, an
execution with a result that was kept returns it, one of a redundant statement completes it, and
every other one runs the statement and returns its result. -/
structure RunsPortal (cfg : Config L) (c : EngineConn L) (name : Text) (p : Portal L) : Prop where
  described : (c.receive cfg (.describePortal name)).2.engine = (c.runPortal p).2.engine ∧
    (c.receive cfg (.describePortal name)).2.session.portals name =
      some { p with cached := some (c.runPortal p).1 }
  kept : ∀ r, p.cached = some r → (c.receive cfg (.execute name)).1 = executeReply p true r ∧
    (c.receive cfg (.execute name)).2.engine = c.engine ∧
    (c.receive cfg (.execute name)).2.session.portals name = some { p with cached := none }
  redundant : p.cached = none → c.Redundant p.sql →
    (∃ tag, (c.receive cfg (.execute name)).1 = [.commandComplete tag]) ∧
      (c.receive cfg (.execute name)).2.engine = c.engine
  executed : p.cached = none → ¬c.Redundant p.sql →
    (c.receive cfg (.execute name)).1 = executeReply p false (c.runPortal p).1 ∧
      (c.receive cfg (.execute name)).2.engine = (c.runPortal p).2.engine

lemma runsPortal (hwords : WordKeywords L) (cfg : Config L) {name : Text}
    (hopen : c.session.closed = false) (hportal : c.session.portals name = some p) :
    c.RunsPortal cfg name p := by
  have hdescribe : c.receive cfg (.describePortal name) = c.handleDescribePortal name := by
    simp [receive, hopen]
  have hexecute : c.receive cfg (.execute name) = c.handleExecute name := by
    simp [receive, hopen]
  constructor
  · rw [hdescribe]
    simp only [handleDescribePortal, hportal]
    exact ⟨rfl, if_pos rfl⟩
  · intro r hcached
    rw [hexecute]
    simp only [handleExecute, hportal, hcached]
    exact ⟨trivial, rfl, if_pos rfl⟩
  · intro hcached hredundant
    obtain ⟨tag, hrun⟩ := runStatement_redundant hredundant
    have hlooks : LooksLikeControl p.sql := by
      rcases hredundant with h | h
      · exact .inl h.1
      · exact .inr h.1
    rw [hexecute]
    simp only [handleExecute, hportal, hcached]
    rw [if_pos (.inr hlooks), hrun]
    exact ⟨⟨tag, rfl⟩, rfl⟩
  · intro hcached hredundant
    obtain ⟨hresult, hengine, -⟩ := runStatement_run hredundant
    rw [hexecute]
    simp only [handleExecute, hportal, hcached]
    by_cases hfollowed : p.typed = false ∨ statementHead p.sql = kwBegin ∨
        statementHead p.sql = kwCommit ∨ statementHead p.sql = kwRollback
    · have hportalRun : c.runPortal p = c.exec p.sql := by
        rcases hfollowed with htyped | hlooks
        · rw [runPortal, htyped]
          rfl
        · exact runPortal_of_looksLikeControl hwords c hlooks
      rw [if_pos hfollowed, hportalRun]
      cases hrun : c.runStatement p.sql with
      | mk result c' =>
        rw [hrun] at hresult hengine
        obtain rfl : result = .inr (c.engine.exec p.sql).1 := hresult
        exact ⟨rfl, hengine⟩
    · rw [if_neg hfollowed]
      exact ⟨rfl, rfl⟩

lemma describeStatement_engine (cfg : Config L) (c : EngineConn L) (name : Text) :
    (c.receive cfg (.describeStatement name)).2.engine = c.engine ∨
      ∃ table, (c.receive cfg (.describeStatement name)).2.engine =
        (c.engine.exec (describeText table)).2 := by
  unfold receive
  split_ifs
  · exact .inl rfl
  dsimp only
  unfold handleDescribeStatement
  split
  · exact .inl rfl
  dsimp only
  split_ifs
  · exact .inl rfl
  · split
    · exact .inl rfl
    · next table _ => exact .inr ⟨table, rfl⟩

lemma Mirrors.commit (h : c.Mirrors) (hs : parseSql L s = .ok (.control .commit)) :
    (c.runStatement s).2.engine =
      if c.engine.inTxn = true then (c.engine.execControl .commit).2 else c.engine := by
  have hhead := statementHead_of_control hs
  have hmirror : c.session.inTxn = c.engine.inTxn := h
  split_ifs with hin
  · have hrun : ¬c.Redundant s := by
      rintro (hb | hc)
      · rw [hhead] at hb
        exact absurd hb.1 (by decide)
      · rw [hmirror, hin] at hc
        exact Bool.false_ne_true hc.2.symm
    rw [(runStatement_run hrun).2.1, Engine.exec, execPrepared_control hs]
  · have hout : c.session.inTxn = false := hmirror.trans (Bool.eq_false_of_not_eq_true hin)
    obtain ⟨tag, hrun⟩ := runStatement_redundant (.inr ⟨.inl hhead, hout⟩)
    rw [hrun]

end Conn

/-- A session over an engine of its own, and messages that it follows: after every one of them its
flag is that of the engine, so a `COMMIT` leaves no transaction open and has committed the one that
was; and the messages about a portal run its statement as they should. -/
theorem session_mirrors_engine (hwords : WordKeywords L) (cfg : Config L) {e : Engine L}
    (he : e.inTxn = false) (msgs : List Frontend)
    (h : Meets (fun c msg ↦ (receive cfg c msg).2) Followed
      { engine := e } msgs) :
    let c := run (fun c msg ↦ (receive cfg c msg).2) { engine := e } msgs
    c.session.inTxn = c.engine.inTxn ∧
      (∀ s, parseSql L s = .ok (.control .commit) → (c.runStatement s).2.engine =
        if c.engine.inTxn = true then (c.engine.execControl .commit).2 else c.engine) ∧
      (∀ name p, c.session.closed = false → c.session.portals name = some p →
        c.RunsPortal cfg name p) ∧
      ∀ name, (c.receive cfg (.describeStatement name)).2.engine = c.engine ∨
        ∃ table, (c.receive cfg (.describeStatement name)).2.engine =
          (c.engine.exec (describeText table)).2 := by
  have hstart : ({ engine := e } : EngineConn L).Mirrors := he.symm
  have hmirrors := h.induction Mirrors (fun c msg hc hmsg ↦ hc.receive hwords cfg hmsg) hstart
  exact ⟨hmirrors, fun s hs ↦ hmirrors.commit hs, fun name p ↦ runsPortal hwords cfg,
    describeStatement_engine cfg _⟩

lemma wordKeywords_oneTable : WordKeywords language := by
  have hletters : ∀ {t kw : Text}, lower t = kw → (∀ c ∈ kw, isAlpha c = true) →
      ∀ c ∈ t, isAlpha c = true := by
    rintro t kw rfl hkw
    exact takeWhile_eq_self_iff.mp (isAlpha_of_lower hkw)
  intro t rest s h
  change parse (.ident t :: rest) = .ok s at h
  unfold parse at h
  split at h
  · next hcons =>
    split_ifs at h with hkw
    obtain rfl := Token.ident.inj (cons.inj hcons).1
    exact hletters hkw.1 (all_eq_true.mp rfl)
  · next hcons =>
    obtain rfl := Token.ident.inj (cons.inj hcons).1
    split_ifs at h with htruncate hselect
    · exact hletters htruncate (all_eq_true.mp rfl)
    · exact hletters hselect (all_eq_true.mp rfl)
  · exact absurd h (by rintro ⟨⟩)

def untyped : Config language where
  typed := false
  decodeBinary _ _ := none
  typedDatum _ _ := ()
  nullDatum := ()
  cellInt _ := 0

def freshConn : EngineConn language := { engine := { mem := (), db := .new, catalogDb := .new } }

def followedMessages : List Frontend :=
  [.query "BEGIN; INSERT INTO t (id) VALUES (1); COMMIT".toList,
    .parse [] "INSERT INTO t (id) VALUES ($1)".toList [], .bind [] [] [] [some ['2']] [],
    .describePortal [], .execute [], .sync]

theorem session_mirrors_engine_followed :
    (run (fun c msg ↦ (receive untyped c msg).2) freshConn
      followedMessages).session.inTxn =
    (run (fun c msg ↦ (receive untyped c msg).2) freshConn
      followedMessages).engine.inTxn := by
  have hnot : ∀ {s : Text}, statementHead s ≠ kwRollback → ∀ name,
      parseSql language s ≠ .ok (.control (.rollbackTo name)) :=
    fun hs _ hparse ↦ hs (statementHead_of_control hparse)
  -- the portal holds the insert when it is described and when it is executed
  have hportal : ∀ (found : Option (Portal language)),
      (found.map fun p ↦ statementHead p.sql) = some ['i', 'n', 's', 'e', 'r', 't'] →
        ∀ p, found = some p → statementHead p.sql = ['i', 'n', 's', 'e', 'r', 't'] := by
    rintro found hfound p rfl
    exact Option.some.inj hfound
  refine (session_mirrors_engine wordKeywords_oneTable untyped rfl followedMessages
    ⟨?_, trivial, trivial, ?_, ?_, trivial, trivial⟩).1
  · have hall : ∀ s ∈ splitStatements "BEGIN; INSERT INTO t (id) VALUES (1); COMMIT".toList,
        statementHead s ≠ kwRollback := by decide +kernel
    exact fun s hs ↦ hnot (hall s hs)
  · intro p hp
    refine not_opensOrEnds_of_head ?_
    rw [LooksLikeControl, hportal _ (by decide +kernel) p hp]
    decide
  · intro p hp _
    refine hnot ?_
    rw [hportal _ (by decide +kernel) p hp]
    decide

def describedInsert : List Frontend :=
  [.parse [] "INSERT INTO t (id) VALUES (1)".toList [], .bind [] [] [] [] [], .describePortal []]

/-- The row is written by the description alone. -/
theorem describe_writes_row :
    (run (fun c msg ↦ (receive untyped c msg).2) freshConn
      (describedInsert.take 2)).engine.db.writes = [] ∧
    (run (fun c msg ↦ (receive untyped c msg).2) freshConn
      describedInsert).engine.db.writes = [(rowKey 1, [])] := by
  decide +kernel

end Lockstep.Pg
