import Lockstep.Pg.Mirror

/-!
# A session beside a transaction

The transaction of an engine, its buffer and its savepoints, can be told apart from what is
committed (`settle`, `pending`).
-/

namespace Lockstep.Pg

open Library Sql Conn List

variable {L : Language}

/-! ### What the engine keeps outside a transaction -/

def Settled (e : Engine L) : Prop := e.inTxn = false → e.txnWrites = [] ∧ e.savepoints = []

/-- A later state: what was committed stays, and nothing is buffered outside a transaction. -/
structure Later (e e' : Engine L) : Prop where
  writes : e.db.writes <+: e'.db.writes
  settled : Settled e → Settled e'

variable (cfg : Config L)

namespace Later

lemma refl (e : Engine L) : Later e e := ⟨prefix_refl _, id⟩

lemma trans {e e' e'' : Engine L} (h : Later e e') (h' : Later e' e'') : Later e e'' :=
  ⟨h.writes.trans h'.writes, fun he ↦ h'.settled (h.settled he)⟩

lemma commitBatch (target : Query.Database) (kvs : List Write) (nosync : Bool) :
    target.writes <+: (Sql.commitBatch target kvs nosync).writes := by
  rw [commitBatch_eq]
  split_ifs
  · exact prefix_refl _
  · exact prefix_append _ _
  · exact prefix_append _ _

lemma commitWrites (e : Engine L) (kvs : List Write) : Later e (e.commitWrites kvs) := by
  unfold Engine.commitWrites
  split_ifs with hin
  · exact ⟨prefix_refl _, fun _ hout ↦ absurd (hin.symm.trans hout) (by decide)⟩
  · exact ⟨commitBatch _ _ _, id⟩

lemma foldl_commitWrites (e : Engine L) (batches : List (List Write)) :
    Later e (batches.foldl Engine.commitWrites e) :=
  foldlRecOn batches _ (refl e) fun e' h kvs _ ↦ h.trans (commitWrites e' kvs)

lemma execControl (e : Engine L) (c : Control) : Later e (e.execControl c).2 := by
  cases c with
  | begin =>
    simp only [Engine.execControl]
    split_ifs
    · exact refl e
    · exact ⟨prefix_refl _, fun _ hout ↦ absurd hout.symm Bool.false_ne_true⟩
  | commit =>
    simp only [Engine.execControl]
    split_ifs
    · exact refl e
    · have hdone : Later e { e with inTxn := false, savepoints := [], txnWrites := [] } :=
        ⟨prefix_refl _, fun _ _ ↦ ⟨rfl, rfl⟩⟩
      exact hdone.trans (commitWrites _ _)
    · exact ⟨prefix_refl _, fun _ _ ↦ ⟨rfl, rfl⟩⟩
  | rollback =>
    simp only [Engine.execControl]
    split_ifs
    · exact refl e
    · exact ⟨prefix_refl _, fun _ _ ↦ ⟨rfl, rfl⟩⟩
  | savepoint name =>
    simp only [Engine.execControl]
    split_ifs with hout
    · exact refl e
    · exact ⟨prefix_refl _, fun _ h ↦ absurd (by simpa using h) hout⟩
  | rollbackTo name =>
    simp only [Engine.execControl]
    split_ifs with hout
    · exact refl e
    · split
      · exact refl e
      · exact ⟨prefix_refl _, fun _ h ↦ absurd (by simpa using h) hout⟩
  | release name =>
    simp only [Engine.execControl]
    split_ifs with hout
    · exact refl e
    · split
      · exact refl e
      · exact ⟨prefix_refl _, fun _ h ↦ absurd (by simpa using h) hout⟩

lemma exec (e : Engine L) (sql : Text) : Later e (e.exec sql).2 := by
  unfold Engine.exec Engine.execPrepared
  cases parseSql L sql with
  | error msg => exact refl e
  | ok st =>
    cases st with
    | control c => exact execControl e c
    | other s =>
      have hstart : Later e { e with mem := (L.run s [] e.mem e.view).mem } :=
        ⟨prefix_refl _, id⟩
      have hbatches := hstart.trans (foldl_commitWrites _ (L.run s [] e.mem e.view).batches)
      exact ⟨hbatches.writes, hbatches.settled⟩

/-! The messages of a session reach the engine through its statements. -/

variable (c : EngineConn L)

lemma runStatement (s : Text) : Later c.engine (c.runStatement s).2.engine := by
  unfold Conn.runStatement Conn.exec
  dsimp only
  split_ifs <;> first | exact refl _ | exact exec _ s

lemma pollNotifications : Later c.engine (c.pollNotifications cfg).2.engine :=
  pollNotifications_keeps (P := fun c' ↦ Later c.engine c'.engine) (fun _ _ h ↦ h)
    (fun _ _ h ↦ h.trans (exec _ _)) cfg (refl _)

lemma handleQuery (sql : Text) : Later c.engine (c.handleQuery cfg sql).2.engine :=
  handleQuery_keeps (P := fun c' ↦ Later c.engine c'.engine) (fun _ _ h ↦ h)
    (fun _ _ h ↦ h.trans (exec _ _)) cfg (fun s _ c' h ↦ h.trans (runStatement c' s)) (refl _)

end Later

/-! ### An engine and its transaction -/

structure Pending where
  inTxn : Bool := false
  txnWrites : List Write := []
  savepoints : List (Text × ℕ) := []
  deriving DecidableEq

def pending (e : Engine L) : Pending := ⟨e.inTxn, e.txnWrites, e.savepoints⟩

def settle (e : Engine L) : Engine L :=
  { e with inTxn := false, txnWrites := [], savepoints := [] }

def within (e : Engine L) (p : Pending) : Engine L :=
  { e with inTxn := p.inTxn, txnWrites := p.txnWrites, savepoints := p.savepoints }

lemma settle_within_pending (e : Engine L) : within (settle e) (pending e) = e := rfl

variable {e : Engine L}

lemma pending_eq (h : Settled e) (hout : e.inTxn = false) : pending e = {} := by
  obtain ⟨hwrites, hsavepoints⟩ := h hout
  simp only [pending, hout, hwrites, hsavepoints]

/-- The text is refused, or its statement writes nothing and reads nothing of the buffer: it does
the same with the transaction and without. -/
def Indifferent (e : Engine L) (sql : Text) : Prop :=
  match parseSql L sql with
  | .error _ => True
  | .ok (.control _) => False
  | .ok (.other s) => e.Quiet sql ∧ L.run s [] e.mem (settle e).view = L.run s [] e.mem e.view

variable {sql : Text}

lemma Indifferent.quiet (h : Indifferent e sql) : e.Quiet sql ∧ (settle e).Quiet sql := by
  unfold Indifferent at h
  unfold Engine.Quiet at h ⊢
  cases hparse : parseSql L sql with
  | error msg => exact ⟨trivial, trivial⟩
  | ok st =>
    simp only [hparse] at h
    cases st with
    | control c => exact h.elim
    | other s =>
      refine ⟨h.1, ?_⟩
      show (L.run s [] e.mem (settle e).view).mem = e.mem ∧
        (∀ kvs ∈ (L.run s [] e.mem (settle e).view).batches, kvs = []) ∧
          ∀ kvs ∈ (L.run s [] e.mem (settle e).view).catalog, kvs = []
      rw [h.2]
      exact h.1

lemma Indifferent.result (h : Indifferent e sql) : ((settle e).exec sql).1 = (e.exec sql).1 := by
  unfold Indifferent at h
  unfold Engine.exec Engine.execPrepared
  cases hparse : parseSql L sql with
  | error msg => rfl
  | ok st =>
    simp only [hparse] at h
    cases st with
    | control c => exact h.elim
    | other s => exact congrArg Effect.result h.2

lemma Indifferent.statementHead (hwords : WordKeywords L)
    (h : Indifferent e sql) (hok : (e.exec sql).1.ok = true) :
    statementHead sql ≠ kwBegin ∧ statementHead sql ≠ kwCommit ∧
      statementHead sql ≠ kwRollback := by
  rw [← not_or, ← not_or]
  intro hhead
  unfold Indifferent at h
  unfold Engine.exec Engine.execPrepared at hok
  cases hparse : parseSql L sql with
  | error msg =>
    rw [hparse] at hok
    cases hok
  | ok st =>
    obtain ⟨c, rfl, -⟩ := control_of_statementHead hwords hparse hhead
    rw [hparse] at h
    exact h

/-! ### The messages of a session beside a transaction of another -/

def Skips (session : Session L) (s : Text) : Prop :=
  statementHead s = kwBegin ∧ session.inTxn = true ∨
    (statementHead s = kwCommit ∨ statementHead s = kwRollback) ∧ session.inTxn = false

/-- What a statement of a query gives to the engine does the same with the transaction and
without. -/
def Unaffected (e : Engine L) (session : Session L) (s : Text) : Prop :=
  match listenChannelOf s with
  | some (true, _) => True
  | some (false, chan) => Indifferent e (fetchText chan)
  | none => Skips session s ∨ Indifferent e s

def Unnoticed (e : Engine L) (session : Session L) : Prop :=
  ∀ listen ∈ session.listens.entries, Indifferent e (fetchText listen.1)

structure Beside (e : Engine L) (c c' : EngineConn L) : Prop where
  session : c'.session = c.session
  engine : c.engine = e
  engine' : c'.engine = settle e

def SameAnswer (e : Engine L) (r r' : List Backend × EngineConn L) : Prop :=
  r'.1 = r.1 ∧ Beside e r.2 r'.2

lemma SameAnswer.append {r r' : List Backend × EngineConn L} (h : SameAnswer e r r')
    (before : List Backend) : SameAnswer e (before ++ r.1, r.2) (before ++ r'.1, r'.2) :=
  ⟨congrArg (before ++ ·) h.1, h.2⟩

namespace Beside

variable {e : Engine L} {c c' : EngineConn L}

lemma exec (h : Beside e c c') (hsql : Indifferent e sql) :
    ∃ r, c.exec sql = (r, c) ∧ c'.exec sql = (r, c') := by
  obtain ⟨session, engine⟩ := c
  obtain ⟨session', engine'⟩ := c'
  obtain rfl : engine = e := h.engine
  obtain rfl : engine' = settle engine := h.engine'
  refine ⟨(engine.exec sql).1, ?_, ?_⟩
  · rw [exec_engine, hsql.quiet.1.exec_eq]
  · rw [exec_engine, hsql.quiet.2.exec_eq, hsql.result]

lemma setListens (h : Beside e c c') (listens : OrderedMap Text ℤ) :
    Beside e { c with session.listens := listens } { c' with session.listens := listens } :=
  ⟨by rw [h.session], h.engine, h.engine'⟩

lemma announce {out : List Backend} (h : Beside e c c') {listen : Text × ℤ}
    (hlisten : Indifferent e (fetchText listen.1)) :
    SameAnswer e (announce cfg (out, c) listen) (announce cfg (out, c') listen) := by
  obtain ⟨r, hexec, hexec'⟩ := h.exec hlisten
  simp only [Conn.announce, hexec, hexec']
  split_ifs
  · exact ⟨rfl, h⟩
  · exact ⟨rfl, h⟩
  · exact ⟨rfl, by rw [h.session], h.engine, h.engine'⟩

lemma pollNotifications (h : Beside e c c') (hlistens : Unnoticed e c.session) :
    SameAnswer e (c.pollNotifications cfg) (c'.pollNotifications cfg) := by
  have hpoll : ∀ (listens : List (Text × ℤ)) (polled polled' : List Backend × EngineConn L),
      (∀ listen ∈ listens, Indifferent e (fetchText listen.1)) → SameAnswer e polled polled' →
        SameAnswer e (listens.foldl (Conn.announce cfg) polled)
          (listens.foldl (Conn.announce cfg) polled') := by
    intro listens
    induction listens with
    | nil => exact fun _ _ _ h ↦ h
    | cons listen listens ih =>
      rintro ⟨out, c⟩ ⟨_, c'⟩ hlistens ⟨rfl, h⟩
      exact ih _ _ (forall_mem_cons.mp hlistens).2
        (h.announce cfg (hlistens listen mem_cons_self))
  unfold Conn.pollNotifications
  rw [h.session]
  exact hpoll _ _ _ hlistens ⟨rfl, h⟩

lemma runStatement (hwords : WordKeywords L) (h : Beside e c c') {s : Text}
    (hs : Skips c.session s ∨ Indifferent e s) :
    ∃ result, c.runStatement s = (result, c) ∧ c'.runStatement s = (result, c') := by
  by_cases hskips : Skips c.session s
  · unfold Conn.runStatement
    rw [h.session]
    rcases hskips with hbegin | hend
    · exact ⟨_, if_pos hbegin, if_pos hbegin⟩
    have hnot : ¬(statementHead s = kwBegin ∧ c.session.inTxn = true) :=
      fun hbegin ↦ absurd (hbegin.2.symm.trans hend.2) (by decide)
    refine ⟨.inl (if statementHead s = kwCommit then "COMMIT".toList else "ROLLBACK".toList),
      ?_, ?_⟩
    · simp only [if_neg hnot, if_pos hend]
    · simp only [if_neg hnot, if_pos hend]
  · have hsql := hs.resolve_left hskips
    obtain ⟨r, hexec, hexec'⟩ := h.exec hsql
    rw [Skips, not_or] at hskips
    have hresult : (e.exec s).1 = r := by
      rw [← h.engine]
      exact congrArg Prod.fst hexec
    have hhead : r.ok = true → statementHead s ≠ kwBegin ∧ statementHead s ≠ kwCommit ∧
        statementHead s ≠ kwRollback := by
      intro hok
      rw [← hresult] at hok
      exact hsql.statementHead hwords hok
    have hbegin : ¬(r.ok = true ∧ statementHead s = kwBegin) :=
      fun hok ↦ (hhead hok.1).1 hok.2
    have hend : ¬(r.ok = true ∧ (statementHead s = kwCommit ∨ statementHead s = kwRollback)) :=
      fun hok ↦ hok.2.elim (hhead hok.1).2.1 (hhead hok.1).2.2
    refine ⟨.inr r, ?_, ?_⟩
    · simp only [Conn.runStatement, if_neg hskips.1, if_neg hskips.2, hexec, if_neg hbegin,
        if_neg hend]
    · simp only [Conn.runStatement, h.session, if_neg hskips.1, if_neg hskips.2, hexec',
        if_neg hbegin, if_neg hend]

lemma runStatements (hwords : WordKeywords L) {stmts : List Text} (h : Beside e c c')
    (hlistens : Unnoticed e c.session) (hstmts : ∀ s ∈ stmts, Unaffected e c.session s) :
    SameAnswer e (c.runStatements stmts) (c'.runStatements stmts) ∧
      Unnoticed e (c.runStatements stmts).2.session := by
  induction stmts generalizing c c' with
  | nil => exact ⟨⟨rfl, h⟩, hlistens⟩
  | cons s rest ih =>
    have hs := hstmts s mem_cons_self
    have hrest : ∀ s ∈ rest, Unaffected e c.session s :=
      (forall_mem_cons.mp hstmts).2
    obtain ⟨session, engine⟩ := c
    obtain ⟨session', engine'⟩ := c'
    obtain rfl : session' = session := h.session
    unfold Unaffected at hs
    unfold runStatements
    rcases hchan : listenChannelOf s with - | ⟨unlisten, chan⟩
    · rw [hchan] at hs
      obtain ⟨result, hrun, hrun'⟩ := h.runStatement hwords hs
      obtain ⟨hanswer, hlast⟩ := ih h hlistens hrest
      simp only [hrun, hrun']
      cases result with
      | inl tag => exact ⟨hanswer.append [.commandComplete tag], hlast⟩
      | inr r =>
        dsimp only
        split_ifs
        · exact ⟨⟨rfl, h⟩, hlistens⟩
        · exact ⟨hanswer.append (pgReplyForStatement s r), hlast⟩
    · rw [hchan] at hs
      cases unlisten with
      | true =>
        have herased : Unnoticed e { session' with listens := session'.listens.erase chan } :=
          fun listen hlisten ↦ hlistens listen (mem_of_mem_filter hlisten)
        obtain ⟨hanswer, hlast⟩ := ih (h.setListens _) herased hrest
        exact ⟨hanswer.append [.commandComplete "UNLISTEN".toList], hlast⟩
      | false =>
        obtain ⟨r, hexec, hexec'⟩ := h.exec hs
        simp only [hexec, hexec']
        split_ifs
        · exact ⟨⟨rfl, h⟩, hlistens⟩
        · obtain ⟨hanswer, hlast⟩ := ih h hlistens hrest
          exact ⟨hanswer.append [.commandComplete "LISTEN".toList], hlast⟩
        · have hadded : Unnoticed e
              { session' with listens := session'.listens.insert chan (-1) } := by
            intro listen hlisten
            rcases OrderedMap.mem_insert hlisten with rfl | hheld
            · exact hs
            · exact hlistens listen hheld
          obtain ⟨hanswer, hlast⟩ := ih (h.setListens _) hadded hrest
          exact ⟨hanswer.append [.commandComplete "LISTEN".toList], hlast⟩

lemma handleQuery (hwords : WordKeywords L) (cfg : Config L) (h : Beside e c c')
    (hlistens : Unnoticed e c.session)
    (hstmts : ∀ s ∈ splitStatements sql, Unaffected e c.session s) :
    SameAnswer e (c.handleQuery cfg sql) (c'.handleQuery cfg sql) := by
  obtain ⟨⟨hout, hbeside⟩, hlast⟩ := h.runStatements hwords hlistens hstmts
  obtain ⟨hnotices, hpolled⟩ := hbeside.pollNotifications cfg hlast
  refine ⟨?_, hpolled⟩
  simp only [Conn.handleQuery, hout, hnotices]

end Beside

end Lockstep.Pg
