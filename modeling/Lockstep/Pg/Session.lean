import Lockstep.Pg.StatementText

/-!
# A session of the PostgreSQL protocol

The state machine of `PgSession` in `query/wire/PgWire.hpp`, one complete frontend message after
another, once the startup is over. What runs its statements is a parameter (`Executes`): the engine,
or the callbacks of a session that is fed bytes.
-/

namespace Lockstep.Pg

open Library Sql

inductive Backend where
  | commandComplete (tag : Text)
  | errorResponse (code msg : String)
  | rowDescription (columns : List Text)
  | dataRow (cells : List Text)
  | parseComplete
  | bindComplete
  | closeComplete
  | noData
  | parameterDescription (count : ℤ)
  | emptyQueryResponse
  | readyForQuery
  | notification (channel : Text) (first : ℤ)
  deriving DecidableEq

inductive Frontend where
  | query (sql : Text)
  | parse (name query : Text) (types : List ℤ)
  | bind (portal stmt : Text) (formats : List ℤ) (params : List (Option Text)) (results : List ℤ)
  | describeStatement (name : Text)
  | describePortal (name : Text)
  | execute (portal : Text)
  | closeStatement (name : Text)
  | closePortal (name : Text)
  | sync
  | terminate
  | other
  deriving DecidableEq

variable {L : Language}

/-- How values of parameters become data of the engine, and whether they do: without the typed path
they are written into the text. -/
structure Config (L : Language) where
  typed : Bool
  decodeBinary : ℤ → Text → Option Text
  typedDatum : ℤ → Text → L.Datum
  nullDatum : L.Datum
  cellInt : Text → ℤ

structure Portal (L : Language) where
  sql : Text
  params : List L.Datum := []
  typed : Bool := false
  stmtDescribed : Bool := false
  cached : Option ExecResult := none

structure Session (L : Language) where
  inTxn : Bool := false
  listens : OrderedMap Text ℤ := .empty
  described : Text → Bool := fun _ ↦ false
  stmts : Text → Option Text := fun _ ↦ none
  stmtTypes : Text → List ℤ := fun _ ↦ []
  portals : Text → Option (Portal L) := fun _ ↦ none
  closed : Bool := false

/-- What the callbacks of a session are connected to. -/
class Executes (L : Language) (ε : Type) where
  exec : ε → Text → ExecResult × ε
  execPrepared : ε → Text → List L.Datum → ExecResult × ε

instance engineExecutes : Executes L (Engine L) := ⟨Engine.exec, Engine.execPrepared⟩

/-- A session and what runs its statements. -/
structure Conn (L : Language) (ε : Type) where
  session : Session L := {}
  engine : ε

abbrev EngineConn (L : Language) := Conn L (Engine L)

def errorResponse (msg : String) : Backend :=
  .errorResponse "XX000" (if msg = "" then "query failed" else msg)

def pgColsOf (r : ExecResult) : List Text := (r.rows.headD []).map Prod.fst

def dataRows (r : ExecResult) : List Backend := r.rows.map fun row ↦ .dataRow (row.map Prod.snd)

def pgReplyForStatement (sql : Text) (r : ExecResult) : List Backend :=
  if !r.ok then [errorResponse r.error]
  else
    let isSel := pgIsSelect sql || r.rows ≠ []
    (if isSel then .rowDescription (pgColsOf r) :: dataRows r else []) ++
      [.commandComplete (pgCommandTag sql r isSel)]

/-! ### Statements -/

namespace Conn

variable {ε : Type} [Executes L ε]

def exec (c : Conn L ε) (sql : Text) : ExecResult × Conn L ε :=
  ((Executes.exec L c.engine sql).1, { c with engine := (Executes.exec L c.engine sql).2 })

lemma exec_engine (c : EngineConn L) (sql : Text) :
    c.exec sql = ((c.engine.exec sql).1, { c with engine := (c.engine.exec sql).2 }) :=
  rfl

def setInTxn (c : Conn L ε) (inTxn : Bool) : Conn L ε := { c with session.inTxn := inTxn }

def runStatement (c : Conn L ε) (s : Text) : (Text ⊕ ExecResult) × Conn L ε :=
  let head := statementHead s
  if head = kwBegin ∧ c.session.inTxn = true then (.inl "BEGIN".toList, c)
  else if (head = kwCommit ∨ head = kwRollback) ∧ c.session.inTxn = false then
    (.inl (if head = kwCommit then "COMMIT".toList else "ROLLBACK".toList), c)
  else
    let (r, c) := c.exec s
    let c := if r.ok ∧ head = kwBegin then c.setInTxn true else c
    let c := if r.ok ∧ (head = kwCommit ∨ head = kwRollback) then c.setInTxn false else c
    (.inr r, c)

def fetchText (chan : Text) : Text :=
  ['F', 'E', 'T', 'C', 'H', ' '] ++ chan ++ [' ', 'L', 'I', 'M', 'I', 'T', ' ', '1']

def announce (cfg : Config L) (polled : List Backend × Conn L ε) (listen : Text × ℤ) :
    List Backend × Conn L ε :=
  let (r, c) := polled.2.exec (fetchText listen.1)
  if !r.ok || r.rows = [] then (polled.1, c)
  else
    let first := cfg.cellInt (((r.rows.headD []).map Prod.snd).headD [])
    if first = listen.2 then (polled.1, c)
    else
      (polled.1 ++ [.notification listen.1 first],
        { c with session.listens := c.session.listens.insert listen.1 first })

def pollNotifications (cfg : Config L) (c : Conn L ε) : List Backend × Conn L ε :=
  c.session.listens.entries.foldl (announce cfg) ([], c)

def runStatements (c : Conn L ε) : List Text → List Backend × Conn L ε
  | [] => ([], c)
  | s :: rest =>
    match listenChannelOf s with
    | some (true, chan) =>
      let c := { c with session.listens := c.session.listens.erase chan }
      let (out, c) := runStatements c rest
      (.commandComplete "UNLISTEN".toList :: out, c)
    | some (false, chan) =>
      let (probe, c) := c.exec (fetchText chan)
      if !probe.ok then ([errorResponse probe.error], c)
      else
        let c := if (c.session.listens.find chan).isSome then c
          else { c with session.listens := c.session.listens.insert chan (-1) }
        let (out, c) := runStatements c rest
        (.commandComplete "LISTEN".toList :: out, c)
    | none =>
      match c.runStatement s with
      | (.inl tag, c) =>
        let (out, c) := runStatements c rest
        (.commandComplete tag :: out, c)
      | (.inr r, c) =>
        if !r.ok then (pgReplyForStatement s r, c)
        else
          let (out, c) := runStatements c rest
          (pgReplyForStatement s r ++ out, c)

def handleQuery (cfg : Config L) (c : Conn L ε) (sql : Text) : List Backend × Conn L ε :=
  let stmts := splitStatements sql
  let (out, c) := c.runStatements stmts
  let (notices, c) := c.pollNotifications cfg
  (out ++ (if stmts = [] then [.emptyQueryResponse] else []) ++ notices ++ [.readyForQuery], c)

/-! What the statements of a query keep. -/

section Keeps

variable {P : Conn L ε → Prop} {c : Conn L ε}
  (hlisten : ∀ (c : Conn L ε) listens, P c → P { c with session.listens := listens })
  (hfetch : ∀ (c : Conn L ε) chan, P c → P (c.exec (fetchText chan)).2)

include hlisten hfetch

lemma pollNotifications_keeps (cfg : Config L) (h : P c) : P (c.pollNotifications cfg).2 := by
  have hannounce : ∀ (polled : List Backend × Conn L ε) (listen : Text × ℤ), P polled.2 →
      P (announce cfg polled listen).2 := by
    intro polled listen hpolled
    unfold announce
    dsimp only
    split_ifs
    · exact hfetch _ _ hpolled
    · exact hfetch _ _ hpolled
    · exact hlisten _ _ (hfetch _ _ hpolled)
  have hpoll : ∀ (listens : List (Text × ℤ)) (polled : List Backend × Conn L ε), P polled.2 →
      P (listens.foldl (announce cfg) polled).2 := by
    intro listens
    induction listens with
    | nil => exact fun _ hpolled ↦ hpolled
    | cons listen listens ih => exact fun polled hpolled ↦ ih _ (hannounce polled listen hpolled)
  exact hpoll _ ([], c) h

lemma runStatements_keeps {stmts : List Text}
    (hrun : ∀ s ∈ stmts, ∀ c : Conn L ε, P c → P (c.runStatement s).2) (h : P c) :
    P (c.runStatements stmts).2 := by
  induction stmts generalizing c with
  | nil => exact h
  | cons s rest ih =>
    have hrest : ∀ s ∈ rest, ∀ c : Conn L ε, P c → P (c.runStatement s).2 :=
      fun s hs ↦ hrun s (List.mem_cons_of_mem _ hs)
    unfold runStatements
    split
    · exact ih hrest (hlisten c _ h)
    · next chan _ =>
      have hprobe := hfetch c chan h
      dsimp only
      split_ifs
      · exact hprobe
      · exact ih hrest hprobe
      · exact ih hrest (hlisten _ _ hprobe)
    · have hstatement := hrun s List.mem_cons_self c h
      split
      · next hresult =>
        rw [hresult] at hstatement
        exact ih hrest hstatement
      next hresult =>
      rw [hresult] at hstatement
      split_ifs
      · exact hstatement
      · exact ih hrest hstatement

lemma handleQuery_keeps (cfg : Config L) {sql : Text}
    (hrun : ∀ s ∈ splitStatements sql, ∀ c : Conn L ε, P c → P (c.runStatement s).2) (h : P c) :
    P (c.handleQuery cfg sql).2 :=
  pollNotifications_keeps hlisten hfetch cfg (runStatements_keeps hlisten hfetch hrun h)

end Keeps

/-! ### Prepared statements -/

def handleParse (c : Conn L ε) (name query : Text) (types : List ℤ) : List Backend × Conn L ε :=
  ([.parseComplete], { c with session := { c.session with
    stmts := fun n ↦ if n = name then some query else c.session.stmts n
    described := fun n ↦ if n = name then false else c.session.described n
    stmtTypes := fun n ↦ if n = name then types else c.session.stmtTypes n } })

def formatFor (formats : List ℤ) (k : ℕ) : ℤ :=
  match formats with
  | [] => 0
  | [format] => format
  | formats => formats.getD k 0

def decodeParams (cfg : Config L) (formats types : List ℤ) (params : List (Option Text)) :
    Option (List (Option (ℤ × Text))) :=
  params.zipIdx.mapM fun (param, k) ↦
    let oid := types.getD k 0
    match param with
    | none => some none
    | some raw =>
      if formatFor formats k = 1 then (cfg.decodeBinary oid raw).map fun text ↦ some (oid, text)
      else some (some (oid, raw))

def handleBind (cfg : Config L) (c : Conn L ε) (portal stmt : Text) (formats : List ℤ)
    (params : List (Option Text)) (results : List ℤ) : List Backend × Conn L ε :=
  match decodeParams cfg formats (c.session.stmtTypes stmt) params with
  | none =>
    ([.errorResponse "0A000" "binary parameter format is not supported for this type"], c)
  | some values =>
    if 1 ∈ results then ([.errorResponse "0A000" "binary result format is not supported"], c)
    else
      let bound : Portal L :=
        if cfg.typed then
          { sql := (c.session.stmts stmt).getD []
            params := values.map fun v ↦ v.elim cfg.nullDatum fun v ↦ cfg.typedDatum v.1 v.2
            typed := true
            stmtDescribed := c.session.described stmt }
        else
          { sql := ((c.session.stmts stmt).map fun query ↦
              pgSubstituteParams query (values.map fun v ↦ pgParamLiteral (v.map Prod.snd))).getD []
            stmtDescribed := c.session.described stmt }
      ([.bindComplete], { c with
        session.portals := fun n ↦ if n = portal then some bound else c.session.portals n })

def describeText (table : Text) : Text :=
  ['D', 'E', 'S', 'C', 'R', 'I', 'B', 'E', ' '] ++ table

def handleDescribeStatement (c : Conn L ε) (name : Text) : List Backend × Conn L ε :=
  match c.session.stmts name with
  | none => ([.parameterDescription 0, .noData], c)
  | some query =>
    let columns := returningColumns query
    if columns = [] then ([.parameterDescription (countParams query), .noData], c)
    else
      let c := match intoTable query with
        | none => c
        | some table => (c.exec (describeText table)).2
      ([.parameterDescription (countParams query), .rowDescription columns], { c with
        session.described := fun n ↦ if n = name then true else c.session.described n })

def runPortal (c : Conn L ε) (p : Portal L) : ExecResult × Conn L ε :=
  if p.typed then
    ((Executes.execPrepared c.engine p.sql p.params).1,
      { c with engine := (Executes.execPrepared c.engine p.sql p.params).2 })
  else c.exec p.sql

def setPortal (c : Conn L ε) (name : Text) (p : Portal L) : Conn L ε :=
  { c with session.portals := fun n ↦ if n = name then some p else c.session.portals n }

def handleDescribePortal (c : Conn L ε) (name : Text) : List Backend × Conn L ε :=
  match c.session.portals name with
  | none => ([.noData], c)
  | some p =>
    let (r, c) := c.runPortal p
    (if r.ok ∧ (pgIsSelect p.sql = true ∨ r.rows ≠ []) then [.rowDescription (pgColsOf r)]
      else [.noData],
      c.setPortal name { p with cached := some r })

def executeReply (p : Portal L) (hadDescribe : Bool) (r : ExecResult) : List Backend :=
  if !r.ok then [errorResponse r.error]
  else
    let isSel := pgIsSelect p.sql || r.rows ≠ []
    (if !hadDescribe && !p.stmtDescribed && isSel then [.rowDescription (pgColsOf r)] else []) ++
      dataRows r ++ [.commandComplete (pgCommandTag p.sql r isSel)]

def handleExecute (c : Conn L ε) (name : Text) : List Backend × Conn L ε :=
  match c.session.portals name with
  | none => ([errorResponse "unknown portal"], c)
  | some p =>
    match p.cached with
    | some r => (executeReply p true r, c.setPortal name { p with cached := none })
    | none =>
      let head := statementHead p.sql
      if p.typed = false ∨ head = kwBegin ∨ head = kwCommit ∨ head = kwRollback then
        match c.runStatement p.sql with
        | (.inl tag, c) => ([.commandComplete tag], c)
        | (.inr r, c) => (executeReply p false r, c.setPortal name p)
      else
        let (r, c) := c.runPortal p
        (executeReply p false r, c.setPortal name p)

def handleCloseStatement (c : Conn L ε) (name : Text) : List Backend × Conn L ε :=
  ([.closeComplete], { c with session := { c.session with
    stmts := fun n ↦ if n = name then none else c.session.stmts n
    stmtTypes := fun n ↦ if n = name then [] else c.session.stmtTypes n } })

def handleClosePortal (c : Conn L ε) (name : Text) : List Backend × Conn L ε :=
  ([.closeComplete], { c with
    session.portals := fun n ↦ if n = name then none else c.session.portals n })

def receive (cfg : Config L) (c : Conn L ε) (msg : Frontend) : List Backend × Conn L ε :=
  if c.session.closed then ([], c)
  else
    match msg with
    | .query sql => c.handleQuery cfg sql
    | .parse name query types => c.handleParse name query types
    | .bind portal stmt formats params results =>
      c.handleBind cfg portal stmt formats params results
    | .describeStatement name => c.handleDescribeStatement name
    | .describePortal name => c.handleDescribePortal name
    | .execute portal => c.handleExecute portal
    | .closeStatement name => c.handleCloseStatement name
    | .closePortal name => c.handleClosePortal name
    | .sync =>
      let (notices, c) := c.pollNotifications cfg
      (notices ++ [.readyForQuery], c)
    | .terminate => ([], { c with session.closed := true })
    | .other => ([], c)

lemma receive_terminate (cfg : Config L) (c : Conn L ε) :
    c.receive cfg .terminate = ([], { c with session.closed := true }) := by
  unfold receive
  split_ifs with hclosed
  · rw [← hclosed]
  · rfl

/-! What every message but the last keeps. -/

section Keeps

variable {P : Conn L ε → Prop} {c : Conn L ε}
  (hportal : ∀ (c : Conn L ε) p, P c → P (c.runPortal p).2)

include hportal

lemma exec_keeps (sql : Text) (h : P c) : P (c.exec sql).2 := hportal c { sql := sql } h

variable (hsession : ∀ (c : Conn L ε) session, session.closed = c.session.closed → P c →
    P { c with session := session })

include hsession

lemma runStatement_keeps (s : Text) (h : P c) : P (c.runStatement s).2 := by
  have hexec := exec_keeps hportal s h
  have htxn : ∀ (c : Conn L ε) inTxn, P c → P (c.setInTxn inTxn) := fun c _ ↦ hsession c _ rfl
  unfold runStatement
  dsimp only
  split_ifs <;> first
    | exact h
    | exact hexec
    | exact htxn _ _ hexec
    | exact htxn _ _ (htxn _ _ hexec)

lemma handleDescribeStatement_keeps (name : Text) (h : P c) :
    P (c.handleDescribeStatement name).2 := by
  unfold handleDescribeStatement
  split
  · exact h
  dsimp only
  split_ifs
  · exact h
  · split
    · exact hsession _ _ rfl h
    · exact hsession _ _ rfl (exec_keeps hportal _ h)

lemma handleExecute_keeps (name : Text) (h : P c) : P (c.handleExecute name).2 := by
  unfold handleExecute
  split
  · exact h
  next p _ =>
  split
  · exact hsession _ _ rfl h
  dsimp only
  split_ifs
  · have hstatement := runStatement_keeps hportal hsession p.sql h
    split
    · next hresult =>
      rw [hresult] at hstatement
      exact hstatement
    · next hresult =>
      rw [hresult] at hstatement
      exact hsession _ _ rfl hstatement
  · exact hsession _ _ rfl (hportal _ _ h)

lemma receive_keeps (cfg : Config L) {msg : Frontend} (hmsg : msg ≠ .terminate) (h : P c) :
    P (c.receive cfg msg).2 := by
  have hlisten : ∀ (c : Conn L ε) listens, P c → P { c with session.listens := listens } :=
    fun c _ ↦ hsession c _ rfl
  have hexec : ∀ (c : Conn L ε) chan, P c → P (c.exec (fetchText chan)).2 :=
    fun _ _ ↦ exec_keeps hportal _
  unfold receive
  split_ifs
  · exact h
  cases msg with
  | query sql =>
    exact handleQuery_keeps hlisten hexec cfg
      (fun s _ _ ↦ runStatement_keeps hportal hsession s) h
  | parse | closeStatement | closePortal => exact hsession _ _ rfl h
  | bind =>
    dsimp only
    unfold handleBind
    split
    · exact h
    · split_ifs
      · exact h
      · exact hsession _ _ rfl h
      · exact hsession _ _ rfl h
  | describeStatement name => exact handleDescribeStatement_keeps hportal hsession name h
  | describePortal name =>
    dsimp only
    unfold handleDescribePortal
    split
    · exact h
    · exact hsession _ _ rfl (hportal _ _ h)
  | execute portal => exact handleExecute_keeps hportal hsession portal h
  | sync => exact pollNotifications_keeps hlisten hexec cfg h
  | terminate => exact absurd rfl hmsg
  | other => exact h

end Keeps

end Conn

end Lockstep.Pg
