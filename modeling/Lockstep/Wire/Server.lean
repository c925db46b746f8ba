import Lockstep.Sql.OneTable

/-!
# The wire server

The server of `query/wire/Server.hpp`. A request is a ping, a submit of a named operation, a query
or an SQL text. Submits and SQL texts carry a key that the client chose, and the first response
under a key is kept and returned again for every later request with the key.

The loop (`serve`) decides with the authorisation hooks whether a request is handled at all, and
under group commit holds back the replies to puts and to SQL statements that affected rows until one
sync covers them.
-/

namespace Lockstep.Wire

open Library Query Sql

open Transactions (Txn Outcome ReadView Status)

open Storage (Key Value)

def digitsRev : ℕ → ℕ → List UInt8
  | 0, _ => []
  | _ + 1, 0 => []
  | fuel + 1, n => UInt8.ofNat (48 + n % 10) :: digitsRev fuel (n / 10)

def encodeBalance (v : ℤ) : Value :=
  if v = 0 then [48]
  else (if v < 0 then [45] else []) ++ (digitsRev v.natAbs v.natAbs).reverse

def parseMagnitude : Value → ℕ → Option ℕ
  | [], mag => some mag
  | c :: rest, mag =>
    if c < 48 ∨ 57 < c then none else parseMagnitude rest ((mag * 10 + (c.toNat - 48)) % 2 ^ 64)

def parseBalance : Option Value → ℤ
  | none => 0
  | some [] => 0
  | some (c :: rest) =>
    if c = 45 then ((parseMagnitude rest 0).map fun mag : ℕ ↦ Int.bmod (-mag) (2 ^ 64)).getD 0
    else ((parseMagnitude (c :: rest) 0).map fun mag : ℕ ↦ Int.bmod mag (2 ^ 64)).getD 0

inductive SubmitOp where
  | put
  | transfer
  | increment
  deriving DecidableEq

structure OpParam where
  key : Key := []
  value : Value := []
  amount : ℤ := 0
  deriving DecidableEq

inductive Body where
  | ping
  | submit (submitKey : ℕ) (op : SubmitOp) (params : List OpParam)
  | query (q : Database.QuerySpec)
  | sqlExec (submitKey : ℕ) (sql : Text)
  | unexpected
  deriving DecidableEq

def submitKeyOf : Body → Option ℕ
  | .submit submitKey _ _ => some submitKey
  | .sqlExec submitKey _ => some submitKey
  | _ => none

structure Request where
  reqId : ℕ
  body : Body
  deriving DecidableEq

inductive Reply where
  | pong
  | submitOk (status : Status) (commitVersion : ℕ) (result : List UInt8) (writes : WriteSet)
  | queryOk (level : Transactions.Level) (servedVersion : ℕ) (results : List Database.StepResult)
  | error (msg : String)
  | sqlResult (result : ExecResult)
  deriving DecidableEq

structure Response where
  reqId : ℕ
  reply : Reply
  deriving DecidableEq

def tagPut : List UInt8 := [0x70, 0x75, 0x74, 0x3A]
def tagTransfer : List UInt8 := [0x78, 0x66, 0x65, 0x72, 0x3A]
def tagArrow : List UInt8 := [0x2D, 0x3E]
def tagIncrement : List UInt8 := [0x69, 0x6E, 0x63, 0x3A]

def readOf (reads : ReadView) (key : Key) : Option Value := (reads.find key).join

def materialize (submitKey : ℕ) (op : SubmitOp) (params : List OpParam) : Txn :=
  match op with
  | .put =>
    let p := params.getD 0 {}
    { id := submitKey
      body := some fun _ ↦
        { writes := OrderedMap.empty.insert p.key p.value, result := tagPut ++ p.key } }
  | .transfer =>
    let pa := params.getD 0 {}
    let pb := params.getD 1 {}
    { id := submitKey
      declaredReads := [{ key := pa.key }, { key := pb.key }]
      body := some fun reads ↦
        let va := parseBalance (readOf reads pa.key)
        let vb := parseBalance (readOf reads pb.key)
        { writes := (OrderedMap.empty.insert pa.key (encodeBalance (va - pa.amount))).insert pb.key
            (encodeBalance (vb + pa.amount))
          result := tagTransfer ++ pa.key ++ tagArrow ++ pb.key } }
  | .increment =>
    let p := params.getD 0 {}
    { id := submitKey
      declaredReads := [{ key := p.key }]
      body := some fun reads ↦
        { writes := OrderedMap.empty.insert p.key
            (encodeBalance (parseBalance (readOf reads p.key) + p.amount))
          result := tagIncrement ++ p.key } }

/-! ### The server -/

/-- The database, the SQL engine and the replies kept under their keys. -/
structure Server (L : Language) where
  db : Database := {}
  sql : Engine L
  batch : List Txn := []
  dedup : OrderedMap ℕ Response := .empty
  tip : ℕ := 0
  rejected : ℕ := 0
  applied : ℕ := 0
  authDenied : ℕ := 0
  networked : Bool := true

namespace Server

variable {L : Language}

def submitNew (s : Server L) (reqId submitKey : ℕ) (op : SubmitOp) (params : List OpParam) :
    Response × Server L :=
  let writeOnly : Bool := op = .put
  let fn := materialize submitKey op params
  let rr := if writeOnly then submit [fn] else submit (s.batch ++ [fn])
  match rr.commits.getLast? with
  | none =>
    (⟨reqId, .submitOk .committed 0 [] .empty⟩,
      { s with batch := if writeOnly then s.batch else s.batch ++ [fn] })
  | some ci =>
    if ci.status = .committed then
      let db := if writeOnly && s.networked then s.db.applyCommittedNosync ci.writesCommitted
        else s.db.applyCommitted ci.writesCommitted
      (⟨reqId, .submitOk ci.status (if writeOnly then db.tip else ci.commitVersion) ci.result
          ci.writesCommitted⟩,
        { s with db := db, tip := db.tip, applied := s.applied + 1, batch := s.batch ++ [fn] })
    else (⟨reqId, .submitOk ci.status ci.commitVersion ci.result ci.writesCommitted⟩, s)

def memoize (submitKey : ℕ) (r : Response × Server L) : Response × Server L :=
  (r.1, { r.2 with dedup := r.2.dedup.insert submitKey r.1 })

/-- A known key gets the reply that was kept. -/
def handleSubmit (s : Server L) (reqId submitKey : ℕ) (op : SubmitOp) (params : List OpParam) :
    Response × Server L :=
  match s.dedup.find submitKey with
  | some cached => ({ cached with reqId := reqId }, s)
  | none => memoize submitKey (s.submitNew reqId submitKey op params)

def handleQuery (s : Server L) (reqId : ℕ) (q : Database.QuerySpec) : Response :=
  let replicaLag := if q.level = .boundedStaleness then q.maxLag else 0
  let (servedVersion, results) := s.db.run q replicaLag 0
  ⟨reqId, .queryOk q.level servedVersion results⟩

def handleSql (s : Server L) (reqId submitKey : ℕ) (sql : Text) : Response × Server L :=
  match s.dedup.find submitKey with
  | some cached => ({ cached with reqId := reqId }, s)
  | none =>
    let (er, engine) := s.sql.exec sql
    memoize submitKey (⟨reqId, .sqlResult er⟩, { s with sql := engine })

def dispatch (s : Server L) (req : Request) : Response × Server L :=
  match req.body with
  | .ping => (⟨req.reqId, .pong⟩, s)
  | .submit submitKey op params => s.handleSubmit req.reqId submitKey op params
  | .query q => (s.handleQuery req.reqId q, s)
  | .sqlExec submitKey sql => s.handleSql req.reqId submitKey sql
  | .unexpected => (⟨req.reqId, .error "unexpected request kind"⟩, s)

def restart (s : Server L) (sql : Engine L) : Server L :=
  { db := s.db.recover, sql := sql, tip := s.db.recover.tip, networked := s.networked }

end Server

/-! ### The loop -/

/-- A frame as the loop takes it: who sent it, under which principal, what it decodes to, and
whether it was there when the loop asked. -/
structure Frame where
  ready : Bool := true
  sender : ℕ := 0
  principal : String := ""
  request : Option Request
  deriving DecidableEq

abbrev Authz := Option (String → Bool → Bool)

/-- The loop: replies sent, and those that wait for a sync. -/
structure Serving (L : Language) where
  server : Server L
  parked : List (ℕ × Response) := []
  keyedDirty : Bool := false
  sqlDirty : Bool := false
  sent : List (ℕ × Response) := []

def isSubmit : Body → Bool
  | .submit .. => true
  | _ => false

def isKeyedPut : Body → Bool
  | .submit _ .put _ => true
  | _ => false

def isSqlWrite (body : Body) (reply : Reply) : Bool :=
  match body, reply with
  | .sqlExec .., .sqlResult r => r.ok && decide (0 < r.affected)
  | _, _ => false

namespace Serving

variable {L : Language}

def syncDirty (st : Serving L) : Server L :=
  { st.server with
    db := if st.keyedDirty then st.server.db.sync else st.server.db,
    sql := if st.sqlDirty then st.server.sql.sync else st.server.sql }

def flush (st : Serving L) : Serving L :=
  if st.parked = [] then st else { server := st.syncDirty, sent := st.sent ++ st.parked }

def serveOne (st : Serving L) (sender : ℕ) (req : Request) : Serving L :=
  let (resp, server) := st.server.dispatch req
  let keyedPut := isKeyedPut req.body
  let sqlWrite := isSqlWrite req.body resp.reply
  if keyedPut || sqlWrite then
    { st with
      server := server, keyedDirty := st.keyedDirty || keyedPut,
      sqlDirty := st.sqlDirty || sqlWrite, parked := st.parked ++ [(sender, resp)] }
  else { st with server := server, sent := st.sent ++ [(sender, resp)] }

def allowed (authz : Authz) (f : Frame) (req : Request) : Bool :=
  match authz with
  | none => true
  | some authz => authz f.principal (isSubmit req.body)

def deniedResponse (f : Frame) (req : Request) : Response :=
  ⟨req.reqId, .error ("AUTH-DENIED: principal '" ++ f.principal ++ "' lacks permission")⟩

def await (st : Serving L) (f : Frame) : Serving L := if f.ready then st else st.flush

def take (authz : Authz) (st : Serving L) (f : Frame) : Serving L :=
  match f.request with
  | none => { st with server := { st.server with rejected := st.server.rejected + 1 } }
  | some req =>
    if allowed authz f req then st.serveOne f.sender req
    else { st with
      server := { st.server with authDenied := st.server.authDenied + 1 }
      sent := st.sent ++ [(f.sender, deniedResponse f req)] }

/-- One frame of the loop. -/
def turn (authz : Authz) (st : Serving L) (f : Frame) : Serving L := (st.await f).take authz f

end Serving

def Serving.start {L : Language} (s : Server L) : Serving L :=
  { server := { s with sql := { s.sql with groupCommit := true } } }

def serve {L : Language} (authz : Authz) (s : Server L) (frames : List Frame) : Serving L :=
  (frames.foldl (Serving.turn authz) (Serving.start s)).flush

def newServer : Server Sql.OneTable.language :=
  { db := .new, sql := { mem := (), db := .new, catalogDb := .new } }

end Lockstep.Wire
