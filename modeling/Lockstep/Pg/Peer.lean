import Lockstep.Library.ChunkedReader
import Lockstep.Pg.Session

/-!
# A session from its bytes

`PgSession` of `query/wire/PgWire.hpp` as a whole: the bytes that are fed to it, the startup with
its password, the frames of the messages and what is in them. Its messages are answered as in
`Pg.Session`, over callbacks that are parameters with a state of their own, and every call of one is
recorded.

The parameters of a Bind message are read at the lengths that it says, also behind its end.
-/

namespace Lockstep.Pg

open Library Sql ChunkedReader Conn

variable {L : Language} {ε : Type}

structure Callbacks (L : Language) (ε : Type) where
  exec : ε → Text → ExecResult × ε
  execPrepared : ε → Text → List L.Datum → ExecResult × ε
  auth : Option (ε → Text → Text → Bool × ε)

inductive Happening (δ : Type) where
  | startup (user : Text)
  | auth (user password : Text) (allowed : Bool)
  | exec (sql : Text)
  | execPrepared (sql : Text) (params : List δ)
  deriving DecidableEq

inductive Sent where
  | message (b : Backend)
  | sslDeclined
  | cleartextPassword
  | authenticationOk
  | parameterStatus (name value : String)
  | backendKeyData (pid secret : ℤ)
  deriving DecidableEq

/-- The callbacks with the state that they share, and every call of one so far. -/
structure Recorded (cb : Callbacks L ε) where
  env : ε
  trace : List (Happening L.Datum) := []

instance recordedExecutes {cb : Callbacks L ε} : Executes L (Recorded cb) where
  exec r sql :=
    ((cb.exec r.env sql).1, ⟨(cb.exec r.env sql).2, r.trace ++ [.exec sql]⟩)
  execPrepared r sql params :=
    ((cb.execPrepared r.env sql params).1,
      ⟨(cb.execPrepared r.env sql params).2, r.trace ++ [.execPrepared sql params]⟩)

/-- The session over its callbacks, with what it knows of its startup and what it has sent. -/
structure Peer (cb : Callbacks L ε) extends Conn L (Recorded cb) where
  started : Bool := false
  awaitingPassword : Bool := false
  user : Text := []
  cancel : Option (ℤ × ℤ) := none
  out : List Sent := []

variable {cb : Callbacks L ε}

def Peer.start (cb : Callbacks L ε) (env : ε) : Peer cb := { engine := { env := env } }

def Peer.trace (p : Peer cb) : List (Happening L.Datum) := p.engine.trace

/-! ### What a message changes -/

def Happening.isCall {δ : Type} : Happening δ → Bool
  | .exec _ | .execPrepared _ _ => true
  | _ => false

/-- The session has run statements and nothing else, and is as open or closed as it was. -/
structure Serves (c c' : Conn L (Recorded cb)) : Prop where
  closed : c'.session.closed = c.session.closed
  trace : ∃ calls, c'.engine.trace = c.engine.trace ++ calls ∧ ∀ h ∈ calls, h.isCall = true

namespace Serves

variable {c c' : Conn L (Recorded cb)}

lemma refl (c : Conn L (Recorded cb)) : Serves c c :=
  ⟨rfl, [], (List.append_nil _).symm, by simp⟩

lemma ofSession (h : Serves c c') {session : Session L}
    (hclosed : session.closed = c'.session.closed) : Serves c { c' with session := session } :=
  ⟨hclosed.trans h.closed, h.trace⟩

lemma call (h : Serves c c') {r : Recorded cb} {happening : Happening L.Datum}
    (htrace : r.trace = c'.engine.trace ++ [happening]) (hcall : happening.isCall = true) :
    Serves c { c' with engine := r } := by
  obtain ⟨calls, hcalls, hisCall⟩ := h.trace
  refine ⟨h.closed, calls ++ [happening], ?_, ?_⟩
  · rw [htrace, hcalls, List.append_assoc]
  · exact List.forall_mem_append.mpr ⟨hisCall, List.forall_mem_singleton.mpr hcall⟩

lemma exec (h : Serves c c') (sql : Text) : Serves c (c'.exec sql).2 := h.call rfl rfl

lemma runPortal (h : Serves c c') (p : Portal L) : Serves c (c'.runPortal p).2 := by
  unfold Conn.runPortal
  split_ifs
  · exact h.call rfl rfl
  · exact h.exec _

lemma pollNotifications (cfg : Config L) (c : Conn L (Recorded cb)) :
    Serves c (c.pollNotifications cfg).2 :=
  pollNotifications_keeps (fun _ _ h ↦ h.ofSession rfl) (fun _ _ h ↦ h.exec _) cfg (refl c)

lemma receive (cfg : Config L) (c : Conn L (Recorded cb)) {msg : Frontend}
    (hmsg : msg ≠ .terminate) : Serves c (c.receive cfg msg).2 :=
  receive_keeps (fun _ p h ↦ h.runPortal p) (fun _ _ hclosed h ↦ h.ofSession hclosed) cfg hmsg
    (refl c)

end Serves

/-! ### Frames -/

def textOfBytes (bytes : List UInt8) : Text := bytes.map fun b ↦ Char.ofNat b.toNat

def getBE (bytes : List UInt8) : ℕ := bytes.foldl (fun n b ↦ n * 256 + b.toNat) 0

def getInt (width : ℕ) (bytes : List UInt8) : ℤ :=
  let n := getBE (bytes.take width)
  if n < 2 ^ (8 * width - 1) then n else n - 2 ^ (8 * width)

def pgGetI16 (bytes : List UInt8) : ℤ := getInt 2 bytes

def pgGetI32 (bytes : List UInt8) : ℤ := getInt 4 bytes

def readCString (bytes : List UInt8) : Text × List UInt8 :=
  (textOfBytes (bytes.takeWhile (· ≠ 0)), (bytes.dropWhile (· ≠ 0)).tail)

def readInts (width : ℕ) : ℕ → List UInt8 → List ℤ × List UInt8
  | 0, rest => ([], rest)
  | count + 1, rest =>
    if rest.length < width then ([], rest)
    else
      let (numbers, last) := readInts width count (rest.drop width)
      (getInt width rest :: numbers, last)

def readParams (after : ℕ → UInt8) : ℕ → List UInt8 → List (Option Text) × List UInt8
  | 0, rest => ([], rest)
  | count + 1, rest =>
    if rest.length < 4 then ([], rest)
    else
      let vlen := pgGetI32 rest
      let rest := rest.drop 4
      if vlen < 0 then
        let (params, last) := readParams after count rest
        (none :: params, last)
      else
        let raw := rest.take vlen.toNat ++ (List.range (vlen.toNat - rest.length)).map after
        let (params, last) := readParams after count (rest.drop vlen.toNat)
        (some (textOfBytes raw) :: params, last)

inductive Decoded where
  | nothing
  | message (msg : Frontend)
  | closeNothing

def decodeParse (payload : List UInt8) : Decoded :=
  let (name, rest) := readCString payload
  let (query, rest) := readCString rest
  let types := if rest.length < 2 then [] else
    (readInts 4 (pgGetI16 rest).toNat (rest.drop 2)).1
  .message (.parse name query types)

def decodeBind (after : ℕ → UInt8) (payload : List UInt8) : Decoded :=
  let (portal, rest) := readCString payload
  let (stmt, rest) := readCString rest
  if rest.length < 2 then .nothing
  else
    let (formats, rest) := readInts 2 (pgGetI16 rest).toNat (rest.drop 2)
    if rest.length < 2 then .nothing
    else
      let (params, rest) := readParams after (pgGetI16 rest).toNat (rest.drop 2)
      let results := if rest.length < 2 then [] else
        (readInts 2 (pgGetI16 rest).toNat (rest.drop 2)).1
      .message (.bind portal stmt formats params results)

def decodeFrame (after : ℕ → UInt8) (type : UInt8) (payload : List UInt8) : Decoded :=
  if type = 0x51 then .message (.query (textOfBytes payload.dropLast))  -- Q
  else if type = 0x58 then .message .terminate  -- X
  else if type = 0x50 then decodeParse payload  -- P
  else if type = 0x42 then decodeBind after payload  -- B
  else if type = 0x44 then  -- D
    match payload with
    | [] => .nothing
    | what :: rest =>
      if what = 0x53 then .message (.describeStatement (readCString rest).1)
      else .message (.describePortal (readCString rest).1)
  else if type = 0x45 then .message (.execute (readCString payload).1)  -- E
  else if type = 0x43 then  -- C
    match payload with
    | [] => .closeNothing
    | what :: rest =>
      if what = 0x53 then .message (.closeStatement (readCString rest).1)
      else .message (.closePortal (readCString rest).1)
  else if type = 0x53 then .message .sync  -- S
  else .message .other

def startupUser : ℕ → List UInt8 → Text
  | 0, _ => []
  | fuel + 1, bytes =>
    if bytes = [] then []
    else
      let (key, rest) := readCString bytes
      if key = [] then []
      else
        let (value, rest) := readCString rest
        if key = ['u', 's', 'e', 'r'] then value else startupUser fuel rest

def kMaxMessageBytes : ℤ := 64 * 1024 * 1024

def sslRequest : ℤ := 80877103

def cancelRequest : ℤ := 80877102

structure BackendKey where
  pid : ℤ := 0
  secret : ℤ := 0

namespace Peer

def reply (p : Peer cb) (out : List Sent) : Peer cb := { p with out := p.out ++ out }

def close (p : Peer cb) : Peer cb := { p with session.closed := true }

def accept (key : BackendKey) (p : Peer cb) : Peer cb :=
  let p : Peer cb := { p with started := true }
  p.reply
    ([.authenticationOk, .parameterStatus "server_version" "14.0 (Lockstep)",
      .parameterStatus "client_encoding" "UTF8"] ++
      (if key.pid ≠ 0 ∨ key.secret ≠ 0 then [.backendKeyData key.pid key.secret] else []) ++
      [.message .readyForQuery])

section Turns

variable (cfg : Config L) (key : BackendKey) (past : ℕ → UInt8)

def startupTurn (p : Peer cb) (buf : List UInt8) : Option (Turn (Peer cb)) :=
  if buf.length < 8 then none
  else
    let len := pgGetI32 buf
    if kMaxMessageBytes < len then
      some ⟨(p.reply [.message (.errorResponse "54000"
        "startup message too large (backpressure limit)")]).close, 0, true⟩
    else if len < 8 ∨ buf.length < len.toNat then none
    else
      let code := pgGetI32 (buf.drop 4)
      if code = sslRequest then some ⟨p.reply [.sslDeclined], len.toNat, false⟩
      else if code = cancelRequest then
        let p := if len < 16 then p
          else { p with cancel := some (pgGetI32 (buf.drop 8), pgGetI32 (buf.drop 12)) }
        some ⟨p.close, len.toNat, true⟩
      else
        let user := startupUser len.toNat ((buf.take len.toNat).drop 8)
        let p : Peer cb :=
          { p with user := user, engine.trace := p.trace ++ [.startup user] }
        let waiting : Peer cb := { p with awaitingPassword := true }
        some ⟨if cb.auth.isSome then waiting.reply [.cleartextPassword] else p.accept key,
          len.toNat, false⟩

def passwordTurn (p : Peer cb) (buf : List UInt8) : Option (Turn (Peer cb)) :=
  if buf.length < 5 then none
  else
    let plen := pgGetI32 (buf.drop 1)
    if plen < 4 ∨ buf.length < plen.toNat + 1 then none
    else
      let password := textOfBytes ((buf.drop 5).take (plen.toNat - 4 - 1))
      -- Without a callback this phase is never entered.
      let (allowed, env) := match cb.auth with
        | none => (false, p.engine.env)
        | some auth => auth p.engine.env p.user password
      let p : Peer cb := { p with
        awaitingPassword := false
        engine := ⟨env, p.trace ++ [.auth p.user password allowed]⟩ }
      if allowed then some ⟨p.accept key, plen.toNat + 1, false⟩
      else
        some ⟨(p.reply [.message (.errorResponse "28P01"
          ("password authentication failed for user \"" ++ String.ofList p.user ++ "\""))]).close,
          plen.toNat + 1, true⟩

def behindFrame (rest : List UInt8) (i : ℕ) : UInt8 := rest.getD i (past (i - rest.length))

def handleDecoded (p : Peer cb) : Decoded → Peer cb
  | .nothing => p
  | .message msg =>
    let (out, c) := p.receive cfg msg
    { p with toConn := c }.reply (out.map .message)
  | .closeNothing => p.reply [.message .closeComplete]

lemma handleDecoded_terminate (p : Peer cb) :
    p.handleDecoded cfg (.message .terminate) = p.close.reply [] := by
  rw [handleDecoded, Conn.receive_terminate]
  rfl

def messageTurn (p : Peer cb) (buf : List UInt8) : Option (Turn (Peer cb)) :=
  if buf.length < 5 then none
  else
    let type := buf.headD 0
    let len := pgGetI32 (buf.drop 1)
    if kMaxMessageBytes < len then
      some ⟨(p.reply [.message (.errorResponse "54000"
        "message too large (backpressure limit)")]).close, 0, true⟩
    else if len < 4 ∨ buf.length < len.toNat + 1 then none
    else
      let payload := (buf.drop 5).take (len.toNat - 4)
      let msg := decodeFrame (behindFrame past (buf.drop (len.toNat + 1))) type payload
      some ⟨p.handleDecoded cfg msg, len.toNat + 1, type = 0x58⟩

def turn (p : Peer cb) (buf : List UInt8) : Option (Turn (Peer cb)) :=
  if p.started = false ∧ p.awaitingPassword = false then p.startupTurn key buf
  else if p.awaitingPassword then p.passwordTurn key buf
  else p.messageTurn cfg past buf

lemma turn_consumes (p : Peer cb) (buf : List UInt8) (t : Turn (Peer cb))
    (h : p.turn cfg key past buf = some t) (hhalts : t.halts = false) :
    0 < t.consumed ∧ t.consumed ≤ buf.length := by
  unfold turn at h
  split_ifs at h
  · unfold startupTurn at h
    dsimp only at h
    split_ifs at h with hshort hlarge hlen <;> cases h <;>
      first | (cases hhalts; done) | (dsimp only; omega)
  · unfold passwordTurn at h
    dsimp only at h
    split_ifs at h with hshort hlen <;> cases h <;>
      first | (cases hhalts; done) | (dsimp only; omega)
  · unfold messageTurn at h
    dsimp only at h
    split_ifs at h with hshort hlarge hlen
    · cases h
      cases hhalts
    · cases h
      dsimp only
      omega

def reader : Reader (Peer cb) UInt8 where
  turn := turn cfg key past
  closed p := p.session.closed
  consumes := turn_consumes cfg key past

end Turns

end Peer

end Lockstep.Pg
