import Lockstep.Pg.Mirror
import Lockstep.Pg.Peer

/-!
# Statements and passwords

A session with a callback for passwords runs no statement before this callback has accepted a
password for the user of the latest startup message.
-/

namespace Lockstep.Pg

open Library Sql ChunkedReader List

variable {L : Language} {ε δ : Type}

/-! ### Traces -/

def Happening.isStartup : Happening δ → Bool
  | .startup _ => true
  | _ => false

def Named (trace : List (Happening δ)) (user : Text) : Prop :=
  ∃ first rest, trace = first ++ .startup user :: rest ∧ ∀ h ∈ rest, h.isStartup = false

def Cleared (trace : List (Happening δ)) : Prop :=
  ∃ user password first rest, trace = first ++ .auth user password true :: rest ∧
    Named first user ∧ ∀ h ∈ rest, h.isStartup = false

def Guarded (trace : List (Happening δ)) : Prop :=
  ∀ before h, before ++ [h] <+: trace → h.isCall = true → Cleared before

variable {trace : List (Happening δ)} {user : Text} {h : Happening δ}

lemma Happening.isStartup_of_isCall (hh : h.isCall = true) : h.isStartup = false := by
  cases h with
  | startup => cases hh
  | auth | exec | execPrepared => rfl

variable {later : List (Happening δ)}

lemma Named.append (hnamed : Named trace user)
    (hlater : ∀ h ∈ later, h.isStartup = false) : Named (trace ++ later) user := by
  obtain ⟨first, rest, rfl, hrest⟩ := hnamed
  exact ⟨first, rest ++ later, by simp, forall_mem_append.mpr ⟨hrest, hlater⟩⟩

lemma Cleared.append (hcleared : Cleared trace)
    (hlater : ∀ h ∈ later, h.isStartup = false) : Cleared (trace ++ later) := by
  obtain ⟨user, password, first, rest, rfl, hnamed, hrest⟩ := hcleared
  exact ⟨user, password, first, rest ++ later, by simp, hnamed,
    forall_mem_append.mpr ⟨hrest, hlater⟩⟩

lemma Named.accepted (hnamed : Named trace user) (password : Text) :
    Cleared (trace ++ [.auth user password true]) :=
  ⟨user, password, trace, [], rfl, hnamed, by simp⟩

lemma Guarded.concat (hguarded : Guarded trace) (hh : h.isCall = true → Cleared trace) :
    Guarded (trace ++ [h]) := by
  intro before h' hprefix hcall
  rcases prefix_concat_iff.mp hprefix with heq | hearlier
  · obtain ⟨rfl, hlast⟩ := append_inj' heq rfl
    rw [singleton_inj.mp hlast] at hcall
    exact hh hcall
  · exact hguarded before h' hearlier hcall

lemma Guarded.append_calls (hguarded : Guarded trace) (hcleared : Cleared trace)
    {calls : List (Happening δ)} (hcalls : ∀ h ∈ calls, h.isCall = true) :
    Guarded (trace ++ calls) := by
  induction calls generalizing trace with
  | nil =>
    rw [append_nil]
    exact hguarded
  | cons h calls ih =>
    have hcall := hcalls h mem_cons_self
    have hnext : Cleared (trace ++ [h]) :=
      hcleared.append fun _ hmem ↦
        (mem_singleton.mp hmem).symm ▸ Happening.isStartup_of_isCall hcall
    rw [append_cons]
    exact ih (hguarded.concat fun _ ↦ hcleared) hnext
      fun h' hmem ↦ hcalls h' (mem_cons_of_mem _ hmem)

/-! ### Turns -/

variable {cb : Callbacks L ε}

/-- The statements of a session were all run with a password accepted, and so would be the next
ones. -/
structure Authorised (p : Peer cb) : Prop where
  guarded : Guarded p.trace
  started : p.started = true → Cleared p.trace
  awaiting : p.awaitingPassword = true → Named p.trace p.user

namespace Authorised

variable {p p' : Peer cb}

lemma start (env : ε) : Authorised (Peer.start cb env) := by
  refine ⟨fun before h hprefix ↦ ?_, Bool.noConfusion, Bool.noConfusion⟩
  have hlength := hprefix.length_le
  simp [Peer.trace, Peer.start] at hlength

lemma congr (hp : Authorised p) (htrace : p'.trace = p.trace) (hstarted : p'.started = p.started)
    (hawaiting : p'.awaitingPassword = p.awaitingPassword) (huser : p'.user = p.user) :
    Authorised p' := by
  refine ⟨?_, ?_, ?_⟩
  · rw [htrace]
    exact hp.guarded
  · rw [htrace, hstarted]
    exact hp.started
  · rw [htrace, hawaiting, huser]
    exact hp.awaiting

lemma serves (hp : Authorised p) (hstarted : p.started = true) {c : Conn L (Recorded cb)}
    (h : Serves p.toConn c) : Authorised { p with toConn := c } := by
  obtain ⟨calls, htrace, hcalls⟩ := h.trace
  have hlater : ∀ h ∈ calls, h.isStartup = false :=
    fun h hmem ↦ Happening.isStartup_of_isCall (hcalls h hmem)
  have hcleared := hp.started hstarted
  refine ⟨?_, fun _ ↦ ?_, fun hwaits ↦ ?_⟩ <;> rw [Peer.trace, htrace]
  · exact hp.guarded.append_calls hcleared hcalls
  · exact hcleared.append hlater
  · exact (hp.awaiting hwaits).append hlater

variable {cfg : Config L} {key : BackendKey} {past : ℕ → UInt8}
  {buf : List UInt8} {t : Turn (Peer cb)}

section

variable (hp : Authorised p)

include hp

lemma startupTurn (hauth : cb.auth.isSome = true)
    (hstarted : p.started = false) (h : p.startupTurn key buf = some t) :
    Authorised t.state := by
  unfold Peer.startupTurn at h
  dsimp only at h
  rw [if_pos hauth] at h
  split_ifs at h <;> cases h
  · exact hp.congr rfl rfl rfl rfl
  · exact hp.congr rfl rfl rfl rfl
  · exact hp.congr rfl rfl rfl rfl
  · exact hp.congr rfl rfl rfl rfl
  · refine ⟨hp.guarded.concat Bool.noConfusion, fun hin ↦ ?_, fun _ ↦ ⟨p.trace, [], rfl, by simp⟩⟩
    exact absurd (hstarted.symm.trans hin) (by decide)

lemma passwordTurn (hwaits : p.awaitingPassword = true)
    (h : p.passwordTurn key buf = some t) : Authorised t.state := by
  unfold Peer.passwordTurn at h
  dsimp only at h
  split_ifs at h with hshort hlen hallowed
  · cases h
    refine ⟨hp.guarded.concat Bool.noConfusion, fun _ ↦ ?_, Bool.noConfusion⟩
    rw [hallowed]
    exact (hp.awaiting hwaits).accepted _
  · cases h
    exact ⟨hp.guarded.concat Bool.noConfusion,
      fun hin ↦ (hp.started hin).append fun h hmem ↦ (mem_singleton.mp hmem).symm ▸ rfl,
      Bool.noConfusion⟩

lemma handleDecoded (hstarted : p.started = true) (decoded : Decoded) :
    Authorised (p.handleDecoded cfg decoded) := by
  cases decoded with
  | nothing => exact hp
  | closeNothing => exact hp.congr rfl rfl rfl rfl
  | message msg =>
    by_cases hmsg : msg = .terminate
    · rw [hmsg, Peer.handleDecoded_terminate]
      exact hp.congr rfl rfl rfl rfl
    · exact (hp.serves hstarted (Serves.receive cfg p.toConn hmsg)).congr rfl rfl rfl rfl

lemma messageTurn (hstarted : p.started = true)
    (h : p.messageTurn cfg past buf = some t) : Authorised t.state := by
  unfold Peer.messageTurn at h
  dsimp only at h
  split_ifs at h <;> cases h
  · exact hp.congr rfl rfl rfl rfl
  · exact hp.handleDecoded hstarted _

lemma turn (hauth : cb.auth.isSome = true)
    (h : p.turn cfg key past buf = some t) : Authorised t.state := by
  unfold Peer.turn at h
  split_ifs at h with hstartup hwaits
  · exact hp.startupTurn hauth hstartup.1 h
  · exact hp.passwordTurn hwaits h
  · refine hp.messageTurn ?_ h
    by_contra hout
    exact hstartup ⟨by simpa using hout, by simpa using hwaits⟩

end

lemma drain (hauth : cb.auth.isSome = true) {fuel : ℕ} (hp : Authorised p) (buf : List UInt8) :
    Authorised (drain (Peer.reader cfg key past) fuel p buf).1 := by
  induction fuel generalizing p buf with
  | zero => exact hp
  | succ fuel ih =>
    rw [drain]
    cases hturn : (Peer.reader cfg key past).turn p buf with
    | none => exact hp
    | some t =>
      have hnext := hp.turn hauth hturn
      dsimp only
      split_ifs
      · exact hnext
      · exact ih hnext _

end Authorised

/-! ### Runs -/

/-- What is called on a session: `feed` with some bytes, or `pump_notifications`. What is in memory
behind the buffer may be something else each time. -/
inductive SessionCall where
  | feed (bytes : List UInt8) (past : ℕ → UInt8)
  | pump

def callStep (cfg : Config L) (key : BackendKey) (x : Peer cb × List UInt8) :
    SessionCall → Peer cb × List UInt8
  | .feed bytes past => feed (Peer.reader cfg key past) x bytes
  | .pump =>
    if x.1.started then
      let (notices, c) := x.1.pollNotifications cfg
      ({ x.1 with toConn := c }.reply (notices.map .message), x.2)
    else x

variable {x : Peer cb × List UInt8}

lemma Authorised.callStep {cfg : Config L} {key : BackendKey}
    (hauth : cb.auth.isSome = true) (hx : Authorised x.1)
    (call : SessionCall) : Authorised (callStep cfg key x call).1 := by
  cases call with
  | feed bytes past => exact hx.drain hauth _
  | pump =>
    unfold Pg.callStep
    split_ifs with hstarted
    · exact (hx.serves hstarted (Serves.pollNotifications cfg x.1.toConn)).congr rfl rfl rfl rfl
    · exact hx

lemma Authorised.run {cfg : Config L} {key : BackendKey}
    (hauth : cb.auth.isSome = true) (hx : Authorised x.1)
    (calls : List SessionCall) : Authorised (calls.foldl (Pg.callStep cfg key) x).1 := by
  induction calls generalizing x with
  | nil => exact hx
  | cons call calls ih => exact ih (hx.callStep hauth call)

instance decidableEqDatum : DecidableEq OneTable.language.Datum :=
  inferInstanceAs (DecidableEq Unit)

def lenientCallbacks : Callbacks OneTable.language Unit where
  exec _ _ := ({}, ())
  execPrepared _ _ _ := ({}, ())
  auth := some fun _ _ _ ↦ (true, ())

def startedBytes : List UInt8 :=
  [0, 0, 0, 16, 0, 3, 0, 0, 0x75, 0x73, 0x65, 0x72, 0, 0x61, 0, 0, 0x70, 0, 0, 0, 6, 0x62, 0, 0x51,
    0, 0, 0, 6, 0x63, 0]

end Lockstep.Pg
