import Lockstep.Pg.Authentication

/-!
# A session and the cuts of its input

A parameter that is said to be longer than the message is read from what is behind it: the next
message, if it has arrived, and otherwise what is in memory (`overlong_parameter_read_past_buffer`).
-/

namespace Lockstep.Pg

open Library Sql ChunkedReader Peer List Option

variable {L : Language} {ε : Type} {cb : Callbacks L ε}

variable {payload : List UInt8} {after after' : ℕ → UInt8}

/-! ### Parameters inside their message -/

def paramsInside : ℕ → List UInt8 → Bool
  | 0, _ => true
  | count + 1, rest =>
    if rest.length < 4 then true
    else
      let vlen := pgGetI32 rest
      let rest := rest.drop 4
      if vlen < 0 then paramsInside count rest
      else decide (vlen.toNat ≤ rest.length) && paramsInside count (rest.drop vlen.toNat)

def bindInside (payload : List UInt8) : Bool :=
  let rest := (readCString (readCString payload).2).2
  if rest.length < 2 then true
  else
    let rest := (readInts 2 (pgGetI16 rest).toNat (rest.drop 2)).2
    if rest.length < 2 then true
    else paramsInside (pgGetI16 rest).toNat (rest.drop 2)

lemma readParams_congr {count : ℕ} {rest : List UInt8} (h : paramsInside count rest = true) :
    readParams after count rest = readParams after' count rest := by
  induction count generalizing rest with
  | zero => rfl
  | succ count ih =>
    unfold paramsInside at h
    unfold readParams
    dsimp only at h ⊢
    split_ifs at h ⊢ with hshort hnull
    · rfl
    · rw [ih h]
    · rw [Bool.and_eq_true, decide_eq_true_eq] at h
      rw [ih h.2, Nat.sub_eq_zero_of_le h.1]
      rfl

lemma decodeBind_congr (h : bindInside payload = true) :
    decodeBind after payload = decodeBind after' payload := by
  unfold bindInside at h
  unfold decodeBind
  dsimp only at h ⊢
  split_ifs at h with hformats hparams
  · rw [if_pos hformats, if_pos hformats]
  · rw [if_neg hformats, if_neg hformats, if_pos hparams, if_pos hparams]
  · rw [if_neg hformats, if_neg hformats, if_neg hparams, if_neg hparams, readParams_congr h]

lemma decodeFrame_congr {type : UInt8} (h : type = 0x42 → bindInside payload = true) :
    decodeFrame after type payload = decodeFrame after' type payload := by
  by_cases hbind : type = 0x42
  · have hdecode : ∀ after, decodeFrame after type payload = decodeBind after payload := by
      intro after
      subst hbind
      rfl
    rw [hdecode, hdecode, decodeBind_congr (h hbind)]
  · unfold decodeFrame
    rw [if_neg hbind, if_neg hbind]

lemma decodeFrame_terminate {type : UInt8}
    (h : decodeFrame after type payload = .message .terminate) : type = 0x58 := by
  have hite : ∀ {c : Prop} [Decidable c] {a b : Decoded}, a ≠ .message .terminate →
      b ≠ .message .terminate → (if c then a else b) ≠ .message .terminate := by
    intro c _ a b ha hb
    split_ifs
    · exact ha
    · exact hb
  have hbind : decodeBind after payload ≠ .message .terminate :=
    hite Decoded.noConfusion (hite Decoded.noConfusion (by rintro ⟨⟩))
  by_contra hne
  unfold decodeFrame at h
  rw [if_neg hne] at h
  refine absurd h (hite (by rintro ⟨⟩) (hite (by rintro ⟨⟩) (hite hbind (hite ?_ (hite
    (by rintro ⟨⟩) (hite ?_ (hite (by rintro ⟨⟩) (by rintro ⟨⟩))))))))
  · cases payload with
    | nil => exact Decoded.noConfusion
    | cons what rest => exact hite (by rintro ⟨⟩) (by rintro ⟨⟩)
  · cases payload with
    | nil => exact Decoded.noConfusion
    | cons what rest => exact hite (by rintro ⟨⟩) (by rintro ⟨⟩)

/-! ### Turns over more of the stream -/

variable {first : List UInt8}

lemma getInt_append {width : ℕ} (h : width ≤ first.length)
    (more : List UInt8) : getInt width (first ++ more) = getInt width first := by
  unfold getInt
  rw [take_append_of_le_length h]

lemma drop_getInt_append {width start : ℕ}
    (h : start + width ≤ first.length) (more : List UInt8) :
    getInt width ((first ++ more).drop start) = getInt width (first.drop start) := by
  rw [drop_append_of_le_length (by omega), getInt_append]
  rw [length_drop]
  omega

lemma drop_take_append {start count : ℕ} (h : start + count ≤ first.length) (more : List UInt8) :
    ((first ++ more).drop start).take count = (first.drop start).take count := by
  rw [drop_append_of_le_length (by omega), take_append_of_le_length]
  rw [length_drop]
  omega

/-- The message at the front of the buffer is not a Bind message with a parameter that is too
long. -/
def BindsInside (p : Peer cb) (buf : List UInt8) : Prop :=
  p.started = true ∧ p.awaitingPassword = false ∧ 5 ≤ buf.length ∧ buf.headD 0 = 0x42 ∧
      4 ≤ pgGetI32 (buf.drop 1) ∧ (pgGetI32 (buf.drop 1)).toNat + 1 ≤ buf.length →
    bindInside ((buf.drop 5).take ((pgGetI32 (buf.drop 1)).toNat - 4)) = true

instance decidableBindsInside (p : Peer cb) (buf : List UInt8) : Decidable (BindsInside p buf) :=
  inferInstanceAs (Decidable (_ → _))

namespace Peer

variable {cfg : Config L} {key : BackendKey} {past past' : ℕ → UInt8}
  {p : Peer cb} {first more buf : List UInt8} {t : Turn (Peer cb)}

lemma startupTurn_append (h : p.startupTurn key first = some t) :
    p.startupTurn key (first ++ more) = some t := by
  unfold startupTurn at h ⊢
  rw [ite_none_left_eq_some] at h ⊢
  obtain ⟨hshort, h⟩ := h
  have hlen : pgGetI32 (first ++ more) = pgGetI32 first := getInt_append (by omega) more
  have hcode : pgGetI32 ((first ++ more).drop 4) = pgGetI32 (first.drop 4) :=
    drop_getInt_append (by omega) more
  refine ⟨by rw [length_append]; omega, ?_⟩
  rw [hlen, hcode]
  dsimp only at h ⊢
  by_cases hlarge : kMaxMessageBytes < pgGetI32 first
  · rw [if_pos hlarge] at h ⊢
    exact h
  rw [if_neg hlarge, ite_none_left_eq_some] at h ⊢
  obtain ⟨hwaits, h⟩ := h
  have huser : (first ++ more).take (pgGetI32 first).toNat = first.take (pgGetI32 first).toNat :=
    take_append_of_le_length (by omega)
  refine ⟨by rw [length_append]; omega, ?_⟩
  rw [huser]
  by_cases hcancel : pgGetI32 first < 16
  · rw [if_pos hcancel] at h ⊢
    exact h
  have hpid : pgGetI32 ((first ++ more).drop 8) = pgGetI32 (first.drop 8) :=
    drop_getInt_append (by omega) more
  have hsecret : pgGetI32 ((first ++ more).drop 12) = pgGetI32 (first.drop 12) :=
    drop_getInt_append (by omega) more
  rw [if_neg hcancel] at h ⊢
  rw [hpid, hsecret]
  exact h

lemma passwordTurn_append (h : p.passwordTurn key first = some t) :
    p.passwordTurn key (first ++ more) = some t := by
  unfold passwordTurn at h ⊢
  rw [ite_none_left_eq_some] at h ⊢
  obtain ⟨hshort, h⟩ := h
  have hlen : pgGetI32 ((first ++ more).drop 1) = pgGetI32 (first.drop 1) :=
    drop_getInt_append (by omega) more
  refine ⟨by rw [length_append]; omega, ?_⟩
  rw [hlen]
  dsimp only at h ⊢
  rw [ite_none_left_eq_some] at h ⊢
  obtain ⟨hwaits, h⟩ := h
  have hpassword : ((first ++ more).drop 5).take ((pgGetI32 (first.drop 1)).toNat - 4 - 1) =
      (first.drop 5).take ((pgGetI32 (first.drop 1)).toNat - 4 - 1) :=
    drop_take_append (by omega) more
  refine ⟨by rw [length_append]; omega, ?_⟩
  rw [hpassword]
  exact h

lemma messageTurn_append (hstarted : p.started = true) (hawaiting : p.awaitingPassword = false)
    (hinside : BindsInside p (first ++ more)) (h : p.messageTurn cfg past first = some t) :
    p.messageTurn cfg past' (first ++ more) = some t := by
  unfold messageTurn at h ⊢
  rw [ite_none_left_eq_some] at h ⊢
  obtain ⟨hshort, h⟩ := h
  have hlen : pgGetI32 ((first ++ more).drop 1) = pgGetI32 (first.drop 1) :=
    drop_getInt_append (by omega) more
  have htype : (first ++ more).headD 0 = first.headD 0 := by
    cases first with
    | nil => exact absurd hshort (by simp)
    | cons b first => rfl
  unfold BindsInside at hinside
  rw [htype, hlen, length_append] at hinside
  refine ⟨by rw [length_append]; omega, ?_⟩
  rw [hlen, htype]
  dsimp only at h ⊢
  by_cases hlarge : kMaxMessageBytes < pgGetI32 (first.drop 1)
  · rw [if_pos hlarge] at h ⊢
    exact h
  rw [if_neg hlarge, ite_none_left_eq_some] at h ⊢
  obtain ⟨hwaits, h⟩ := h
  have hpayload : ((first ++ more).drop 5).take ((pgGetI32 (first.drop 1)).toNat - 4) =
      (first.drop 5).take ((pgGetI32 (first.drop 1)).toNat - 4) :=
    drop_take_append (by omega) more
  rw [hpayload] at hinside
  have hframe : first.headD 0 = 0x42 →
      bindInside ((first.drop 5).take ((pgGetI32 (first.drop 1)).toNat - 4)) = true :=
    fun hbind ↦ hinside ⟨hstarted, hawaiting, by omega, hbind, by omega, by omega⟩
  refine ⟨by rw [length_append]; omega, ?_⟩
  rw [hpayload, decodeFrame_congr hframe]
  exact h

lemma messageTurn_none (h : p.messageTurn cfg past buf = none) :
    p.messageTurn cfg past' buf = none := by
  unfold messageTurn at h ⊢
  dsimp only at h ⊢
  split_ifs at h ⊢
  · rfl
  · rfl

lemma handleDecoded_closed {decoded : Decoded} (hdecoded : decoded ≠ .message .terminate) :
    (p.handleDecoded cfg decoded).session.closed = p.session.closed := by
  cases decoded with
  | nothing | closeNothing => rfl
  | message msg => exact (Serves.receive cfg p.toConn fun heq ↦ hdecoded (heq ▸ rfl)).closed

lemma turn_closed (hopen : p.session.closed = false)
    (h : p.turn cfg key past buf = some t) : t.state.session.closed = t.halts := by
  unfold turn at h
  split_ifs at h
  · unfold startupTurn at h
    dsimp only at h
    split_ifs at h <;> cases h <;> first | rfl | exact hopen
  · unfold passwordTurn at h
    dsimp only at h
    split_ifs at h <;> cases h <;> first | rfl | exact hopen
  · unfold messageTurn at h
    dsimp only at h
    split_ifs at h
    · cases h
      rfl
    cases h
    dsimp only
    by_cases hterminate : buf.headD 0 = 0x58
    · rw [decide_eq_true hterminate]
      unfold decodeFrame
      rw [if_neg (by rw [hterminate]; decide), if_pos hterminate, handleDecoded_terminate]
      rfl
    · rw [decide_eq_false hterminate, ← hopen]
      exact handleDecoded_closed fun heq ↦ hterminate (decodeFrame_terminate heq)

lemma reader_stable (cfg : Config L) (key : BackendKey) (past past' : ℕ → UInt8) :
    Stable (σ := Peer cb) (reader cfg key past) (reader cfg key past') BindsInside where
  turn := by
    intro p first more t hinside h
    change p.turn cfg key past first = some t at h
    show p.turn cfg key past' (first ++ more) = some t
    unfold turn at h ⊢
    split_ifs at h ⊢ with hstartup hwaits
    · exact startupTurn_append h
    · exact passwordTurn_append h
    · have hawaiting : p.awaitingPassword = false := by simpa using hwaits
      have hstarted : p.started = true := by
        by_contra hout
        exact hstartup ⟨by simpa using hout, hawaiting⟩
      exact messageTurn_append hstarted hawaiting hinside h
  waits := by
    intro p buf _ h
    change p.turn cfg key past buf = none at h
    show p.turn cfg key past' buf = none
    unfold turn at h ⊢
    split_ifs at h ⊢
    · exact h
    · exact h
    · exact messageTurn_none h
  halts := turn_closed

end Peer

/-- Two ways of cutting the same bytes lead to the same outputs, the same calls and the same end. -/
theorem chunks_irrelevant (cb : Callbacks L ε) (cfg : Config L) (key : BackendKey) (env : ε)
    (past past' : ℕ → UInt8) {chunks chunks' : List (List UInt8)}
    (hsame : chunks.flatten = chunks'.flatten)
    (hinside : Visits (reader cfg key fun _ ↦ 0) BindsInside (.start cb env)
      chunks.flatten) :
    let p := (feedAll (reader cfg key past) (.start cb env, []) chunks).1
    let p' := (feedAll (reader cfg key past') (.start cb env, []) chunks').1
    p.out = p'.out ∧ p.trace = p'.trace ∧ p.session.closed = p'.session.closed := by
  intro p p'
  have hfirst : p = (feed (reader cfg key fun _ ↦ 0) (.start cb env, [])
      chunks.flatten).1 :=
    feedAll_eq_feed (reader_stable cfg key past fun _ ↦ 0) rfl rfl hinside
  rw [hsame] at hinside hfirst
  have hsecond : p' = (feed (reader cfg key fun _ ↦ 0) (.start cb env, [])
      chunks'.flatten).1 :=
    feedAll_eq_feed (reader_stable cfg key past' fun _ ↦ 0) rfl rfl hinside
  have heq : p = p' := hfirst.trans hsecond.symm
  rw [heq]
  exact ⟨rfl, rfl, rfl⟩

def trustingCallbacks : Callbacks OneTable.language Unit := { lenientCallbacks with auth := none }

def parsedBytes : List UInt8 :=
  [0, 0, 0, 9, 0, 3, 0, 0, 0] ++ [0x50, 0, 0, 0, 10, 0, 0x24, 0x31, 0, 0, 0]

def executeBytes : List UInt8 := [0x45, 0, 0, 0, 9, 0, 0, 0, 0, 0]

def boundBytes : List UInt8 :=
  parsedBytes ++ [0x42, 0, 0, 0, 17, 0, 0, 0, 0, 0, 1, 0, 0, 0, 1, 0x78, 0, 0] ++ executeBytes

theorem chunks_irrelevant_bound :
    let fed past chunks :=
      (feedAll (reader untyped {} past) (Peer.start trustingCallbacks (), []) chunks).1
    (fed (fun _ ↦ 0) [boundBytes]).trace = [.startup [], .exec ['\x27', 'x', '\x27']] ∧
      (fed (fun _ ↦ 0) [boundBytes]).out = (fed (fun _ ↦ 1) (boundBytes.map fun b ↦ [b])).out ∧
      (fed (fun _ ↦ 0) [boundBytes]).trace =
        (fed (fun _ ↦ 1) (boundBytes.map fun b ↦ [b])).trace := by
  have hflat : [boundBytes].flatten = (boundBytes.map fun b ↦ [b]).flatten := by decide +kernel
  have hsame := chunks_irrelevant trustingCallbacks untyped {} () (fun _ ↦ 0) (fun _ ↦ 1) hflat
    (by decide +kernel)
  exact ⟨by decide +kernel, hsame.1, hsame.2.1⟩

def overlongBytes : List UInt8 :=
  parsedBytes ++ [0x42, 0, 0, 0, 15, 0, 0, 0, 0, 0, 1, 0, 0, 0, 3, 0x78]

/-- The statement that is run depends on whether the next message has arrived together with the Bind
message. -/
theorem overlong_parameter_read_past_buffer :
    let fed chunks := (feedAll (reader untyped {} fun _ ↦ 0x7A)
      (Peer.start trustingCallbacks (), []) chunks).1
    (fed [overlongBytes ++ executeBytes]).trace =
        [.startup [], .exec ['\x27', 'x', 'E', '\x00', '\x27']] ∧
      (fed [overlongBytes, executeBytes]).trace =
        [.startup [], .exec ['\x27', 'x', 'z', 'z', '\x27']] := by
  decide +kernel

end Lockstep.Pg
