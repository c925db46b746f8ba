import Lockstep.Library.ByteCodec

/-!
# A stream of checksummed frames

A frame is `[u32 checksum][u32 length][body]`.

The scan of a concatenation of frames is the fold over their bodies (`scan_frames`): what a reader
sees of a stream that a writer produced is the writer's bodies, up to the first one the step or the
length limit refuses.
-/

namespace Lockstep.Library.FrameStream

open ByteCodec List

def frame (checksum : List UInt8 → UInt32) (body : List UInt8) : List UInt8 :=
  putLE 4 (checksum body).toNat ++ putLE 4 body.length ++ body

/-- The outcome of reading one frame. -/
inductive ReadResult
  /-- No further frame can be read. -/
  | stop
  /-- The framing is intact and the checksum fails. -/
  | corrupt (rest : List UInt8)
  | body (bytes rest : List UInt8)
  deriving DecidableEq

def readFrame (checksum : List UInt8 → UInt32) (limit : ℕ) (stream : List UInt8) : ReadResult :=
  if stream.length < 8 then .stop
  else
    let crc := getLE (stream.take 4)
    let len := getLE ((stream.drop 4).take 4)
    if len = 0 ∨ limit < len ∨ (stream.drop 8).length < len then .stop
    else
      let bytes := (stream.drop 8).take len
      let rest := (stream.drop 8).drop len
      if (checksum bytes).toNat = crc then .body bytes rest else .corrupt rest

section Scan

variable {σ : Type*} (checksum : List UInt8 → UInt32) (limit : ℕ)
  (step : σ → List UInt8 → σ × Bool) (onCorrupt : σ → List UInt8 → σ)

/-- Folds `step` over the frames of a stream. The step returns the next state and whether the scan
goes on; `onCorrupt` sees the stream after a frame whose checksum fails. -/
def scan : ℕ → List UInt8 → σ → σ
  | 0, _, state => state
  | fuel + 1, stream, state =>
    match readFrame checksum limit stream with
    | .stop => state
    | .corrupt rest => onCorrupt state rest
    | .body bytes rest =>
      match step state bytes with
      | (state, false) => state
      | (state, true) => scan fuel rest state

/-- The fold of the step over bodies: the state reached, and whether no body stopped it. -/
def foldBodies : List (List UInt8) → σ → σ × Bool
  | [], state => (state, true)
  | bytes :: bodies, state =>
    match step state bytes with
    | (state, false) => (state, false)
    | (state, true) => foldBodies bodies state

end Scan

section Read

variable {checksum : List UInt8 → UInt32} {limit : ℕ}

lemma readFrame_header (crc len : ℕ) (hcrc : crc < 2 ^ 32) (hlen : len < 2 ^ 32)
    (tail : List UInt8) :
    readFrame checksum limit (putLE 4 crc ++ putLE 4 len ++ tail) =
      if len = 0 ∨ limit < len ∨ tail.length < len then .stop
      else if (checksum (tail.take len)).toNat = crc then .body (tail.take len) (tail.drop len)
      else .corrupt (tail.drop len) := by
  have hcrcLE : getLE (putLE 4 crc) = crc := getLE_putLE_of_lt hcrc
  have hlenLE : getLE (putLE 4 len) = len := getLE_putLE_of_lt hlen
  have htake : (putLE 4 crc ++ putLE 4 len ++ tail).take 4 = putLE 4 crc := by
    simp
  have hdrop : (putLE 4 crc ++ putLE 4 len ++ tail).drop 4 = putLE 4 len ++ tail := by
    simp
  have hdrop' : (putLE 4 crc ++ putLE 4 len ++ tail).drop 8 = tail := by
    simp [drop_append]
  have hlength : ¬ (putLE 4 crc ++ putLE 4 len ++ tail).length < 8 := by
    simp only [length_append, length_putLE]
    omega
  have hmiddle : (putLE 4 len ++ tail).take 4 = putLE 4 len := by
    simp
  rw [readFrame, if_neg hlength, htake, hdrop, hdrop', hmiddle, hcrcLE, hlenLE]

/-- A frame with another body of the same length in place of its own is corrupt, unless the
checksums collide. -/
theorem readFrame_damaged (body damaged rest : List UInt8) (hlen : damaged.length = body.length)
    (hpos : 0 < body.length) (hlimit : body.length ≤ limit) (hmax : limit < 2 ^ 32)
    (hdiffer : checksum damaged ≠ checksum body) :
    readFrame checksum limit
        (putLE 4 (checksum body).toNat ++ putLE 4 body.length ++ damaged ++ rest) =
      .corrupt rest := by
  rw [append_assoc _ damaged rest, readFrame_header _ _ (UInt32.toNat_lt _) (by omega)]
  have htake : (damaged ++ rest).take body.length = damaged := by simp [← hlen]
  have hdrop : (damaged ++ rest).drop body.length = rest := by simp [← hlen]
  rw [if_neg (by rw [length_append]; omega), htake, hdrop,
    if_neg fun heq ↦ hdiffer (UInt32.toNat_inj.mp heq)]

lemma readFrame_frame (body rest : List UInt8) (hpos : 0 < body.length)
    (hlimit : body.length ≤ limit) (hmax : limit < 2 ^ 32) :
    readFrame checksum limit (frame checksum body ++ rest) = .body body rest := by
  rw [frame, append_assoc _ body rest, readFrame_header _ _ (UInt32.toNat_lt _) (by omega)]
  rw [if_neg (by rw [length_append]; omega), take_left, drop_left, if_pos rfl]

lemma readFrame_nil : readFrame checksum limit [] = .stop :=
  if_pos (by simp)

lemma length_frame (body : List UInt8) : (frame checksum body).length = 8 + body.length := by
  simp only [frame, length_append, length_putLE]

end Read

section ScanFrames

variable {σ : Type*} (checksum : List UInt8 → UInt32) {limit : ℕ}
  (step : σ → List UInt8 → σ × Bool) (onCorrupt : σ → List UInt8 → σ)

/-- Scanning frames the limit admits is folding their bodies, then scanning what follows unless the
fold stopped. -/
theorem scan_frames_append (hmax : limit < 2 ^ 32) (bodies : List (List UInt8))
    (hbodies : ∀ body ∈ bodies, 0 < body.length ∧ body.length ≤ limit) (rest : List UInt8)
    (fuel : ℕ) (state : σ) :
    scan checksum limit step onCorrupt (bodies.length + fuel)
        (bodies.flatMap (frame checksum) ++ rest) state =
      if (foldBodies step bodies state).2 then
        scan checksum limit step onCorrupt fuel rest (foldBodies step bodies state).1
      else (foldBodies step bodies state).1 := by
  induction bodies generalizing state with
  | nil => simp [foldBodies]
  | cons body bodies ih =>
    obtain ⟨hpos, hle⟩ := hbodies body mem_cons_self
    rw [length_cons, Nat.add_right_comm, flatMap_cons, append_assoc, scan,
      readFrame_frame body _ hpos hle hmax, foldBodies]
    dsimp only
    rcases step state body with ⟨next, _ | _⟩
    · rfl
    · exact ih (forall_mem_cons.mp hbodies).2 next

lemma length_le_length_flatMap (bodies : List (List UInt8)) :
    bodies.length ≤ (bodies.flatMap (frame checksum)).length := by
  induction bodies with
  | nil => exact Nat.zero_le _
  | cons body bodies ih =>
    rw [flatMap_cons, length_append, length_frame, length_cons]
    omega

lemma scan_frames (hmax : limit < 2 ^ 32) (bodies : List (List UInt8))
    (hbodies : ∀ body ∈ bodies, 0 < body.length ∧ body.length ≤ limit) {fuel : ℕ}
    (hfuel : bodies.length ≤ fuel) (state : σ) :
    scan checksum limit step onCorrupt fuel (bodies.flatMap (frame checksum)) state =
      (foldBodies step bodies state).1 := by
  obtain ⟨spare, rfl⟩ := Nat.exists_eq_add_of_le hfuel
  have hscan :=
    scan_frames_append checksum step onCorrupt hmax bodies hbodies [] spare state
  rw [append_nil] at hscan
  rw [hscan]
  split_ifs with hgo
  · cases spare with
    | zero => rfl
    | succ spare => rw [scan, readFrame_nil]
  · rfl

end ScanFrames

end Lockstep.Library.FrameStream
