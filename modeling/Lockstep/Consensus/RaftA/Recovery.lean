import Lockstep.Consensus.RaftA.Handlers
import Lockstep.Consensus.RaftA.Record

/-!
# Recovery of a node from its disk

`recoverTask` reads the durable image frame by frame and replays each record into a `Replay`, the
locals of the coroutine `recover_task`.
-/

namespace Lockstep.Consensus.RaftA

open Library ByteCodec Reader

/-- What the replay of the durable log has rebuilt. -/
structure Replay where
  term : ℕ
  vote : NodeId
  log : List LogEntry := []
  base : ℕ := 0
  state : List LogEntry := []
  chain : List (List NodeId)
  cfgIdx : ℕ := 0
  haveCfg : Bool := false
  any : Bool := false
  repairTo : ℕ := 0
  deriving DecidableEq

namespace Replay

def length (st : Replay) : ℕ := st.base + st.log.length

def kept (st : Replay) (newBase : ℕ) : List LogEntry :=
  if newBase < st.length then st.log.drop (newBase - st.base) else []

def readEntry (r : Reader) : LogEntry × Reader :=
  let (term, r) := r.u64
  let (value, r) := r.str
  ({ term := term, value := value }, r)

/-! ### The record kinds -/

def applyMeta (st : Replay) (r : Reader) : Replay × Bool :=
  let (term, r) := r.u64
  let (vote, r) := r.u64
  ({ st with term := term, vote := vote }, r.good)

def applyEntry (st : Replay) (r : Reader) : Replay × Bool :=
  let (index, r) := r.u64
  let (e, r) := readEntry r
  if !r.good ∨ index ≠ st.length + 1 then (st, false)
  else ({ st with log := st.log ++ [e] }, r.good)

def applyTrunc (st : Replay) (r : Reader) : Replay × Bool :=
  let (newLen, r) := r.u64
  if st.length < newLen ∨ newLen < st.base then (st, false)
  else ({ st with log := st.log.take (newLen - st.base) }, r.good)

def applySnapshot (st : Replay) (len : ℕ) (r : Reader) : Replay × Bool :=
  let (lii, r) := r.u64
  let (count, r) := r.u32
  if !r.good ∨ len < count then (st, false)
  else
    let (state, r) := many readEntry count r
    if !r.good ∨ lii < st.base ∨ state.length ≠ lii then (st, false)
    else ({ st with base := lii, state := state, log := st.kept lii }, r.good)

def applySnapshotDelta (st : Replay) (len : ℕ) (r : Reader) : Replay × Bool :=
  let (fromBase, r) := r.u64
  let (toBase, r) := r.u64
  let (count, r) := r.u32
  if !r.good ∨ len < count ∨ fromBase ≠ st.base ∨ toBase < fromBase ∨
      count ≠ toBase - fromBase then (st, false)
  else
    let (delta, r) := many readEntry count r
    if !r.good then (st, false)
    else ({ st with base := toBase, state := st.state ++ delta, log := st.kept toBase }, r.good)

def applyConfig (st : Replay) (len : ℕ) (r : Reader) : Replay × Bool :=
  let (cidx, r) := r.u64
  let (count, r) := r.u32
  if !r.good ∨ len < count then (st, false)
  else
    let (members, r) := many u64 count r
    if !r.good ∨ cidx = 0 ∨ st.chain.length < cidx then (st, false)
    else
      let chain := st.chain ++ List.replicate (cidx + 1 - st.chain.length) []
      ({ st with
          chain := chain.set cidx members
          cfgIdx := max st.cfgIdx cidx
          haveCfg := true }, r.good)

/-- The effect of one record, by its kind. -/
def applyKind (st : Replay) (kind len : ℕ) (r : Reader) : Replay × Bool :=
  if kind = 1 then st.applyMeta r
  else if kind = 2 then st.applyEntry r
  else if kind = 3 then st.applyTrunc r
  else if kind = 4 then st.applySnapshot len r
  else if kind = 6 then st.applySnapshotDelta len r
  else if kind = 5 then st.applyConfig len r
  else (st, false)

def applyBody (st : Replay) (body : List UInt8) : Replay × Bool :=
  let (kind, r) := u8 { rest := body }
  let (st, ok) := st.applyKind kind body.length r
  if ok then ({ st with any := true }, true) else (st, false)

def forwardStep (repairTo : ℕ) (body : List UInt8) : ℕ × Bool :=
  let (kind, r) := u8 { rest := body }
  if kind = 2 then
    let (index, r) := r.u64
    (if r.good ∧ repairTo < index then index else repairTo, true)
  else (repairTo, true)

/-- Behind a damaged record: the largest entry number that can still be read, to be repaired. -/
def scanForward (st : Replay) (image : List UInt8) : Replay :=
  { st with
    repairTo := FrameStream.scan crc32 kMaxRecord forwardStep (fun repairTo _ ↦ repairTo)
      image.length image st.repairTo }

/-- Replays the records up to the first one that is damaged or out of order. -/
def run (st : Replay) (image : List UInt8) : Replay :=
  FrameStream.scan crc32 kMaxRecord applyBody scanForward image.length image st

end Replay

namespace Node

/-! ### Lifecycle -/

def image (s : Node) : List UInt8 := s.disk.flatMap DurableRecord.bytes

def replayStart (s : Node) : Replay where
  term := s.currentTerm
  vote := s.votedFor
  chain := initConfigChain s.cfg

/-- The state after a replay. The last configuration counts as committed. -/
def installReplay (s : Node) (st : Replay) : Node :=
  let s :=
    if st.any then
      { s with
        currentTerm := st.term, votedFor := st.vote, snapBase := st.base,
        snapState := st.state, snapPersistedBase := st.base, log := st.log,
        appliedIndex := st.base }
    else s
  let cfgIdx := if st.haveCfg then st.cfgIdx else 0
  { s with
    repairWatermark := if s.snapBase + s.log.length < st.repairTo then st.repairTo else 0,
    cfgChain := st.chain, cfgIdx := cfgIdx, cfgCommittedIdx := cfgIdx,
    cfgAdopted := List.replicate s.cfg.cluster.length 0, recovered := true }

def recoverTask (s : Node) (image : List UInt8) : Node :=
  s.installReplay (s.replayStart.run image)

/-- Everything but the disk is lost. -/
def crash (s : Node) : Node :=
  { s with
    running := false
    recovered := false
    role := .follower
    currentTerm := 0
    votedFor := kNil
    log := []
    snapBase := 0
    snapState := []
    snapPersistedBase := 0
    appliedIndex := 0
    commitIndex := 0
    repairWatermark := 0
    votesGranted := []
    leaderHint := kNoLeader
    nextIndex := s.nextIndex.map fun _ ↦ 0
    matchIndex := s.matchIndex.map fun _ ↦ 0
    cfgChain := initConfigChain s.cfg
    cfgIdx := 0
    cfgCommittedIdx := 0
    cfgAdopted := s.cfgAdopted.map fun _ ↦ 0
    writeQueue := []
    replPending := false
    replKicked := false }

def start (s : Node) : Node :=
  if s.running then s
  else { s with running := true, recovered := false }.recoverTask s.image

lemma start_create (cfg : NodeConfig) :
    (create cfg).start = { create cfg with running := true, recovered := true } :=
  rfl

def restartFrom (s : Node) (image : List UInt8) : Node :=
  recoverTask
    { s with
      running := true, recovered := false, role := .follower, commitIndex := 0,
      snapBase := 0, snapState := [], snapPersistedBase := 0, appliedIndex := 0,
      votesGranted := [], leaderHint := kNoLeader }
    image

def restart (s : Node) : Node := s.restartFrom s.image

/-- The worker syncs the first `count` enqueued records. -/
def syncRecords (s : Node) (count : ℕ) : Node :=
  advanceN1SelfCommit
    { s with disk := s.disk ++ s.writeQueue.take count, writeQueue := s.writeQueue.drop count }

end Node

end Lockstep.Consensus.RaftA
