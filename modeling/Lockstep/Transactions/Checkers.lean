import Lockstep.Transactions.Transaction

/-!
# The checkers of a run

The battery that judges the result of an executor (`txn/Checkers.hpp`): eight checkers, each with
its verdict, the rule it cites and the evidence it gives. `runAllCheckers` runs them all against the
result of the reference.
-/

namespace Lockstep.Transactions

open Library List

/-- What a checker says of a history. -/
structure Verdict where
  ok : Bool := true
  checker : String
  specRef : String
  witness : String := ""
  explanation : String := ""
  seed : ℕ := 0
  deriving DecidableEq

def okVerdict (checker specRef : String) : Verdict :=
  { ok := true, checker := checker, specRef := specRef }

def badVerdict (checker specRef witness explanation : String) : Verdict :=
  { ok := false, checker := checker, specRef := specRef, witness := witness,
    explanation := explanation }

def render (bytes : List UInt8) : String :=
  String.ofList (bytes.map fun byte ↦ Char.ofNat byte.toNat)

def renderVal (v : ReadResult) : String :=
  match v with
  | some value => "\"" ++ render value ++ "\""
  | none => "∅"

def statusName : Status → String
  | .committed => "Committed"
  | .aborted => "Aborted"
  | .pending => "Pending"

def committedInOrder (run : RunResult) : List CommitInfo := committed run.commits

def valueAfterPrefix (seq : List CommitInfo) (k : Key) (j : ℕ) : ReadResult :=
  (seq.take j).foldl
    (fun v c ↦
      match c.writesCommitted.find k with
      | some written => some written
      | none => v)
    none

lemma valueAfterPrefix_append {seq : List CommitInfo} (more : List CommitInfo) (k : Key) {j : ℕ}
    (hj : j ≤ seq.length) :
    valueAfterPrefix (seq ++ more) k j = valueAfterPrefix seq k j := by
  rw [valueAfterPrefix, take_append_of_le_length hj]
  rfl

lemma valueAfterPrefix_concat (seq : List CommitInfo) (c : CommitInfo) (k : Key) :
    valueAfterPrefix (seq ++ [c]) k (seq.length + 1) =
      (c.writesCommitted.find k).or (valueAfterPrefix seq k seq.length) := by
  rw [valueAfterPrefix, valueAfterPrefix, take_length, take_of_length_le (by simp),
    foldl_append, foldl_cons, foldl_nil]
  cases c.writesCommitted.find k with
  | none | some written => rfl

lemma forall_getElem?_concat {α : Type*} {P : ℕ → α → Prop} (l : List α) (x : α) :
    (∀ i y, (l ++ [x])[i]? = some y → P i y) ↔
      (∀ i y, l[i]? = some y → P i y) ∧ P l.length x := by
  constructor
  · intro h
    refine ⟨fun i y hy ↦ h i y ?_, h _ _ List.getElem?_concat_length⟩
    rw [List.getElem?_append_left (List.getElem?_eq_some_iff.mp hy).1, hy]
  rintro ⟨hold, hnew⟩ i y hy
  rcases Nat.lt_or_ge i l.length with hlt | hge
  · rw [getElem?_append_left hlt] at hy
    exact hold i y hy
  have hi := (List.getElem?_eq_some_iff.mp hy).1
  rw [List.length_append, List.length_singleton] at hi
  obtain rfl : i = l.length := by omega
  rw [getElem?_concat_length] at hy
  exact Option.some.inj hy ▸ hnew

def commitsUpTo (seq : List CommitInfo) (version : ℕ) : ℕ :=
  (seq.filter fun d ↦ d.commitVersion ≤ version).length

namespace SerializedBySeqlog

def name : String := "serialized_by_seqlog"

def specRef : String := "CommitOrdering.tla SerializedBySeqLog"

def indexLoop : ℕ → List CommitInfo → Option Verdict
  | _, [] => none
  | count, c :: seq =>
    let expect := count + 1
    if c.seqIndex ≠ expect then
      some (badVerdict name specRef
        ("txn_id=" ++ toString c.txnId ++ " seq_index=" ++ toString c.seqIndex ++ " expected=" ++
          toString expect)
        ("committed txns must appear in contiguous seqLog order; this " ++
          "commit's serialization index is out of order."))
    else if c.commitVersion = kNoSeq then
      some (badVerdict name specRef ("txn_id=" ++ toString c.txnId ++ " commit_version=0")
        "a committed txn must carry a non-zero monotonic commit version.")
    else indexLoop expect seq

def submitPos (submitted : List Txn) : OrderedMap ℕ ℕ :=
  submitted.zipIdx.foldl (fun positions (t, i) ↦ positions.insert t.id i) .empty

def orderLoop (positions : OrderedMap ℕ ℕ) : Option ℕ → List CommitInfo → Option Verdict
  | _, [] => none
  | last, c :: seq =>
    match positions.find c.txnId with
    | none => orderLoop positions last seq
    | some pos =>
      match last with
      | some prior =>
        if pos < prior then
          some (badVerdict name specRef
            ("txn_id=" ++ toString c.txnId ++
              " committed AFTER a txn that was LATER in the submitted seqLog " ++
              "(submit_pos=" ++ toString pos ++ " < prior " ++ toString prior ++ ")")
            ("the commit order must be a subsequence of the agreed seqLog " ++
              "(consensus) order; this executor applied txns OUT OF the agreed " ++
              "total order."))
        else orderLoop positions (some pos) seq
      | none => orderLoop positions (some pos) seq

end SerializedBySeqlog

open SerializedBySeqlog in
/-- Commits come in the order of the sequence log. -/
def checkSerializedBySeqlog (run : RunResult) (submitted : List Txn) : Verdict :=
  let seq := committedInOrder run
  ((indexLoop 0 seq).or (orderLoop (submitPos submitted) none seq)).getD (okVerdict name specRef)

namespace ExactlyOnce

def name : String := "exactly_once"

def specRef : String := "CommitOrdering.tla ExactlyOnce"

def terminalCount (commits : List CommitInfo) : OrderedMap ℕ ℕ :=
  commits.foldl (fun counts c ↦ counts.insert c.txnId ((counts.find c.txnId).getD 0 + 1)) .empty

def pendingLoop (commits : List CommitInfo) : Option Verdict :=
  commits.findSome? fun c ↦
    if c.status = .pending then
      some (badVerdict name specRef ("txn_id=" ++ toString c.txnId)
        ("a final result must be terminal (committed or " ++ "aborted), never left pending."))
    else none

def countLoop (counts : OrderedMap ℕ ℕ) : Option Verdict :=
  counts.entries.findSome? fun (id, n) ↦
    if n ≠ 1 then
      some (badVerdict name specRef
        ("txn_id=" ++ toString id ++ " terminal_count=" ++ toString n)
        ("each submitted txn must reach EXACTLY one terminal " ++
          "outcome (no duplicated/replayed effects)."))
    else none

def droppedLoop (counts : OrderedMap ℕ ℕ) (submitted : List Txn) : Option Verdict :=
  submitted.findSome? fun t ↦
    if counts.find t.id = none then
      some (badVerdict name specRef ("txn_id=" ++ toString t.id)
        ("every submitted txn must reach a terminal outcome; " ++
          "this one was dropped (no commit, no abort)."))
    else none

end ExactlyOnce

open ExactlyOnce in
/-- Every submitted transaction ends once. -/
def checkExactlyOnce (run : RunResult) (submitted : List Txn) : Verdict :=
  let counts := terminalCount run.commits
  (((pendingLoop run.commits).or (countLoop counts)).or (droppedLoop counts submitted)).getD
    (okVerdict name specRef)

namespace OllpSound

def name : String := "ollp_sound"

def specRef : String := "CommitOrdering.tla OLLPSound (+ C5.6 retry bound)"

def byId (submitted : List Txn) : OrderedMap ℕ Txn :=
  submitted.foldl (fun txns t ↦ txns.insert t.id t) .empty

def replayLoop (txns : OrderedMap ℕ Txn) (c : CommitInfo) : Option Verdict :=
  match txns.find c.txnId with
  | none => none
  | some t =>
    match t.body with
    | none => none
    | some body =>
      (body c.readsObserved).extraReads.findSome? fun ek ↦
        if !t.declaredContains ek then
          some (badVerdict name specRef
            ("txn_id=" ++ toString c.txnId ++ " extra_read=\"" ++ render ek ++
              "\" not in declared footprint (recorded reads: serialized at " ++
              "version " ++ toString ((c.commitVersion + (2 ^ 64 - 1)) % 2 ^ 64) ++ ")")
            ("re-derived from the committed txn's OWN recorded snapshot: its " ++
              "body needed a key OUTSIDE the declared (OLLP-predicted) read " ++
              "footprint, so its recon was NOT valid at its serialization " ++
              "point — it must have re-sequenced, not committed."))
        else none

def checkCommit (txns : OrderedMap ℕ Txn) (cfg : ExecConfig) (c : CommitInfo) : Option Verdict :=
  if c.retries > cfg.maxRetry then
    some (badVerdict name specRef
      ("txn_id=" ++ toString c.txnId ++ " retries=" ++ toString c.retries ++ " max_retry=" ++
        toString cfg.maxRetry)
      ("OLLP re-sequencing must be bounded by MaxRetry (C5.6 starvation " ++
        "avoidance); this txn exceeded the bound."))
  else if c.status ≠ .committed then none
  else if !c.footprintValid then
    some (badVerdict name specRef
      ("txn_id=" ++ toString c.txnId ++ " footprint_valid=false")
      ("a committed txn's OLLP recon must have been VALID at its own " ++
        "serialization point; this one committed on a stale/invalid " ++
        "footprint (skipped re-sequence)."))
  else replayLoop txns c

end OllpSound

open OllpSound in
/-- Commits keep to their declared footprint, with bounded retries. -/
def checkOllpSound (run : RunResult) (submitted : List Txn) (cfg : ExecConfig) : Verdict :=
  (run.commits.findSome? (checkCommit (byId submitted) cfg)).getD (okVerdict name specRef)

namespace StrictSerializable

def name : String := "strict_serializable"

def specRef : String :=
  "CommitOrdering.tla ReadsMatchSerialPrefix + StoreReflectsHistory " ++
    "(Elle-style serial-order linearizability of strict reads)"

def checkRead (seq : List CommitInfo) (c : CommitInfo) (i : ℕ) (s : ServedRead) :
    Option Verdict :=
  if s.level ≠ .strictSerializable then none
  else
    let expect := valueAfterPrefix seq s.key i
    if s.value ≠ expect then
      some (badVerdict name specRef
        ("txn_id=" ++ toString c.txnId ++ " (serial pos " ++ toString (i + 1) ++
          ") read key=\"" ++ render s.key ++ "\" got " ++ renderVal s.value ++ " expected " ++
          renderVal expect ++ " (= value after committed prefix " ++ toString i ++ ")")
        ("a StrictSerializable read must observe EXACTLY the committed " ++
          "prefix strictly before this txn's serialization point — never " ++
          "a stale or a snapshot value. This read is not linearizable."))
    else none

end StrictSerializable

open StrictSerializable in
/-- A strict read sees the committed prefix before its transaction. -/
def checkStrictSerializable (run : RunResult) : Verdict :=
  let seq := committedInOrder run
  (seq.zipIdx.findSome? fun (c, i) ↦ c.servedReads.findSome? (checkRead seq c i)).getD
    (okVerdict name specRef)

namespace SnapshotLevel

def name : String := "snapshot_level"

def specRef : String :=
  "CommitOrdering.tla D5Snapshot (consistent as-of one version, " ++
    "no torn read; no real-time guarantee)"

def checkTorn (c : CommitInfo) (p : ℕ) (s : ServedRead) : Option Verdict :=
  if s.servedVersion ≠ p then
    some (badVerdict name specRef
      ("txn_id=" ++ toString c.txnId ++ " key=\"" ++ render s.key ++ "\" served at version " ++
        toString s.servedVersion ++ " but a sibling Snapshot read used version " ++ toString p)
      ("a Snapshot read set must be internally consistent as-of ONE " ++
        "version — this txn read different keys at different versions " ++
        "(a TORN read across versions)."))
  else none

def checkValue (seq : List CommitInfo) (c : CommitInfo) (p : ℕ) (s : ServedRead) :
    Option Verdict :=
  let expect := valueAfterPrefix seq s.key (commitsUpTo seq p)
  if s.value ≠ expect then
    some (badVerdict name specRef
      ("txn_id=" ++ toString c.txnId ++ " key=\"" ++ render s.key ++ "\" at version " ++
        toString p ++ " got " ++ renderVal s.value ++ " expected " ++ renderVal expect)
      ("a Snapshot read must equal the serial value AT its chosen " ++
        "version; this value is not the consistent as-of-version value " ++
        "(a torn / fabricated snapshot)."))
  else none

def checkCommit (seq : List CommitInfo) (c : CommitInfo) : Option Verdict :=
  match c.servedReads.filter fun s ↦ s.level = .snapshot with
  | [] => none
  | first :: rest =>
    let p := first.servedVersion
    (rest.findSome? (checkTorn c p)).or ((first :: rest).findSome? (checkValue seq c p))

end SnapshotLevel

open SnapshotLevel in
/-- The snapshot reads of a transaction are of one version. -/
def checkSnapshotLevel (run : RunResult) : Verdict :=
  let seq := committedInOrder run
  (seq.findSome? (checkCommit seq)).getD (okVerdict name specRef)

namespace BoundedStalenessLevel

def name : String := "bounded_staleness_level"

def specRef : String :=
  "CommitOrdering.tla D5BoundedStale (served prefix within the " ++ "stated log-lag of the tip)"

def checkRead (seq : List CommitInfo) (c : CommitInfo) (s : ServedRead) : Option Verdict :=
  let tipAtTxn := if c.commitVersion > 0 then c.commitVersion - 1 else 0
  if s.level ≠ .boundedStaleness then none
  else if s.servedVersion > tipAtTxn then
    some (badVerdict name specRef
      ("txn_id=" ++ toString c.txnId ++ " key=\"" ++ render s.key ++ "\" served_version=" ++
        toString s.servedVersion ++ " > tip=" ++ toString tipAtTxn)
      ("a read cannot be served from a FUTURE version (beyond the " ++
        "committed tip at its serialization point)."))
  else
    let lag := tipAtTxn - s.servedVersion
    let expect := valueAfterPrefix seq s.key (commitsUpTo seq s.servedVersion)
    if lag > s.maxLag then
      some (badVerdict name specRef
        ("txn_id=" ++ toString c.txnId ++ " key=\"" ++ render s.key ++ "\" lag=" ++
          toString lag ++ " > max_lag=" ++ toString s.maxLag ++ " (served_version=" ++
          toString s.servedVersion ++ ", tip=" ++ toString tipAtTxn ++ ")")
        ("a BoundedStaleness read must be within the stated log-lag of " ++
          "the committed tip; this local-replica read fell further behind " ++
          "than the contract allows."))
    else if s.value ≠ expect then
      some (badVerdict name specRef
        ("txn_id=" ++ toString c.txnId ++ " key=\"" ++ render s.key ++ "\" served_version=" ++
          toString s.servedVersion ++ " got " ++ renderVal s.value ++ " expected " ++
          renderVal expect)
        ("a BoundedStaleness read must return a REAL past serial value " ++
          "at its served prefix, not a fabricated one."))
    else none

end BoundedStalenessLevel

open BoundedStalenessLevel in
def checkBoundedStalenessLevel (run : RunResult) : Verdict :=
  let seq := committedInOrder run
  (seq.findSome? fun c ↦ c.servedReads.findSome? (checkRead seq c)).getD (okVerdict name specRef)

namespace ReadYourWritesLevel

def name : String := "read_your_writes_level"

def specRef : String :=
  "CommitOrdering.tla D5ReadYourWrites (a session observes its " ++ "own prior writes)"

structure LastWrite where
  version : ℕ := kNoSeq
  value : Value
  deriving DecidableEq

def sessionsOf (c : CommitInfo) : List ℕ :=
  c.servedReads.foldl
    (fun sessions s ↦
      if s.level = .readYourWrites ∧ s.session ≠ 0 ∧ s.session ∉ sessions
      then sessions ++ [s.session] else sessions)
    []

def checkRead (writes : ℕ × Key → Option LastWrite) (s : ServedRead) : Option Verdict :=
  if s.level ≠ .readYourWrites ∨ s.session = 0 then none
  else
    match writes (s.session, s.key) with
    | none => none
    | some own =>
      if ¬ own.version ≤ s.servedVersion ∧ ¬ s.value = some own.value then
        some (badVerdict name specRef
          ("session=" ++ toString s.session ++ " key=\"" ++ render s.key ++
            "\" own_write_version=" ++ toString own.version ++ " value=" ++
            renderVal (some own.value) ++ " but read served_version=" ++
            toString s.servedVersion ++ " got " ++ renderVal s.value)
          ("a ReadYourWrites read must observe the session's OWN prior " ++
            "committed write (served from a prefix at/after that write, or " ++
            "returning at least that value); this session LOST its own " ++ "write."))
      else none

def record (writes : ℕ × Key → Option LastWrite) (c : CommitInfo) : ℕ × Key → Option LastWrite :=
  (sessionsOf c).foldl
    (fun writes sid ↦
      c.writesCommitted.entries.foldl
        (fun writes kv ↦ Function.update writes (sid, kv.1) (some ⟨c.commitVersion, kv.2⟩)) writes)
    writes

def loop : (ℕ × Key → Option LastWrite) → List CommitInfo → Option Verdict
  | _, [] => none
  | writes, c :: seq =>
    match c.servedReads.findSome? (checkRead writes) with
    | some bad => some bad
    | none => loop (record writes c) seq

end ReadYourWritesLevel

open ReadYourWritesLevel in
/-- A session sees its own writes. -/
def checkReadYourWritesLevel (run : RunResult) : Verdict :=
  (loop (fun _ ↦ none) (committedInOrder run)).getD (okVerdict name specRef)

/-! ### Against the reference -/

namespace DifferentialVsOracle

def name : String := "differential_vs_oracle"

def specRef : String := "briefs/phase5.md Stage M DIFFERENTIAL (SUT == serial oracle)"

def byId (commits : List CommitInfo) : OrderedMap ℕ CommitInfo :=
  commits.foldl (fun infos c ↦ infos.insert c.txnId c) .empty

def checkRead (c o : CommitInfo) (s : ServedRead) : Option Verdict :=
  if s.level ≠ .strictSerializable then none
  else
    let oval := (o.readsObserved.find s.key).getD none
    if s.value ≠ oval then
      some (badVerdict name specRef
        ("txn_id=" ++ toString c.txnId ++ " key=\"" ++ render s.key ++ "\" sut=" ++
          renderVal s.value ++ " oracle=" ++ renderVal oval)
        ("a StrictSerializable read in the SUT observed a different " ++
          "value than the serial oracle (non-serializable read)."))
    else none

def checkCommit (oref : OrderedMap ℕ CommitInfo) (c : CommitInfo) : Option Verdict :=
  match oref.find c.txnId with
  | none => some (badVerdict name specRef ("txn_id=" ++ toString c.txnId)
      "the SUT reported a txn the oracle did not.")
  | some o =>
    if c.status ≠ o.status then
      some (badVerdict name specRef
        ("txn_id=" ++ toString c.txnId ++ " sut_status=" ++ statusName c.status ++
          " oracle_status=" ++ statusName o.status)
        "the SUT's terminal status disagrees with the serial oracle.")
    else if c.status ≠ .committed then none
    else if c.writesCommitted ≠ o.writesCommitted then
      some (badVerdict name specRef ("txn_id=" ++ toString c.txnId ++ " writes differ")
        ("the SUT committed different writes than the serial oracle (a " ++
          "non-serializable result)."))
    else if c.result ≠ o.result then
      some (badVerdict name specRef
        ("txn_id=" ++ toString c.txnId ++ " sut_result=\"" ++ render c.result ++
          "\" oracle_result=\"" ++ render o.result ++ "\"")
        "the SUT's observable result disagrees with the serial oracle.")
    else c.servedReads.findSome? (checkRead c o)

end DifferentialVsOracle

open DifferentialVsOracle in
def checkDifferential (sut oracle : RunResult) : Verdict :=
  (sut.commits.findSome? (checkCommit (byId oracle.commits))).getD (okVerdict name specRef)

def runAllCheckers (sut oracle : RunResult) (submitted : List Txn) (cfg : ExecConfig)
    (seed : ℕ) : List Verdict :=
  [checkSerializedBySeqlog sut submitted,
    checkExactlyOnce sut submitted,
    checkOllpSound sut submitted cfg,
    checkStrictSerializable sut,
    checkSnapshotLevel sut,
    checkBoundedStalenessLevel sut,
    checkReadYourWritesLevel sut,
    checkDifferential sut oracle].map fun v ↦ { v with seed := seed }

end Lockstep.Transactions
