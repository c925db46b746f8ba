import Lockstep.Library.OrderedMap
import Lockstep.Library.WorkQueue
import Lockstep.Storage.Codec

/-!
# Transactions and the loop of an executor

A transaction runs once (`txn/Transaction.hpp`): it declares the keys it reads, each with a
consistency level, and its body is a function of the values read that returns what to write.

The executors share the loop over the queue (`attempt`, `submitBatch`). They differ in what they
keep, in how they serve the reads and in how they apply the writes (`Backend`).
-/

namespace Lockstep.Transactions

open Library WorkQueue List

abbrev Key := Storage.Key

abbrev Value := Storage.Value

def kNoSeq : ℕ := 0

inductive Level where
  | strictSerializable
  | snapshot
  | boundedStaleness
  | readYourWrites
  deriving DecidableEq

structure Read where
  key : Key
  level : Level := .strictSerializable
  snapshotVersion : ℕ := kNoSeq
  maxLag : ℕ := 0
  session : ℕ := 0
  deriving DecidableEq

abbrev ReadResult := Option Value

abbrev ReadView := OrderedMap Key ReadResult

abbrev WriteSet := OrderedMap Key Value

structure Outcome where
  writes : WriteSet := .empty
  result : List UInt8 := []
  extraReads : List Key := []
  deriving DecidableEq

structure Txn where
  id : ℕ := 0
  declaredReads : List Read := []
  body : Option (ReadView → Outcome) := none

inductive Status where
  | committed
  | aborted
  | pending
  deriving DecidableEq

structure ServedRead where
  key : Key
  level : Level := .strictSerializable
  servedVersion : ℕ := kNoSeq
  session : ℕ := 0
  maxLag : ℕ := 0
  value : ReadResult := none
  deriving DecidableEq

structure CommitInfo where
  txnId : ℕ := 0
  status : Status := .pending
  seqIndex : ℕ := 0
  commitVersion : ℕ := kNoSeq
  readsObserved : ReadView := .empty
  writesCommitted : WriteSet := .empty
  result : List UInt8 := []
  footprintValid : Bool := true
  retries : ℕ := 0
  servedReads : List ServedRead := []
  deriving DecidableEq

structure RunResult where
  commits : List CommitInfo := []
  tipVersion : ℕ := kNoSeq
  deriving DecidableEq

structure ExecConfig where
  maxRetry : ℕ := 2
  replicaLag : ℕ := 0
  deriving DecidableEq

namespace Txn

def outcome (t : Txn) (reads : ReadView) : Outcome :=
  match t.body with
  | some body => body reads
  | none => {}

def declaredContains (t : Txn) (k : Key) : Bool := t.declaredReads.any fun r ↦ r.key = k

def footprintValid (t : Txn) (extraReads : List Key) : Bool := extraReads.all t.declaredContains

def hasStrict (t : Txn) (k : Key) : Bool :=
  t.declaredReads.any fun r ↦ r.level = .strictSerializable ∧ r.key = k

end Txn

/-- What the loop over the declared reads has built: the view of the body, the reads served, and the
version that all snapshot reads share once the first of them has fixed it. -/
structure ReadLoop where
  reads : ReadView := .empty
  served : List ServedRead := []
  snapshotVersion : ℕ
  snapshotFixed : Bool := false
  deriving DecidableEq

def ReadLoop.serve (l : ReadLoop) (t : Txn) (r : Read) (version : ℕ) (value : ReadResult) :
    ReadLoop :=
  { l with
    reads := if r.level = .strictSerializable ∨ !t.hasStrict r.key then l.reads.insert r.key value
      else l.reads
    served := l.served ++
      [{ key := r.key, level := r.level, servedVersion := version, session := r.session,
         maxLag := r.maxLag, value := value }] }

def noteSessionWrites (t : Txn) (writes : WriteSet) (version : ℕ)
    (sessionLastWrite : ℕ × Key → Option ℕ) : ℕ × Key → Option ℕ :=
  t.declaredReads.foldl
    (fun last r ↦
      if r.level = .readYourWrites ∧ r.session ≠ 0 then
        writes.entries.foldl (fun last kv ↦ Function.update last (r.session, kv.1) (some version))
          last
      else last)
    sessionLastWrite

/-- What an executor keeps and does: how it serves the reads of a transaction, and how it applies
writes, with the index and the version of the commit. -/
structure Backend (σ : Type*) where
  init : σ
  serve : ExecConfig → σ → Txn → ReadView × List ServedRead
  commit : σ → Txn → WriteSet → ℕ × ℕ × σ
  tip : σ → ℕ

structure Pending where
  txn : Txn
  retries : ℕ := 0

variable {σ : Type*}

def abortInfo (p : Pending) (reads : ReadView) (served : List ServedRead) : CommitInfo :=
  { txnId := p.txn.id, status := .aborted, footprintValid := false, retries := p.retries,
    servedReads := served, readsObserved := reads }

def commitInfo (p : Pending) (reads : ReadView) (served : List ServedRead) (oc : Outcome)
    (seqIndex commitVersion : ℕ) : CommitInfo :=
  { txnId := p.txn.id, status := .committed, seqIndex := seqIndex, commitVersion := commitVersion,
    readsObserved := reads, writesCommitted := oc.writes, result := oc.result,
    footprintValid := true, retries := p.retries, servedReads := served }

def attempt (b : Backend σ) (cfg : ExecConfig) (s : σ × List CommitInfo) (p : Pending) :
    (σ × List CommitInfo) × List Pending :=
  let (reads, served) := b.serve cfg s.1 p.txn
  let oc := p.txn.outcome reads
  if !p.txn.footprintValid oc.extraReads then
    if p.retries < cfg.maxRetry then (s, [{ txn := p.txn, retries := p.retries + 1 }])
    else ((s.1, s.2 ++ [abortInfo p reads served]), [])
  else
    let (seqIndex, commitVersion, state) := b.commit s.1 p.txn oc.writes
    ((state, s.2 ++ [commitInfo p reads served oc seqIndex commitVersion]), [])

def initialQueue (batch : List Txn) : List Pending := batch.map fun t ↦ { txn := t }

def maxRounds (batch : List Txn) (cfg : ExecConfig) : ℕ := batch.length * (cfg.maxRetry + 1)

def runBatch (b : Backend σ) (batch : List Txn) (cfg : ExecConfig) :
    (σ × List CommitInfo) × List Pending :=
  drain (attempt b cfg) (maxRounds batch cfg) (b.init, []) (initialQueue batch)

def submitBatch (b : Backend σ) (batch : List Txn) (cfg : ExecConfig) : RunResult :=
  let final := (runBatch b batch cfg).1
  { commits := final.2, tipVersion := b.tip final.1 }

/-! ### What an attempt does -/

def outcomeAt (b : Backend σ) (cfg : ExecConfig) (state : σ) (t : Txn) : Outcome :=
  t.outcome (b.serve cfg state t).1

def Commits (b : Backend σ) (cfg : ExecConfig) (state : σ) (t : Txn) : Prop :=
  t.footprintValid (outcomeAt b cfg state t).extraReads = true

instance (b : Backend σ) (cfg : ExecConfig) (state : σ) (t : Txn) :
    Decidable (Commits b cfg state t) := inferInstanceAs (Decidable (_ = _))

lemma attempt_cases (b : Backend σ) (cfg : ExecConfig) (s : σ × List CommitInfo) (p : Pending) :
    (¬ Commits b cfg s.1 p.txn ∧ p.retries < cfg.maxRetry ∧
      attempt b cfg s p = (s, [{ txn := p.txn, retries := p.retries + 1 }])) ∨
    (¬ Commits b cfg s.1 p.txn ∧ ¬ p.retries < cfg.maxRetry ∧
      attempt b cfg s p = ((s.1, s.2 ++
        [abortInfo p (b.serve cfg s.1 p.txn).1 (b.serve cfg s.1 p.txn).2]), [])) ∨
    (Commits b cfg s.1 p.txn ∧
      attempt b cfg s p = (((b.commit s.1 p.txn (outcomeAt b cfg s.1 p.txn).writes).2.2, s.2 ++
        [commitInfo p (b.serve cfg s.1 p.txn).1 (b.serve cfg s.1 p.txn).2
          (outcomeAt b cfg s.1 p.txn) (b.commit s.1 p.txn (outcomeAt b cfg s.1 p.txn).writes).1
          (b.commit s.1 p.txn (outcomeAt b cfg s.1 p.txn).writes).2.1]), [])) := by
  unfold attempt Commits outcomeAt
  dsimp only
  split_ifs with hinvalid hretry
  · exact .inl ⟨by simpa using hinvalid, hretry, rfl⟩
  · exact .inr (.inl ⟨by simpa using hinvalid, hretry, rfl⟩)
  · exact .inr (.inr ⟨by simpa using hinvalid, rfl⟩)

def committed (infos : List CommitInfo) : List CommitInfo :=
  infos.filter fun c ↦ c.status = .committed

variable (infos : List CommitInfo)

lemma committed_abort (p : Pending) (reads : ReadView) (served : List ServedRead) :
    committed (infos ++ [abortInfo p reads served]) = committed infos := by
  rw [committed, filter_append]
  exact append_nil _

lemma committed_commit (p : Pending) (reads : ReadView)
    (served : List ServedRead) (oc : Outcome) (seqIndex commitVersion : ℕ) :
    committed (infos ++ [commitInfo p reads served oc seqIndex commitVersion]) =
      committed infos ++ [commitInfo p reads served oc seqIndex commitVersion] := by
  rw [committed, filter_append]
  rfl

lemma runBatch_done (b : Backend σ) (batch : List Txn) (cfg : ExecConfig) :
    (runBatch b batch cfg).2 = [] := by
  apply drain_done fun p : Pending ↦ cfg.maxRetry - p.retries + 1
  · intro s p
    obtain ⟨-, hretry, heq⟩ | ⟨-, -, heq⟩ | ⟨-, heq⟩ := attempt_cases b cfg s p
    · rw [heq, map_singleton, sum_singleton]
      dsimp only
      omega
    · rw [heq]
      exact Nat.succ_pos _
    · rw [heq]
      exact Nat.succ_pos _
  · rw [initialQueue, map_map, maxRounds]
    refine le_of_eq ?_
    have hconst : (batch.map ((fun p : Pending ↦ cfg.maxRetry - p.retries + 1) ∘
        fun t ↦ { txn := t })) = replicate batch.length (cfg.maxRetry + 1) := by
      refine eq_replicate_iff.mpr ⟨length_map _, fun weight hweight ↦ ?_⟩
      obtain ⟨t, -, rfl⟩ := mem_map.mp hweight
      rfl
    rw [hconst, sum_replicate, smul_eq_mul]

/-- A relation between the states of two executors on which they serve the same reads and which
equal commits keep. -/
structure Backend.Simulates {τ : Type*} (b : Backend σ) (c : Backend τ) (cfg : ExecConfig)
    (kind : Txn → Prop) (related : σ → τ → Prop) : Prop where
  init : related b.init c.init
  serve : ∀ s s' t, related s s' → kind t → b.serve cfg s t = c.serve cfg s' t
  commit : ∀ s s' t writes, related s s' → kind t →
    (b.commit s t writes).1 = (c.commit s' t writes).1 ∧
      (b.commit s t writes).2.1 = (c.commit s' t writes).2.1 ∧
      related (b.commit s t writes).2.2 (c.commit s' t writes).2.2
  tip : ∀ s s', related s s' → b.tip s = c.tip s'

namespace Backend.Simulates

variable {τ : Type*} {b : Backend σ} {c : Backend τ} {cfg : ExecConfig} {kind : Txn → Prop}
  {related : σ → τ → Prop}

lemma attempt_related (h : b.Simulates c cfg kind related) {s : σ} {s' : τ}
    {infos : List CommitInfo} (hs : related s s') {p : Pending} (hp : kind p.txn) :
    related (attempt b cfg (s, infos) p).1.1 (attempt c cfg (s', infos) p).1.1 ∧
      (attempt b cfg (s, infos) p).1.2 = (attempt c cfg (s', infos) p).1.2 ∧
      (attempt b cfg (s, infos) p).2 = (attempt c cfg (s', infos) p).2 := by
  simp only [attempt, h.serve s s' p.txn hs hp]
  split_ifs
  · exact ⟨hs, rfl, rfl⟩
  · exact ⟨hs, rfl, rfl⟩
  · obtain ⟨hindex, hversion, hnext⟩ := h.commit s s' p.txn
      (p.txn.outcome (c.serve cfg s' p.txn).1).writes hs hp
    rw [hindex, hversion]
    exact ⟨hnext, rfl, rfl⟩

lemma submitBatch_eq (h : b.Simulates c cfg kind related) {batch : List Txn}
    (hbatch : ∀ t ∈ batch, kind t) : submitBatch b batch cfg = submitBatch c batch cfg := by
  have hfinal : related (runBatch b batch cfg).1.1 (runBatch c batch cfg).1.1 ∧
      (runBatch b batch cfg).1.2 = (runBatch c batch cfg).1.2 := by
    refine drain_related
      (fun (s : σ × List CommitInfo) (s' : τ × List CommitInfo) ↦ related s.1 s'.1 ∧ s.2 = s'.2)
      (fun p : Pending ↦ kind p.txn) ?_ ⟨h.init, rfl⟩ ?_ _
    · rintro ⟨s, infos⟩ ⟨s', _⟩ p ⟨hs, rfl⟩ hp
      obtain ⟨hnext, hinfos, hback⟩ := @attempt_related _ _ _ _ _ _ _ h s s' infos hs p hp
      refine ⟨⟨hnext, hinfos⟩, hback, fun next hmem ↦ ?_⟩
      obtain ⟨-, -, heq⟩ | ⟨-, -, heq⟩ | ⟨-, heq⟩ := attempt_cases b cfg (s, infos) p
      · rw [heq] at hmem
        rw [mem_singleton.mp hmem]
        exact hp
      · rw [heq] at hmem
        cases hmem
      · rw [heq] at hmem
        cases hmem
    · intro p hp
      obtain ⟨t, ht, rfl⟩ := mem_map.mp hp
      exact hbatch t ht
  rw [submitBatch, submitBatch, hfinal.2, h.tip _ _ hfinal.1]

end Backend.Simulates

end Lockstep.Transactions
