import Lockstep.Transactions.Checkers
import Lockstep.Transactions.StrictSerialOracle

/-!
# The battery on the reference

The checkers judge a run of the reference against itself. The checker of the commit order also
demands that transactions commit in the order of their submission, while a transaction that was put
back commits in its later turn, as the specification has it (`specs/CommitOrdering.tla`, where it
gets a new place in the sequence).
-/

namespace Lockstep.Transactions.ReferenceVerdicts

open ReadYourWritesLevel DifferentialVsOracle

open Library WorkQueue StrictSerialOracle SerializedBySeqlog OrderedMap CommitInfo
open List hiding lookup

def submitIndex (batch : List Txn) (id : ℕ) : ℕ := (batch.map Txn.id).idxOf id

/-- If the transaction was put back and commits now, none of the commits so far was submitted after
it. -/
def OvertakenByNone (batch : List Txn) (cfg : ExecConfig) (s : State × List CommitInfo)
    (p : Pending) : Prop :=
  Commits backend cfg s.1 p.txn → p.retries ≠ 0 →
    ∀ c ∈ committed s.2, submitIndex batch c.txnId ≤ submitIndex batch p.txn.id

instance (batch : List Txn) (cfg : ExecConfig) (s : State × List CommitInfo) (p : Pending) :
    Decidable (OvertakenByNone batch cfg s p) := inferInstanceAs (Decidable (_ → _ → _))

/-! ### What the results of the reference hold -/

structure SerialCommit (seq : List CommitInfo) (i : ℕ) (c : CommitInfo) : Prop where
  seqIndex : c.seqIndex = i + 1
  commitVersion : c.commitVersion = i + 1
  strict : ∀ r ∈ c.servedReads, r.level = .strictSerializable
  value : ∀ r ∈ c.servedReads, r.value = valueAfterPrefix seq r.key i
  observed : ∀ r ∈ c.servedReads, c.readsObserved.find r.key = some r.value

/-- A result of the batch, within the bound on retries and with a footprint that was valid. -/
structure SoundInfo (batch : List Txn) (cfg : ExecConfig) (c : CommitInfo) : Prop where
  retries : c.retries ≤ cfg.maxRetry
  terminal : c.status ≠ .pending
  footprintValid : c.status = .committed → c.footprintValid = true
  replay : c.status = .committed → ∃ t ∈ batch, t.id = c.txnId ∧
    t.footprintValid (t.outcome c.readsObserved).extraReads = true

structure SerialState (s : State × List CommitInfo) : Prop where
  version : s.1.version = (committed s.2).length
  nextSeqIndex : s.1.nextSeqIndex = (committed s.2).length
  store : ∀ k, s.1.store.find k = valueAfterPrefix (committed s.2) k (committed s.2).length
  commits : ∀ i c, (committed s.2)[i]? = some c → SerialCommit (committed s.2) i c

/-- The results and the queue together hold every transaction of the batch once. The transactions
that were not tried yet stand first, in their order. -/
structure Accounted (batch : List Txn) (cfg : ExecConfig) (s : State × List CommitInfo)
    (queue : List Pending) : Prop where
  serial : SerialState s
  sound : ∀ c ∈ s.2, SoundInfo batch cfg c
  waiting : ∀ p ∈ queue, p.txn ∈ batch ∧ p.retries ≤ cfg.maxRetry
  ids : (s.2.map txnId ++ queue.map fun p ↦ p.txn.id).Perm (batch.map Txn.id)
  fresh : ∃ tried untried putBack, batch = tried ++ untried ∧
    queue = initialQueue untried ++ putBack ∧ (∀ p ∈ putBack, p.retries ≠ 0) ∧
    ∀ c ∈ s.2, c.txnId ∈ tried.map Txn.id

variable {batch : List Txn} {cfg : ExecConfig} {s : State × List CommitInfo} {p : Pending}
  {queue : List Pending} {t : Txn}

lemma serveReads_spec (s : State) (ht : AllStrict t) :
    ∀ r ∈ (serveReads s t).2, r.level = .strictSerializable ∧ r.value = s.store.find r.key ∧
      (serveReads s t).1.find r.key = some r.value := by
  -- What was served of a key stays in the view, since every read of the key has the same value.
  have hfold : ∀ (reads : List Read) (view : ReadView) (served : List ServedRead),
      (∀ r ∈ reads, r.level = .strictSerializable) →
      (∀ r ∈ served, r.level = .strictSerializable ∧ r.value = s.store.find r.key ∧
        view.find r.key = some r.value) →
      ∀ r ∈ (reads.foldl (fun seen r ↦ (insert seen.1 r.key (lookup s r.key),
          seen.2 ++ [makeServed r s.version (lookup s r.key)])) (view, served)).2,
        r.level = .strictSerializable ∧ r.value = s.store.find r.key ∧
          (reads.foldl (fun seen r ↦ (insert seen.1 r.key (lookup s r.key),
            seen.2 ++ [makeServed r s.version (lookup s r.key)])) (view, served)).1.find r.key =
            some r.value := by
    intro reads
    induction reads with
    | nil => exact fun _ _ _ hserved ↦ hserved
    | cons read reads ih =>
      intro view served hstrict hserved
      refine ih _ _ (forall_mem_cons.mp hstrict).2 fun r hr ↦ ?_
      rw [find_insert]
      rcases mem_append.mp hr with hold | hnew
      · obtain ⟨hlevel, hvalue, hfind⟩ := hserved r hold
        refine ⟨hlevel, hvalue, ?_⟩
        split_ifs with hkey
        · rw [hvalue, lookup, hkey]
        · exact hfind
      · rw [mem_singleton.mp hnew]
        exact ⟨hstrict read mem_cons_self, rfl, if_pos rfl⟩
  exact hfold t.declaredReads .empty [] ht (forall_mem_nil _)

variable {seq : List CommitInfo}

lemma SerialCommit.append {i : ℕ} {c : CommitInfo}
    (h : SerialCommit seq i c) (hi : i ≤ seq.length) (more : List CommitInfo) :
    SerialCommit (seq ++ more) i c where
  seqIndex := h.seqIndex
  commitVersion := h.commitVersion
  strict := h.strict
  value r hr := by
    rw [valueAfterPrefix_append more r.key hi]
    exact h.value r hr
  observed := h.observed

def commitOf (cfg : ExecConfig) (s : State) (p : Pending) : CommitInfo :=
  commitInfo p (backend.serve cfg s p.txn).1 (backend.serve cfg s p.txn).2
    (outcomeAt backend cfg s p.txn) (s.nextSeqIndex + 1) (s.version + 1)

lemma SerialState.commit (h : SerialState s) (ht : AllStrict p.txn) :
    SerialState (applyWrites s.1 (outcomeAt backend cfg s.1 p.txn).writes,
      s.2 ++ [commitOf cfg s.1 p]) := by
  have hseq : committed (s.2 ++ [commitOf cfg s.1 p]) = committed s.2 ++ [commitOf cfg s.1 p] :=
    committed_commit _ _ _ _ _ _ _
  have hnew : SerialCommit (committed s.2) (committed s.2).length (commitOf cfg s.1 p) := by
    have hserved := serveReads_spec s.1 ht
    refine ⟨?_, ?_, fun r hr ↦ (hserved r hr).1, fun r hr ↦ ?_, fun r hr ↦ (hserved r hr).2.2⟩
    · exact congrArg (· + 1) h.nextSeqIndex
    · exact congrArg (· + 1) h.version
    · rw [(hserved r hr).2.1, h.store]
  refine ⟨?_, ?_, fun k ↦ ?_, ?_⟩
  · rw [hseq, length_append, ← h.version]
    rfl
  · rw [hseq, length_append, ← h.nextSeqIndex]
    rfl
  · rw [hseq, length_append, length_singleton, valueAfterPrefix_concat, find_applyWrites,
      h.store]
    rfl
  · rw [hseq, forall_getElem?_concat]
    refine ⟨fun i c hc ↦ ?_, hnew.append le_rfl _⟩
    exact (h.commits i c hc).append (List.getElem?_eq_some_iff.mp hc).1.le _

section

variable (h : Accounted batch cfg s (p :: queue))

include h

lemma Accounted.fresh_tail :
    ∃ tried untried putBack, batch = tried ++ untried ∧ queue = initialQueue untried ++ putBack ∧
      (∀ q ∈ putBack, q.retries ≠ 0) ∧ (∀ c ∈ s.2, c.txnId ∈ tried.map Txn.id) ∧
      p.txn.id ∈ tried.map Txn.id := by
  obtain ⟨tried, untried, putBack, hbatch, hqueue, hback, htried⟩ := h.fresh
  cases untried with
  | nil =>
    -- Every transaction was tried, this one among them.
    rw [append_nil] at hbatch
    rw [initialQueue, map_nil, nil_append] at hqueue
    refine ⟨tried, [], queue, ?_, rfl, fun q hq ↦ ?_, htried, ?_⟩
    · rw [hbatch, append_nil]
    · exact hback q (hqueue ▸ mem_cons_of_mem _ hq)
    · exact hbatch ▸ mem_map_of_mem (h.waiting p mem_cons_self).1
  | cons t untried =>
    obtain ⟨rfl, htail⟩ := cons.inj hqueue
    refine ⟨tried ++ [t], untried, putBack, ?_, htail, hback, fun c hc ↦ ?_, ?_⟩
    · rw [hbatch, append_assoc]
      rfl
    · rw [map_append]
      exact mem_append_left _ (htried c hc)
    · rw [map_append]
      exact mem_append_right _ mem_cons_self

lemma Accounted.finish {state : State}
    {info : CommitInfo} (hserial : SerialState (state, s.2 ++ [info]))
    (hinfo : SoundInfo batch cfg info) (hid : info.txnId = p.txn.id) :
    Accounted batch cfg (state, s.2 ++ [info]) (queue ++ []) := by
  obtain ⟨tried, untried, putBack, hbatch, hqueue, hback, htried, hself⟩ := h.fresh_tail
  rw [append_nil]
  refine ⟨hserial, forall_mem_append.mpr ⟨h.sound, forall_mem_singleton.mpr hinfo⟩,
    (forall_mem_cons.mp h.waiting).2, ?_, tried, untried, putBack, hbatch, hqueue,
    hback, forall_mem_append.mpr ⟨htried, forall_mem_singleton.mpr (hid ▸ hself)⟩⟩
  refine List.Perm.trans ?_ h.ids
  rw [map_append, append_assoc, map_singleton, hid]
  rfl

lemma Accounted.putBack (hretry : p.retries < cfg.maxRetry) :
    Accounted batch cfg s (queue ++ [{ txn := p.txn, retries := p.retries + 1 }]) := by
  obtain ⟨tried, untried, putBack, hbatch, hqueue, hback, htried, hself⟩ := h.fresh_tail
  obtain ⟨⟨hmem, -⟩, hwaiting⟩ := forall_mem_cons.mp h.waiting
  refine ⟨h.serial, h.sound,
    forall_mem_append.mpr ⟨hwaiting, forall_mem_singleton.mpr ⟨hmem, hretry⟩⟩, ?_, tried, untried,
    putBack ++ [{ txn := p.txn, retries := p.retries + 1 }], hbatch, ?_,
    forall_mem_append.mpr ⟨hback, forall_mem_singleton.mpr (Nat.succ_ne_zero _)⟩, htried⟩
  · refine List.Perm.trans ?_ h.ids
    rw [map_append]
    exact perm_append_singleton p.txn.id _ |>.append_left _
  · rw [hqueue, append_assoc]

end

lemma submitIndex_le {tried untried : List Txn} (hnodup : (batch.map Txn.id).Nodup)
    (hbatch : batch = tried ++ t :: untried) {id : ℕ} (hid : id ∈ tried.map Txn.id) :
    submitIndex batch id ≤ submitIndex batch t.id := by
  rw [submitIndex, submitIndex, hbatch, map_append, idxOf_append_of_mem hid]
  rw [hbatch, map_append] at hnodup
  have hnot : t.id ∉ tried.map Txn.id := fun hmem ↦
    disjoint_of_nodup_append hnodup hmem (by simp)
  rw [idxOf_append_of_notMem hnot]
  have hlt := idxOf_lt_length_iff.mpr hid
  omega

lemma Accounted.first_turn (h : Accounted batch cfg s (p :: queue))
    (hnodup : (batch.map Txn.id).Nodup) (hfirst : p.retries = 0) :
    ∀ c ∈ s.2, submitIndex batch c.txnId ≤ submitIndex batch p.txn.id := by
  obtain ⟨tried, untried, putBack, hbatch, hqueue, hback, htried⟩ := h.fresh
  intro c hc
  cases untried with
  | nil =>
    rw [initialQueue, map_nil, nil_append] at hqueue
    exact absurd hfirst (hback p (hqueue ▸ mem_cons_self))
  | cons t untried =>
    obtain ⟨rfl, -⟩ := cons.inj hqueue
    exact submitIndex_le hnodup hbatch (htried c hc)

def InSubmitOrder (batch : List Txn) (infos : List CommitInfo) : Prop :=
  (committed infos).Pairwise fun c d ↦ submitIndex batch c.txnId ≤ submitIndex batch d.txnId

lemma Accounted.attempt (h : Accounted batch cfg s (p :: queue))
    (hnodup : (batch.map Txn.id).Nodup) (hstrict : ∀ t ∈ batch, AllStrict t) :
    Accounted batch cfg (attempt backend cfg s p).1
        (queue ++ (Transactions.attempt backend cfg s p).2) ∧
      (InSubmitOrder batch (Transactions.attempt backend cfg s p).1.2 ↔
        InSubmitOrder batch s.2 ∧ OvertakenByNone batch cfg s p) := by
  obtain ⟨hmem, hretries⟩ := h.waiting p mem_cons_self
  obtain ⟨hno, hretry, heq⟩ | ⟨hno, -, heq⟩ | ⟨hcommits, heq⟩ := attempt_cases backend cfg s p
  · rw [heq]
    exact ⟨h.putBack hretry, (and_iff_left fun hcommits ↦ absurd hcommits hno).symm⟩
  · rw [heq]
    constructor
    · refine h.finish ?_ ⟨hretries, Status.noConfusion, Status.noConfusion, Status.noConfusion⟩ rfl
      obtain ⟨hversion, hindex, hstore, hcommits⟩ := h.serial
      constructor <;> dsimp only <;> rw [committed_abort] <;> assumption
    · rw [InSubmitOrder, committed_abort]
      exact (and_iff_left fun hcommits ↦ absurd hcommits hno).symm
  · have hinfo : SoundInfo batch cfg (commitOf cfg s.1 p) :=
      ⟨hretries, Status.noConfusion, fun _ ↦ rfl, fun _ ↦ ⟨p.txn, hmem, rfl, hcommits⟩⟩
    rw [heq]
    refine ⟨h.finish (h.serial.commit (hstrict _ hmem)) hinfo rfl, ?_⟩
    rw [InSubmitOrder, committed_commit, pairwise_append]
    constructor
    · rintro ⟨hold, -, hnew⟩
      exact ⟨hold, fun _ _ c hc ↦ hnew c hc _ mem_cons_self⟩
    rintro ⟨hold, hnone⟩
    refine ⟨hold, pairwise_singleton _ _, fun c hc d hd ↦ ?_⟩
    rw [mem_singleton.mp hd]
    by_cases hfirst : p.retries = 0
    · exact h.first_turn hnodup hfirst c (mem_of_mem_filter hc)
    · exact hnone hcommits hfirst c hc

/-! ### The checkers that accept every run -/

variable {infos : List CommitInfo}

lemma ok_getD_of_eq_none {x : Option Verdict} (h : x = none) (checker specRef : String) :
    (x.getD (okVerdict checker specRef)).ok = true := by
  rw [h]
  rfl

lemma indexLoop_eq_none {count : ℕ}
    (h : ∀ i c, seq[i]? = some c → c.seqIndex = count + i + 1 ∧ c.commitVersion ≠ kNoSeq) :
    indexLoop count seq = none := by
  induction seq generalizing count with
  | nil => rfl
  | cons c seq ih =>
    obtain ⟨hindex, hversion⟩ := h 0 c rfl
    rw [indexLoop, if_neg (not_not.mpr hindex), if_neg hversion]
    refine ih fun i d hd ↦ ?_
    obtain ⟨hnext, hversion⟩ := h (i + 1) d hd
    exact ⟨hnext.trans (by omega), hversion⟩

lemma find_terminalCount (commits : List CommitInfo) (id : ℕ) :
    (ExactlyOnce.terminalCount commits).find id =
      if id ∈ commits.map txnId then some ((commits.map txnId).count id)
      else none := by
  induction commits using reverseRecOn with
  | nil => rfl
  | append_singleton commits c ih =>
    rw [ExactlyOnce.terminalCount, foldl_append, ← ExactlyOnce.terminalCount,
      foldl_cons, foldl_nil, find_insert, map_append,
      map_singleton, count_append]
    by_cases hid : c.txnId = id
    · rw [if_pos hid, if_pos (mem_append_right _ (hid ▸ mem_cons_self)), hid, ih,
        count_singleton_self]
      split_ifs with hmem
      · rfl
      · rw [count_eq_zero.mpr hmem]
        rfl
    · have hother : count id [c.txnId] = 0 :=
        count_eq_zero.mpr fun hmem ↦ hid (mem_singleton.mp hmem).symm
      rw [if_neg hid, ih, hother]
      simp [Ne.symm hid]

lemma exactlyOnce_ok (hnodup : (batch.map Txn.id).Nodup)
    (hids : (infos.map txnId).Perm (batch.map Txn.id))
    (hterminal : ∀ c ∈ infos, c.status ≠ .pending) (tip : ℕ) :
    (checkExactlyOnce ⟨infos, tip⟩ batch).ok = true := by
  have hcount := find_terminalCount infos
  refine ok_getD_of_eq_none ?_ _ _
  rw [Option.or_eq_none_iff, Option.or_eq_none_iff]
  refine ⟨⟨?_, ?_⟩, ?_⟩
  · exact findSome?_eq_none_iff.mpr fun c hc ↦ if_neg (hterminal c hc)
  · refine findSome?_eq_none_iff.mpr fun ⟨id, n⟩ hmem ↦ if_neg (not_not.mpr ?_)
    have hfind := hcount id
    rw [find_eq_some_iff.mpr hmem] at hfind
    split_ifs at hfind with hid
    rw [count_eq_one_of_mem (hids.nodup_iff.mpr hnodup) hid] at hfind
    exact Option.some.inj hfind
  · refine findSome?_eq_none_iff.mpr fun t ht ↦ if_neg ?_
    rw [hcount, if_pos (hids.mem_iff.mpr (mem_map_of_mem ht))]
    exact Option.some_ne_none _

lemma ollpSound_ok (hnodup : (batch.map Txn.id).Nodup)
    (hsound : ∀ c ∈ infos, SoundInfo batch cfg c) (tip : ℕ) :
    (checkOllpSound ⟨infos, tip⟩ batch cfg).ok = true := by
  refine ok_getD_of_eq_none (findSome?_eq_none_iff.mpr fun c hc ↦ ?_) _ _
  obtain ⟨hretries, -, hvalid, hreplay⟩ := hsound c hc
  rw [OllpSound.checkCommit, if_neg (Nat.not_lt.mpr hretries)]
  split_ifs with hcommitted hinvalid
  · rfl
  · rw [hvalid (not_not.mp hcommitted)] at hinvalid
    cases hinvalid
  · obtain ⟨t, ht, hid, hfootprint⟩ := hreplay (not_not.mp hcommitted)
    have hfind : (OllpSound.byId batch).find t.id = some t :=
      find_foldl_insert_of_mem Txn.id id hnodup ht .empty
    rw [OllpSound.replayLoop, ← hid, hfind]
    rw [Txn.outcome] at hfootprint
    dsimp only
    cases hbody : t.body with
    | none => rfl
    | some body =>
      rw [hbody] at hfootprint
      refine findSome?_eq_none_iff.mpr fun key hkey ↦ if_neg ?_
      rw [all_eq_true.mp hfootprint key hkey]
      exact Bool.false_ne_true

lemma strictSerializable_ok (h : ∀ i c, (committed infos)[i]? = some c →
    SerialCommit (committed infos) i c) (tip : ℕ) :
    (checkStrictSerializable ⟨infos, tip⟩).ok = true := by
  refine ok_getD_of_eq_none (findSome?_eq_none_iff.mpr fun ⟨c, i⟩ hc ↦ ?_) _ _
  refine findSome?_eq_none_iff.mpr fun r hr ↦ ?_
  have hcommit := h i c (mem_zipIdx_iff_getElem?.mp hc)
  rw [StrictSerializable.checkRead, if_neg (not_not.mpr (hcommit.strict r hr))]
  exact if_neg (not_not.mpr (hcommit.value r hr))

lemma levels_ok (h : ∀ c ∈ committed infos, ∀ r ∈ c.servedReads, r.level = .strictSerializable)
    (tip : ℕ) :
    (checkSnapshotLevel ⟨infos, tip⟩).ok = true ∧
      (checkBoundedStalenessLevel ⟨infos, tip⟩).ok = true ∧
      (checkReadYourWritesLevel ⟨infos, tip⟩).ok = true := by
  refine ⟨ok_getD_of_eq_none (findSome?_eq_none_iff.mpr fun c hc ↦ ?_) _ _,
    ok_getD_of_eq_none (findSome?_eq_none_iff.mpr fun c hc ↦ ?_) _ _,
    ok_getD_of_eq_none ?_ _ _⟩
  · have hnone : c.servedReads.filter (fun r ↦ r.level = .snapshot) = [] := by
      refine filter_eq_nil_iff.mpr fun r hr ↦ ?_
      rw [h c hc r hr]
      decide
    rw [SnapshotLevel.checkCommit, hnone]
  · refine findSome?_eq_none_iff.mpr fun r hr ↦ if_pos ?_
    rw [h c hc r hr]
    decide
  · have hloop : ∀ (seq : List CommitInfo)
        (writes : ℕ × Key → Option LastWrite),
        (∀ c ∈ seq, ∀ r ∈ c.servedReads, r.level = .strictSerializable) →
        loop writes seq = none := by
      intro seq
      induction seq with
      | nil => exact fun _ _ ↦ rfl
      | cons c seq ih =>
        intro writes hseq
        have hnone : c.servedReads.findSome? (checkRead writes) = none := by
          refine findSome?_eq_none_iff.mpr fun r hr ↦ if_pos (.inl ?_)
          rw [hseq c mem_cons_self r hr]
          decide
        rw [loop, hnone]
        exact ih _ (forall_mem_cons.mp hseq).2
    exact hloop _ _ h

lemma differential_ok (hnodup : (infos.map txnId).Nodup)
    (hobserved : ∀ c ∈ committed infos, ∀ r ∈ c.servedReads,
      c.readsObserved.find r.key = some r.value) (tip : ℕ) :
    (checkDifferential ⟨infos, tip⟩ ⟨infos, tip⟩).ok = true := by
  refine ok_getD_of_eq_none (findSome?_eq_none_iff.mpr fun c hc ↦ ?_) _ _
  have hfind : (byId infos).find c.txnId = some c :=
    find_foldl_insert_of_mem txnId id hnodup hc .empty
  rw [checkCommit, hfind]
  dsimp only
  rw [if_neg (not_not.mpr rfl), if_neg (not_not.mpr rfl), if_neg (not_not.mpr rfl)]
  split_ifs with hcommitted
  · rfl
  refine findSome?_eq_none_iff.mpr fun r hr ↦ ?_
  have hmem : c ∈ committed infos :=
    mem_filter.mpr ⟨hc, decide_eq_true (not_not.mp hcommitted)⟩
  rw [DifferentialVsOracle.checkRead]
  split_ifs with hlevel
  · rfl
  · exact if_neg (not_not.mpr (by rw [hobserved c hmem r hr]; rfl))

/-! ### The checker of the order -/

lemma find_submitPos (hnodup : (batch.map Txn.id).Nodup) {id : ℕ} (hid : id ∈ batch.map Txn.id) :
    (submitPos batch).find id = some (submitIndex batch id) := by
  obtain ⟨i, hi⟩ := getElem?_of_mem hid
  rw [getElem?_map, Option.map_eq_some_iff] at hi
  obtain ⟨t, ht, rfl⟩ := hi
  have hkeys : (batch.zipIdx.map fun x ↦ x.1.id).Nodup := by
    have : batch.zipIdx.map (fun x ↦ x.1.id) = batch.map Txn.id := by
      rw [← zipIdx_map_fst 0 batch, map_map, zipIdx_map_fst]
      rfl
    rwa [this]
  have hmem : (t, i) ∈ batch.zipIdx := mem_zipIdx_iff_getElem?.mpr ht
  have hfind := find_foldl_insert_of_mem (fun x : Txn × ℕ ↦ x.1.id) Prod.snd hkeys hmem
    .empty
  refine hfind.trans (congrArg some ?_)
  obtain ⟨hlt, hget⟩ := List.getElem?_eq_some_iff.mp ht
  have hindex := hnodup.idxOf_getElem i (by rwa [List.length_map])
  rw [List.getElem_map, hget] at hindex
  exact hindex.symm

variable {positions : OrderedMap ℕ ℕ}

lemma orderLoop_eq_none_iff {index : ℕ → ℕ}
    (hfind : ∀ c ∈ seq, positions.find c.txnId = some (index c.txnId))
    (last : Option ℕ) :
    orderLoop positions last seq = none ↔
      (∀ prior ∈ last, ∀ c ∈ seq, prior ≤ index c.txnId) ∧
        seq.Pairwise fun c d ↦ index c.txnId ≤ index d.txnId := by
  induction seq generalizing last with
  | nil =>
    refine ⟨fun _ ↦ ⟨fun _ _ _ hc ↦ ?_, List.Pairwise.nil⟩, fun _ ↦ rfl⟩
    cases hc
  | cons c seq ih =>
    have hnext := ih (forall_mem_cons.mp hfind).2 (some (index c.txnId))
    rw [orderLoop, hfind c mem_cons_self, pairwise_cons]
    simp only [Option.mem_some_iff, forall_eq'] at hnext
    cases last with
    | none =>
      rw [hnext]
      exact ⟨fun h ↦ ⟨fun _ hprior ↦ absurd hprior (by simp), h⟩, And.right⟩
    | some prior =>
      simp only [Option.mem_some_iff, forall_eq', forall_mem_cons]
      split_ifs with hlt
      · refine ⟨False.elim, fun h ↦ absurd h.1.1 (Nat.not_le.mpr hlt)⟩
      · rw [hnext]
        have hle := Nat.not_lt.mp hlt
        exact ⟨fun h ↦ ⟨⟨hle, fun d hd ↦ hle.trans (h.1 d hd)⟩, h⟩, And.right⟩

lemma orderLoop_not_ok {last : Option ℕ}
    {v : Verdict} (h : orderLoop positions last seq = some v) :
    v.ok = false := by
  induction seq generalizing last with
  | nil => exact absurd h (Option.some_ne_none v).symm
  | cons c seq ih =>
    rw [orderLoop] at h
    split at h
    · exact ih h
    split at h
    · split_ifs at h
      · exact Option.some.inj h ▸ rfl
      · exact ih h
    · exact ih h

lemma serializedBySeqlog_ok_iff (hnodup : (batch.map Txn.id).Nodup)
    (hserial : ∀ i c, (committed infos)[i]? = some c → SerialCommit (committed infos) i c)
    (hids : ∀ c ∈ committed infos, c.txnId ∈ batch.map Txn.id) (tip : ℕ) :
    (checkSerializedBySeqlog ⟨infos, tip⟩ batch).ok = true ↔ InSubmitOrder batch infos := by
  have hindex : indexLoop 0 (committed infos) = none := by
    refine indexLoop_eq_none fun i c hc ↦ ⟨?_, ?_⟩
    · rw [(hserial i c hc).seqIndex, Nat.zero_add]
    · rw [(hserial i c hc).commitVersion]
      exact Nat.succ_ne_zero i
  rw [checkSerializedBySeqlog, committedInOrder]
  rw [hindex, Option.none_or]
  have hloop := orderLoop_eq_none_iff (fun c hc ↦ find_submitPos hnodup (hids c hc)) none
  cases horder : orderLoop (submitPos batch) none
      (committed infos) with
  | none => exact ⟨fun _ ↦ (hloop.mp horder).2, fun _ ↦ rfl⟩
  | some v =>
    rw [Option.getD_some, orderLoop_not_ok horder]
    refine ⟨nofun, fun hpairwise ↦ ?_⟩
    have hnone := hloop.mpr ⟨fun _ hprior ↦ absurd hprior (by simp), hpairwise⟩
    exact absurd (horder.symm.trans hnone) (Option.some_ne_none v)

/-! ### The whole run -/

lemma accounted_start (batch : List Txn) (cfg : ExecConfig) :
    Accounted batch cfg (backend.init, []) (initialQueue batch) := by
  refine ⟨⟨rfl, rfl, fun _ ↦ rfl, fun i c hc ↦ absurd hc (Option.some_ne_none c).symm⟩,
    nofun, fun p hp ↦ ?_, ?_, [], batch, [], rfl, ?_,
    nofun, nofun⟩
  · obtain ⟨t, ht, rfl⟩ := mem_map.mp hp
    exact ⟨ht, Nat.zero_le _⟩
  · rw [initialQueue, map_map]
    exact List.Perm.refl _
  · rw [append_nil]

/-- On batches of strict reads with different ids, the battery accepts the reference against itself
exactly when no transaction that was put back commits behind one that was submitted after it. -/
theorem battery_accepts_iff (batch : List Txn) (cfg : ExecConfig) (seed : ℕ)
    (hnodup : (batch.map Txn.id).Nodup) (hstrict : ∀ t ∈ batch, AllStrict t) :
    (∀ v ∈ runAllCheckers (StrictSerialOracle.submitBatch batch cfg)
        (StrictSerialOracle.submitBatch batch cfg) batch cfg seed, v.ok = true) ↔
      Along (attempt backend cfg) (OvertakenByNone batch cfg) (maxRounds batch cfg)
        (backend.init, []) (initialQueue batch) := by
  have hstep := fun (s : State × List CommitInfo) p queue (h : Accounted batch cfg s (p :: queue)) ↦
    h.attempt hnodup hstrict
  have hend : Accounted batch cfg (runBatch backend batch cfg).1 (runBatch backend batch cfg).2 :=
    drain_invariant (Accounted batch cfg) (fun s p queue h ↦ (hstep s p queue h).1)
      (accounted_start batch cfg) _
  rw [runBatch_done] at hend
  have horder := drain_iff_along (Accounted batch cfg) (fun s ↦ InSubmitOrder batch s.2)
    (OvertakenByNone batch cfg) hstep (accounted_start batch cfg) (maxRounds batch cfg)
  rw [StrictSerialOracle.submitBatch, submitBatch]
  set infos := (runBatch backend batch cfg).1.2 with hinfos
  have hids : (infos.map txnId).Perm (batch.map Txn.id) := by
    have := hend.ids
    rwa [map_nil, append_nil] at this
  have hcommit : ∀ c ∈ committed infos, ∃ i, SerialCommit (committed infos) i c := by
    intro c hc
    obtain ⟨i, hi⟩ := getElem?_of_mem hc
    exact ⟨i, hend.serial.commits i c hi⟩
  obtain ⟨hsnapshot, hbounded, hown⟩ := @levels_ok infos
    (fun c hc ↦ (hcommit c hc).choose_spec.strict) (backend.tip (runBatch backend batch cfg).1.1)
  have hmem : ∀ c ∈ committed infos, c.txnId ∈ batch.map Txn.id := fun c hc ↦
    hids.mem_iff.mp (mem_map_of_mem (mem_of_mem_filter hc))
  have hothers := exactlyOnce_ok hnodup hids (fun c hc ↦ (hend.sound c hc).terminal)
    (backend.tip (runBatch backend batch cfg).1.1)
  simp only [runAllCheckers, map_cons, map_nil, forall_mem_cons, not_mem_nil,
    false_implies, implies_true, and_true]
  rw [serializedBySeqlog_ok_iff hnodup hend.serial.commits hmem,
    ollpSound_ok hnodup hend.sound, strictSerializable_ok hend.serial.commits, hothers,
    hsnapshot, hbounded, hown, differential_ok (hids.nodup_iff.mpr hnodup)
      fun c hc ↦ (hcommit c hc).choose_spec.observed]
  simp only [and_true]
  exact horder.trans (and_iff_right List.Pairwise.nil)

/-- Transactions 1 and 2 of `resequenced`, with the writer first. -/
theorem battery_accepts_in_order :
    ((resequenced.reverse.map Txn.id).Nodup ∧ ∀ t ∈ resequenced.reverse, AllStrict t) ∧
      ∀ v ∈ runAllCheckers (StrictSerialOracle.submitBatch resequenced.reverse {})
        (StrictSerialOracle.submitBatch resequenced.reverse {}) resequenced.reverse {} 0,
        v.ok = true :=
  ⟨by decide, (battery_accepts_iff resequenced.reverse {} 0 (by decide) (by decide)).mpr
    (by decide +kernel)⟩

/-- With the writer second the other transaction is put back and commits behind it, and the checker
of the order rejects the run. -/
theorem battery_rejects_resequenced :
    (resequenced.map Txn.id).Nodup ∧ (∀ t ∈ resequenced, AllStrict t) ∧
      (runAllCheckers (StrictSerialOracle.submitBatch resequenced {})
        (StrictSerialOracle.submitBatch resequenced {}) resequenced {} 0).map Verdict.ok =
        [false, true, true, true, true, true, true, true] := by
  refine ⟨by decide, by decide, by decide +kernel⟩

end Lockstep.Transactions.ReferenceVerdicts
