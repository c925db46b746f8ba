import Lockstep.Wire.Replies

/-!
# Principals that may only read

The gate of the loop asks the policy whether the principal of a frame may read or write, and takes
every request that is no submit for a read.

A frame of a read-only principal leaves the data as it was when it is no SQL text, or one that
changes nothing.
-/

namespace Lockstep.Wire

open Library Query Serving Sql.Engine Server Sql Database List

/-! ### Data without what is synced -/

structure SameHistory (d d' : Database) : Prop where
  writes : d.writes = d'.writes
  snap : d.snap = d'.snap

namespace SameHistory

variable {d d' : Database}

lemma refl (d : Database) : SameHistory d d := ⟨rfl, rfl⟩

lemma symm (h : SameHistory d d') : SameHistory d' d := ⟨h.writes.symm, h.snap.symm⟩

lemma trans {d'' : Database} (h : SameHistory d d') (h' : SameHistory d' d'') :
    SameHistory d d'' := ⟨h.writes.trans h'.writes, h.snap.trans h'.snap⟩

lemma sync (d : Database) : SameHistory d.sync d := ⟨rfl, rfl⟩

section

variable (h : SameHistory d d')

include h

lemma applyCommittedNosync (ws : WriteSet) :
    SameHistory (d.applyCommittedNosync ws) (d'.applyCommittedNosync ws) := by
  constructor
  · show d.writes ++ ws.entries = d'.writes ++ ws.entries
    rw [h.writes]
  · show d.snap ++ [(d.writes ++ ws.entries).length] = d'.snap ++ [(d'.writes ++ ws.entries).length]
    rw [h.writes, h.snap]

lemma applyCommitted (ws : WriteSet) : SameHistory (d.applyCommitted ws) (d'.applyCommitted ws) :=
  ((sync _).trans (h.applyCommittedNosync ws)).trans (sync _).symm

lemma tip_eq : d.tip = d'.tip := by
  rw [Database.tip, Database.tip, h.snap]

lemma run_eq (q : Database.QuerySpec) (lag last : ℕ) : d.run q lag last = d'.run q lag last := by
  rw [run, run, h.tip_eq, snapFor, snapFor, h.snap, h.writes]

lemma commitBatch (kvs : List Write) (nosync : Bool) :
    SameHistory (commitBatch d kvs nosync) (commitBatch d' kvs nosync) := by
  rw [commitBatch_eq, commitBatch_eq]
  split_ifs
  · exact h
  · exact h.applyCommittedNosync _
  · exact h.applyCommitted _

end

end SameHistory

variable {L : Language}

structure SameEngine (e e' : Engine L) : Prop where
  mem : e.mem = e'.mem
  db : SameHistory e.db e'.db
  catalogDb : SameHistory e.catalogDb e'.catalogDb
  groupCommit : e.groupCommit = e'.groupCommit
  inTxn : e.inTxn = e'.inTxn
  txnWrites : e.txnWrites = e'.txnWrites
  savepoints : e.savepoints = e'.savepoints

namespace SameEngine

variable {e e' : Engine L}

lemma refl (e : Engine L) : SameEngine e e :=
  ⟨rfl, .refl _, .refl _, rfl, rfl, rfl, rfl⟩

lemma symm (h : SameEngine e e') : SameEngine e' e :=
  ⟨h.mem.symm, h.db.symm, h.catalogDb.symm, h.groupCommit.symm, h.inTxn.symm, h.txnWrites.symm,
    h.savepoints.symm⟩

lemma trans {e'' : Engine L} (h : SameEngine e e') (h' : SameEngine e' e'') :
    SameEngine e e'' :=
  ⟨h.mem.trans h'.mem, h.db.trans h'.db, h.catalogDb.trans h'.catalogDb,
    h.groupCommit.trans h'.groupCommit, h.inTxn.trans h'.inTxn, h.txnWrites.trans h'.txnWrites,
    h.savepoints.trans h'.savepoints⟩

lemma sync (e : Engine L) : SameEngine e.sync e :=
  ⟨rfl, .sync _, .refl _, rfl, rfl, rfl, rfl⟩

section

variable (h : SameEngine e e')

include h

lemma view_eq : e.view = e'.view := by
  rw [view, view, h.db.writes, h.db.snap, h.inTxn, h.txnWrites]

lemma commitWrites (kvs : List Write) :
    SameEngine (e.commitWrites kvs) (e'.commitWrites kvs) := by
  obtain ⟨_, db', catalogDb', _, _, _, _⟩ := e'
  obtain ⟨rfl, hdb, hcatalog, rfl, rfl, rfl, rfl⟩ := h
  unfold commitWrites
  split_ifs
  · exact ⟨rfl, hdb, hcatalog, rfl, rfl, rfl, rfl⟩
  · exact ⟨rfl, hdb.commitBatch kvs _, hcatalog, rfl, rfl, rfl, rfl⟩

lemma foldl_commitWrites (batches : List (List Write)) :
    SameEngine (batches.foldl Sql.Engine.commitWrites e)
      (batches.foldl Sql.Engine.commitWrites e') :=
  foldl_rel h fun kvs _ _ _ h ↦ h.commitWrites kvs

lemma savepointAt_eq (name : Text) : e.savepointAt name = e'.savepointAt name := by
  rw [savepointAt, savepointAt, h.savepoints]

lemma execControl (c : Control) : (e.execControl c).1 = (e'.execControl c).1 ∧
      SameEngine (e.execControl c).2 (e'.execControl c).2 := by
  have hat := h.savepointAt_eq
  obtain ⟨mem, db, catalogDb, groupCommit, inTxn, txnWrites, savepoints⟩ := e
  obtain ⟨_, db', catalogDb', _, _, _, _⟩ := e'
  obtain ⟨rfl, hdb, hcatalog, rfl, rfl, rfl, rfl⟩ := h
  have hsame : ∀ inTxn txnWrites savepoints mem, SameEngine (L := L)
      ⟨mem, db, catalogDb, groupCommit, inTxn, txnWrites, savepoints⟩
      ⟨mem, db', catalogDb', groupCommit, inTxn, txnWrites, savepoints⟩ :=
    fun _ _ _ _ ↦ ⟨rfl, hdb, hcatalog, rfl, rfl, rfl, rfl⟩
  cases c with
  | begin =>
    simp only [execControl]
    split_ifs
    · exact ⟨rfl, hsame _ _ _ _⟩
    · exact ⟨rfl, hsame _ _ _ _⟩
  | commit =>
    simp only [execControl]
    split_ifs
    · exact ⟨rfl, hsame _ _ _ _⟩
    · exact ⟨rfl, (hsame false [] [] mem).commitWrites txnWrites⟩
    · exact ⟨rfl, hsame _ _ _ _⟩
  | rollback =>
    simp only [execControl]
    split_ifs
    · exact ⟨rfl, hsame _ _ _ _⟩
    · exact ⟨rfl, hsame _ _ _ _⟩
  | savepoint name =>
    simp only [execControl]
    split_ifs
    · exact ⟨rfl, hsame _ _ _ _⟩
    · exact ⟨rfl, hsame _ _ _ _⟩
  | rollbackTo name =>
    simp only [execControl, hat]
    split_ifs
    · exact ⟨rfl, hsame _ _ _ _⟩
    · split
      · exact ⟨rfl, hsame _ _ _ _⟩
      · exact ⟨rfl, hsame _ _ _ _⟩
  | release name =>
    simp only [execControl, hat]
    split_ifs
    · exact ⟨rfl, hsame _ _ _ _⟩
    · split
      · exact ⟨rfl, hsame _ _ _ _⟩
      · exact ⟨rfl, hsame _ _ _ _⟩

lemma execOther (params : List L.Datum) (st : L.Stmt) :
    (e.execOther params st).1 = (e'.execOther params st).1 ∧
      SameEngine (e.execOther params st).2 (e'.execOther params st).2 := by
  have hrun : L.run st params e.mem e.view = L.run st params e'.mem e'.view := by
    rw [h.mem, h.view_eq]
  have hcatalog : ∀ (batches : List (List Write)) {d d' : Database}, SameHistory d d' →
      SameHistory (batches.foldl (fun db kvs ↦ commitBatch db kvs false) d)
        (batches.foldl (fun db kvs ↦ commitBatch db kvs false) d') := by
    intro batches
    induction batches with
    | nil => exact fun h ↦ h
    | cons kvs batches ih => exact fun h ↦ ih (h.commitBatch kvs false)
  simp only [Sql.Engine.execOther, hrun, true_and]
  have hmem : SameEngine { e with mem := (L.run st params e'.mem e'.view).mem }
      { e' with mem := (L.run st params e'.mem e'.view).mem } :=
    ⟨rfl, h.db, h.catalogDb, h.groupCommit, h.inTxn, h.txnWrites, h.savepoints⟩
  have hbatches := hmem.foldl_commitWrites (L.run st params e'.mem e'.view).batches
  exact ⟨hbatches.mem, hbatches.db, hcatalog _ hbatches.catalogDb, hbatches.groupCommit,
    hbatches.inTxn, hbatches.txnWrites, hbatches.savepoints⟩

lemma exec (sql : Text) :
    (e.exec sql).1 = (e'.exec sql).1 ∧ SameEngine (e.exec sql).2 (e'.exec sql).2 := by
  unfold Sql.Engine.exec Sql.Engine.execPrepared
  cases parseSql L sql with
  | error msg => exact ⟨rfl, h⟩
  | ok st =>
    cases st with
    | control c => exact h.execControl c
    | other st => exact h.execOther [] st

end

end SameEngine

/-! ### Servers with the same data -/

/-- The same keyed store, SQL tables, catalog and open transaction, and the same batch. -/
structure SameTables (s s' : Server L) : Prop where
  db : SameHistory s.db s'.db
  sql : SameEngine s.sql s'.sql
  batch : s.batch = s'.batch
  tip : s.tip = s'.tip
  applied : s.applied = s'.applied
  networked : s.networked = s'.networked

structure SameData (keys : ℕ → Prop) (s s' : Server L) : Prop extends SameTables s s' where
  dedup : ∀ k, ¬keys k → s.dedup.find k = s'.dedup.find k

namespace SameTables

lemma refl (s : Server L) : SameTables s s := ⟨.refl _, .refl _, rfl, rfl, rfl, rfl⟩

lemma symm {s s' : Server L} (h : SameTables s s') : SameTables s' s :=
  ⟨h.db.symm, h.sql.symm, h.batch.symm, h.tip.symm, h.applied.symm, h.networked.symm⟩

lemma trans {s s' s'' : Server L} (h : SameTables s s') (h' : SameTables s' s'') :
    SameTables s s'' :=
  ⟨h.db.trans h'.db, h.sql.trans h'.sql, h.batch.trans h'.batch, h.tip.trans h'.tip,
    h.applied.trans h'.applied, h.networked.trans h'.networked⟩

end SameTables

variable {req : Request}

namespace SameData

variable {keys : ℕ → Prop} {s s' : Server L}

lemma refl (s : Server L) : SameData keys s s := { SameTables.refl s with dedup := fun _ _ ↦ rfl }

lemma trans {s'' : Server L} (h : SameData keys s s') (h' : SameData keys s' s'') :
    SameData keys s s'' :=
  { h.toSameTables.trans h'.toSameTables with
    dedup := fun k hk ↦ (h.dedup k hk).trans (h'.dedup k hk) }

lemma symm (h : SameData keys s s') : SameData keys s' s :=
  { h.toSameTables.symm with dedup := fun k hk ↦ (h.dedup k hk).symm }

lemma memoize {r r' : Response × Server L} (hresp : r.1 = r'.1) (h : SameData keys r.2 r'.2)
    (submitKey : ℕ) :
    (memoize submitKey r).1 = (memoize submitKey r').1 ∧
      SameData keys (memoize submitKey r).2 (memoize submitKey r').2 := by
  refine ⟨hresp, ⟨⟨h.db, h.sql, h.batch, h.tip, h.applied, h.networked⟩, fun k hk ↦ ?_⟩⟩
  show (r.2.dedup.insert submitKey r.1).find k = (r'.2.dedup.insert submitKey r'.1).find k
  rw [OrderedMap.find_insert, OrderedMap.find_insert, hresp, h.dedup k hk]

lemma submitNew (h : SameData keys s s') (reqId submitKey : ℕ) (op : SubmitOp)
    (params : List OpParam) :
    (s.submitNew reqId submitKey op params).1 = (s'.submitNew reqId submitKey op params).1 ∧
      SameData keys (s.submitNew reqId submitKey op params).2
        (s'.submitNew reqId submitKey op params).2 := by
  obtain ⟨db, sql, batch, dedup, tip, rejected, applied, authDenied, networked⟩ := s
  obtain ⟨db', sql', _, dedup', _, rejected', _, authDenied', _⟩ := s'
  obtain ⟨⟨hdb, hsql, rfl, rfl, rfl, rfl⟩, hdedup⟩ := h
  simp only [submitNew]
  generalize
    (if decide (op = .put) = true then _ else _ : Transactions.RunResult).commits.getLast? = last
  cases last with
  | none => exact ⟨rfl, ⟨hdb, hsql, rfl, rfl, rfl, rfl⟩, hdedup⟩
  | some ci =>
    dsimp only
    by_cases hstatus : ci.status = .committed
    · rw [if_pos hstatus, if_pos hstatus]
      -- both stores take the same writes, so their tips stay equal
      have hstore : SameHistory
          (if (decide (op = .put) && networked) = true then
            db.applyCommittedNosync ci.writesCommitted
            else db.applyCommitted ci.writesCommitted)
          (if (decide (op = .put) && networked) = true then
            db'.applyCommittedNosync ci.writesCommitted
            else db'.applyCommitted ci.writesCommitted) := by
        split_ifs
        · exact hdb.applyCommittedNosync _
        · exact hdb.applyCommitted _
      exact ⟨by rw [hstore.tip_eq], ⟨hstore, hsql, rfl, hstore.tip_eq, rfl, rfl⟩, hdedup⟩
    · rw [if_neg hstatus, if_neg hstatus]
      exact ⟨rfl, ⟨hdb, hsql, rfl, rfl, rfl, rfl⟩, hdedup⟩

lemma dispatch (h : SameData keys s s') (hkey : ∀ k, submitKeyOf req.body = some k → ¬keys k) :
    (s.dispatch req).1 = (s'.dispatch req).1 ∧
      SameData keys (s.dispatch req).2 (s'.dispatch req).2 := by
  obtain ⟨reqId, body⟩ := req
  cases body with
  | ping => exact ⟨rfl, h⟩
  | unexpected => exact ⟨rfl, h⟩
  | query q =>
    refine ⟨?_, h⟩
    simp only [dispatch, handleQuery, h.db.run_eq]
  | submit submitKey op params =>
    simp only [dispatch, handleSubmit, h.dedup submitKey (hkey submitKey rfl)]
    cases s'.dedup.find submitKey with
    | some cached => exact ⟨rfl, h⟩
    | none =>
      have hnew := h.submitNew reqId submitKey op params
      exact memoize hnew.1 hnew.2 submitKey
  | sqlExec submitKey sql =>
    simp only [dispatch, handleSql, h.dedup submitKey (hkey submitKey rfl)]
    cases s'.dedup.find submitKey with
    | some cached => exact ⟨rfl, h⟩
    | none =>
      have hexec := h.sql.exec sql
      have hsame : SameData keys { s with sql := (s.sql.exec sql).2 }
          { s' with sql := (s'.sql.exec sql).2 } :=
        ⟨⟨h.db, hexec.2, h.batch, h.tip, h.applied, h.networked⟩, h.dedup⟩
      exact memoize (congrArg (Response.mk reqId <| Reply.sqlResult ·) hexec.1) hsame submitKey

lemma flush (st : Serving L) : SameData keys st.flush.server st.server := by
  unfold Serving.flush
  split_ifs
  · exact refl _
  refine ⟨⟨?_, ?_, rfl, rfl, rfl, rfl⟩, fun _ _ ↦ rfl⟩
  · unfold syncDirty
    dsimp only
    split_ifs
    · exact .sync _
    · exact .refl _
  · unfold syncDirty
    dsimp only
    split_ifs
    · exact .sync _
    · exact .refl _

lemma mono {keys' : ℕ → Prop} (h : SameData keys s s') (hkeys : ∀ k, keys k → keys' k) :
    SameData keys' s s' :=
  { h.toSameTables with dedup := fun k hk ↦ h.dedup k fun hk' ↦ hk (hkeys k hk') }

end SameData

/-! ### Frames of principals that may only read -/

def ReadOnly (policy : String → Bool → Bool) (f : Frame) : Prop := policy f.principal true = false

instance (policy : String → Bool → Bool) (f : Frame) : Decidable (ReadOnly policy f) :=
  inferInstanceAs (Decidable (_ = _))

def NotOfWriters (policy : String → Bool → Bool) (frames : List Frame) (key : ℕ) : Prop :=
  ∀ f ∈ frames, ¬ReadOnly policy f → ∀ req, f.request = some req → submitKeyOf req.body ≠ some key

/-- An SQL text that the gate lets through for a read-only principal is not run again, or finds
nothing to write and does not take the key of a frame that is still to come. -/
def HarmlessAt (policy : String → Bool → Bool) (st : Serving L) (f : Frame) (rest : List Frame) :
    Prop :=
  ReadOnly policy f → policy f.principal false = true →
    ∀ reqId key sql, f.request = some ⟨reqId, .sqlExec key sql⟩ →
      (st.server.dedup.find key).isSome ∨
        (st.server.sql.Quiet sql ∧ NotOfWriters policy rest key)

/-- The frames of read-only principals are harmless, each in the state in which it is handled. -/
def Harmless (policy : String → Bool → Bool) : Serving L → List Frame → Prop
  | _, [] => True
  | st, f :: rest =>
    HarmlessAt policy st f rest ∧ Harmless policy (st.turn (some policy) f) rest

section ReadOnlyFrames

variable {policy : String → Bool → Bool} {st st' : Serving L} {f : Frame} {rest : List Frame}

lemma NotOfWriters.tail {key : ℕ} (h : NotOfWriters policy (f :: rest) key) :
    NotOfWriters policy rest key :=
  (forall_mem_cons.mp h).2

variable (keys : ℕ → Prop)

lemma SameData.await (st : Serving L) (f : Frame) :
    SameData keys (st.await f).server st.server := by
  unfold Serving.await
  split_ifs
  · exact .refl _
  · exact .flush st

lemma SameData.take (authz : Authz) (st : Serving L) {f : Frame} (hreq : f.request = some req) :
    SameData keys (st.take authz f).server
      (if allowed authz f req then (st.server.dispatch req).2 else st.server) := by
  unfold Serving.take
  rw [hreq]
  dsimp only
  split_ifs
  · unfold serveOne
    dsimp only
    split_ifs
    · exact .refl _
    · exact .refl _
  · exact ⟨⟨.refl _, .refl _, rfl, rfl, rfl, rfl⟩, fun _ _ ↦ rfl⟩

lemma SameData.turn (authz : Authz) (st : Serving L) {f : Frame} (hreq : f.request = some req)
    (hkey : ∀ k, submitKeyOf req.body = some k → ¬keys k) :
    SameData keys (st.turn authz f).server
      (if allowed authz f req then (st.server.dispatch req).2 else st.server) := by
  refine (SameData.take keys authz (st.await f) hreq).trans ?_
  split_ifs
  · exact ((SameData.await keys st f).dispatch hkey).2
  · exact .await keys st f

lemma HarmlessAt.turn (h : HarmlessAt policy st f rest) (hreader : ReadOnly policy f) :
    SameData (NotOfWriters policy rest) (st.turn (some policy) f).server st.server := by
  cases hreq : f.request with
  | none =>
    refine SameData.trans ?_ (SameData.await _ st f)
    unfold Serving.turn Serving.take
    rw [hreq]
    exact ⟨⟨.refl _, .refl _, rfl, rfl, rfl, rfl⟩, fun _ _ ↦ rfl⟩
  | some req =>
    -- with no key excepted the frame is dispatched in the state before the wait
    have hturn := SameData.turn (fun _ ↦ False) (some policy) st hreq fun _ _ hk ↦ hk
    refine (hturn.mono fun _ hk ↦ hk.elim).trans ?_
    split_ifs with hallowed
    · obtain ⟨reqId, body⟩ := req
      cases body with
      | ping => exact .refl _
      | unexpected => exact .refl _
      | query q => exact .refl _
      | submit submitKey op params => exact absurd (hallowed.symm.trans hreader) (by decide)
      | sqlExec key sql =>
        simp only [dispatch, handleSql]
        cases hfind : st.server.dedup.find key with
        | some cached => exact .refl _
        | none =>
          rcases h hreader hallowed reqId key sql hreq with hsome | ⟨hquiet, hkey⟩
          · rw [hfind] at hsome
            exact absurd hsome (by decide)
          refine ⟨⟨.refl _, ?_, rfl, rfl, rfl, rfl⟩, fun k hk ↦ ?_⟩
          · rw [hquiet.exec_eq]
            exact .refl _
          · show (st.server.dedup.insert key _).find k = st.server.dedup.find k
            rw [OrderedMap.find_insert, if_neg]
            rintro rfl
            exact hk hkey
    · exact .refl _

lemma SameData.turn_congr (h : SameData (NotOfWriters policy (f :: rest)) st.server st'.server)
    (hwriter : ¬ReadOnly policy f) :
    st.replyTo (some policy) f = st'.replyTo (some policy) f ∧
      SameData (NotOfWriters policy rest) (st.turn (some policy) f).server
        (st'.turn (some policy) f).server := by
  have hdata : SameData (NotOfWriters policy (f :: rest)) (st.await f).server
      (st'.await f).server :=
    ((SameData.await _ st f).trans h).trans (SameData.await _ st' f).symm
  cases hreq : f.request with
  | none =>
    constructor
    · rw [replyTo, replyTo, hreq]
      rfl
    · unfold Serving.turn Serving.take
      rw [hreq]
      exact ⟨⟨hdata.db, hdata.sql, hdata.batch, hdata.tip, hdata.applied, hdata.networked⟩,
        fun k hk ↦ hdata.dedup k fun hk' ↦ hk hk'.tail⟩
  | some req =>
    -- the frame itself is one of a writer with its key
    have hkey : ∀ k, submitKeyOf req.body = some k → ¬NotOfWriters policy (f :: rest) k :=
      fun k hk hnot ↦ hnot f mem_cons_self hwriter req hreq hk
    have hdispatch := hdata.dispatch hkey
    constructor
    · simp [replyTo, hreq, hdispatch.1]
    have hturn : SameData (NotOfWriters policy (f :: rest)) (st.turn (some policy) f).server
        (st'.turn (some policy) f).server := by
      refine ((SameData.take _ _ _ hreq).trans ?_).trans (SameData.take _ _ _ hreq).symm
      split_ifs
      · exact hdispatch.2
      · exact hdata
    exact hturn.mono fun _ hk ↦ hk.tail

lemma Harmless.filter {frames : List Frame} (h : Harmless policy st frames)
    (hsame : SameData (NotOfWriters policy frames) st.server st'.server) :
    SameTables (frames.foldl (turn (some policy)) st).server
        ((frames.filter fun f ↦ ¬ReadOnly policy f).foldl (turn (some policy)) st').server ∧
      ((st.replies (some policy) frames).filter fun r ↦ ¬ReadOnly policy r.1) =
        st'.replies (some policy) (frames.filter fun f ↦ ¬ReadOnly policy f) := by
  induction frames generalizing st st' with
  | nil => exact ⟨hsame.toSameTables, rfl⟩
  | cons f rest ih =>
    obtain ⟨hf, hrest⟩ := h
    rw [replies]
    by_cases hreader : ReadOnly policy f
    · rw [filter_cons_of_neg (by simpa using hreader), filter_cons_of_neg (by simpa using hreader)]
      exact ih hrest ((hf.turn hreader).trans (hsame.mono fun _ hk ↦ hk.tail))
    obtain ⟨hreply, hturn⟩ := hsame.turn_congr hreader
    obtain ⟨htables, hreplies⟩ := ih hrest hturn
    rw [filter_cons_of_pos (by simpa using hreader),
      filter_cons_of_pos (by simpa using hreader), replies, hreply, hreplies]
    exact ⟨htables, rfl⟩

lemma Harmless.at {pre : List Frame} (h : Harmless policy st (pre ++ f :: rest)) :
    HarmlessAt policy (pre.foldl (turn (some policy)) st) f rest := by
  induction pre generalizing st with
  | nil => exact h.1
  | cons g pre ih => exact ih h.2

end ReadOnlyFrames

/-- Where the frames of read-only principals are harmless, each of them leaves the keyed store, the
SQL tables, the catalog and the open transaction as they were, and without them the loop reaches the
same data and gives the other frames the same replies. -/
theorem read_only_frames_inert (policy : String → Bool → Bool) (s : Server L) (frames : List Frame)
    (h : Harmless policy (start s) frames) :
    (∀ pre f rest, frames = pre ++ f :: rest → ReadOnly policy f →
      SameTables ((pre ++ [f]).foldl (turn (some policy)) (start s)).server
        (pre.foldl (turn (some policy)) (start s)).server) ∧
    SameTables (serve (some policy) s frames).server
      (serve (some policy) s (frames.filter fun f ↦ ¬ReadOnly policy f)).server ∧
    (((start s).replies (some policy) frames).filter fun r ↦ ¬ReadOnly policy r.1) =
      (start s).replies (some policy) (frames.filter fun f ↦ ¬ReadOnly policy f) := by
  obtain ⟨htables, hreplies⟩ := h.filter (SameData.refl (start s).server)
  refine ⟨fun pre f rest hframes hreader ↦ ?_, ?_, hreplies⟩
  · rw [foldl_append]
    rw [hframes] at h
    exact (h.at.turn hreader).toSameTables
  have hflush : ∀ st : Serving L, SameTables st.flush.server st.server := by
    intro st
    have hdata : SameData (fun _ ↦ False) st.flush.server st.server := .flush st
    exact hdata.toSameTables
  exact ((hflush _).trans htables).trans (hflush _).symm

def writerPolicy : String → Bool → Bool := fun principal isWrite ↦ principal == "writer" || !isWrite

def selectText : Sql.Text := "SELECT id FROM t".toList

def insertText : Sql.Text := "INSERT INTO t (id) VALUES (1)".toList

def quietFrames : List Frame :=
  [{ principal := "writer", request := some ⟨1, .sqlExec 1 insertText⟩ },
    { principal := "reader", request := some ⟨1, .sqlExec 7 selectText⟩ },
    { principal := "writer", request := some ⟨2, .submit 2 .put [{ key := [1], value := [2] }]⟩ }]

/-- The reader selects the row that the writer has inserted. -/
theorem read_only_frames_inert_select :
    SameTables (serve (some writerPolicy) newServer quietFrames).server
      (serve (some writerPolicy) newServer
        (quietFrames.filter fun f ↦ ¬ReadOnly writerPolicy f)).server := by
  refine (read_only_frames_inert writerPolicy newServer quietFrames ⟨?_, ?_, ?_, trivial⟩).2.1
  · exact fun hreader ↦ absurd hreader (by decide)
  · intro hreader hread reqId key sql hreq
    obtain ⟨-, rfl, rfl⟩ : 1 = reqId ∧ 7 = key ∧ selectText = sql := by simpa using hreq
    refine .inr ⟨?_, fun f hf hwriter req hreq ↦ ?_⟩
    · have hparse : Sql.parseSql Sql.OneTable.language selectText = .ok (.other .select) := rfl
      rw [Sql.Engine.Quiet, hparse]
      exact ⟨rfl, forall_mem_nil _, forall_mem_nil _⟩
    rw [mem_singleton.mp hf] at hreq
    rw [← Option.some.inj hreq]
    decide
  · exact fun hreader ↦ absurd hreader (by decide)

def readerInsert : Frame where
  principal := "reader"
  request := some ⟨1, .sqlExec 1 insertText⟩

/-- The gate lets an `INSERT` of a principal that may only read through, and it is executed. -/
theorem read_only_insert_executed :
    ReadOnly writerPolicy readerInsert ∧
      ¬SameTables (serve (some writerPolicy) newServer [readerInsert]).server
        (serve (some writerPolicy) newServer []).server := by
  refine ⟨rfl, fun h ↦ absurd h.sql.db.writes ?_⟩
  decide +kernel

end Lockstep.Wire
