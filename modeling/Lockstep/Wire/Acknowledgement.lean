import Lockstep.Sql.GroupCommit
import Lockstep.Wire.Replies

/-!
# Acknowledged means durable

Under group commit the loop parks the replies to puts and to SQL statements that affected rows, and
sends them after a sync.

The count is no measure of what was written: `COMMIT` reports no rows, nor do statements such as
`TRUNCATE`.
-/

namespace Lockstep.Wire

open Library Query Serving Server

open Sql (Appends SilentWrite exec_appends silentWrite_iff)
open List hiding take

variable {L : Sql.Language}

variable {f : Frame} {req : Request} {s : Server L}

/-! ### The ledger -/

structure Ends where
  keyed : ℕ := 0
  sql : ℕ := 0
  deriving DecidableEq

def syncedEnds (s : Server L) : Ends := ⟨s.db.synced, s.sql.db.synced⟩

def endOf (before after : Database) : ℕ :=
  if before.writes.length < after.writes.length then after.writes.length else 0

def acknowledges : Reply → Bool
  | .submitOk status _ _ _ => status = .committed
  | .sqlResult r => r.ok
  | _ => false

structure Handed where
  reply : Reply
  ends : Ends
  synced : Ends
  deriving DecidableEq

def Handed.Durable (a : Handed) : Prop :=
  acknowledges a.reply = true → a.ends.keyed ≤ a.synced.keyed ∧ a.ends.sql ≤ a.synced.sql

instance (a : Handed) : Decidable a.Durable := inferInstanceAs (Decidable (_ → _))

structure Ledger (L : Sql.Language) where
  serving : Serving L
  made : Body → Ends := fun _ ↦ {}
  waiting : List (Reply × Ends) := []
  handed : List Handed := []

namespace Ledger

def flush (l : Ledger L) : Ledger L :=
  if l.serving.parked = [] then l
  else
    let serving := l.serving.flush
    { l with
      serving := serving
      waiting := []
      handed := l.handed ++ l.waiting.map fun w ↦ ⟨w.1, w.2, syncedEnds serving.server⟩ }

def await (l : Ledger L) (f : Frame) : Ledger L := if f.ready then l else l.flush

def account (l : Ledger L) (body : Body) (after : Server L) (b : Body) : Ends :=
  if b = body ∧ isNew l.serving.server body = true then
    ⟨endOf l.serving.server.db after.db, endOf l.serving.server.sql.db after.sql.db⟩
  else l.made b

def take (authz : Authz) (l : Ledger L) (f : Frame) : Ledger L :=
  let serving := l.serving.take authz f
  match f.request with
  | none => { l with serving := serving }
  | some req =>
    if allowed authz f req then
      let r := l.serving.server.dispatch req
      let made := l.account req.body r.2
      if isKeyedPut req.body || isSqlWrite req.body r.1.reply then
        { l with
          serving := serving, made := made,
          waiting := l.waiting ++ [(r.1.reply, made req.body)] }
      else
        { l with
          serving := serving, made := made,
          handed := l.handed ++ [⟨r.1.reply, made req.body, syncedEnds r.2⟩] }
    else
      { l with
        serving := serving,
        handed := l.handed ++ [⟨(deniedResponse f req).reply, {}, syncedEnds l.serving.server⟩] }

def turn (authz : Authz) (l : Ledger L) (f : Frame) : Ledger L := (l.await f).take authz f

def start (s : Server L) : Ledger L := { serving := Serving.start s }

def serve (authz : Authz) (s : Server L) (frames : List Frame) : Ledger L :=
  (frames.foldl (turn authz) (start s)).flush

/-! The ledger only watches: it follows the loop, and the replies are those of the loop. -/

lemma await_serving (l : Ledger L) (f : Frame) : (l.await f).serving = l.serving.await f := by
  unfold await Serving.await flush
  split_ifs with hready hparked
  · rfl
  · exact (if_pos hparked).symm
  · rfl

lemma turn_serving (authz : Authz) (l : Ledger L) (f : Frame) :
    (l.turn authz f).serving = l.serving.turn authz f := by
  rw [Serving.turn, ← await_serving]
  unfold turn take
  dsimp only
  split
  · rfl
  · split_ifs <;> rfl

structure Follows (l : Ledger L) (st : Serving L) : Prop where
  serving : l.serving = st
  waiting : l.waiting.map Prod.fst = st.parked.map fun r ↦ r.2.reply
  handed : l.handed.map Handed.reply = st.sent.map fun r ↦ r.2.reply

namespace Follows

variable {l : Ledger L} {st : Serving L}

lemma flush (h : Follows l st) : Follows l.flush st.flush := by
  obtain ⟨rfl, hwaiting, hhanded⟩ := h
  unfold Ledger.flush Serving.flush
  split_ifs
  · exact ⟨rfl, hwaiting, hhanded⟩
  · refine ⟨rfl, rfl, ?_⟩
    rw [map_append, map_append, map_map, ← hhanded, ← hwaiting]
    rfl

lemma take (h : Follows l st) (authz : Authz) (f : Frame) :
    Follows (l.take authz f) (st.take authz f) := by
  obtain ⟨rfl, hwaiting, hhanded⟩ := h
  unfold Ledger.take Serving.take
  cases f.request with
  | none => exact ⟨rfl, hwaiting, hhanded⟩
  | some req =>
    dsimp only
    split_ifs with hallowed hpark
    · simp only [serveOne, hpark, if_true]
      refine ⟨rfl, ?_, hhanded⟩
      rw [map_append, map_append, hwaiting]
      rfl
    · simp only [serveOne, if_neg hpark]
      refine ⟨rfl, hwaiting, ?_⟩
      rw [map_append, map_append, hhanded]
      rfl
    · refine ⟨rfl, hwaiting, ?_⟩
      rw [map_append, map_append, hhanded]
      rfl

lemma turn (h : Follows l st) (authz : Authz) (f : Frame) :
    Follows (l.turn authz f) (st.turn authz f) := by
  unfold Ledger.turn Serving.turn Ledger.await Serving.await
  split_ifs
  · exact h.take authz f
  · exact h.flush.take authz f

lemma run (h : Follows l st) (authz : Authz) (frames : List Frame) :
    Follows (frames.foldl (Ledger.turn authz) l) (frames.foldl (Serving.turn authz) st) :=
  foldl_rel h fun f _ _ _ h ↦ h.turn authz f

end Follows

lemma start_follows (s : Server L) : Follows (start s) (Serving.start s) := ⟨rfl, rfl, rfl⟩

end Ledger

/-! ### What a request does to the stores -/

structure Extends (d d' : Database) : Prop where
  length_le : d.writes.length ≤ d'.writes.length
  synced_le : d.synced ≤ d'.synced

variable (d : Database)

namespace Extends

lemma refl : Extends d d := ⟨le_rfl, le_rfl⟩

lemma sync : Extends d d.sync := ⟨le_rfl, d.synced_le⟩

lemma trans {d d' d'' : Database} (h : Extends d d') (h' : Extends d' d'') : Extends d d'' :=
  ⟨h.length_le.trans h'.length_le, h.synced_le.trans h'.synced_le⟩

lemma applyCommittedNosync (ws : WriteSet) : Extends d (d.applyCommittedNosync ws) := by
  refine ⟨?_, le_rfl⟩
  show d.writes.length ≤ (d.writes ++ ws.entries).length
  simp

end Extends

lemma endOf_self : endOf d d = 0 := if_neg (lt_irrefl _)

lemma endOf_le (d d' : Database) : endOf d d' ≤ d'.writes.length := by
  unfold endOf
  split_ifs
  · exact le_rfl
  · exact Nat.zero_le _

lemma submitNew_stores (s : Server L) (reqId submitKey : ℕ) (op : SubmitOp)
    (params : List OpParam) :
    Extends s.db (s.submitNew reqId submitKey op params).2.db ∧
      (endOf s.db (s.submitNew reqId submitKey op params).2.db ≤
        (s.submitNew reqId submitKey op params).2.db.synced ∨ op = .put) ∧
      (s.submitNew reqId submitKey op params).2.sql = s.sql := by
  have hnone : Extends s.db s.db ∧ (endOf s.db s.db ≤ s.db.synced ∨ op = .put) :=
    ⟨.refl _, .inl (by rw [endOf_self]; exact Nat.zero_le _)⟩
  have happlied : ∀ ws : WriteSet,
      let db := if (decide (op = .put) && s.networked) = true then s.db.applyCommittedNosync ws
        else s.db.applyCommitted ws
      Extends s.db db ∧ (endOf s.db db ≤ db.synced ∨ op = .put) := by
    intro ws
    split_ifs with hput
    · exact ⟨.applyCommittedNosync _ _, .inr (of_decide_eq_true (Bool.and_eq_true_iff.mp hput).1)⟩
    · exact ⟨(Extends.applyCommittedNosync _ _).trans (.sync _), .inl (endOf_le _ _)⟩
  unfold submitNew
  dsimp only
  split
  · exact ⟨hnone.1, hnone.2, rfl⟩
  next ci _ =>
  by_cases hstatus : ci.status = .committed
  · rw [if_pos hstatus]
    exact ⟨(happlied _).1, (happlied _).2, rfl⟩
  · rw [if_neg hstatus]
    exact ⟨hnone.1, hnone.2, rfl⟩

def SilentRequest (s : Server L) (body : Body) : Prop :=
  ∃ key sql, body = .sqlExec key sql ∧ s.dedup.find key = none ∧ SilentWrite s.sql sql

structure Executed (s : Server L) (body : Body) (reply : Reply) (s' : Server L) : Prop where
  keyed : Extends s.db s'.db
  keyed_covered : endOf s.db s'.db ≤ s'.db.synced ∨ isKeyedPut body = true
  sql : Appends s.sql s'.sql
  sql_covered : endOf s.sql.db s'.sql.db ≤ s'.sql.db.synced ∨ isSqlWrite body reply = true ∨
    acknowledges reply = false ∨ SilentRequest s body

lemma executed (hgroup : s.sql.groupCommit = true) (h : isNew s req.body = true) :
    Executed s req.body (s.dispatch req).1.reply (s.dispatch req).2 := by
  obtain ⟨reqId, body⟩ := req
  cases body with
  | ping => cases h
  | unexpected => cases h
  | query q => cases h
  | submit submitKey op params =>
    have hfind : s.dedup.find submitKey = none :=
      Option.isNone_iff_eq_none.mp (by simpa [isNew, submitKeyOf] using h)
    simp only [dispatch, handleSubmit, hfind]
    obtain ⟨hextends, hcovered, hsql⟩ := submitNew_stores s reqId submitKey op params
    refine ⟨hextends, ?_, ?_, .inl ?_⟩
    · rcases hcovered with hcovered | rfl
      · exact .inl hcovered
      · exact .inr rfl
    · show Appends s.sql (s.submitNew reqId submitKey op params).2.sql
      rw [hsql]
      exact .refl _
    · show endOf s.sql.db (s.submitNew reqId submitKey op params).2.sql.db ≤ _
      rw [hsql, endOf_self]
      exact Nat.zero_le _
  | sqlExec submitKey sql =>
    have hfind : s.dedup.find submitKey = none :=
      Option.isNone_iff_eq_none.mp (by simpa [isNew, submitKeyOf] using h)
    simp only [dispatch, handleSql, hfind]
    refine ⟨.refl _, .inl ?_, exec_appends hgroup sql, ?_⟩
    · show endOf s.db s.db ≤ _
      rw [endOf_self]
      exact Nat.zero_le _
    show endOf s.sql.db (s.sql.exec sql).2.db ≤ (s.sql.exec sql).2.db.synced ∨
      ((s.sql.exec sql).1.ok && decide (0 < (s.sql.exec sql).1.affected)) = true ∨
        (s.sql.exec sql).1.ok = false ∨ _
    by_cases hgrows : s.sql.db.writes.length < (s.sql.exec sql).2.db.writes.length
    · rcases Bool.eq_false_or_eq_true (s.sql.exec sql).1.ok with hok | hfailed
      · rcases Nat.eq_zero_or_pos (s.sql.exec sql).1.affected with hzero | hpos
        · exact .inr (.inr (.inr ⟨submitKey, sql, rfl, hfind,
            (silentWrite_iff hgroup sql).mpr ⟨hok, hzero, hgrows⟩⟩))
        · exact .inr (.inl (by rw [hok]; exact decide_eq_true hpos))
      · exact .inr (.inr (.inl hfailed))
    · rw [endOf, if_neg hgrows]
      exact .inl (Nat.zero_le _)

lemma dispatch_extends (hgroup : s.sql.groupCommit = true) (req : Request) :
    Extends s.db (s.dispatch req).2.db ∧ Extends s.sql.db (s.dispatch req).2.sql.db ∧
      (s.dispatch req).2.sql.groupCommit = true := by
  cases hnew : isNew s req.body with
  | false =>
    rw [(dispatch_of_not_new hnew).1]
    exact ⟨.refl _, .refl _, hgroup⟩
  | true =>
    have hexec := executed hgroup hnew
    exact ⟨hexec.keyed, ⟨hexec.sql.length_le, hexec.sql.synced.ge⟩,
      hexec.sql.groupCommit.trans hgroup⟩

lemma dispatch_reply_kept {key : ℕ} {cached : Response} (hkey : submitKeyOf req.body = some key)
    (hcached : (s.dispatch req).2.dedup.find key = some cached) :
    cached.reply = (s.dispatch req).1.reply := by
  cases hnew : isNew s req.body with
  | false =>
    obtain ⟨hsame, hreply⟩ := dispatch_of_not_new hnew
    rw [hsame] at hcached
    exact (hreply key cached hkey hcached).symm
  | true =>
    obtain ⟨newKey, hnewKey, -, hdedup⟩ := dispatch_of_new hnew
    obtain rfl : newKey = key := Option.some.inj (hnewKey.symm.trans hkey)
    rw [hdedup, OrderedMap.find_insert, if_pos rfl] at hcached
    rw [← Option.some.inj hcached]

/-! ### Every acknowledged write is covered -/

def Covers (d : Database) (n : ℕ) (dirty : Prop) : Prop :=
  n ≤ d.synced ∨ dirty ∧ n ≤ d.writes.length

namespace Covers

variable {d d' : Database} {n : ℕ} {dirty dirty' : Prop}

lemma zero : Covers d 0 dirty := .inl (Nat.zero_le _)

lemma mono (h : Covers d n dirty) (hext : Extends d d') (hdirty : dirty → dirty') :
    Covers d' n dirty' := by
  rcases h with h | ⟨hd, h⟩
  · exact .inl (h.trans hext.synced_le)
  · exact .inr ⟨hdirty hd, h.trans hext.length_le⟩

lemma flush {flag : Bool} (h : Covers d n (flag = true)) :
    n ≤ (if flag then d.sync else d).synced := by
  rcases h with h | ⟨rfl, h⟩
  · split_ifs
    · exact h.trans d.synced_le
    · exact h
  · exact h

end Covers

/-- The writes of a request whose reply acknowledges them are covered, those of a put or of a
statement that affected rows by the next flush. -/
def RequestCovered (st : Serving L) (b : Body) (ends : Ends) : Prop :=
  ends = {} ∨ ∃ key cached, submitKeyOf b = some key ∧ st.server.dedup.find key = some cached ∧
    (acknowledges cached.reply = true →
      Covers st.server.db ends.keyed (st.keyedDirty = true ∧ isKeyedPut b = true) ∧
      Covers st.server.sql.db ends.sql (st.sqlDirty = true ∧ isSqlWrite b cached.reply = true))

structure Ledger.Sound (l : Ledger L) : Prop where
  groupCommit : l.serving.server.sql.groupCommit = true
  dirty : l.serving.parked = [] → l.serving.keyedDirty = false ∧ l.serving.sqlDirty = false
  made : ∀ b, RequestCovered l.serving b (l.made b)
  waiting : ∀ w ∈ l.waiting, acknowledges w.1 = true →
    Covers l.serving.server.db w.2.keyed (l.serving.keyedDirty = true) ∧
      Covers l.serving.server.sql.db w.2.sql (l.serving.sqlDirty = true)
  durable : ∀ a ∈ l.handed, a.Durable

variable {st : Serving L}

namespace Ledger.Sound

variable {l : Ledger L}

lemma start (s : Server L) : (Ledger.start s).Sound where
  groupCommit := rfl
  dirty _ := ⟨rfl, rfl⟩
  made _ := .inl rfl
  waiting _ hw := absurd hw List.not_mem_nil
  durable _ ha := absurd ha List.not_mem_nil

lemma flush (h : l.Sound) : l.flush.Sound := by
  unfold Ledger.flush
  split_ifs with hparked
  · exact h
  have hflush : l.serving.flush =
      { server := l.serving.syncDirty, sent := l.serving.sent ++ l.serving.parked } :=
    if_neg hparked
  have hsql : l.serving.syncDirty.sql.db =
      if l.serving.sqlDirty then l.serving.server.sql.db.sync else l.serving.server.sql.db := by
    unfold syncDirty
    split_ifs <;> rfl
  rw [hflush]
  refine ⟨?_, fun _ ↦ ⟨rfl, rfl⟩, fun b ↦ ?_, nofun, ?_⟩
  · unfold syncDirty
    split_ifs <;> exact h.groupCommit
  · rcases h.made b with hnone | ⟨key, cached, hkey, hcached, hcovers⟩
    · exact .inl hnone
    refine .inr ⟨key, cached, hkey, hcached, fun hack ↦ ?_⟩
    obtain ⟨hkeyed, hsqlCovers⟩ := hcovers hack
    rw [hsql]
    exact ⟨.inl (hkeyed.mono (.refl _) And.left).flush,
      .inl (hsqlCovers.mono (.refl _) And.left).flush⟩
  · intro a ha
    rcases mem_append.mp ha with ha | ha
    · exact h.durable a ha
    obtain ⟨w, hw, rfl⟩ := mem_map.mp ha
    intro hack
    obtain ⟨hkeyed, hsqlCovers⟩ := h.waiting w hw hack
    simp only [syncedEnds, hsql]
    exact ⟨hkeyed.flush, hsqlCovers.flush⟩

lemma await (h : l.Sound) (f : Frame) : (l.await f).Sound := by
  unfold Ledger.await
  split_ifs
  · exact h
  · exact h.flush

lemma account (h : l.Sound) (hloud : ¬SilentRequest l.serving.server req.body) {t : Serving L}
    (hserver : t.server = (l.serving.server.dispatch req).2)
    (hkeyed : t.keyedDirty = (l.serving.keyedDirty || isKeyedPut req.body))
    (hsql : t.sqlDirty = (l.serving.sqlDirty ||
      isSqlWrite req.body (l.serving.server.dispatch req).1.reply)) (b : Body) :
    RequestCovered t b (l.account req.body (l.serving.server.dispatch req).2 b) := by
  have hkeyedDirty : l.serving.keyedDirty = true → t.keyedDirty = true := by
    intro hd
    rw [hkeyed, hd, Bool.true_or]
  have hsqlDirty : l.serving.sqlDirty = true → t.sqlDirty = true := by
    intro hd
    rw [hsql, hd, Bool.true_or]
  unfold Ledger.account
  cases hnew : isNew l.serving.server req.body with
  | false =>
    rw [if_neg fun hb ↦ Bool.false_ne_true hb.2]
    rw [(dispatch_of_not_new hnew).1] at hserver
    rcases h.made b with hnone | ⟨key, cached, hkey, hcached, hcovers⟩
    · exact .inl hnone
    refine .inr ⟨key, cached, hkey, hserver ▸ hcached, fun hack ↦ ?_⟩
    obtain ⟨hfirst, hsecond⟩ := hcovers hack
    rw [hserver]
    exact ⟨hfirst.mono (.refl _) (And.imp_left hkeyedDirty),
      hsecond.mono (.refl _) (And.imp_left hsqlDirty)⟩
  | true =>
    have hexec := executed h.groupCommit hnew
    obtain ⟨newKey, hnewKey, hfresh, hdedup⟩ := dispatch_of_new hnew
    rw [← hserver] at hexec hdedup ⊢
    have hsqlExtends : Extends l.serving.server.sql.db t.server.sql.db :=
      ⟨hexec.sql.length_le, hexec.sql.synced.ge⟩
    split_ifs with hb
    · obtain ⟨rfl, -⟩ := hb
      refine .inr ⟨newKey, (l.serving.server.dispatch req).1, hnewKey, ?_, fun hack ↦ ⟨?_, ?_⟩⟩
      · rw [hdedup, OrderedMap.find_insert, if_pos rfl]
      · rcases hexec.keyed_covered with hcovered | hput
        · exact .inl hcovered
        · exact .inr ⟨⟨by rw [hkeyed, hput, Bool.or_true], hput⟩, endOf_le _ _⟩
      · rcases hexec.sql_covered with hcovered | hwrite | hfailed | hsilent
        · exact .inl hcovered
        · exact .inr ⟨⟨by rw [hsql, hwrite, Bool.or_true], hwrite⟩, endOf_le _ _⟩
        · exact absurd (hack.symm.trans hfailed) (by decide)
        · exact absurd hsilent hloud
    · rcases h.made b with hnone | ⟨key, cached, hkey, hcached, hcovers⟩
      · exact .inl hnone
      refine .inr ⟨key, cached, hkey, ?_, fun hack ↦ ?_⟩
      · rw [hdedup, OrderedMap.find_insert, if_neg, hcached]
        rintro rfl
        exact Option.some_ne_none _ (hcached.symm.trans hfresh)
      · obtain ⟨hfirst, hsecond⟩ := hcovers hack
        exact ⟨hfirst.mono hexec.keyed (And.imp_left hkeyedDirty),
          hsecond.mono hsqlExtends (And.imp_left hsqlDirty)⟩

lemma covers_reply {ends : Ends} (hserver : st.server = (s.dispatch req).2)
    (hcovered : RequestCovered st req.body ends)
    (hack : acknowledges (s.dispatch req).1.reply = true) :
    Covers st.server.db ends.keyed (st.keyedDirty = true ∧ isKeyedPut req.body = true) ∧
      Covers st.server.sql.db ends.sql
        (st.sqlDirty = true ∧ isSqlWrite req.body (s.dispatch req).1.reply = true) := by
  rcases hcovered with rfl | ⟨key, cached, hkey, hcached, hcovers⟩
  · exact ⟨.zero, .zero⟩
  · have hreply : cached.reply = (s.dispatch req).1.reply :=
      dispatch_reply_kept hkey (hserver ▸ hcached)
    rw [hreply] at hcovers
    exact hcovers hack

lemma take (h : l.Sound) {authz : Authz}
    (hloud : ∀ req, f.request = some req → allowed authz f req = true →
      ¬SilentRequest l.serving.server req.body) : (l.take authz f).Sound := by
  unfold Ledger.take Serving.take
  cases hreq : f.request with
  | none => exact ⟨h.groupCommit, h.dirty, h.made, h.waiting, h.durable⟩
  | some req =>
    dsimp only
    split_ifs with hallowed hpark
    · obtain ⟨hdb, hsql, hgroup⟩ := dispatch_extends h.groupCommit req
      simp only [serveOne, hpark, if_true]
      have hmade := h.account (hloud req hreq hallowed) (t := { l.serving with
        server := (l.serving.server.dispatch req).2
        keyedDirty := l.serving.keyedDirty || isKeyedPut req.body
        sqlDirty := l.serving.sqlDirty ||
          isSqlWrite req.body (l.serving.server.dispatch req).1.reply
        parked := l.serving.parked ++ [(f.sender, (l.serving.server.dispatch req).1)] }) rfl rfl rfl
      refine ⟨hgroup, fun hnil ↦ absurd hnil (by simp), hmade, fun w hw hack ↦ ?_, h.durable⟩
      rcases mem_append.mp hw with hw | hw
      · obtain ⟨hfirst, hsecond⟩ := h.waiting w hw hack
        exact ⟨hfirst.mono hdb (by simp +contextual), hsecond.mono hsql (by simp +contextual)⟩
      · rw [mem_singleton.mp hw] at hack ⊢
        obtain ⟨hfirst, hsecond⟩ := covers_reply rfl (hmade req.body) hack
        exact ⟨hfirst.mono (.refl _) And.left, hsecond.mono (.refl _) And.left⟩
    · obtain ⟨hdb, hsql, hgroup⟩ := dispatch_extends h.groupCommit req
      simp only [serveOne, if_neg hpark]
      obtain ⟨hput, hwrite⟩ := Bool.or_eq_false_iff.mp (Bool.eq_false_iff.mpr hpark)
      have hmade := h.account (hloud req hreq hallowed) (t := { l.serving with
        server := (l.serving.server.dispatch req).2
        sent := l.serving.sent ++ [(f.sender, (l.serving.server.dispatch req).1)] }) rfl
        (by rw [hput, Bool.or_false]) (by rw [hwrite, Bool.or_false])
      refine ⟨hgroup, h.dirty, hmade, fun w hw hack ↦ ?_, fun a ha ↦ ?_⟩
      · obtain ⟨hfirst, hsecond⟩ := h.waiting w hw hack
        exact ⟨hfirst.mono hdb id, hsecond.mono hsql id⟩
      rcases mem_append.mp ha with ha | ha
      · exact h.durable a ha
      -- nothing is left for a flush, so the writes are synced
      rw [mem_singleton.mp ha]
      intro hack
      obtain ⟨hfirst, hsecond⟩ := covers_reply rfl (hmade req.body) hack
      rw [hput] at hfirst
      rw [hwrite] at hsecond
      exact ⟨hfirst.resolve_right fun hdirty ↦ Bool.false_ne_true hdirty.1.2,
        hsecond.resolve_right fun hdirty ↦ Bool.false_ne_true hdirty.1.2⟩
    · refine ⟨h.groupCommit, h.dirty, h.made, h.waiting, fun a ha ↦ ?_⟩
      rcases mem_append.mp ha with ha | ha
      · exact h.durable a ha
      · rw [mem_singleton.mp ha]
        exact fun hack ↦ absurd hack Bool.false_ne_true

end Ledger.Sound

def SilentAt (authz : Authz) (st : Serving L) (f : Frame) : Prop :=
  ∃ req, f.request = some req ∧ allowed authz f req = true ∧
    SilentRequest st.server req.body

lemma silentRequest_await (st : Serving L) (f : Frame) (body : Body) :
    SilentRequest (st.await f).server body ↔ SilentRequest st.server body := by
  unfold await flush
  split_ifs
  · exact Iff.rfl
  · exact Iff.rfl
  · unfold SilentRequest syncDirty
    dsimp only
    split_ifs
    · exact Iff.rfl
    · exact Iff.rfl

section Run

variable {authz : Authz} {l : Ledger L}

lemma Ledger.Sound.turn (h : l.Sound) (hloud : ¬SilentAt authz l.serving f) :
    (l.turn authz f).Sound := by
  refine (h.await f).take fun req hreq hallowed hsilent ↦ hloud ⟨req, hreq, hallowed, ?_⟩
  rw [l.await_serving] at hsilent
  exact (silentRequest_await l.serving f req.body).mp hsilent

lemma Ledger.Sound.run (h : l.Sound) {frames : List Frame}
    (hloud : ∀ pre f rest, frames = pre ++ f :: rest →
      ¬SilentAt authz (pre.foldl (Serving.turn authz) l.serving) f) :
    (frames.foldl (Ledger.turn authz) l).Sound := by
  induction frames generalizing l with
  | nil => exact h
  | cons f frames ih =>
    refine ih (h.turn (hloud [] f frames rfl)) fun pre g rest hframes ↦ ?_
    rw [l.turn_serving]
    exact hloud (f :: pre) g rest (by rw [hframes, cons_append])

lemma groupCommit_await (h : st.server.sql.groupCommit = true) (f : Frame) :
    (st.await f).server.sql.groupCommit = true := by
  unfold await flush
  split_ifs
  · exact h
  · exact h
  · unfold syncDirty
    split_ifs <;> exact h

lemma groupCommit_turn (h : st.server.sql.groupCommit = true) (f : Frame) :
    (st.turn authz f).server.sql.groupCommit = true := by
  have hawait := groupCommit_await h f
  rw [turn]
  unfold take
  split
  · exact hawait
  split_ifs
  · unfold serveOne
    dsimp only
    split_ifs <;> exact (dispatch_extends hawait _).2.2
  · exact hawait

lemma groupCommit_run (h : st.server.sql.groupCommit = true) (frames : List Frame) :
    (frames.foldl (turn authz) st).server.sql.groupCommit = true := by
  induction frames generalizing st with
  | nil => exact h
  | cons f frames ih => exact ih (groupCommit_turn h f)

lemma Ledger.handed_subset_flush (l : Ledger L) : l.handed ⊆ l.flush.handed := by
  unfold Ledger.flush
  split_ifs
  · exact List.Subset.refl _
  · exact subset_append_left _ _

lemma Ledger.handed_subset_turn (l : Ledger L) (f : Frame) :
    l.handed ⊆ (l.turn authz f).handed := by
  have hawait : l.handed ⊆ (l.await f).handed := by
    unfold Ledger.await
    split_ifs
    · exact List.Subset.refl _
    · exact l.handed_subset_flush
  refine List.Subset.trans hawait ?_
  unfold Ledger.turn Ledger.take
  dsimp only
  split
  · exact List.Subset.refl _
  · split_ifs
    · exact List.Subset.refl _
    · exact subset_append_left _ _
    · exact subset_append_left _ _

lemma Ledger.handed_subset_run (l : Ledger L) (frames : List Frame) :
    l.handed ⊆ (frames.foldl (Ledger.turn authz) l).handed := by
  induction frames generalizing l with
  | nil => exact List.Subset.refl _
  | cons f frames ih => exact List.Subset.trans (l.handed_subset_turn f) (ih _)

lemma Ledger.handed_of_silent (hgroup : l.serving.server.sql.groupCommit = true)
    (hsilent : SilentAt authz l.serving f) : ∃ a ∈ (l.take authz f).handed, ¬a.Durable := by
  obtain ⟨⟨reqId, body⟩, hreq, hallowed, key, sql, hbody, hfresh, hwrite⟩ := hsilent
  obtain rfl : body = .sqlExec key sql := hbody
  obtain ⟨hok, hzero, hgrows⟩ := (silentWrite_iff hgroup sql).mp hwrite
  have hsynced := (exec_appends hgroup sql).synced
  have hnew : isNew l.serving.server (.sqlExec key sql) = true := by
    simp [isNew, submitKeyOf, hfresh]
  have hdispatch : l.serving.server.dispatch ⟨reqId, .sqlExec key sql⟩ =
      (⟨reqId, .sqlResult (l.serving.server.sql.exec sql).1⟩, { l.serving.server with
        sql := (l.serving.server.sql.exec sql).2
        dedup := l.serving.server.dedup.insert key
          ⟨reqId, .sqlResult (l.serving.server.sql.exec sql).1⟩ }) := by
    simp only [dispatch, handleSql, hfresh, memoize]
  have hsent : (isKeyedPut (.sqlExec key sql) || isSqlWrite (.sqlExec key sql)
      (.sqlResult (l.serving.server.sql.exec sql).1)) = false := by
    simp [isKeyedPut, isSqlWrite, hzero]
  unfold Ledger.take
  simp only [hreq, hallowed, if_true, hdispatch]
  rw [if_neg (Bool.eq_false_iff.mp hsent)]
  refine ⟨_, mem_append_right _ mem_cons_self, fun hdurable ↦ ?_⟩
  have hcovered := (hdurable hok).2
  simp only [Ledger.account, true_and, if_pos hnew, endOf, syncedEnds, if_pos hgrows,
    hsynced] at hcovered
  exact absurd (hgrows.trans_le hcovered) l.serving.server.sql.db.synced_le.not_gt

end Run

/-- Every write that is acknowledged is covered by a completed sync, in every run of the loop,
exactly when no text that the loop executes is a `COMMIT` of buffered writes or another statement
that writes to the data store with success and no row affected. -/
theorem acknowledged_durable_iff (authz : Authz) (s : Server L) (frames : List Frame) :
    (∀ a ∈ (Ledger.serve authz s frames).handed, a.Durable) ↔
      ∀ pre f rest, frames = pre ++ f :: rest →
        ¬SilentAt authz (pre.foldl (turn authz) (start s)) f := by
  constructor
  · intro hdurable pre f rest hframes hsilent
    obtain ⟨req, hreq, hallowed, hsilent⟩ := hsilent
    have hserving := ((Ledger.start_follows s).run authz pre).serving
    have hawait : ((pre.foldl (Ledger.turn authz) (Ledger.start s)).await f).serving =
        (pre.foldl (Serving.turn authz) (Serving.start s)).await f := by
      rw [Ledger.await_serving, hserving]
    -- the turn of the frame puts a reply into the ledger that is not covered, and it stays there
    have hat : SilentAt authz
        ((pre.foldl (Ledger.turn authz) (Ledger.start s)).await f).serving f := by
      rw [hawait]
      exact ⟨req, hreq, hallowed, (silentRequest_await _ f _).mpr hsilent⟩
    obtain ⟨a, ha, hnot⟩ := Ledger.handed_of_silent
      (by rw [hawait]; exact groupCommit_await (groupCommit_run rfl pre) f) hat
    refine hnot (hdurable a ?_)
    unfold Ledger.serve
    rw [hframes, foldl_append]
    exact Ledger.handed_subset_flush _ (Ledger.handed_subset_run _ rest ha)
  · intro hloud
    exact ((Ledger.Sound.start s).run hloud).flush.durable

def commitFrames : List Frame :=
  [{ request := some ⟨1, .sqlExec 1 "BEGIN".toList⟩ },
    { request := some ⟨2, .sqlExec 2 "INSERT INTO t (id) VALUES (1)".toList⟩ },
    { request := some ⟨3, .sqlExec 3 "COMMIT".toList⟩ }]

/-- The `COMMIT` is acknowledged with its row in no sync. -/
theorem commit_acknowledged_unsynced :
    ¬∀ a ∈ (Ledger.serve none newServer commitFrames).handed, a.Durable := by
  have hmem : ⟨.sqlResult {}, ⟨0, 1⟩, ⟨0, 0⟩⟩ ∈
      (Ledger.serve none newServer commitFrames).handed := by
    decide +kernel
  exact fun h ↦ absurd (h _ hmem rfl).2 (by decide)

end Lockstep.Wire
