import Lockstep.Wire.Server

/-!
# Replies of the wire server

Which requests are executed and which are answered from what is kept under their key, and how the
replies of the loop come out: every frame gets its reply once, at once or after a flush
(`serve_sent`).
-/

namespace Lockstep.Wire

open Library Query Server Serving List Option

variable {L : Sql.Language}

/-! ### Responses under a key -/

def isNew (s : Server L) (body : Body) : Bool :=
  (submitKeyOf body).any fun key ↦ (s.dedup.find key).isNone

variable {s : Server L}

lemma find_of_not_new {body : Body} {key : ℕ} (h : isNew s body = false)
    (hkey : submitKeyOf body = some key) : ∃ cached, s.dedup.find key = some cached :=
  isSome_iff_exists.mp (by simpa [isNew, hkey] using h)

lemma dispatch_of_not_new {req : Request} (h : isNew s req.body = false) :
    (s.dispatch req).2 = s ∧ ∀ key cached, submitKeyOf req.body = some key →
      s.dedup.find key = some cached → (s.dispatch req).1.reply = cached.reply := by
  obtain ⟨reqId, body⟩ := req
  cases body with
  | ping => exact ⟨rfl, fun _ _ hkey ↦ absurd hkey (by simp [submitKeyOf])⟩
  | unexpected => exact ⟨rfl, fun _ _ hkey ↦ absurd hkey (by simp [submitKeyOf])⟩
  | query q => exact ⟨rfl, fun _ _ hkey ↦ absurd hkey (by simp [submitKeyOf])⟩
  | submit submitKey op params =>
    obtain ⟨held, hheld⟩ := find_of_not_new h rfl
    simp only [dispatch, handleSubmit, hheld]
    refine ⟨trivial, fun key cached hkey hcached ↦ ?_⟩
    rw [← some.inj hkey, hheld] at hcached
    rw [← some.inj hcached]
  | sqlExec submitKey sql =>
    obtain ⟨held, hheld⟩ := find_of_not_new h rfl
    simp only [dispatch, handleSql, hheld]
    refine ⟨trivial, fun key cached hkey hcached ↦ ?_⟩
    rw [← some.inj hkey, hheld] at hcached
    rw [← some.inj hcached]

lemma dispatch_reqId (s : Server L) (req : Request) : (s.dispatch req).1.reqId = req.reqId := by
  obtain ⟨reqId, body⟩ := req
  cases body with
  | ping | unexpected | query q => rfl
  | submit submitKey op params =>
    simp only [dispatch, handleSubmit]
    split
    · rfl
    · simp only [memoize, submitNew]
      split
      · rfl
      · split_ifs <;> rfl
  | sqlExec submitKey sql =>
    simp only [dispatch, handleSql]
    split <;> rfl

lemma submitNew_dedup (s : Server L) (reqId submitKey : ℕ) (op : SubmitOp)
    (params : List OpParam) : (s.submitNew reqId submitKey op params).2.dedup = s.dedup := by
  unfold submitNew
  dsimp only
  split
  · rfl
  · split_ifs <;> rfl

lemma dispatch_of_new {req : Request} (h : isNew s req.body = true) :
    ∃ key, submitKeyOf req.body = some key ∧ s.dedup.find key = none ∧
      (s.dispatch req).2.dedup = s.dedup.insert key (s.dispatch req).1 := by
  obtain ⟨reqId, body⟩ := req
  cases body with
  | ping => cases h
  | unexpected => cases h
  | query q => cases h
  | submit submitKey op params =>
    have hfind : s.dedup.find submitKey = none :=
      isNone_iff_eq_none.mp (by simpa [isNew, submitKeyOf] using h)
    refine ⟨submitKey, rfl, hfind, ?_⟩
    simp only [dispatch, handleSubmit, hfind, memoize, submitNew_dedup]
  | sqlExec submitKey sql =>
    have hfind : s.dedup.find submitKey = none :=
      isNone_iff_eq_none.mp (by simpa [isNew, submitKeyOf] using h)
    refine ⟨submitKey, rfl, hfind, ?_⟩
    simp only [dispatch, handleSql, hfind, memoize]

/-! ### Replies -/

variable (authz : Authz)

namespace Serving

def replyTo (authz : Authz) (st : Serving L) (f : Frame) : Option Response :=
  f.request.map fun req ↦
    if allowed authz f req then ((st.await f).server.dispatch req).1 else deniedResponse f req

def replies (authz : Authz) : Serving L → List Frame → List (Frame × Option Response)
  | _, [] => []
  | st, f :: frames => (f, st.replyTo authz f) :: replies authz (st.turn authz f) frames

def held (st : Serving L) : List (ℕ × Response) := st.sent ++ st.parked

variable (st : Serving L)

lemma held_flush : st.flush.held = st.held := by
  unfold flush
  split_ifs
  · rfl
  · exact append_nil _

lemma held_await (f : Frame) : (st.await f).held = st.held := by
  unfold await
  split_ifs
  · rfl
  · exact st.held_flush

lemma parked_flush : st.flush.parked = [] := by
  unfold flush
  split_ifs with h
  · exact h
  · rfl

lemma held_turn (st : Serving L) (f : Frame) : (st.turn authz f).held.Perm
      (st.held ++ ((st.replyTo authz f).map (Prod.mk f.sender)).toList) := by
  rw [← st.held_await f, turn, replyTo]
  generalize st.await f = st
  unfold take
  have hsent : ∀ r : ℕ × Response,
      ((st.sent ++ [r]) ++ st.parked).Perm ((st.sent ++ st.parked) ++ [r]) := by
    intro r
    rw [append_assoc, append_assoc]
    exact perm_append_comm.append_left _
  cases f.request with
  | none => exact List.Perm.of_eq (append_nil _).symm
  | some req =>
    simp only [map_some, toList_some]
    split_ifs
    · simp only [serveOne]
      split_ifs
      · exact List.Perm.of_eq (append_assoc _ _ _).symm
      · exact hsent _
    · exact hsent _

lemma turn_open (sender : ℕ) (req : Request) :
    (st.turn none { sender := sender, request := some req }).server = (st.server.dispatch req).2 ∧
      (st.turn none { sender := sender, request := some req }).held.Perm
        (st.held ++ [(sender, (st.server.dispatch req).1)]) := by
  refine ⟨?_, held_turn none st { sender := sender, request := some req }⟩
  show (st.serveOne sender req).server = _
  unfold serveOne
  dsimp only
  split_ifs <;> rfl

lemma held_run (st : Serving L) (frames : List Frame) : (frames.foldl (turn authz) st).held.Perm
      (st.held ++ (st.replies authz frames).flatMap fun r ↦
        (r.2.map (Prod.mk r.1.sender)).toList) := by
  induction frames generalizing st with
  | nil => exact List.Perm.of_eq (append_nil _).symm
  | cons f frames ih =>
    rw [foldl_cons, replies, flatMap_cons, ← append_assoc]
    exact (ih _).trans ((held_turn authz st f).append_right _)

end Serving

/-- Every frame gets its reply once. -/
lemma serve_sent (s : Server L) (frames : List Frame) : (serve authz s frames).sent.Perm
      (((start s).replies authz frames).flatMap fun r ↦
        (r.2.map (Prod.mk r.1.sender)).toList) := by
  have hheld : (serve authz s frames).held = (serve authz s frames).sent := by
    rw [held, serve, parked_flush, append_nil]
  rw [← hheld, serve, held_flush]
  exact held_run authz (start s) frames

end Lockstep.Wire
