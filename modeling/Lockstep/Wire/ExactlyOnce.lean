import Lockstep.Wire.Replies

/-!
# Clients of the wire server

The client stubs of `query/wire/ClientStub.hpp` and one server, with a network between them that
loses, repeats, delays and reorders frames.
-/

namespace Lockstep.Wire

open Library GuardedRun List Option

structure Client where
  reqId : ℕ := 0
  submitKey : ℕ := 0
  reserved : List ℕ := []
  cells : ℕ → Option (Option Response) := fun _ ↦ none

namespace Client

def newSubmitKey (c : Client) : Client :=
  { c with submitKey := c.submitKey + 1, reserved := c.reserved ++ [c.submitKey + 1] }

def roundTrip (c : Client) : Client :=
  { c with
    reqId := c.reqId + 1
    cells := fun n ↦ if n = c.reqId + 1 then some none else c.cells n }

def pump (c : Client) (resp : Response) : Client :=
  { c with
    cells := fun n ↦
      if n = resp.reqId ∧ c.cells n = some none then some (some resp) else c.cells n }

def close (c : Client) (reqId : ℕ) : Client :=
  { c with cells := fun n ↦ if n = reqId then none else c.cells n }

end Client

/-! ### The system -/

structure Call where
  client : ℕ
  request : Request
  deriving DecidableEq

structure Execution where
  call : ℕ
  reply : Reply
  deriving DecidableEq

structure CallResult where
  call : ℕ
  response : Option Response
  deriving DecidableEq

variable {L : Sql.Language}

/-- The clients, all calls so far, the server, and what happened to the calls. Frames of a call and
replies that were sent may arrive at any later time. -/
structure System (L : Sql.Language) where
  clients : ℕ → Client := fun _ ↦ {}
  calls : List Call := []
  serving : Serving L
  executions : List Execution := []
  results : List CallResult := []

inductive Event where
  | newSubmitKey (client : ℕ)
  | submit (client submitKey : ℕ) (op : SubmitOp) (params : List OpParam)
  | sql (client : ℕ) (text : Sql.Text)
  | deliver (call : ℕ)
  | idle
  | reply (sent : ℕ)
  | finish (call : ℕ)

namespace System

def setClient (sys : System L) (client : ℕ) (c : Client) : System L :=
  { sys with clients := fun n ↦ if n = client then c else sys.clients n }

def issue (sys : System L) (client : ℕ) (c : Client) (body : Body) : System L :=
  { sys.setClient client c.roundTrip with
    calls := sys.calls ++ [⟨client, ⟨c.roundTrip.reqId, body⟩⟩] }

def deliver (sys : System L) (call : ℕ) : System L :=
  match sys.calls[call]? with
  | none => sys
  | some c =>
    { sys with
      serving := sys.serving.turn none { sender := c.client, request := some c.request }
      executions := sys.executions ++
        if isNew sys.serving.server c.request.body then
          [⟨call, (sys.serving.server.dispatch c.request).1.reply⟩]
        else [] }

def step (sys : System L) : Event → System L
  | .newSubmitKey client => sys.setClient client (sys.clients client).newSubmitKey
  | .submit client submitKey op params =>
    let c := sys.clients client
    if submitKey ∈ c.reserved then
      sys.issue client { c with reserved := c.reserved.erase submitKey }
        (.submit submitKey op params)
    else sys
  | .sql client text =>
    let c := sys.clients client
    sys.issue client { c with submitKey := c.submitKey + 1 } (.sqlExec (c.submitKey + 1) text)
  | .deliver call => sys.deliver call
  | .idle => { sys with serving := sys.serving.flush }
  | .reply sent =>
    match sys.serving.sent[sent]? with
    | none => sys
    | some (client, resp) => sys.setClient client ((sys.clients client).pump resp)
  | .finish call =>
    match sys.calls[call]? with
    | none => sys
    | some c =>
      match (sys.clients c.client).cells c.request.reqId with
      | none => sys
      | some cell =>
        { sys.setClient c.client ((sys.clients c.client).close c.request.reqId) with
          results := sys.results ++ [⟨call, cell⟩] }

def start (db : Query.Database) (sql : Sql.Engine L) : System L :=
  { serving := Serving.start { db := db, sql := sql } }

def OwnKeys (sys : System L) : Event → Prop
  | .deliver call => ∀ c, sys.calls[call]? = some c → ∀ e ∈ sys.executions, ∀ c',
      sys.calls[e.call]? = some c' →
        submitKeyOf c'.request.body = submitKeyOf c.request.body → c'.client = c.client
  | _ => True

instance (sys : System L) : DecidablePred sys.OwnKeys
  | .deliver call => inferInstanceAs (Decidable (∀ c ∈ sys.calls[call]?, ∀ e ∈ sys.executions,
      ∀ c' ∈ sys.calls[e.call]?,
        submitKeyOf c'.request.body = submitKeyOf c.request.body → c'.client = c.client))
  | .newSubmitKey _ | .submit .. | .sql .. | .idle | .reply _ | .finish _ => isTrue trivial

/-! ### The invariant -/

def Apart (a b : Call) : Prop :=
  a.client = b.client → a.request.reqId ≠ b.request.reqId ∧
    submitKeyOf a.request.body ≠ submitKeyOf b.request.body

structure Numbered (sys : System L) : Prop where
  apart : sys.calls.Pairwise Apart
  reqId_le : ∀ c ∈ sys.calls, c.request.reqId ≤ (sys.clients c.client).reqId
  key : ∀ c ∈ sys.calls, ∃ k, submitKeyOf c.request.body = some k ∧
    k ≤ (sys.clients c.client).submitKey ∧ k ∉ (sys.clients c.client).reserved
  reserved : ∀ n, (sys.clients n).reserved.Nodup ∧
    ∀ k ∈ (sys.clients n).reserved, k ≤ (sys.clients n).submitKey

lemma Numbered.eq {sys : System L} (h : sys.Numbered) {i j : ℕ} {a b : Call}
    (ha : sys.calls[i]? = some a) (hb : sys.calls[j]? = some b) (hclient : a.client = b.client)
    (hsame : a.request.reqId = b.request.reqId ∨
      submitKeyOf a.request.body = submitKeyOf b.request.body) : i = j := by
  obtain ⟨hi, rfl⟩ := List.getElem?_eq_some_iff.mp ha
  obtain ⟨hj, rfl⟩ := List.getElem?_eq_some_iff.mp hb
  have hpairs := pairwise_iff_getElem.mp h.apart
  rcases Nat.lt_trichotomy i j with hlt | heq | hgt
  · obtain ⟨hreq, hkey⟩ := hpairs i j hi hj hlt hclient
    exact (hsame.elim hreq hkey).elim
  · exact heq
  · obtain ⟨hreq, hkey⟩ := hpairs j i hj hi hgt hclient.symm
    exact (hsame.elim (fun h ↦ hreq h.symm) fun h ↦ hkey h.symm).elim

def Answers (sys : System L) (client : ℕ) (resp : Response) : Prop :=
  ∃ e ∈ sys.executions, ∃ c, sys.calls[e.call]? = some c ∧ c.client = client ∧
    c.request.reqId = resp.reqId ∧ e.reply = resp.reply

variable {client : ℕ}

lemma Answers.mono {sys sys' : System L}
    (hcalls : ∀ (i : ℕ) c, sys.calls[i]? = some c → sys'.calls[i]? = some c)
    (hexec : sys.executions ⊆ sys'.executions) {resp : Response}
    (h : sys.Answers client resp) : sys'.Answers client resp := by
  obtain ⟨e, he, c, hc, hrest⟩ := h
  exact ⟨e, hexec he, c, hcalls _ c hc, hrest⟩

structure Sound (sys : System L) : Prop extends sys.Numbered where
  kept : ∀ k r, sys.serving.server.dedup.find k = some r → ∃ e ∈ sys.executions, ∃ c,
    sys.calls[e.call]? = some c ∧ submitKeyOf c.request.body = some k ∧ e.reply = r.reply
  known : ∀ e ∈ sys.executions, ∃ c k, sys.calls[e.call]? = some c ∧
    submitKeyOf c.request.body = some k ∧ (sys.serving.server.dedup.find k).isSome = true
  once : (sys.executions.map Execution.call).Nodup
  held : ∀ p ∈ sys.serving.held, sys.Answers p.1 p.2
  cells : ∀ n reqId r, (sys.clients n).cells reqId = some (some r) →
    r.reqId = reqId ∧ sys.Answers n r
  results : ∀ res ∈ sys.results, ∀ r, res.response = some r → ∃ c e, sys.calls[res.call]? = some c ∧
    r.reqId = c.request.reqId ∧ e ∈ sys.executions ∧ e.call = res.call ∧ e.reply = r.reply

namespace Sound

variable {sys : System L}

lemma start (db : Query.Database) (sql : Sql.Engine L) : (System.start db sql).Sound where
  apart := List.Pairwise.nil
  reqId_le _ hc := absurd hc not_mem_nil
  key _ hc := absurd hc not_mem_nil
  reserved _ := ⟨nodup_nil, nofun⟩
  kept _ _ hr := absurd hr (some_ne_none _).symm
  known _ he := absurd he not_mem_nil
  once := nodup_nil
  held _ hp := absurd hp not_mem_nil
  cells _ _ _ hr := absurd hr (some_ne_none _).symm
  results _ hres := absurd hres not_mem_nil

section

variable (h : sys.Sound)

include h

lemma setClient {c : Client} (hreq : (sys.clients client).reqId ≤ c.reqId)
    (hkey : (sys.clients client).submitKey ≤ c.submitKey) (hnodup : c.reserved.Nodup)
    (hreserved : ∀ k ∈ c.reserved, k ≤ c.submitKey ∧
      (k ∈ (sys.clients client).reserved ∨ (sys.clients client).submitKey < k))
    (hcells : ∀ reqId r, c.cells reqId = some (some r) → r.reqId = reqId ∧ sys.Answers client r) :
    (sys.setClient client c).Sound := by
  refine { h with reqId_le := ?_, key := ?_, reserved := ?_, cells := ?_ }
  · intro call hcall
    show _ ≤ (if call.client = client then c else _).reqId
    split_ifs with hclient
    · exact (hclient ▸ h.reqId_le call hcall).trans hreq
    · exact h.reqId_le call hcall
  · intro call hcall
    obtain ⟨k, hk, hle, hnot⟩ := h.key call hcall
    refine ⟨k, hk, ?_⟩
    show k ≤ (if call.client = client then c else _).submitKey ∧
      k ∉ (if call.client = client then c else _).reserved
    split_ifs with hclient
    · rw [hclient] at hle hnot
      exact ⟨hle.trans hkey, fun hmem ↦ (hreserved k hmem).2.elim hnot hle.not_gt⟩
    · exact ⟨hle, hnot⟩
  · intro n
    show (if n = client then c else _).reserved.Nodup ∧
      ∀ k ∈ (if n = client then c else _).reserved, k ≤ (if n = client then c else _).submitKey
    split_ifs
    · exact ⟨hnodup, fun k hk ↦ (hreserved k hk).1⟩
    · exact h.reserved n
  · intro n reqId r
    show (if n = client then c else _).cells reqId = _ → _
    split_ifs with hclient
    · rw [hclient]
      exact hcells reqId r
    · exact h.cells n reqId r

lemma newSubmitKey (client : ℕ) :
    (sys.setClient client (sys.clients client).newSubmitKey).Sound := by
  obtain ⟨hnodup, hle⟩ := h.reserved client
  refine h.setClient le_rfl (Nat.le_succ _) ?_ (forall_mem_append.mpr
    ⟨fun k hk ↦ ⟨(hle k hk).trans (Nat.le_succ _), .inl hk⟩,
      forall_mem_singleton.mpr ⟨le_rfl, .inr (Nat.lt_succ_self _)⟩⟩) (h.cells client)
  exact hnodup.append (nodup_singleton _)
    (disjoint_singleton.mpr fun hmem ↦ Nat.not_succ_le_self _ (hle _ hmem))

lemma pump {resp : Response} (hresp : sys.Answers client resp) :
    (sys.setClient client ((sys.clients client).pump resp)).Sound := by
  obtain ⟨hnodup, hle⟩ := h.reserved client
  refine h.setClient le_rfl le_rfl hnodup (fun k hk ↦ ⟨hle k hk, .inl hk⟩) fun reqId r hr ↦ ?_
  change (if _ then some (some resp) else (sys.clients client).cells reqId) = _ at hr
  split_ifs at hr with hfill
  · obtain rfl := some.inj (some.inj hr)
    exact ⟨hfill.1.symm, hresp⟩
  · exact h.cells client reqId r hr

lemma close (client reqId : ℕ) :
    (sys.setClient client ((sys.clients client).close reqId)).Sound := by
  obtain ⟨hnodup, hle⟩ := h.reserved client
  refine h.setClient le_rfl le_rfl hnodup (fun k hk ↦ ⟨hle k hk, .inl hk⟩) fun n r hr ↦ ?_
  change (if _ then none else (sys.clients client).cells n) = _ at hr
  split_ifs at hr
  exact h.cells client n r hr

lemma issue {c : Client} {body : Body} {k : ℕ}
    (hbody : submitKeyOf body = some k) (hreq : c.reqId = (sys.clients client).reqId)
    (hcells : c.cells = (sys.clients client).cells)
    (hkey : (sys.clients client).submitKey ≤ c.submitKey) (hnodup : c.reserved.Nodup)
    (hreserved : ∀ k ∈ c.reserved, k ≤ c.submitKey ∧ k ∈ (sys.clients client).reserved)
    (hown : k ≤ c.submitKey ∧ k ∉ c.reserved)
    (hfresh : ∀ call ∈ sys.calls, call.client = client → submitKeyOf call.request.body ≠ some k) :
    (sys.issue client c body).Sound := by
  have hset : (sys.setClient client c.roundTrip).Sound := by
    refine h.setClient (hreq ▸ Nat.le_succ _) hkey hnodup
      (fun k hk ↦ ⟨(hreserved k hk).1, .inl (hreserved k hk).2⟩) fun reqId r hr ↦ ?_
    change (if _ then some none else c.cells reqId) = _ at hr
    split_ifs at hr
    · exact absurd (some.inj hr) (some_ne_none _).symm
    · exact h.cells client reqId r (hcells ▸ hr)
  have hgrow : ∀ (i : ℕ) call, sys.calls[i]? = some call →
      (sys.issue client c body).calls[i]? = some call := by
    intro i call hcall
    show (sys.calls ++ _)[i]? = _
    rw [List.getElem?_append_left (List.getElem?_eq_some_iff.mp hcall).1, hcall]
  have hanswers : ∀ {n : ℕ} {resp : Response}, sys.Answers n resp →
      (sys.issue client c body).Answers n resp := Answers.mono hgrow (List.Subset.refl _)
  have hclient : (sys.issue client c body).clients client = c.roundTrip := if_pos rfl
  refine ⟨⟨?_, ?_, ?_, hset.reserved⟩, ?_, ?_, h.once, fun p hp ↦ hanswers (h.held p hp), ?_, ?_⟩
  · refine pairwise_append.mpr ⟨h.apart, pairwise_singleton _ _, fun a ha b hb ↦ ?_⟩
    rw [mem_singleton.mp hb]
    intro heq
    refine ⟨?_, hbody ▸ hfresh a ha heq⟩
    have hle := h.reqId_le a ha
    rw [show a.client = client from heq, ← hreq] at hle
    exact (Nat.lt_succ_of_le hle).ne
  · exact forall_mem_append.mpr ⟨hset.reqId_le, forall_mem_singleton.mpr (hclient ▸ le_rfl)⟩
  · refine forall_mem_append.mpr ⟨hset.key, forall_mem_singleton.mpr ⟨k, hbody, ?_⟩⟩
    show k ≤ ((sys.issue client c body).clients client).submitKey ∧
      k ∉ ((sys.issue client c body).clients client).reserved
    rw [hclient]
    exact hown
  · intro k r hr
    obtain ⟨e, he, call, hcall, hrest⟩ := h.kept k r hr
    exact ⟨e, he, call, hgrow _ call hcall, hrest⟩
  · intro e he
    obtain ⟨call, k, hcall, hrest⟩ := h.known e he
    exact ⟨call, k, hgrow _ call hcall, hrest⟩
  · intro n reqId r hr
    obtain ⟨hid, hresp⟩ := hset.cells n reqId r hr
    exact ⟨hid, hanswers hresp⟩
  · intro res hres r hr
    obtain ⟨call, e, hcall, hrest⟩ := h.results res hres r hr
    exact ⟨call, e, hgrow _ call hcall, hrest⟩

lemma submit {client k : ℕ} (hk : k ∈ (sys.clients client).reserved)
    (op : SubmitOp) (params : List OpParam) :
    (sys.issue client { sys.clients client with reserved := (sys.clients client).reserved.erase k }
      (.submit k op params)).Sound := by
  obtain ⟨hnodup, hle⟩ := h.reserved client
  refine h.issue rfl rfl rfl le_rfl (hnodup.erase k)
    (fun k' hk' ↦ ⟨hle k' (mem_of_mem_erase hk'), mem_of_mem_erase hk'⟩)
    ⟨hle k hk, hnodup.not_mem_erase⟩ fun call hcall hclient hsame ↦ ?_
  obtain ⟨k', hk', -, hnot⟩ := h.key call hcall
  rw [hclient, some.inj (hk'.symm.trans hsame)] at hnot
  exact hnot hk

lemma sql (client : ℕ) (text : Sql.Text) :
    (sys.issue client { sys.clients client with submitKey := (sys.clients client).submitKey + 1 }
      (.sqlExec ((sys.clients client).submitKey + 1) text)).Sound := by
  obtain ⟨hnodup, hle⟩ := h.reserved client
  refine h.issue rfl rfl rfl (Nat.le_succ _) hnodup
    (fun k hk ↦ ⟨(hle k hk).trans (Nat.le_succ _), hk⟩)
    ⟨le_rfl, fun hk ↦ absurd (hle _ hk) (Nat.not_succ_le_self _)⟩ fun call hcall hclient hsame ↦ ?_
  obtain ⟨k, hk, hbound, -⟩ := h.key call hcall
  rw [hclient, some.inj (hk.symm.trans hsame)] at hbound
  exact absurd hbound (Nat.not_succ_le_self _)

lemma setServing {serving : Serving L} (hdedup : serving.server.dedup = sys.serving.server.dedup)
    (hheld : ∀ p ∈ serving.held, sys.Answers p.1 p.2) :
    ({ sys with serving := serving } : System L).Sound := by
  refine { h with kept := ?_, known := ?_, held := hheld }
  · rw [hdedup]
    exact h.kept
  · rw [hdedup]
    exact h.known

lemma idle : ({ sys with serving := sys.serving.flush } : System L).Sound := by
  refine h.setServing ?_ ?_
  · unfold Serving.flush
    split_ifs <;> rfl
  · rw [Serving.held_flush]
    exact h.held

end

variable {c : Call}

lemma deliver_new (h : sys.Sound) {i : ℕ} (hc : sys.calls[i]? = some c)
    (hnew : isNew sys.serving.server c.request.body = true) : (sys.deliver i).Sound := by
  obtain ⟨k, hk, hfree, hdedup⟩ := dispatch_of_new hnew
  obtain ⟨hserver, hheld⟩ := sys.serving.turn_open c.client c.request
  have hdeliver : sys.deliver i = { sys with
      serving := sys.serving.turn none { sender := c.client, request := some c.request }
      executions := sys.executions ++
        [⟨i, (sys.serving.server.dispatch c.request).1.reply⟩] } := by
    simp [deliver, hc, hnew]
  have hsub : sys.executions ⊆ sys.executions ++
      [⟨i, (sys.serving.server.dispatch c.request).1.reply⟩] := subset_append_left _ _
  have hanswers : ∀ {n : ℕ} {resp : Response}, sys.Answers n resp →
      (sys.deliver i).Answers n resp := by
    rw [hdeliver]
    intro n resp hresp
    refine hresp.mono ?_ ?_
    · exact fun _ _ hc ↦ hc
    · exact hsub
  rw [hdeliver] at hanswers ⊢
  refine { h with kept := ?_, known := ?_, once := ?_, held := ?_, cells := ?_, results := ?_ }
  · intro k' r hr
    rw [hserver, hdedup, OrderedMap.find_insert] at hr
    split_ifs at hr with hsame
    · rw [← some.inj hr, ← hsame]
      exact ⟨_, mem_append_right _ mem_cons_self, c, hc, hk, rfl⟩
    · obtain ⟨e, he, hrest⟩ := h.kept k' r hr
      exact ⟨e, hsub he, hrest⟩
  · intro e he
    rw [hserver, hdedup]
    rcases mem_append.mp he with he | he
    · obtain ⟨c', k', hc', hk', hknown⟩ := h.known e he
      refine ⟨c', k', hc', hk', ?_⟩
      rw [OrderedMap.find_insert]
      split_ifs
      · rfl
      · exact hknown
    · rw [mem_singleton.mp he]
      refine ⟨c, k, hc, hk, ?_⟩
      rw [OrderedMap.find_insert, if_pos rfl]
      rfl
  · -- an executed call has a known key, and the key of this one was free
    rw [map_append, nodup_append]
    refine ⟨h.once, nodup_singleton _, fun j hj j' hj' heq ↦ ?_⟩
    obtain ⟨e, he, rfl⟩ := mem_map.mp hj
    rw [mem_singleton.mp hj'] at heq
    obtain ⟨c', k', hc', hk', hknown⟩ := h.known e he
    rw [heq, hc] at hc'
    rw [← some.inj hc', hk] at hk'
    rw [← some.inj hk', hfree] at hknown
    exact Bool.false_ne_true hknown
  · intro p hp
    rcases mem_append.mp (hheld.mem_iff.mp hp) with hp | hp
    · exact hanswers (h.held p hp)
    · rw [mem_singleton.mp hp]
      exact ⟨_, mem_append_right _ mem_cons_self, c, hc, rfl,
        (dispatch_reqId _ _).symm, rfl⟩
  · intro n reqId r hr
    obtain ⟨hid, hresp⟩ := h.cells n reqId r hr
    exact ⟨hid, hanswers hresp⟩
  · intro res hres r hr
    obtain ⟨c', e, hc', hid, he, hrest⟩ := h.results res hres r hr
    exact ⟨c', e, hc', hid, hsub he, hrest⟩

lemma deliver_known (h : sys.Sound) {i : ℕ} (hc : sys.calls[i]? = some c)
    (hknown : isNew sys.serving.server c.request.body = false)
    (hown : sys.OwnKeys (.deliver i)) : (sys.deliver i).Sound := by
  obtain ⟨hsame, hreply⟩ := dispatch_of_not_new hknown
  obtain ⟨hserver, hheld⟩ := sys.serving.turn_open c.client c.request
  rw [hsame] at hserver
  have hdeliver : sys.deliver i = { sys with
      serving := sys.serving.turn none { sender := c.client, request := some c.request } } := by
    simp [deliver, hc, hknown]
  rw [hdeliver]
  refine h.setServing (by rw [hserver]) fun p hp ↦ ?_
  rcases mem_append.mp (hheld.mem_iff.mp hp) with hp | hp
  · exact h.held p hp
  rw [mem_singleton.mp hp]
  obtain ⟨k, hk, -⟩ := h.key c (mem_of_getElem? hc)
  obtain ⟨cached, hcached⟩ := find_of_not_new hknown hk
  obtain ⟨e, he, c', hc', hk', hkept⟩ := h.kept k cached hcached
  have hclient : c'.client = c.client := hown c hc e he c' hc' (hk'.trans hk.symm)
  have hcall : e.call = i :=
    h.toNumbered.eq hc' hc hclient (.inr (hk'.trans hk.symm))
  refine ⟨e, he, c, hcall ▸ hc, rfl, (dispatch_reqId _ _).symm, ?_⟩
  rw [hreply k cached hk hcached, hkept]

lemma finish (h : sys.Sound) {i : ℕ} (hc : sys.calls[i]? = some c)
    {cell : Option Response} (hcell : (sys.clients c.client).cells c.request.reqId = some cell) :
    ({ sys.setClient c.client ((sys.clients c.client).close c.request.reqId) with
      results := sys.results ++ [⟨i, cell⟩] } : System L).Sound := by
  refine { h.close c.client c.request.reqId with results := ?_ }
  intro res hres r hr
  rcases mem_append.mp hres with hres | hres
  · exact h.results res hres r hr
  rw [mem_singleton.mp hres] at hr ⊢
  obtain rfl : cell = some r := hr
  obtain ⟨hid, e, he, c', hc', hclient, hreq, hreply⟩ := h.cells _ _ _ hcell
  have hcall : e.call = i := h.toNumbered.eq hc' hc hclient (.inl (hreq.trans hid))
  exact ⟨c, e, hc, hid, he, hcall, hreply⟩

lemma step (h : sys.Sound) {event : Event} (hown : sys.OwnKeys event) :
    (sys.step event).Sound := by
  cases event with
  | newSubmitKey client => exact h.newSubmitKey client
  | submit client k op params =>
    simp only [System.step]
    split_ifs with hk
    · exact h.submit hk op params
    · exact h
  | sql client text => exact h.sql client text
  | deliver i =>
    show (sys.deliver i).Sound
    cases hc : sys.calls[i]? with
    | none =>
      simp only [System.deliver, hc]
      exact h
    | some c =>
      cases hnew : isNew sys.serving.server c.request.body with
      | true => exact h.deliver_new hc hnew
      | false => exact h.deliver_known hc hnew hown
  | idle => exact h.idle
  | reply sent =>
    simp only [System.step]
    split
    · exact h
    · next client resp hsent =>
      exact h.pump (h.held _ (mem_append_left _ (mem_of_getElem? hsent)))
  | finish i =>
    simp only [System.step]
    split
    · exact h
    · next c hc =>
      split
      · exact h
      · next cell hcell => exact h.finish hc hcell

end Sound

end System

/-- Every run in which no frame finds its key taken by a call of another client: each call was
executed at most once, and a call that returned with a response was executed exactly once and has
the reply of that execution. -/
theorem exactly_once (db : Query.Database) (sql : Sql.Engine L) (events : List Event)
    (h : Meets System.step System.OwnKeys (System.start db sql) events) :
    let sys := run System.step (System.start db sql) events
    (∀ call, (sys.executions.map Execution.call).count call ≤ 1) ∧
      ∀ res ∈ sys.results, ∀ resp, res.response = some resp →
        (sys.executions.map Execution.call).count res.call = 1 ∧
          ⟨res.call, resp.reply⟩ ∈ sys.executions ∧
          ∃ c, sys.calls[res.call]? = some c ∧ resp.reqId = c.request.reqId := by
  have hsound := h.induction System.Sound (fun _ _ hs hown ↦ hs.step hown) (.start db sql)
  intro sys
  refine ⟨nodup_iff_count_le_one.mp hsound.once, fun res hres resp hresp ↦ ?_⟩
  obtain ⟨c, e, hc, hid, he, hcall, hreply⟩ := hsound.results res hres resp hresp
  have hexec : ⟨res.call, resp.reply⟩ ∈ sys.executions := by
    rw [← hcall, ← hreply]
    exact he
  exact ⟨count_eq_one_of_mem hsound.once (mem_map_of_mem hexec), hexec, c, hc, hid⟩

def repeatedPuts : List Event :=
  [.newSubmitKey 0, .submit 0 1 .put [{ key := [1], value := [2] }], .newSubmitKey 1,
    .newSubmitKey 1, .submit 1 2 .put [{ key := [3], value := [4] }], .deliver 0, .deliver 1,
    .deliver 0, .idle, .reply 1, .finish 1, .deliver 1, .idle]

/-- Two clients with keys of their own, whose frames arrive twice. -/
theorem exactly_once_repeated_puts :
    let sys := run System.step (System.start {} newServer.sql) repeatedPuts
    sys.executions.map Execution.call = [0, 1] ∧ sys.results.map CallResult.call = [1] ∧
      ∀ res ∈ sys.results, ∀ resp, res.response = some resp →
        (sys.executions.map Execution.call).count res.call = 1 := by
  intro sys
  have honce := (exactly_once {} newServer.sql repeatedPuts (by decide +kernel)).2
  exact ⟨by decide +kernel, by decide +kernel, fun res hres resp hresp ↦
    (honce res hres resp hresp).1⟩

def twoClients : List Event :=
  [.newSubmitKey 0, .submit 0 1 .put [{ key := [1], value := [2] }],
    .newSubmitKey 1, .submit 1 1 .put [{ key := [3], value := [4] }],
    .deliver 0, .deliver 1, .idle, .reply 1, .finish 1]

/-- The call of the second client succeeds, with the reply of the first one, and is not executed. -/
theorem second_client_not_executed :
    ∃ res ∈ (run System.step (System.start {} newServer.sql) twoClients).results,
      res.response.isSome = true ∧
        ((run System.step (System.start {} newServer.sql) twoClients).executions.map
          Execution.call).count res.call = 0 := by
  decide +kernel

end Lockstep.Wire
