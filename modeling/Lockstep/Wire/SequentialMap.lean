import Lockstep.Wire.Replies

/-!
# Keyed submits as a map

Puts, increments and transfers against the map that they describe, with restarts between them. An
increment or a transfer computes from what the batch in memory leaves on an empty store, and its
writes are applied to the store that queries read.

The batch starts empty with every server, while the store is recovered, so the two have the same
balances only for keys that were written since the last restart.
-/

namespace Lockstep.Wire

open Library Query OrderedMap Database Server GuardedRun Serial PersistentStore List Option

open Storage (Key Value)

open Transactions (Txn)

variable {m : OrderedMap Key Value} {z : ℤ}

/-! ### Balances as text -/

def InRange (z : ℤ) : Prop := -2 ^ 63 ≤ z ∧ z < 2 ^ 63

instance (z : ℤ) : Decidable (InRange z) := inferInstanceAs (Decidable (_ ∧ _))

lemma parseMagnitude_concat (text : Value) (c : UInt8) (mag : ℕ) :
    parseMagnitude (text ++ [c]) mag = (parseMagnitude text mag).bind (parseMagnitude [c]) := by
  induction text generalizing mag with
  | nil => rfl
  | cons d text ih =>
    rw [cons_append, parseMagnitude, parseMagnitude]
    split_ifs
    · rfl
    · exact ih _

lemma parseMagnitude_digit {digit mag : ℕ} (hdigit : digit < 10)
    (hmag : mag * 10 + digit < 2 ^ 64) :
    parseMagnitude [UInt8.ofNat (48 + digit)] mag = some (mag * 10 + digit) := by
  have htoNat : (UInt8.ofNat (48 + digit)).toNat = 48 + digit := by
    rw [UInt8.toNat_ofNat']
    omega
  have hdec : ¬(UInt8.ofNat (48 + digit) < 48 ∨ 57 < UInt8.ofNat (48 + digit)) := by
    rw [UInt8.lt_iff_toNat_lt, UInt8.lt_iff_toNat_lt, htoNat]
    show ¬(48 + digit < 48 ∨ 57 < 48 + digit)
    omega
  rw [parseMagnitude, if_neg hdec, htoNat, parseMagnitude, Nat.add_sub_cancel_left,
    Nat.mod_eq_of_lt hmag]

lemma parseMagnitude_digitsRev {fuel n : ℕ} (hfuel : n ≤ fuel) (hn : n < 2 ^ 64) :
    parseMagnitude (digitsRev fuel n).reverse 0 = some n := by
  induction fuel generalizing n with
  | zero =>
    obtain rfl : n = 0 := Nat.le_zero.mp hfuel
    rfl
  | succ fuel ih =>
    cases n with
    | zero => rfl
    | succ n =>
      rw [digitsRev, reverse_cons, parseMagnitude_concat, ih (by omega) (by omega)]
      · show parseMagnitude [_] ((n + 1) / 10) = _
        rw [parseMagnitude_digit (Nat.mod_lt _ (by decide)) (by omega)]
        congr 1
        omega
      · exact Nat.succ_ne_zero n

lemma parseBalance_cons {c : UInt8} (hc : c ≠ 45) (rest : Value) :
    parseBalance (some (c :: rest)) =
      ((parseMagnitude (c :: rest) 0).map fun mag : ℕ ↦ Int.bmod mag (2 ^ 64)).getD 0 := by
  rw [parseBalance, if_neg hc]

lemma parseBalance_minus (rest : Value) :
    parseBalance (some (45 :: rest)) =
      ((parseMagnitude rest 0).map fun mag : ℕ ↦ Int.bmod (-mag) (2 ^ 64)).getD 0 := by
  rw [parseBalance, if_pos rfl]

lemma parseBalance_encodeBalance (hz : InRange z) :
    parseBalance (some (encodeBalance z)) = z := by
  obtain ⟨hlow, hhigh⟩ := hz
  unfold encodeBalance
  by_cases hzero : z = 0
  · have hmag : parseMagnitude [48] 0 = some 0 :=
      parseMagnitude_digit (by decide : 0 < 10) (by decide : 0 * 10 + 0 < 2 ^ 64)
    rw [hzero]
    decide
  · rw [if_neg hzero]
    have hmag : parseMagnitude (digitsRev z.natAbs z.natAbs).reverse 0 = some z.natAbs :=
      parseMagnitude_digitsRev le_rfl (by omega)
    by_cases hneg : z < 0
    · rw [if_pos hneg]
      rw [singleton_append, parseBalance_minus, hmag, map_some, getD_some,
        Int.bmod_eq_of_le (by omega) (by omega)]
      omega
    · rw [if_neg hneg, nil_append]
      cases htext : (digitsRev z.natAbs z.natAbs).reverse with
      | nil =>
        rw [htext] at hmag
        have := some.inj hmag
        omega
      | cons c rest =>
        rw [htext] at hmag
        have hc : c ≠ 45 := by
          rintro rfl
          exact some_ne_none _ hmag.symm
        rw [parseBalance_cons hc, hmag, map_some, getD_some,
          Int.bmod_eq_of_le (by omega) (by omega)]
        omega

lemma encodeBalance_inj {z' : ℤ} (hz : InRange z) (hz' : InRange z') :
    encodeBalance z = encodeBalance z' ↔ z = z' := by
  refine ⟨fun h ↦ ?_, congrArg _⟩
  rw [← parseBalance_encodeBalance hz, h, parseBalance_encodeBalance hz']

lemma encodeBalance_ne_deleteSentinel (hz : InRange z) : encodeBalance z ≠ deleteSentinel := by
  intro h
  have hparse := parseBalance_encodeBalance hz
  rw [h] at hparse
  have hzero : z = 0 := by
    rw [← hparse]
    rfl
  rw [hzero] at h
  exact absurd h (by decide)

/-! ### The writes of an operation -/

def writesOf (read : Key → Option Value) (op : SubmitOp) (params : List OpParam) : WriteSet :=
  match op with
  | .put => empty.insert (params.getD 0 {}).key (params.getD 0 {}).value
  | .transfer =>
    let pa := params.getD 0 {}
    let pb := params.getD 1 {}
    (empty.insert pa.key (encodeBalance (parseBalance (read pa.key) - pa.amount))).insert
      pb.key (encodeBalance (parseBalance (read pb.key) + pa.amount))
  | .increment =>
    let p := params.getD 0 {}
    empty.insert p.key (encodeBalance (parseBalance (read p.key) + p.amount))

lemma plain_materialize (submitKey : ℕ) (op : SubmitOp) (params : List OpParam) :
    Plain (materialize submitKey op params) := by
  cases op with
  | put => exact ⟨nofun, fun _ ↦ rfl⟩
  | transfer =>
    refine ⟨fun r hr ↦ ?_, fun _ ↦ rfl⟩
    rcases mem_pair.mp hr with rfl | rfl <;> rfl
  | increment =>
    refine ⟨fun r hr ↦ ?_, fun _ ↦ rfl⟩
    rw [mem_singleton.mp hr]

lemma outcome_materialize (state : Transactions.StrictSerialOracle.State) (submitKey : ℕ)
    (op : SubmitOp) (params : List OpParam) :
    (outcome state (materialize submitKey op params)).writes =
      writesOf state.store.find op params := by
  cases op with
  | put => rfl
  | increment =>
    show empty.insert _ (encodeBalance (parseBalance
      (((empty.insert _ (state.store.find _)).find _).join) + _)) = _
    rw [find_insert, if_pos rfl]
    rfl
  | transfer =>
    show (empty.insert _ (encodeBalance (parseBalance (readOf ((empty.insert
      _ (state.store.find _)).insert _ (state.store.find _)) _) - _))).insert _ (encodeBalance
      (parseBalance (readOf ((empty.insert _ (state.store.find _)).insert _
        (state.store.find _)) _) + _)) = _
    unfold readOf
    have hfirst : ∀ a b : Key, ((empty.insert a (state.store.find a)).insert b
        (state.store.find b)).find a = some (state.store.find a) := by
      intro a b
      rw [find_insert, find_insert]
      split_ifs with hab haa
      · rw [hab]
      · rfl
      · exact absurd rfl haa
    have hsecond : ∀ a b : Key, ((empty.insert a (state.store.find a)).insert b
        (state.store.find b)).find b = some (state.store.find b) := by
      intro a b
      rw [find_insert, if_pos rfl]
    rw [hfirst, hsecond]
    rfl

variable {L : Sql.Language}

def batchStore (s : Server L) : OrderedMap Key Value :=
  (s.batch.foldl advance {}).store

variable {s : Server L}

lemma submitNew_writes (hplain : ∀ t ∈ s.batch, Plain t)
    (reqId submitKey : ℕ) (op : SubmitOp) (params : List OpParam) :
    (s.submitNew reqId submitKey op params).2.db.writes =
        s.db.writes ++ (writesOf (batchStore s).find op params).entries ∧
      (s.submitNew reqId submitKey op params).2.batch =
        s.batch ++ [materialize submitKey op params] := by
  have hlast : ∃ ci, (if decide (op = .put) = true then submit [materialize submitKey op params]
      else submit (s.batch ++ [materialize submitKey op params])).commits.getLast? = some ci ∧
        ci.status = .committed ∧ ci.writesCommitted = writesOf (batchStore s).find op params := by
    split_ifs with hput
    · have hone : ∀ t ∈ [] ++ [materialize submitKey op params], Plain t :=
        forall_mem_singleton.mpr (plain_materialize _ _ _)
      refine ⟨_, submit_last hone _, rfl, ?_⟩
      obtain rfl := of_decide_eq_true hput
      rfl
    · have hall : ∀ t ∈ s.batch ++ [materialize submitKey op params], Plain t :=
        forall_mem_append.mpr ⟨hplain, forall_mem_singleton.mpr (plain_materialize _ _ _)⟩
      exact ⟨_, submit_last hall _, rfl, outcome_materialize _ _ _ _⟩
  obtain ⟨ci, hci, hstatus, hwrites⟩ := hlast
  simp only [submitNew, hci, if_pos hstatus]
  refine ⟨?_, trivial⟩
  rw [← hwrites]
  split_ifs <;> rfl

inductive KeyedEvent where
  | submit (reqId submitKey : ℕ) (op : SubmitOp) (params : List OpParam)
  | restart
  deriving DecidableEq

def KeyedEvent.submitKey : KeyedEvent → Option ℕ
  | .submit _ submitKey _ _ => some submitKey
  | .restart => none

def Server.keyedStep (s : Server L) : KeyedEvent → Server L
  | .submit reqId submitKey op params => (s.dispatch ⟨reqId, .submit submitKey op params⟩).2
  | .restart => s.restart s.sql

def mapStep (m : OrderedMap Key Value) : KeyedEvent → OrderedMap Key Value
  | .submit _ _ .put params => m.insert (params.getD 0 {}).key (params.getD 0 {}).value
  | .submit _ _ .transfer params =>
    let pa := params.getD 0 {}
    let pb := params.getD 1 {}
    let m := m.insert pa.key (encodeBalance (parseBalance (m.find pa.key) - pa.amount))
    m.insert pb.key (encodeBalance (parseBalance (m.find pb.key) + pa.amount))
  | .submit _ _ .increment params =>
    let p := params.getD 0 {}
    m.insert p.key (encodeBalance (parseBalance (m.find p.key) + p.amount))
  | .restart => m

def Server.Returns (s : Server L) (m : OrderedMap Key Value) : Prop :=
  ∀ reqId steps, ∃ version, (s.dispatch ⟨reqId, .query { steps := steps }⟩).1 =
    ⟨reqId, .queryOk .strictSerializable version (steps.map (readStep m))⟩

lemma returns_iff (s : Server L) (m : OrderedMap Key Value) :
    s.Returns m ↔ table s.db.writes = m := by
  have hquery : ∀ reqId steps, (s.dispatch ⟨reqId, .query { steps := steps }⟩).1 =
      ⟨reqId, .queryOk .strictSerializable s.db.tip
        (steps.map (readStep (table s.db.writes)))⟩ := by
    intro reqId steps
    show Response.mk _ (.queryOk _ (s.db.run { steps := steps }).1
      (s.db.run { steps := steps }).2) = _
    rw [run_strict]
  constructor
  · intro h
    refine ext_find fun key ↦ ?_
    obtain ⟨version, hreply⟩ := h 0 [.point key]
    rw [hquery] at hreply
    have hboth : s.db.tip = version ∧ (table s.db.writes).find key = m.find key := by
      simpa [readStep] using hreply
    exact hboth.2
  · rintro rfl reqId steps
    exact ⟨_, hquery reqId steps⟩

/-! ### Where the server follows the map -/

def batchBalance (s : Server L) (key : Key) : ℤ := parseBalance ((batchStore s).find key)

def storeBalance (s : Server L) (key : Key) : ℤ :=
  parseBalance ((table s.db.writes).find key)

/-- The sums stay in 64 bits, with the balances of the batch and with those of the store. -/
def NoOverflow (s : Server L) : KeyedEvent → Prop
  | .submit _ _ .put _ => True
  | .submit _ _ .transfer params =>
    let pa := params.getD 0 {}
    let pb := params.getD 1 {}
    InRange (batchBalance s pa.key - pa.amount) ∧ InRange (batchBalance s pb.key + pa.amount) ∧
      InRange (storeBalance s pa.key - pa.amount) ∧
      (pa.key ≠ pb.key → InRange (storeBalance s pb.key + pa.amount))
  | .submit _ _ .increment params =>
    let p := params.getD 0 {}
    InRange (batchBalance s p.key + p.amount) ∧ InRange (storeBalance s p.key + p.amount)
  | .restart => True

/-- A put of another value than the delete marker; an increment of a balance that the batch knows; a
transfer between different keys whose balances the batch knows, or one from a key to itself that
happens to make up for what the batch does not know. -/
def Faithful (s : Server L) : KeyedEvent → Prop
  | .submit _ _ .put params => (params.getD 0 {}).value ≠ deleteSentinel
  | .submit _ _ .transfer params =>
    let pa := params.getD 0 {}
    let pb := params.getD 1 {}
    if pa.key = pb.key then batchBalance s pa.key + pa.amount = storeBalance s pa.key
    else batchBalance s pa.key = storeBalance s pa.key ∧
      batchBalance s pb.key = storeBalance s pb.key
  | .submit _ _ .increment params =>
    let p := params.getD 0 {}
    batchBalance s p.key = storeBalance s p.key
  | .restart => True

instance (s : Server L) : ∀ event, Decidable (NoOverflow s event)
  | .submit _ _ .put _ => inferInstanceAs (Decidable True)
  | .submit _ _ .transfer _ => inferInstanceAs (Decidable (_ ∧ _ ∧ _ ∧ (_ → _)))
  | .submit _ _ .increment _ => inferInstanceAs (Decidable (_ ∧ _))
  | .restart => inferInstanceAs (Decidable True)

instance (s : Server L) : ∀ event, Decidable (Faithful s event)
  | .submit _ _ .put _ => inferInstanceAs (Decidable (_ ≠ _))
  | .submit _ _ .transfer params =>
    if hkeys : (params.getD 0 {}).key = (params.getD 1 {}).key then
      decidable_of_iff (batchBalance s (params.getD 0 {}).key + (params.getD 0 {}).amount =
        storeBalance s (params.getD 0 {}).key) (by simp only [Faithful, if_pos hkeys])
    else
      decidable_of_iff
        (batchBalance s (params.getD 0 {}).key = storeBalance s (params.getD 0 {}).key ∧
          batchBalance s (params.getD 1 {}).key = storeBalance s (params.getD 1 {}).key)
        (by simp only [Faithful, if_neg hkeys])
  | .submit _ _ .increment _ => inferInstanceAs (Decidable (_ = _))
  | .restart => inferInstanceAs (Decidable True)

lemma parseBalance_inRange (value : Option Value) : InRange (parseBalance value) := by
  have hmod : ∀ z : ℤ, InRange (Int.bmod z (2 ^ 64)) := by
    intro z
    have hlow := Int.le_bmod (x := z) (m := 2 ^ 64) (by decide)
    have hhigh := Int.bmod_lt (x := z) (m := 2 ^ 64) (by decide)
    exact ⟨by omega, by omega⟩
  have hzero : InRange 0 := by decide
  have hread : ∀ (text : Value) (f : ℕ → ℤ), (∀ n, InRange (f n)) →
      InRange (((parseMagnitude text 0).map f).getD 0) := by
    intro text f hf
    cases parseMagnitude text 0 with
    | none => exact hzero
    | some mag => exact hf mag
  cases value with
  | none => exact hzero
  | some text =>
    cases text with
    | nil => exact hzero
    | cons c rest =>
      by_cases hc : c = 45
      · rw [hc]
        exact hread _ _ fun _ ↦ hmod _
      · rw [parseBalance_cons hc]
        exact hread _ _ fun _ ↦ hmod _

section Tables

variable {writes : List (Key × Value)} {a b : Key} {x y : Value}

lemma find_table_append (ws : WriteSet) (key : Key) :
    (table (writes ++ ws.entries)).find key =
      ((ws.find key).map effect).getD ((table writes).find key) := by
  rw [find_table, find_table, contents_append_entries]

lemma table_append_one (hx : x ≠ deleteSentinel) :
    table (writes ++ (empty.insert a x : WriteSet).entries) =
      (table writes).insert a x := by
  refine ext_find fun key ↦ ?_
  rw [find_table_append, find_insert, find_insert]
  split_ifs
  · exact if_neg hx
  · rfl

lemma table_append_two (hx : x ≠ deleteSentinel) (hy : y ≠ deleteSentinel) :
    table (writes ++ ((empty.insert a x).insert b y : WriteSet).entries) =
      ((table writes).insert a x).insert b y := by
  refine ext_find fun key ↦ ?_
  rw [find_table_append, find_insert, find_insert, find_insert, find_insert]
  split_ifs
  · exact if_neg hy
  · exact if_neg hx
  · rfl

lemma insert_eq_iff : m.insert a x = m.insert a y ↔ x = y := by
  refine ⟨fun h ↦ ?_, fun h ↦ by rw [h]⟩
  have hfind := congrArg (find · a) h
  simpa [find_insert] using hfind

lemma insert_insert_eq_iff {x' y' : Value} (hab : a ≠ b) :
    (m.insert a x).insert b y = (m.insert a x').insert b y' ↔ x = x' ∧ y = y' := by
  refine ⟨fun h ↦ ⟨?_, ?_⟩, fun h ↦ by rw [h.1, h.2]⟩
  · have hfind := congrArg (find · a) h
    simpa [find_insert, hab.symm] using hfind
  · have hfind := congrArg (find · b) h
    simpa [find_insert] using hfind

lemma insert_insert_self : (m.insert a x).insert a y = m.insert a y := by
  refine ext_find fun key ↦ ?_
  rw [find_insert, find_insert, find_insert]
  split_ifs <;> rfl

end Tables

section Submits

variable {s : Server L} {params : List OpParam} (reqId submitKey : ℕ)

lemma put_iff (read : Key → Option Value) :
    table (s.db.writes ++ (writesOf read .put params).entries) =
        mapStep (table s.db.writes) (.submit reqId submitKey .put params) ↔
      Faithful s (.submit reqId submitKey .put params) := by
  constructor
  · intro h hvalue
    have hfind := congrArg (find · (params.getD 0 {}).key) h
    simp only [mapStep, writesOf] at hfind
    rw [find_table_append, find_insert, find_insert, if_pos rfl, if_pos rfl,
      map_some, getD_some, effect, if_pos hvalue] at hfind
    exact some_ne_none _ hfind.symm
  · exact fun hvalue ↦ table_append_one hvalue

lemma increment_iff (hrange : NoOverflow s (.submit reqId submitKey .increment params)) :
    table (s.db.writes ++ (writesOf (batchStore s).find .increment params).entries) =
        mapStep (table s.db.writes) (.submit reqId submitKey .increment params) ↔
      Faithful s (.submit reqId submitKey .increment params) := by
  simp only [NoOverflow, batchBalance, storeBalance] at hrange
  simp only [writesOf, mapStep, Faithful, batchBalance, storeBalance]
  generalize params.getD 0 {} = p at hrange ⊢
  obtain ⟨hbatch, hstore⟩ := hrange
  rw [table_append_one (encodeBalance_ne_deleteSentinel hbatch), insert_eq_iff,
    encodeBalance_inj hbatch hstore]
  exact add_left_inj _

lemma transfer_iff (hrange : NoOverflow s (.submit reqId submitKey .transfer params)) :
    table (s.db.writes ++ (writesOf (batchStore s).find .transfer params).entries) =
        mapStep (table s.db.writes) (.submit reqId submitKey .transfer params) ↔
      Faithful s (.submit reqId submitKey .transfer params) := by
  simp only [NoOverflow, batchBalance, storeBalance] at hrange
  simp only [writesOf, mapStep, Faithful, batchBalance, storeBalance]
  generalize params.getD 0 {} = pa at hrange ⊢
  generalize params.getD 1 {} = pb at hrange ⊢
  obtain ⟨hfirst, hsecond, hstoreFirst, hstoreSecond⟩ := hrange
  rw [table_append_two (encodeBalance_ne_deleteSentinel hfirst)
    (encodeBalance_ne_deleteSentinel hsecond), find_insert]
  split_ifs with hkeys
  · -- the amount is taken from the text of the first balance and added again
    rw [← hkeys] at hsecond ⊢
    rw [insert_insert_self, insert_insert_self, insert_eq_iff,
      parseBalance_encodeBalance hstoreFirst, sub_add_cancel,
      encodeBalance_inj hsecond (parseBalance_inRange _)]
  · rw [insert_insert_eq_iff hkeys, encodeBalance_inj hfirst hstoreFirst,
      encodeBalance_inj hsecond (hstoreSecond hkeys)]
    exact and_congr (sub_left_inj) (add_left_inj _)

end Submits

structure Ready (s : Server L) (events : List KeyedEvent) : Prop where
  plain : ∀ t ∈ s.batch, Plain t
  fresh : ∀ key ∈ events.filterMap KeyedEvent.submitKey, s.dedup.find key = none
  distinct : (events.filterMap KeyedEvent.submitKey).Nodup

variable {events : List KeyedEvent}

lemma Ready.step_iff {event : KeyedEvent}
    (h : Ready s (event :: events)) (hrange : NoOverflow s event) :
    (table (s.keyedStep event).db.writes = mapStep (table s.db.writes) event ↔
      Faithful s event) ∧ Ready (s.keyedStep event) events := by
  cases event with
  | restart =>
    refine ⟨iff_of_true rfl trivial, nofun, fun _ _ ↦ rfl, ?_⟩
    exact h.distinct
  | submit reqId submitKey op params =>
    have hfresh : s.dedup.find submitKey = none := h.fresh submitKey mem_cons_self
    have hstep : s.keyedStep (.submit reqId submitKey op params) =
        (memoize submitKey (s.submitNew reqId submitKey op params)).2 := by
      simp only [keyedStep, dispatch, handleSubmit, hfresh]
    obtain ⟨hwrites, hbatch⟩ := submitNew_writes h.plain reqId submitKey op params
    obtain ⟨hnot, hdistinct⟩ := nodup_cons.mp h.distinct
    rw [hstep]
    refine ⟨?_, fun t ht ↦ ?_, fun key hkey ↦ ?_, hdistinct⟩
    · show table (s.submitNew reqId submitKey op params).2.db.writes = _ ↔ _
      rw [hwrites]
      cases op with
      | put => exact put_iff reqId submitKey _
      | transfer => exact transfer_iff reqId submitKey hrange
      | increment => exact increment_iff reqId submitKey hrange
    · change t ∈ (s.submitNew reqId submitKey op params).2.batch at ht
      rw [hbatch] at ht
      exact forall_mem_append.mpr
        ⟨h.plain, forall_mem_singleton.mpr (plain_materialize _ _ _)⟩ t ht
    · show ((s.submitNew reqId submitKey op params).2.dedup.insert submitKey _).find key = none
      rw [find_insert, submitNew_dedup, if_neg]
      · exact h.fresh key (mem_cons_of_mem _ hkey)
      · rintro rfl
        exact hnot hkey

lemma Ready.run_iff (h : Ready s events) (hm : table s.db.writes = m)
    (hrange : Meets keyedStep NoOverflow s events) :
    (∀ n ≤ events.length, (run keyedStep s (events.take n)).Returns
        ((events.take n).foldl mapStep m)) ↔
      Meets keyedStep Faithful s events := by
  induction events generalizing s m with
  | nil =>
    refine iff_of_true (fun n _ ↦ ?_) trivial
    rw [take_nil]
    exact (returns_iff s m).mpr hm
  | cons event events ih =>
    subst hm
    obtain ⟨hiff, hready⟩ := h.step_iff hrange.1
    constructor
    · intro hall
      have hone := (returns_iff _ _).mp (hall 1 (by simp))
      refine ⟨hiff.mp hone, (ih hready hone hrange.2).mp fun n hn ↦ ?_⟩
      exact hall (n + 1) (by simpa using hn)
    · rintro ⟨hfaithful, hmeets⟩ n hn
      cases n with
      | zero => exact (returns_iff s _).mpr rfl
      | succ n =>
        exact (ih hready (hiff.mpr hfaithful) hrange.2).mpr hmeets n (by simpa using hn)

def faithfulEvents : List KeyedEvent :=
  [.submit 1 1 .put [{ key := [1], value := [53] }], .restart,
    .submit 2 2 .put [{ key := [2], value := [55] }],
    .submit 3 3 .increment [{ key := [2], amount := 4 }],
    .submit 4 4 .transfer [{ key := [2], amount := 3 }, { key := [3] }]]

def restartedIncrement : List KeyedEvent :=
  [.submit 1 1 .put [{ key := [1], value := [53] }], .restart,
    .submit 2 2 .increment [{ key := [1], amount := 3 }]]

end Lockstep.Wire
