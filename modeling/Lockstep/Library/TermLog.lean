import Mathlib.Data.Set.Basic
import Mathlib.Data.List.Infix
import Mathlib.Logic.Function.Basic
import Mathlib.Logic.Relation
import Mathlib.Order.Lattice
import Mathlib.Tactic.Common

/-!
# Logs replicated by elected terms

The abstract machine behind a leader-based replicated log, over arbitrary node and value types. A
node has a current term, at most one vote per term, and a log. A term has at most one leader; `base`
is the log with which the leader of a term was elected and `history` the log it has grown since.

The quorums may change while the machine runs. Configurations form a chain, the `k`-th with its own
quorums; a node uses the newest it has adopted, a candidate stands with that index, and a voter
refuses a candidate whose index is behind its own.

`Extends` lists what no step undoes, and `Step.extends` proves it once for every step.
-/

namespace Lockstep.Library.TermLog

open List Function

variable {i k t : ℕ}

/-- A log entry: the term of the leader that created it, and its value. -/
structure Entry (V : Type*) where
  term : ℕ
  value : V
  deriving DecidableEq

section Lists

variable {V : Type*}

def lastTerm (log : List (Entry V)) : ℕ :=
  (log.getLast?.map Entry.term).getD 0

/-- The first log is at least as up to date as the second: its last term is larger, or the last
terms agree and it is at least as long. -/
def UpToDate (first second : List (Entry V)) : Prop :=
  lastTerm second < lastTerm first ∨
    (lastTerm second = lastTerm first ∧ second.length ≤ first.length)

open Classical in
/-- The log after a follower has been offered a prefix of the leader's log. -/
noncomputable def adoptLog (log offered : List (Entry V)) : List (Entry V) :=
  if offered <+: log then log else offered

variable {log offered : List (Entry V)}

lemma adoptLog_eq_left (h : offered <+: log) : adoptLog log offered = log :=
  if_pos h

lemma adoptLog_eq_right (h : ¬ offered <+: log) : adoptLog log offered = offered :=
  if_neg h

lemma prefix_adoptLog (log offered : List (Entry V)) : offered <+: adoptLog log offered := by
  by_cases h : offered <+: log
  · rwa [adoptLog_eq_left h]
  · rw [adoptLog_eq_right h]

lemma adoptLog_of_agree {log history : List (Entry V)} (hk : k ≤ history.length)
    (hagree : log.take (min log.length k) = history.take (min log.length k)) :
    adoptLog log (history.take k) = if log.length < k then history.take k else log := by
  split_ifs with hlt
  · refine adoptLog_eq_right fun hpre ↦ ?_
    have hle := hpre.length_le
    rw [length_take_of_le hk] at hle
    omega
  · refine adoptLog_eq_left ?_
    rw [Nat.min_eq_right (Nat.le_of_not_lt hlt)] at hagree
    rw [← hagree]
    exact take_prefix k log

lemma adoptLog_of_conflict {log history : List (Entry V)} (hik : i < k) {first second : Entry V}
    (hlog : log[i]? = some first) (hhistory : history[i]? = some second) (hne : first ≠ second) :
    adoptLog log (history.take k) = history.take k := by
  refine adoptLog_eq_right fun ⟨rest, hrest⟩ ↦ hne ?_
  have hi : i < (history.take k).length := by
    rw [List.length_take]
    exact Nat.lt_min.mpr ⟨hik, (List.getElem?_eq_some_iff.mp hhistory).1⟩
  rw [← hrest, List.getElem?_append_left hi, List.getElem?_take_of_lt hik, hhistory] at hlog
  exact (Option.some.inj hlog).symm

lemma prefix_adoptLog_of_prefix {common log history : List (Entry V)} (hlog : common <+: log)
    (hhistory : common <+: history) (k : ℕ) : common <+: adoptLog log (history.take k) := by
  by_cases hkeep : history.take k <+: log
  · rwa [adoptLog_eq_left hkeep]
  rw [adoptLog_eq_right hkeep, prefix_take_iff]
  refine ⟨hhistory, Nat.le_of_not_lt fun hlt ↦ hkeep ?_⟩
  have hle : (history.take k).length ≤ common.length := by
    rw [length_take]
    omega
  exact (prefix_of_prefix_length_le (List.take_prefix k history) hhistory hle).trans hlog

variable {α : Type*}

lemma take_append_drop_slice (history : List α) (start len j : ℕ) (hj : j ≤ len) :
    history.take (start + j) ++ ((history.drop start).take len).drop j =
      history.take (start + len) := by
  rw [drop_take, drop_drop, ← take_add]
  congr 1
  omega

lemma lastTerm_eq_of_getElem? {log : List (Entry V)} {entry : Entry V}
    (h : log[log.length - 1]? = some entry) : lastTerm log = entry.term := by
  rw [lastTerm, getLast?_eq_getElem?, h]
  rfl

lemma prefix_getElem? {first second : List α} (h : first <+: second) {x : α}
    (hx : first[i]? = some x) : second[i]? = some x := by
  have hi : i < first.length := (List.getElem?_eq_some_iff.mp hx).1
  rw [List.prefix_iff_getElem?.mp h i hi, ← hx, List.getElem?_eq_getElem hi]

lemma getElem?_prefix_of_lt {first second : List α} (h : first <+: second)
    (hi : i < first.length) {x : α} (hx : second[i]? = some x) : first[i]? = some x := by
  obtain ⟨rest, rfl⟩ := h
  rwa [getElem?_append_left hi] at hx

lemma prefix_take_eq {first second : List α} (h : first <+: second)
    (hk : k ≤ first.length) : second.take k = first.take k := by
  obtain ⟨rest, rfl⟩ := h
  exact take_append_of_le_length hk

end Lists

/-! ### The machine -/

/-- The state of the abstract machine. -/
structure State (N V : Type*) where
  /-- The current term of a node. -/
  term : N → ℕ
  /-- The candidate a node has voted for in a term. -/
  vote : N → ℕ → Option N
  /-- The log of a node. -/
  log : N → List (Entry V)
  /-- The log with which a node stood for election in a term. -/
  stood : N → ℕ → Option (List (Entry V))
  /-- The elected leader of a term. -/
  leader : ℕ → Option N
  /-- The log the leader of a term had when it was elected. -/
  base : ℕ → List (Entry V)
  /-- The log of the leader of a term, as far as it has grown in that term. -/
  history : ℕ → List (Entry V)
  /-- The length of the prefix of the history of a term that a node has acknowledged. -/
  acked : N → ℕ → ℕ
  /-- The index of the configuration a node has adopted. -/
  cfg : N → ℕ
  /-- The index of the configuration with which a node stood for election in a term. -/
  stoodCfg : N → ℕ → ℕ
  /-- The index of the newest configuration. -/
  top : ℕ
  /-- The quorums of a configuration. -/
  quorum : ℕ → Set (Set N)
  /-- The term in which a configuration was proposed. -/
  proposed : ℕ → ℕ
  /-- The positions of the history of a term that its leader has declared committed, each with the
  configuration it used. -/
  committed : ℕ → ℕ → ℕ → Prop

/-- The state in which nothing has happened, with the quorums of the first configuration. -/
def State.init (N V : Type*) (quorums : Set (Set N)) : State N V where
  term := fun _ ↦ 0
  vote := fun _ _ ↦ none
  log := fun _ ↦ []
  stood := fun _ _ ↦ none
  leader := fun _ ↦ none
  base := fun _ ↦ []
  history := fun _ ↦ []
  acked := fun _ _ ↦ 0
  cfg := fun _ ↦ 0
  stoodCfg := fun _ _ ↦ 0
  top := 0
  quorum := fun _ ↦ quorums
  proposed := fun _ ↦ 0
  committed := fun _ _ _ ↦ False

section Update

variable {A B C : Type*}

open Classical in
/-- The function of two arguments changed at one pair of arguments. -/
noncomputable def update₂ (f : A → B → C) (a : A) (b : B) (c : C) : A → B → C :=
  fun x y ↦ if x = a ∧ y = b then c else f x y

@[simp] lemma update₂_self (f : A → B → C) (a : A) (b : B) (c : C) :
    update₂ f a b c a b = c :=
  if_pos ⟨rfl, rfl⟩

lemma update₂_of_ne (f : A → B → C) {a x : A} {b y : B} (c : C) (h : ¬ (x = a ∧ y = b)) :
    update₂ f a b c x y = f x y :=
  if_neg h

lemma update₂_apply_cases (f : A → B → C) (a : A) (b : B) (c : C) (x : A) (y : B) :
    (x = a ∧ y = b ∧ update₂ f a b c x y = c) ∨ update₂ f a b c x y = f x y := by
  by_cases hxy : x = a ∧ y = b
  · obtain ⟨rfl, rfl⟩ := hxy
    exact .inl ⟨rfl, rfl, update₂_self f x y c⟩
  · exact .inr (update₂_of_ne f c hxy)

lemma update₂_cases {f : A → B → C} {a x : A} {b y : B} {c d : C}
    (h : update₂ f a b c x y = d) : (x = a ∧ y = b ∧ c = d) ∨ f x y = d := by
  rcases update₂_apply_cases f a b c x y with ⟨hx, hy, hnew⟩ | hold
  · exact .inl ⟨hx, hy, hnew.symm.trans h⟩
  · exact .inr (hold.symm.trans h)

lemma update₂_eq_some {f : A → B → Option C} {a x : A} {b y : B} {c d : C}
    (hnone : f a b = none) (h : f x y = some d) : update₂ f a b (some c) x y = some d := by
  rw [update₂_of_ne]
  · exact h
  · rintro ⟨rfl, rfl⟩
    rw [hnone] at h
    cases h

end Update

variable {N V : Type*}

/-- Position `i` of the history of term `t` holds an entry created in that term. -/
def OwnAt (s : State N V) (t i : ℕ) : Prop :=
  ∃ entry, (s.history t)[i]? = some entry ∧ entry.term = t

/-- The node has adopted configuration `k`, and in terms after `t` it has only voted for candidates
that had adopted it too. -/
def Enrolled (s : State N V) (v : N) (t k : ℕ) : Prop :=
  k ≤ s.cfg v ∧ ∀ u c, t < u → s.vote v u = some c → k ≤ s.stoodCfg c u

lemma Enrolled.mono {s : State N V} {v : N} {j : ℕ} (h : Enrolled s v t k) (hjk : j ≤ k) :
    Enrolled s v t j :=
  ⟨hjk.trans h.1, fun u c hu hvote ↦ hjk.trans (h.2 u c hu hvote)⟩

section Machine

namespace State

noncomputable def grant (s : State N V) (v c : N) : State N V :=
  { s with vote := update₂ s.vote v (s.term v) (some c) }

noncomputable def elect (s : State N V) (c : N) : State N V :=
  { s with
    leader := update s.leader (s.term c) (some c),
    base := update s.base (s.term c) (s.log c), history := update s.history (s.term c) (s.log c),
    acked := update₂ s.acked c (s.term c) (s.log c).length }

/-- The leader of a term declares a position of its history committed. -/
def commit (s : State N V) (c : N) (i : ℕ) : State N V :=
  { s with committed := fun t j k ↦ s.committed t j k ∨ (t = s.term c ∧ j = i ∧ k = s.cfg c) }

variable (s : State N V)

@[simp] lemma elect_leader_self (c : N) : (s.elect c).leader (s.term c) = some c :=
  update_self _ _ _

variable {c : N}

lemma elect_leader_of_ne (h : t ≠ s.term c) : (s.elect c).leader t = s.leader t :=
  update_of_ne h _ _

@[simp] lemma elect_base_self (c : N) : (s.elect c).base (s.term c) = s.log c :=
  update_self _ _ _

lemma elect_base_of_ne (h : t ≠ s.term c) : (s.elect c).base t = s.base t :=
  update_of_ne h _ _

@[simp] lemma elect_history_self (c : N) : (s.elect c).history (s.term c) = s.log c :=
  update_self _ _ _

lemma elect_history_of_ne (h : t ≠ s.term c) : (s.elect c).history t = s.history t :=
  update_of_ne h _ _

lemma elect_acked_cases (c n : N) (t : ℕ) :
    (n = c ∧ t = s.term c ∧ (s.elect c).acked n t = (s.log c).length) ∨
      (s.elect c).acked n t = s.acked n t :=
  update₂_apply_cases _ _ _ _ _ _

variable [DecidableEq N]

/-- A node learns of a higher term. -/
def bump (n : N) (t : ℕ) : State N V :=
  { s with term := update s.term n t }

/-- A node stands for election in a higher term and votes for itself. -/
noncomputable def stand (n : N) (t : ℕ) : State N V :=
  { s with
    term := update s.term n t, vote := update₂ s.vote n t (some n),
    stood := update₂ s.stood n t (some (s.log n)), stoodCfg := update₂ s.stoodCfg n t (s.cfg n) }

noncomputable def append (c : N) (entry : Entry V) : State N V :=
  { s with
    log := update s.log c (s.log c ++ [entry]),
    history := update s.history (s.term c) (s.log c ++ [entry]),
    acked := update₂ s.acked c (s.term c) (s.log c ++ [entry]).length }

/-- A node is offered the first `k` entries of the leader of its term, and acknowledges them. -/
noncomputable def adopt (n : N) (k : ℕ) : State N V :=
  { s with
    log := update s.log n (adoptLog (s.log n) ((s.history (s.term n)).take k)),
    acked := update₂ s.acked n (s.term n) (max (s.acked n (s.term n)) k) }

/-- A node adopts a configuration. -/
def enroll (n : N) (k : ℕ) : State N V :=
  { s with cfg := update s.cfg n k }

/-- A leader proposes the next configuration and adopts it. -/
def propose (c : N) (quorums : Set (Set N)) : State N V :=
  { s with
    cfg := update s.cfg c (s.top + 1), top := s.top + 1,
    quorum := update s.quorum (s.top + 1) quorums,
    proposed := update s.proposed (s.top + 1) (s.term c) }

@[simp] lemma bump_term_self (n : N) (t : ℕ) : (s.bump n t).term n = t :=
  update_self _ _ _

variable {n m : N}

@[simp] lemma stand_term_self (n : N) (t : ℕ) : (s.stand n t).term n = t :=
  update_self _ _ _

@[simp] lemma append_log_self (c : N) (entry : Entry V) :
    (s.append c entry).log c = s.log c ++ [entry] :=
  update_self _ _ _

lemma append_log_of_ne {c n : N} (h : n ≠ c) (entry : Entry V) :
    (s.append c entry).log n = s.log n :=
  update_of_ne h _ _

@[simp] lemma append_history_self (c : N) (entry : Entry V) :
    (s.append c entry).history (s.term c) = s.log c ++ [entry] :=
  update_self _ _ _

lemma append_acked_cases (c n : N) (entry : Entry V) (t : ℕ) :
    (n = c ∧ t = s.term c ∧ (s.append c entry).acked n t = (s.log c ++ [entry]).length) ∨
      (s.append c entry).acked n t = s.acked n t :=
  update₂_apply_cases _ _ _ _ _ _

@[simp] lemma adopt_log_self (n : N) (k : ℕ) :
    (s.adopt n k).log n = adoptLog (s.log n) ((s.history (s.term n)).take k) :=
  update_self _ _ _

lemma adopt_log_of_ne (h : m ≠ n) (k : ℕ) : (s.adopt n k).log m = s.log m :=
  update_of_ne h _ _

lemma adopt_acked_cases (n m : N) (k t : ℕ) :
    (m = n ∧ t = s.term n ∧ (s.adopt n k).acked m t = max (s.acked n (s.term n)) k) ∨
      (s.adopt n k).acked m t = s.acked m t :=
  update₂_apply_cases _ _ _ _ _ _

lemma le_adopt_acked (n : N) (k : ℕ) : k ≤ (s.adopt n k).acked n (s.term n) :=
  (le_max_right _ _).trans_eq (update₂_self _ _ _ _).symm

@[simp] lemma enroll_cfg_self (n : N) (k : ℕ) : (s.enroll n k).cfg n = k :=
  update_self _ _ _

@[simp] lemma propose_cfg_self (c : N) (quorums : Set (Set N)) :
    (s.propose c quorums).cfg c = s.top + 1 :=
  update_self _ _ _

@[simp] lemma propose_quorum_self (c : N) (quorums : Set (Set N)) :
    (s.propose c quorums).quorum (s.top + 1) = quorums :=
  update_self _ _ _

lemma propose_quorum_of_le (h : k ≤ s.top) (c : N) (quorums : Set (Set N)) :
    (s.propose c quorums).quorum k = s.quorum k :=
  update_of_ne (by omega) _ _

@[simp] lemma propose_proposed_self (c : N) (quorums : Set (Set N)) :
    (s.propose c quorums).proposed (s.top + 1) = s.term c :=
  update_self _ _ _

lemma propose_proposed_of_le (h : k ≤ s.top) (c : N) (quorums : Set (Set N)) :
    (s.propose c quorums).proposed k = s.proposed k :=
  update_of_ne (by omega) _ _

end State

def Meet (first second : Set (Set N)) : Prop :=
  ∀ Q ∈ first, ∀ R ∈ second, (Q ∩ R).Nonempty

lemma Meet.symm {first second : Set (Set N)} (h : Meet first second) : Meet second first := by
  intro R hR Q hQ
  rw [Set.inter_comm]
  exact h Q hQ R hR

variable [DecidableEq N]

/-- One step of the machine. -/
inductive Step : State N V → State N V → Prop
  | bump (s : State N V) (n : N) (t : ℕ) (hterm : s.term n < t) : Step s (s.bump n t)
  | stand (s : State N V) (n : N) (t : ℕ) (hterm : s.term n < t) : Step s (s.stand n t)
  | grant (s : State N V) (v c : N) (offered : List (Entry V))
      (hvote : s.vote v (s.term v) = none) (hstood : s.stood c (s.term v) = some offered)
      (hlog : UpToDate offered (s.log v)) (hcfg : s.cfg v ≤ s.stoodCfg c (s.term v)) :
      Step s (s.grant v c)
  | elect (s : State N V) (c : N) (Q : Set N) (hleader : s.leader (s.term c) = none)
      (hstood : s.stood c (s.term c) = some (s.log c))
      (hquorum : Q ∈ s.quorum (s.stoodCfg c (s.term c)))
      (hvotes : ∀ v ∈ Q, s.vote v (s.term c) = some c) : Step s (s.elect c)
  | append (s : State N V) (c : N) (entry : Entry V) (hleader : s.leader (s.term c) = some c)
      (hentry : entry.term = s.term c) : Step s (s.append c entry)
  | adopt (s : State N V) (n : N) (k : ℕ) (hleader : s.leader (s.term n) ≠ none)
      (hk : k ≤ (s.history (s.term n)).length) : Step s (s.adopt n k)
  | commit (s : State N V) (c : N) (i : ℕ) (Q : Set N) (hleader : s.leader (s.term c) = some c)
      (hown : OwnAt s (s.term c) i) (hquorum : Q ∈ s.quorum (s.cfg c))
      (hacked : ∀ v ∈ Q, i < s.acked v (s.term c)) : Step s (s.commit c i)
  | enroll (s : State N V) (n : N) (k : ℕ) (hcfg : s.cfg n < k) (htop : k ≤ s.top)
      (hterm : s.proposed k ≤ s.term n) : Step s (s.enroll n k)
  | propose (s : State N V) (c : N) (quorums : Set (Set N)) (barrier : ℕ)
      (hleader : s.leader (s.term c) = some c) (hcfg : s.cfg c = s.top)
      (hself : Meet quorums quorums) (hnext : Meet (s.quorum s.top) quorums)
      (hsettled : 0 < s.top → ∃ Q ∈ s.quorum s.top, ∀ v ∈ Q, Enrolled s v (s.term c) s.top)
      (hbarrier : s.committed (s.term c) barrier s.top)
      (hlast : ∀ i k, s.committed (s.term c) i k → i ≤ barrier) :
      Step s (s.propose c quorums)

end Machine

/-- What no step undoes: terms grow, votes, candidacies and elections are kept, the histories of
elected terms grow at their end, acknowledgements grow, those of the terms a node has left not at
all, configurations are kept and adopted in order, and what is declared committed stays so. -/
structure Extends (s s' : State N V) : Prop where
  term : ∀ n, s.term n ≤ s'.term n
  vote : ∀ n t c, s.vote n t = some c → s'.vote n t = some c
  stood : ∀ n t log, s.stood n t = some log → s'.stood n t = some log
  leader : ∀ t c, s.leader t = some c → s'.leader t = some c
  base : ∀ t c, s.leader t = some c → s'.base t = s.base t
  history : ∀ t, s.history t <+: s'.history t
  acked : ∀ n t, s.acked n t ≤ s'.acked n t
  acked_frozen : ∀ n t, t < s.term n → s'.acked n t = s.acked n t
  cfg : ∀ n, s.cfg n ≤ s'.cfg n
  stoodCfg : ∀ n t log, s.stood n t = some log → s'.stoodCfg n t = s.stoodCfg n t
  top : s.top ≤ s'.top
  quorum : ∀ k, k ≤ s.top → s'.quorum k = s.quorum k
  proposed : ∀ k, k ≤ s.top → s'.proposed k = s.proposed k
  committed : ∀ t i k, s.committed t i k → s'.committed t i k
  enrolled : ∀ v t k, Enrolled s v t k → Enrolled s' v t k

lemma Extends.refl (s : State N V) : Extends s s where
  term := fun _ ↦ le_rfl
  vote := fun _ _ _ h ↦ h
  stood := fun _ _ _ h ↦ h
  leader := fun _ _ h ↦ h
  base := fun _ _ _ ↦ rfl
  history := fun _ ↦ prefix_rfl
  acked := fun _ _ ↦ le_rfl
  acked_frozen := fun _ _ _ ↦ rfl
  cfg := fun _ ↦ le_rfl
  stoodCfg := fun _ _ _ _ ↦ rfl
  top := le_rfl
  quorum := fun _ _ ↦ rfl
  proposed := fun _ _ ↦ rfl
  committed := fun _ _ _ h ↦ h
  enrolled := fun _ _ _ h ↦ h

lemma Extends.trans {s₁ s₂ s₃ : State N V} (h₁ : Extends s₁ s₂) (h₂ : Extends s₂ s₃) :
    Extends s₁ s₃ where
  term := fun n ↦ (h₁.term n).trans (h₂.term n)
  vote := fun n t c h ↦ h₂.vote n t c (h₁.vote n t c h)
  stood := fun n t log h ↦ h₂.stood n t log (h₁.stood n t log h)
  leader := fun t c h ↦ h₂.leader t c (h₁.leader t c h)
  base := fun t c h ↦ (h₂.base t c (h₁.leader t c h)).trans (h₁.base t c h)
  history := fun t ↦ (h₁.history t).trans (h₂.history t)
  acked := fun n t ↦ (h₁.acked n t).trans (h₂.acked n t)
  acked_frozen := fun n t ht ↦
    (h₂.acked_frozen n t (ht.trans_le (h₁.term n))).trans (h₁.acked_frozen n t ht)
  cfg := fun n ↦ (h₁.cfg n).trans (h₂.cfg n)
  stoodCfg := fun n t log h ↦
    (h₂.stoodCfg n t log (h₁.stood n t log h)).trans (h₁.stoodCfg n t log h)
  top := h₁.top.trans h₂.top
  quorum := fun k hk ↦ (h₂.quorum k (hk.trans h₁.top)).trans (h₁.quorum k hk)
  proposed := fun k hk ↦ (h₂.proposed k (hk.trans h₁.top)).trans (h₁.proposed k hk)
  committed := fun t i k h ↦ h₂.committed t i k (h₁.committed t i k h)
  enrolled := fun v t k h ↦ h₂.enrolled v t k (h₁.enrolled v t k h)

lemma Extends.leader_ne_none {s s' : State N V} (h : Extends s s') (ht : s.leader t ≠ none) :
    s'.leader t ≠ none := by
  obtain ⟨c, hc⟩ := Option.ne_none_iff_exists'.mp ht
  rw [h.leader t c hc]
  exact Option.some_ne_none c

lemma Extends.history_take {s s' : State N V} (h : Extends s s') (hk : k ≤ (s.history t).length) :
    (s'.history t).take k = (s.history t).take k :=
  prefix_take_eq (h.history t) hk

end Lockstep.Library.TermLog
