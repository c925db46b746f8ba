import Lockstep.Library.TermLogInvariant

/-!
# Every step of the replicated-log machine keeps its invariant

One theorem per constructor of `Step` proves `Extends`, one proves `Inv`.
-/

namespace Lockstep.Library.TermLog

open Extends List Option Function

variable {N V : Type*} {s s' : State N V}

/-! ### Facts read off the invariant -/

variable {t : ℕ} {log : List (Entry V)} {c : N}

lemma Inv.stood_le (hinv : Inv s)
    (h : s.stood c t = some log) : t ≤ s.term c :=
  hinv.vote_le c t c (hinv.stood_vote c t log h)

lemma Inv.leader_le (hinv : Inv s) (h : s.leader t = some c) :
    t ≤ s.term c :=
  hinv.stood_le (hinv.leader_stood t c h)

variable {entry : Entry V}

lemma Inv.history_term (hinv : Inv s)
    (h : entry ∈ s.history t) : entry.term ≤ t := by
  have hleader : s.leader t ≠ none := by
    intro hnone
    rw [hinv.history_nil t hnone] at h
    exact not_mem_nil h
  obtain ⟨i, hi, rfl⟩ := mem_iff_getElem.mp h
  rcases Nat.lt_or_ge i (s.base t).length with hlt | hge
  · have hmem : (s.history t)[i] ∈ s.base t :=
      mem_of_getElem? (getElem?_prefix_of_lt (hinv.base_history t hleader) hlt
        (getElem?_eq_getElem hi))
    exact (hinv.base_term t hleader _ hmem).le
  · exact (hinv.own_term t i _ (getElem?_eq_getElem hi) hge).le

lemma Inv.base_prefix_of_lastTerm (hinv : Inv s)
    (hlog : Coherent s log) (hne : log ≠ []) : s.base (lastTerm log) <+: log := by
  have hhistory := hlog.prefix_lastTerm hne
  have hpos : 0 < log.length := length_pos_iff.mpr hne
  have hlast : log[log.length - 1]? = some log[log.length - 1] :=
    getElem?_eq_getElem (by omega)
  have hleader : s.leader (lastTerm log) ≠ none := by
    rw [lastTerm_eq_of_getElem? hlast]
    exact hlog.leader _ (getElem_mem _)
  refine prefix_of_prefix_length_le (hinv.base_history _ hleader) hhistory ?_
  by_contra hshort
  -- otherwise the last entry of the log belongs to the base, whose terms are smaller
  have hmem : log[log.length - 1] ∈ s.base (lastTerm log) :=
    mem_of_getElem? (getElem?_prefix_of_lt (hinv.base_history _ hleader) (by omega)
      (prefix_getElem? hhistory hlast))
  have hlt := hinv.base_term _ hleader _ hmem
  rw [lastTerm_eq_of_getElem? hlast] at hlt
  exact lt_irrefl _ hlt

variable {offered : List (Entry V)}

/-- A candidate at least as up to date as the voter takes over what the voter has acknowledged. -/
theorem upToDate_carries (hinv : Inv s) {v : N}
    (hleader : s.leader (s.term v) = none) (hoffered : Coherent s offered)
    (hterm : ∀ entry ∈ offered, entry.term < s.term v) (hlog : UpToDate offered (s.log v)) :
    Carries s (s.term v) v offered := by
  intro t i ht hi hown
  rcases hinv.retains v t i hi hown with hholds | ⟨u, htu, hu, hover⟩
  · obtain ⟨entry, hentry, hentryTerm⟩ := hown
    have hmem : entry ∈ s.log v :=
      hholds.subset (mem_of_getElem? (i := i)
        (by rw [getElem?_take_of_lt (Nat.lt_succ_self i)]; exact hentry))
    have hlast : t ≤ lastTerm (s.log v) := by
      rw [← hentryTerm]
      exact (hinv.log_coherent v).term_le_lastTerm hmem
    have hlogNe : s.log v ≠ [] := ne_nil_of_mem hmem
    rcases hlog with hgt | ⟨heq, hlen⟩
    · -- the candidate's last entry belongs to a leader of a later term
      have hne : offered ≠ [] := by
        rintro rfl
        simp [lastTerm] at hgt
      have hbase := hinv.base_prefix_of_lastTerm hoffered hne
      have hlastMem : offered[offered.length - 1]? = some (offered.getLast hne) := by
        rw [← getLast?_eq_getElem?, getLast?_eq_some_getLast hne]
      have hlastTerm := lastTerm_eq_of_getElem? hlastMem
      by_cases hheld : Holds s t i (s.base (lastTerm offered))
      · exact .inl (hheld.trans hbase)
      refine .inr ⟨lastTerm offered, by omega, ?_, ?_, hheld⟩
      · rw [hlastTerm]
        exact hterm _ (getLast_mem hne)
      · rw [hlastTerm]
        exact hoffered.leader _ (getLast_mem hne)
    · have hne : offered ≠ [] := by
        rintro rfl
        exact hlogNe (eq_nil_of_length_eq_zero (Nat.le_zero.mp hlen))
      have hv := (hinv.log_coherent v).prefix_lastTerm hlogNe
      have hc := hoffered.prefix_lastTerm hne
      rw [heq] at hv
      exact .inl (hholds.trans (prefix_of_prefix_length_le hv hc hlen))
  · refine .inr ⟨u, htu, lt_of_le_of_ne hu ?_, hover⟩
    rintro rfl
    exact hover.1 hleader

lemma Carries.extends (hinv : Inv s) (hext : Extends s s') {limit : ℕ} {v : N}
    (hlimit : limit ≤ s.term v) (h : Carries s limit v log) :
    Carries s' limit v log := by
  intro t i ht hi hown
  rw [hext.acked_frozen v t (ht.trans_le hlimit)] at hi
  have hlen : i < (s.history t).length := hi.trans_le (hinv.acked_le v t)
  rcases h t i ht hi (ownAt_of_extends hext hlen hown) with hholds | ⟨u, htu, hu, hover⟩
  · exact .inl (hholds.extends hext hlen)
  · exact .inr ⟨u, htu, hu, hover.extends hext hlen⟩

/-- What the invariant says in a state that extends the one it holds in, for the logs, votes and
candidacies that were there. -/
structure Kept (s s' : State N V) : Prop where
  log_coherent : ∀ n, Coherent s' (s.log n)
  stood_coherent : ∀ c t log, s.stood c t = some log → Coherent s' log
  history_coherent : ∀ t, Coherent s' (s.history t)
  retains : ∀ v t i, i < s.acked v t → OwnAt s' t i →
    Holds s' t i (s.log v) ∨ ∃ u, t < u ∧ u ≤ s'.term v ∧ Overruled s' t i u
  carries : ∀ t v c log, s'.leader t = none → s.vote v t = some c → s.stood c t = some log →
    Carries s' t v log
  elected : ∀ t c, s.leader t = some c → ∃ Q ∈ s'.quorum (s'.stoodCfg c t),
    ∀ v ∈ Q, s'.vote v t = some c ∧ Carries s' t v (s.base t)

lemma Inv.kept (hinv : Inv s) (hext : Extends s s') : Kept s s' where
  log_coherent := fun n ↦ (hinv.log_coherent n).extends hext
  stood_coherent := fun c t log h ↦ (hinv.stood_coherent c t log h).extends hext
  history_coherent := fun t ↦ (hinv.history_coherent t).extends hext
  retains := by
    intro v t i hi hown
    have hlen : i < (s.history t).length := hi.trans_le (hinv.acked_le v t)
    rcases hinv.retains v t i hi (ownAt_of_extends hext hlen hown) with
      hholds | ⟨u, htu, hu, hover⟩
    · exact .inl (hholds.extends hext hlen)
    · exact .inr ⟨u, htu, hu.trans (hext.term v), hover.extends hext hlen⟩
  carries := by
    intro t v c log hleader hvote hstood
    have hnone : s.leader t = none := by
      by_contra hsome
      exact hext.leader_ne_none hsome hleader
    exact (hinv.carries t v c log hnone hvote hstood).extends hinv hext (hinv.vote_le v t c hvote)
  elected := by
    intro t c hleader
    obtain ⟨Q, hQ, hvotes⟩ := hinv.elected t c hleader
    have hstood := hinv.leader_stood t c hleader
    have hquorum : Q ∈ s'.quorum (s'.stoodCfg c t) := by
      rw [hext.stoodCfg c t _ hstood, hext.quorum _ (hinv.stood_top c t _ hstood)]
      exact hQ
    exact ⟨Q, hquorum, fun v hv ↦ ⟨hext.vote v t c (hvotes v hv).1,
      (hvotes v hv).2.extends hinv hext (hinv.vote_le v t c (hvotes v hv).1)⟩⟩

/-! ### The steps -/

section Steps

variable {n : N}

lemma Inv.vote_eq_none (hinv : Inv s) (hterm : s.term n < t) :
    s.vote n t = none := by
  by_contra hsome
  obtain ⟨c, hc⟩ := ne_none_iff_exists'.mp hsome
  exact absurd (hinv.vote_le n t c hc) (not_le.mpr hterm)

lemma Inv.stood_eq_none (hinv : Inv s) (hterm : s.term n < t) :
    s.stood n t = none := by
  by_contra hsome
  obtain ⟨log, hlog⟩ := ne_none_iff_exists'.mp hsome
  exact absurd (hinv.stood_le hlog) (not_le.mpr hterm)

lemma extends_grant {v c : N} (hvote : s.vote v (s.term v) = none)
    (hcfg : s.cfg v ≤ s.stoodCfg c (s.term v)) : Extends s (s.grant v c) :=
  { refl s with
    vote := fun _ _ _ h ↦ update₂_eq_some hvote h
    enrolled := by
      intro w t k h
      refine ⟨h.1, fun u d hu hd ↦ ?_⟩
      rcases update₂_cases hd with ⟨rfl, rfl, hcd⟩ | hd
      · cases hcd
        exact h.1.trans hcfg
      · exact h.2 u d hu hd }

lemma inv_grant (hinv : Inv s) {v c : N}
    (hvote : s.vote v (s.term v) = none) (hstood : s.stood c (s.term v) = some offered)
    (hlog : UpToDate offered (s.log v)) (hcfg : s.cfg v ≤ s.stoodCfg c (s.term v)) :
    Inv (s.grant v c) := by
  have hext : Extends s (s.grant v c) := extends_grant hvote hcfg
  have hkept := hinv.kept hext
  refine
    { hkept, hinv with
      vote_le := fun w u d h ↦ ?_, vote_stood := fun w u d h ↦ ?_
      stood_vote := fun d u log h ↦ hext.vote d u d (hinv.stood_vote d u log h)
      carries := fun u w d log hleader hw hd ↦ ?_ }
  · rcases update₂_cases h with ⟨rfl, rfl, -⟩ | h
    · exact le_rfl
    · exact hinv.vote_le w u d h
  · rcases update₂_cases h with ⟨rfl, rfl, hd⟩ | h
    · cases hd
      exact ⟨offered, hstood⟩
    · exact hinv.vote_stood w u d h
  · rcases update₂_cases hw with ⟨rfl, rfl, hcd⟩ | hw
    · cases hcd
      have heq : offered = log := some.inj (hstood.symm.trans hd)
      subst heq
      exact (upToDate_carries hinv hleader (hinv.stood_coherent c _ _ hstood)
        (hinv.stood_term c _ _ hstood) hlog).extends hinv hext le_rfl
    · exact hkept.carries u w d log hleader hw hd

lemma State.forall_elect (s : State N V)
    {p : ℕ → Option N → List (Entry V) → List (Entry V) → Prop}
    (hself : p (s.term c) (some c) (s.log c) (s.log c))
    (hother : ∀ t ≠ s.term c, p t (s.leader t) (s.base t) (s.history t)) (t : ℕ) :
    p t ((s.elect c).leader t) ((s.elect c).base t) ((s.elect c).history t) := by
  by_cases ht : t = s.term c
  · rw [ht, s.elect_leader_self, s.elect_base_self, s.elect_history_self]
    exact hself
  · rw [s.elect_leader_of_ne ht, s.elect_base_of_ne ht, s.elect_history_of_ne ht]
    exact hother t ht

lemma extends_elect (hinv : Inv s) (hleader : s.leader (s.term c) = none) :
    Extends s (s.elect c) := by
  have hne : ∀ {t d}, s.leader t = some d → t ≠ s.term c := by
    rintro t d h rfl
    rw [hleader] at h
    cases h
  have hhistory := hinv.history_nil _ hleader
  exact
    { refl s with
      leader := fun t d h ↦ (s.elect_leader_of_ne (hne h)).trans h
      base := fun t d h ↦ s.elect_base_of_ne (hne h)
      history := s.forall_elect (p := fun t _ _ history ↦ s.history t <+: history)
        (hhistory ▸ nil_prefix) fun _ _ ↦ prefix_rfl
      acked := by
        intro n t
        rcases s.elect_acked_cases c n t with ⟨rfl, rfl, -⟩ | hold
        · have hle := hinv.acked_le n (s.term n)
          rw [hhistory] at hle
          exact hle.trans (Nat.zero_le _)
        · exact hold.ge
      acked_frozen := by
        intro n t ht
        refine update₂_of_ne _ _ ?_
        rintro ⟨rfl, rfl⟩
        exact lt_irrefl _ ht }

lemma inv_elect (hinv : Inv s) {Q : Set N}
    (hleader : s.leader (s.term c) = none) (hstood : s.stood c (s.term c) = some (s.log c))
    (hquorum : Q ∈ s.quorum (s.stoodCfg c (s.term c)))
    (hvotes : ∀ v ∈ Q, s.vote v (s.term c) = some c) : Inv (s.elect c) := by
  have hext := extends_elect hinv hleader
  have hkept := hinv.kept hext
  exact
    { hkept, hinv with
      leader_stood := s.forall_elect (p := fun t l b _ ↦ ∀ d, l = some d → s.stood d t = some b)
        (fun d hd ↦ by cases hd; exact hstood) fun t _ ↦ hinv.leader_stood t
      leader_log := fun d ↦ s.forall_elect
        (p := fun t l _ h ↦ s.term d = t → l = some d → s.log d = h)
        (fun _ hd ↦ by cases hd; rfl) (fun t _ ht ↦ ht ▸ hinv.leader_log d) _ rfl
      history_nil := s.forall_elect (p := fun _ l _ h ↦ l = none → h = []) nofun
        fun t _ ↦ hinv.history_nil t
      base_history := s.forall_elect (p := fun _ l b h ↦ l ≠ none → b <+: h)
        (fun _ ↦ prefix_rfl) fun t _ ↦ hinv.base_history t
      base_term := s.forall_elect (p := fun t l b _ ↦ l ≠ none → ∀ entry ∈ b, entry.term < t)
        (fun _ ↦ hinv.stood_term c _ _ hstood) fun t _ ↦ hinv.base_term t
      own_term := s.forall_elect
        (p := fun t _ b h ↦ ∀ i entry, h[i]? = some entry → b.length ≤ i → entry.term = t)
        (fun i entry hentry hi ↦ absurd (List.getElem?_eq_some_iff.mp hentry).1 (not_lt.mpr hi))
        fun t _ ↦ hinv.own_term t
      history_coherent := s.forall_elect (p := fun _ _ _ h ↦ Coherent (s.elect c) h)
        (hkept.log_coherent c) fun t _ ↦ hkept.history_coherent t
      acked_le := by
        intro n t
        rcases s.elect_acked_cases c n t with ⟨rfl, rfl, hnew⟩ | hold
        · rw [s.elect_history_self, hnew]
        · rw [hold]
          exact (hinv.acked_le n t).trans (hext.history t).length_le
      acked_term := by
        intro n t h
        rcases s.elect_acked_cases c n t with ⟨rfl, rfl, -⟩ | hold
        · exact le_rfl
        · exact hinv.acked_term n t (h.trans_eq hold)
      retains := by
        intro v t i hi hown
        rcases s.elect_acked_cases c v t with ⟨rfl, rfl, -⟩ | hold
        · -- the new leader's log holds no entry of the term it has just won
          obtain ⟨entry, hentry, hterm⟩ := hown
          rw [s.elect_history_self] at hentry
          have hlt := hinv.stood_term v _ _ hstood entry (mem_of_getElem? hentry)
          exact absurd hterm hlt.ne
        · exact hkept.retains v t i (hi.trans_eq hold) hown
      elected := s.forall_elect
        (p := fun t l b _ ↦ ∀ d, l = some d → ∃ Q ∈ s.quorum (s.stoodCfg d t),
          ∀ v ∈ Q, s.vote v t = some d ∧ Carries (s.elect c) t v b)
        (fun d hd ↦ by
          cases hd
          exact ⟨Q, hquorum, fun v hv ↦ ⟨hvotes v hv,
            (hinv.carries _ v c _ hleader (hvotes v hv) hstood).extends hinv hext
              (hinv.vote_le v _ c (hvotes v hv))⟩⟩)
        fun t _ ↦ hkept.elected t }

variable [DecidableEq N]

lemma extends_bump (hterm : s.term n < t) : Extends s (s.bump n t) :=
  { refl s with
    term := (forall_update_iff s.term fun m u ↦ s.term m ≤ u).mpr
      ⟨hterm.le, fun _ _ ↦ le_rfl⟩ }

section

variable (hinv : Inv s)

include hinv

lemma inv_bump (hterm : s.term n < t) : Inv (s.bump n t) :=
  have hext := extends_bump hterm
  { hinv.kept hext, hinv with
    vote_le := fun v u c h ↦ (hinv.vote_le v u c h).trans (hext.term v)
    leader_log := (forall_update_iff s.term
      fun c u ↦ s.leader u = some c → s.log c = s.history u).mpr
        ⟨fun hc ↦ absurd (hinv.leader_le hc) (not_le.mpr hterm), fun c _ ↦ hinv.leader_log c⟩
    log_term := fun m entry h ↦ (hinv.log_term m entry h).trans (hext.term m)
    acked_term := fun m u h ↦ (hinv.acked_term m u h).trans (hext.term m) }

lemma stand_stoodCfg_of_stood {n c : N} {t u : ℕ} (hterm : s.term n < t)
    (h : s.stood c u = some log) : (s.stand n t).stoodCfg c u = s.stoodCfg c u := by
  refine update₂_of_ne _ _ ?_
  rintro ⟨rfl, rfl⟩
  rw [hinv.stood_eq_none hterm] at h
  cases h

lemma extends_stand (hterm : s.term n < t) : Extends s (s.stand n t) :=
  { refl s with
    term := (extends_bump hterm).term
    vote := fun _ _ _ h ↦ update₂_eq_some (hinv.vote_eq_none hterm) h
    stood := fun _ _ _ h ↦ update₂_eq_some (hinv.stood_eq_none hterm) h
    stoodCfg := fun _ _ _ h ↦ stand_stoodCfg_of_stood hinv hterm h
    enrolled := by
      intro w u k h
      refine ⟨h.1, fun x d hx hd ↦ ?_⟩
      rcases update₂_cases hd with ⟨rfl, rfl, hwd⟩ | hd
      · cases hwd
        exact h.1.trans_eq (update₂_self _ _ _ _).symm
      · obtain ⟨log, hlog⟩ := hinv.vote_stood w x d hd
        exact (h.2 x d hx hd).trans_eq (stand_stoodCfg_of_stood hinv hterm hlog).symm }

lemma inv_stand (hterm : s.term n < t) : Inv (s.stand n t) := by
  have hext := extends_stand hinv hterm
  have hkept := hinv.kept hext
  have hbump := inv_bump hinv hterm
  have hself : (s.stand n t).term n = t := s.stand_term_self n t
  refine
    { hkept, hinv with
      vote_le := fun v u c h ↦ ?_, vote_stood := fun v u c h ↦ ?_
      stood_vote := fun c u log h ↦ ?_, leader_log := hbump.leader_log
      leader_stood := fun u c h ↦ hext.stood c u _ (hinv.leader_stood u c h)
      log_term := hbump.log_term, acked_term := hbump.acked_term
      stood_term := fun c u log h entry hentry ↦ ?_, stood_coherent := fun c u log h ↦ ?_
      carries := fun u v c log hleader hvote hstood ↦ ?_, stood_top := fun c u log h ↦ ?_ }
  · rcases update₂_cases h with ⟨rfl, rfl, -⟩ | h
    · exact hself.ge
    · exact (hinv.vote_le v u c h).trans (hext.term v)
  · rcases update₂_cases h with ⟨rfl, rfl, hc⟩ | h
    · cases hc
      exact ⟨s.log v, update₂_self _ _ _ _⟩
    · obtain ⟨log, hlog⟩ := hinv.vote_stood v u c h
      exact ⟨log, hext.stood c u log hlog⟩
  · rcases update₂_cases h with ⟨rfl, rfl, -⟩ | h
    · exact update₂_self _ _ _ _
    · exact hext.vote c u c (hinv.stood_vote c u log h)
  · rcases update₂_cases h with ⟨rfl, rfl, hlog⟩ | h
    · cases hlog
      exact (hinv.log_term c entry hentry).trans_lt hterm
    · exact hinv.stood_term c u log h entry hentry
  · rcases update₂_cases h with ⟨rfl, rfl, hlog⟩ | h
    · cases hlog
      exact hkept.log_coherent c
    · exact hkept.stood_coherent c u log h
  · rcases update₂_cases hvote with ⟨rfl, rfl, hc⟩ | hvote
    · -- the candidate's own vote: its log is the one that retains what it acknowledged
      cases hc
      have hlog : s.log v = log := by
        rcases update₂_cases hstood with ⟨-, -, hlog⟩ | hold
        · exact some.inj hlog
        · rw [hinv.stood_eq_none hterm] at hold
          cases hold
      intro t i ht hi hown
      rcases hkept.retains v t i hi hown with hholds | ⟨w, htw, hw, hover⟩
      · exact .inl (hlog ▸ hholds)
      · rw [hself] at hw
        refine .inr ⟨w, htw, lt_of_le_of_ne hw ?_, hover⟩
        rintro rfl
        exact hover.1 hleader
    · obtain ⟨log', hlog'⟩ := hinv.vote_stood v u c hvote
      have heq := hext.stood c u log' hlog'
      rw [hstood] at heq
      cases heq
      exact hkept.carries u v c log hleader hvote hlog'
  · rcases update₂_cases h with ⟨rfl, rfl, -⟩ | h
    · exact (update₂_self _ _ _ _).trans_le (hinv.cfg_top c)
    · exact (stand_stoodCfg_of_stood hinv hterm h).trans_le (hinv.stood_top c u log h)

lemma extends_append (entry : Entry V)
    (hleader : s.leader (s.term c) = some c) : Extends s (s.append c entry) := by
  have hlog := hinv.leader_log c hleader
  exact
    { refl s with
      history := (forall_update_iff s.history fun t log ↦ s.history t <+: log).mpr
        ⟨hlog ▸ prefix_append _ _, fun _ _ ↦ prefix_rfl⟩
      acked := by
        intro n t
        rcases s.append_acked_cases c n entry t with ⟨rfl, rfl, hnew⟩ | hold
        · rw [hnew, hlog, length_append]
          exact (hinv.acked_le n _).trans (Nat.le_add_right _ _)
        · exact hold.ge
      acked_frozen := by
        intro n t ht
        rcases s.append_acked_cases c n entry t with ⟨rfl, rfl, -⟩ | hold
        · exact absurd ht (lt_irrefl _)
        · exact hold }

lemma Coherent.append (hleader : s.leader (s.term c) = some c) (hentry : entry.term = s.term c) :
    Coherent (s.append c entry) (s.log c ++ [entry]) where
  leader := by
    refine forall_mem_append.mpr ⟨(hinv.log_coherent c).leader, forall_mem_singleton.mpr ?_⟩
    rw [hentry]
    exact (hleader ▸ some_ne_none c :)
  matching := by
    intro i e he
    rcases Nat.lt_or_ge i (s.log c).length with hi | hi
    · rw [getElem?_append_left hi] at he
      rw [take_append_of_le_length (Nat.succ_le_of_lt hi)]
      exact ((hinv.log_coherent c).matching i e he).trans
        ((extends_append hinv entry hleader).history e.term)
    · have hlen := (List.getElem?_eq_some_iff.mp he).1
      rw [List.length_append, List.length_singleton] at hlen
      have hi' : i = (s.log c).length := by omega
      subst hi'
      rw [getElem?_concat_length] at he
      cases he
      rw [hentry, s.append_history_self]
      exact take_prefix _ _
  sorted := by
    refine pairwise_append.mpr ⟨(hinv.log_coherent c).sorted, pairwise_singleton _ _,
      fun a ha b hb ↦ ?_⟩
    rw [mem_singleton.mp hb, hentry]
    exact hinv.log_term c a ha

lemma inv_append (hleader : s.leader (s.term c) = some c) (hentry : entry.term = s.term c) :
    Inv (s.append c entry) := by
  have hext := extends_append hinv entry hleader
  have hkept := hinv.kept hext
  have hlog := hinv.leader_log c hleader
  have hcoherent := Coherent.append hinv hleader hentry
  have hsome : s.leader (s.term c) ≠ none := by
    rw [hleader]
    exact some_ne_none c
  have hgrown : ∀ n, s.log n <+: (s.append c entry).log n :=
    (forall_update_iff s.log fun n log ↦ s.log n <+: log).mpr
      ⟨prefix_append _ _, fun _ _ ↦ prefix_rfl⟩
  refine
    { hkept, hinv with
      leader_log := fun d hd ↦ ?_
      history_nil := (forall_update_iff s.history
        fun t log ↦ s.leader t = none → log = []).mpr
          ⟨fun h ↦ absurd h hsome, fun t _ ↦ hinv.history_nil t⟩
      base_history := fun t h ↦ (hinv.base_history t h).trans (hext.history t)
      own_term := (forall_update_iff s.history fun t log ↦
        ∀ i e, log[i]? = some e → (s.base t).length ≤ i → e.term = t).mpr
          ⟨fun i e he hi ↦ ?_, fun t _ ↦ hinv.own_term t⟩
      log_term := (forall_update_iff s.log
        fun n log ↦ ∀ e ∈ log, e.term ≤ s.term n).mpr ⟨fun e he ↦ ?_, fun n _ ↦ hinv.log_term n⟩
      log_coherent := (forall_update_iff s.log
        fun _ log ↦ Coherent (s.append c entry) log).mpr
          ⟨hcoherent, fun n _ ↦ hkept.log_coherent n⟩
      history_coherent := (forall_update_iff s.history
        fun _ log ↦ Coherent (s.append c entry) log).mpr
          ⟨hcoherent, fun t _ ↦ hkept.history_coherent t⟩
      acked_le := fun n t ↦ ?_, acked_term := fun n t h ↦ ?_
      retains := fun v t i hi hown ↦ ?_ }
  · by_cases hdc : d = c
    · rw [hdc]
      exact (s.append_log_self c entry).trans (s.append_history_self c entry).symm
    change s.leader (s.term d) = some d at hd
    have hterm : s.term d ≠ s.term c := by
      intro heq
      rw [heq, hleader] at hd
      exact hdc (some.inj hd).symm
    rw [s.append_log_of_ne hdc]
    exact (hinv.leader_log d hd).trans (Function.update_of_ne hterm _ _).symm
  · rw [hlog] at he
    rcases Nat.lt_or_ge i (s.history (s.term c)).length with hlt | hge
    · rw [getElem?_append_left hlt] at he
      exact hinv.own_term _ i e he hi
    · rw [getElem?_append_right hge] at he
      rw [mem_singleton.mp (mem_of_getElem? he)]
      exact hentry
  · exact forall_mem_append.mpr ⟨hinv.log_term c, forall_mem_singleton.mpr hentry.le⟩ e he
  · rcases s.append_acked_cases c n entry t with ⟨rfl, rfl, hnew⟩ | hold
    · rw [s.append_history_self, hnew]
    · rw [hold]
      exact (hinv.acked_le n t).trans (hext.history t).length_le
  · rcases s.append_acked_cases c n entry t with ⟨rfl, rfl, -⟩ | hold
    · exact le_rfl
    · exact hinv.acked_term n t (h.trans_eq hold)
  · rcases s.append_acked_cases c v entry t with ⟨rfl, rfl, -⟩ | hold
    · refine .inl ?_
      rw [Holds, s.append_history_self, s.append_log_self]
      exact take_prefix _ _
    · exact (hkept.retains v t i (hi.trans_eq hold) hown).imp_left
        (List.IsPrefix.trans · (hgrown v))

end

lemma extends_adopt (k : ℕ) : Extends s (s.adopt n k) :=
  { refl s with
    acked := by
      intro m t
      rcases s.adopt_acked_cases n m k t with ⟨rfl, rfl, hnew⟩ | hold
      · rw [hnew]
        exact le_max_left _ _
      · exact hold.ge
    acked_frozen := by
      intro m t ht
      rcases s.adopt_acked_cases n m k t with ⟨rfl, rfl, -⟩ | hold
      · exact absurd ht (lt_irrefl _)
      · exact hold }

omit [DecidableEq N] in
/-- What a node retained before it was offered a prefix of the leader's log, it retains after. -/
theorem retains_adopt (hinv : Inv s) {k : ℕ}
    (hleader : s.leader (s.term n) ≠ none) {t i : ℕ} (hi : i < s.acked n t)
    (hown : OwnAt s t i) :
    Holds s t i (adoptLog (s.log n) ((s.history (s.term n)).take k)) ∨
      ∃ u, t < u ∧ u ≤ s.term n ∧ Overruled s t i u := by
  rcases hinv.retains n t i hi hown with hholds | hover
  · by_cases hkeep : (s.history (s.term n)).take k <+: s.log n
    · rw [adoptLog_eq_left hkeep]
      exact .inl hholds
    rw [adoptLog_eq_right hkeep]
    -- once the entry is in the leader's log, the offered prefix must reach beyond it
    have hreach : (s.history t).take (i + 1) <+: s.history (s.term n) →
        Holds s t i ((s.history (s.term n)).take k) := by
      intro hpre
      rcases prefix_or_prefix_of_prefix hpre
        (List.take_prefix k (s.history (s.term n))) with hle | hle
      · exact hle
      · exact absurd (hle.trans hholds) hkeep
    rcases Nat.eq_or_lt_of_le (hinv.acked_term n t (Nat.zero_lt_of_lt hi)) with heq | hlt
    · subst heq
      exact .inl (hreach (List.take_prefix _ _))
    · by_cases hbase : Holds s t i (s.base (s.term n))
      · exact .inl (hreach (hbase.trans (hinv.base_history _ hleader)))
      · exact .inr ⟨s.term n, hlt, le_rfl, hleader, hbase⟩
  · exact .inr hover

lemma inv_adopt (hinv : Inv s) {k : ℕ} (hleader : s.leader (s.term n) ≠ none)
    (hk : k ≤ (s.history (s.term n)).length) : Inv (s.adopt n k) := by
  have hext : Extends s (s.adopt n k) := extends_adopt k
  have hkept := hinv.kept hext
  refine
    { hkept, hinv with
      leader_log := (forall_update_iff s.log fun c log ↦
        s.leader (s.term c) = some c → log = s.history (s.term c)).mpr
          ⟨fun hc ↦ ?_, fun c _ ↦ hinv.leader_log c⟩
      log_term := (forall_update_iff s.log
        fun m log ↦ ∀ e ∈ log, e.term ≤ s.term m).mpr ⟨fun e he ↦ ?_, fun m _ ↦ hinv.log_term m⟩
      log_coherent := (forall_update_iff s.log
        fun _ log ↦ Coherent (s.adopt n k) log).mpr ⟨?_, fun m _ ↦ hkept.log_coherent m⟩
      acked_le := fun m t ↦ ?_, acked_term := fun m t h ↦ ?_
      retains := fun v t i hi hown ↦ ?_ }
  · rw [adoptLog_eq_left]
    · exact hinv.leader_log n hc
    · rw [hinv.leader_log n hc]
      exact take_prefix _ _
  · rw [adoptLog] at he
    split_ifs at he
    · exact hinv.log_term n e he
    · exact hinv.history_term (mem_of_mem_take he)
  · rw [adoptLog]
    split_ifs
    · exact hkept.log_coherent n
    · exact (hkept.history_coherent _).mono (List.take_prefix _ _)
  · rcases s.adopt_acked_cases n m k t with ⟨rfl, rfl, hnew⟩ | hold
    · rw [hnew]
      exact max_le (hinv.acked_le m _) hk
    · rw [hold]
      exact hinv.acked_le m t
  · rcases s.adopt_acked_cases n m k t with ⟨rfl, rfl, -⟩ | hold
    · exact le_rfl
    · exact hinv.acked_term m t (h.trans_eq hold)
  · by_cases hv : v = n
    · subst hv
      rw [s.adopt_log_self]
      rcases Nat.lt_or_ge i (s.acked v t) with hlt | hge
      · exact retains_adopt hinv hleader hlt hown
      rcases s.adopt_acked_cases v v k t with ⟨-, rfl, hnew⟩ | hold
      · have hik : i < k := by omega
        exact .inl ((take_prefix_take_left (Nat.succ_le_of_lt hik)).trans
          (prefix_adoptLog _ _))
      · exact absurd (hi.trans_eq hold) (not_lt.mpr hge)
    · have hold : (s.adopt n k).acked v t = s.acked v t := by
        rcases s.adopt_acked_cases n v k t with ⟨hvn, -⟩ | hold
        · exact absurd hvn hv
        · exact hold
      rw [s.adopt_log_of_ne hv]
      exact hkept.retains v t i (hi.trans_eq hold) hown

omit [DecidableEq N] in
lemma extends_commit (c : N) (i : ℕ) : Extends s (s.commit c i) :=
  { refl s with committed := fun _ _ _ h ↦ Or.inl h }

omit [DecidableEq N] in
lemma inv_commit (hinv : Inv s) (c : N) (i : ℕ) : Inv (s.commit c i) :=
  { hinv.kept (extends_commit c i), hinv with }

lemma extends_enroll {k : ℕ} (hcfg : s.cfg n < k) : Extends s (s.enroll n k) := by
  have hgrown : ∀ m, s.cfg m ≤ (s.enroll n k).cfg m :=
    (forall_update_iff s.cfg fun m j ↦ s.cfg m ≤ j).mpr ⟨hcfg.le, fun _ _ ↦ le_rfl⟩
  exact
    { refl s with
      cfg := hgrown
      enrolled := fun v t j h ↦ ⟨h.1.trans (hgrown v), h.2⟩ }

lemma inv_enroll (hinv : Inv s) {k : ℕ} (hcfg : s.cfg n < k) (htop : k ≤ s.top) :
    Inv (s.enroll n k) :=
  { hinv.kept (extends_enroll hcfg), hinv with
    cfg_top := (forall_update_iff s.cfg fun _ j ↦ j ≤ s.top).mpr
      ⟨htop, fun m _ ↦ hinv.cfg_top m⟩ }

lemma extends_propose (hinv : Inv s) (c : N) (quorums : Set (Set N)) :
    Extends s (s.propose c quorums) := by
  have hgrown : ∀ m, s.cfg m ≤ (s.propose c quorums).cfg m :=
    (forall_update_iff s.cfg fun m j ↦ s.cfg m ≤ j).mpr
      ⟨(hinv.cfg_top c).trans (Nat.le_succ _), fun _ _ ↦ le_rfl⟩
  exact
    { refl s with
      cfg := hgrown
      top := Nat.le_succ _
      quorum := fun k hk ↦ s.propose_quorum_of_le hk c quorums
      proposed := fun k hk ↦ s.propose_proposed_of_le hk c quorums
      enrolled := fun v t j h ↦ ⟨h.1.trans (hgrown v), h.2⟩ }

lemma inv_propose (hinv : Inv s) (c : N) (quorums : Set (Set N)) :
    Inv (s.propose c quorums) :=
  { hinv.kept (extends_propose hinv c quorums), hinv with
    stood_top := fun d t log h ↦ (hinv.stood_top d t log h).trans (Nat.le_succ _)
    cfg_top := (forall_update_iff s.cfg fun _ j ↦ j ≤ s.top + 1).mpr
      ⟨le_rfl, fun m _ ↦ (hinv.cfg_top m).trans (Nat.le_succ _)⟩ }

lemma Step.extends (hstep : Step s s') (hinv : Inv s) : Extends s s' := by
  cases hstep with
  | bump n t hterm => exact extends_bump hterm
  | stand n t hterm => exact extends_stand hinv hterm
  | grant v c offered hvote hstood hlog hcfg => exact extends_grant hvote hcfg
  | elect c Q hleader hstood hquorum hvotes => exact extends_elect hinv hleader
  | append c entry hleader hentry => exact extends_append hinv entry hleader
  | adopt n k hleader hk => exact extends_adopt k
  | commit c i Q hleader hown hquorum hacked => exact extends_commit c i
  | enroll n k hcfg htop hterm => exact extends_enroll hcfg
  | propose c quorums => exact extends_propose hinv c quorums

lemma Step.inv (hstep : Step s s') (hinv : Inv s) : Inv s' := by
  cases hstep with
  | bump n t hterm => exact inv_bump hinv hterm
  | stand n t hterm => exact inv_stand hinv hterm
  | grant v c offered hvote hstood hlog hcfg => exact inv_grant hinv hvote hstood hlog hcfg
  | elect c Q hleader hstood hquorum hvotes => exact inv_elect hinv hleader hstood hquorum hvotes
  | append c entry hleader hentry => exact inv_append hinv hleader hentry
  | adopt n k hleader hk => exact inv_adopt hinv hleader hk
  | commit c i Q hleader hown hquorum hacked => exact inv_commit hinv c i
  | enroll n k hcfg htop hterm => exact inv_enroll hinv hcfg htop
  | propose c quorums => exact inv_propose hinv c quorums

end Steps

end Lockstep.Library.TermLog
