import Lockstep.Library.TermLogChain

/-!
# Agreement of the replicated-log machine

No two candidates can have the votes of a quorum of their own configuration in one term
(`unique_winner`), and a position declared committed is in the log of every later leader
(`leader_completeness`).
-/

namespace Lockstep.Library.TermLog

open List Option

variable {N V : Type*} {s s' : State N V}

variable {first log second : List (Entry V)} {i k limit limit' t : ℕ}

lemma ChainInv.meet_of_close (hchain : ChainInv s) {j : ℕ} (hj : j ≤ s.top) (hk : k ≤ s.top)
    (hjk : j ≤ k + 1) (hkj : k ≤ j + 1) : Meet (s.quorum j) (s.quorum k) := by
  rcases Nat.lt_trichotomy j k with hlt | rfl | hgt
  · have heq : k = j + 1 := by omega
    subst heq
    exact hchain.meet_next j hk
  · exact hchain.meet_self j hj
  · have heq : j = k + 1 := by omega
    subst heq
    exact (hchain.meet_next k hj).symm

/-- A candidate with the votes of a quorum of its configuration is less than two configurations
behind every one proposed in an earlier term. -/
theorem stoodCfg_gt_of_proposed (hchain : ChainInv s) {u : ℕ} {c : N} {R : Set N}
    (htop : k + 2 ≤ s.top) (hproposed : s.proposed (k + 2) < u)
    (hR : R ∈ s.quorum (s.stoodCfg c u)) (hvotes : ∀ v ∈ R, s.vote v u = some c) :
    k < s.stoodCfg c u := by
  by_contra hle
  obtain ⟨j, hj⟩ : ∃ j, s.stoodCfg c u = j := ⟨_, rfl⟩
  rw [hj] at hle hR
  -- a quorum of the next configuration had adopted it before the one after was proposed
  obtain ⟨Q, hQ, henrolled⟩ := hchain.settled (j + 1) (Nat.succ_pos j) (by omega)
  obtain ⟨v, hvR, hvQ⟩ := hchain.meet_next j (by omega) R hR Q hQ
  have hmono := hchain.proposed_mono (j + 2) (k + 2) (by omega) (by omega) htop
  have hge := (henrolled v hvQ).2 u c (lt_of_le_of_lt hmono hproposed) (hvotes v hvR)
  omega

lemma unique_winner (hinv : Inv s) (hchain : ChainInv s) {u : ℕ} {c d : N} {Q R : Set N}
    {log' : List (Entry V)} (hstoodc : s.stood c u = some log) (hstoodd : s.stood d u = some log')
    (hQ : Q ∈ s.quorum (s.stoodCfg c u)) (hR : R ∈ s.quorum (s.stoodCfg d u))
    (hc : ∀ v ∈ Q, s.vote v u = some c) (hd : ∀ v ∈ R, s.vote v u = some d) : c = d := by
  have htopc := hinv.stood_top c u log hstoodc
  have htopd := hinv.stood_top d u log' hstoodd
  -- neither candidate is two configurations behind the other
  have hbehind : ∀ {a b : N} {log : List (Entry V)} {P : Set N}, s.stood b u = some log →
      P ∈ s.quorum (s.stoodCfg a u) → (∀ v ∈ P, s.vote v u = some a) →
      s.stoodCfg b u ≤ s.stoodCfg a u + 1 := by
    intro a b log P hstood hP hvotes
    by_contra hfar
    have htop := hinv.stood_top b u log hstood
    have hgt := stoodCfg_gt_of_proposed hchain (k := s.stoodCfg a u) (by omega)
      (hchain.stood_term b u log hstood _ (by omega) (by omega)) hP hvotes
    exact absurd hgt (lt_irrefl _)
  obtain ⟨v, hvQ, hvR⟩ := hchain.meet_of_close htopc htopd (hbehind hstoodc hR hd)
    (hbehind hstoodd hQ hc) Q hQ R hR
  exact some.inj ((hc v hvQ).symm.trans (hd v hvR))

/-! ### Leader completeness -/

lemma Holds.mono {j : ℕ} (h : Holds s t j log) (hij : i ≤ j) : Holds s t i log :=
  (take_prefix_take_left (Nat.succ_le_succ hij)).trans h

lemma committed_leader_ne_none (hinv : Inv s) (hchain : ChainInv s) (h : s.committed t i k) :
    s.leader t ≠ none := by
  obtain ⟨⟨entry, hentry, -⟩, -⟩ := hchain.committed_quorum t i k h
  intro hnone
  rw [hinv.history_nil t hnone] at hentry
  cases hentry

lemma Inv.base_length_le (hinv : Inv s) (hleader : s.leader t ≠ none) (hown : OwnAt s t i) :
    (s.base t).length ≤ i := by
  obtain ⟨entry, hentry, hterm⟩ := hown
  by_contra hlt
  have hmem := mem_of_getElem?
    (getElem?_prefix_of_lt (hinv.base_history t hleader) (not_le.mp hlt) hentry)
  exact absurd hterm (hinv.base_term t hleader entry hmem).ne

lemma Holds.of_base (hinv : Inv s) {p b : ℕ} (hleader : s.leader p ≠ none) (hown : OwnAt s p b)
    (hbase : Holds s t i (s.base p)) (h : Holds s p b log) : Holds s t i log := by
  have hlen := hinv.base_length_le hleader hown
  have hpre : s.base p <+: (s.history p).take (b + 1) :=
    (prefix_take_iff).mpr ⟨hinv.base_history p hleader, by omega⟩
  exact (hbase.trans hpre).trans h

/-- The log with which a leader is elected holds every position committed in an earlier term. The
induction is on the later term, and inside it on how far its configuration is ahead. -/
theorem leader_completeness (hinv : Inv s) (hchain : ChainInv s) :
    ∀ u c, s.leader u = some c → ∀ gap t i k, s.stoodCfg c u ≤ k + 1 + gap →
      s.committed t i k → t < u → Holds s t i (s.base u) := by
  intro u
  induction u using Nat.strong_induction_on with
  | _ u ih =>
  intro c hc gap
  obtain ⟨R, hR, hvotes⟩ := hinv.elected u c hc
  have hstood := hinv.leader_stood u c hc
  have htopc := hinv.stood_top c u _ hstood
  have hearlier : ∀ w t i k, w < u → s.leader w ≠ none → s.committed t i k → t < w →
      Holds s t i (s.base w) := by
    intro w t i k hw hleader hcommitted htw
    obtain ⟨d, hd⟩ := ne_none_iff_exists'.mp hleader
    exact ih w hw d hd (s.stoodCfg d w) t i k (by omega) hcommitted htw
  -- close configurations: a voter has acknowledged the position
  have hclose : ∀ t i k, s.stoodCfg c u ≤ k + 1 → s.committed t i k → t < u →
      Holds s t i (s.base u) := by
    intro t i k hck hcommitted htu
    obtain ⟨hown, Q, hQ, hacked⟩ := hchain.committed_quorum t i k hcommitted
    have hk := hchain.committed_top t i k hcommitted
    have hkc : k ≤ s.stoodCfg c u + 1 := by
      by_contra hfar
      have hgt := stoodCfg_gt_of_proposed hchain (k := s.stoodCfg c u) (u := u) (by omega)
        (lt_of_le_of_lt (hchain.committed_term t i k hcommitted _ (by omega) (by omega)) htu)
        hR fun v hv ↦ (hvotes v hv).1
      exact absurd hgt (lt_irrefl _)
    obtain ⟨v, hvQ, hvR⟩ := hchain.meet_of_close hk htopc hkc hck Q hQ R hR
    rcases (hvotes v hvR).2 t i htu (hacked v hvQ) hown with hholds | ⟨w, htw, hwu, hover⟩
    · exact hholds
    · exact absurd (hearlier w t i k hwu hover.1 hcommitted htw) hover.2
  induction gap with
  | zero => exact hclose
  | succ gap ihgap =>
    intro t i k hgap hcommitted htu
    by_cases hck : s.stoodCfg c u ≤ k + 1
    · exact hclose t i k hck hcommitted htu
    -- the configuration two ahead was proposed by a leader that had committed under the next one
    have htop : k + 1 < s.top := by omega
    have hproposed : s.proposed (k + 2) < u :=
      hchain.stood_term c u _ hstood _ (by omega) (by omega)
    obtain ⟨b, hb, hlast⟩ := hchain.barrier (k + 1) htop
    have hnext : Holds s (s.proposed (k + 2)) b (s.base u) :=
      ihgap _ b (k + 1) (by omega) hb hproposed
    rcases Nat.lt_trichotomy (s.proposed (k + 2)) t with hlt | heq | hgt
    · obtain ⟨d, hd⟩ := ne_none_iff_exists'.mp
        (committed_leader_ne_none hinv hchain hcommitted)
      obtain ⟨P, hP, hdvotes⟩ := hinv.elected t d hd
      have hdk := stoodCfg_gt_of_proposed hchain (k := k) (by omega) hlt hP
        fun v hv ↦ (hdvotes v hv).1
      have hle := hchain.committed_leader t i k d hcommitted hd
      omega
    · rw [heq] at hnext hlast
      exact hnext.mono (hlast i k hcommitted (Nat.le_succ k))
    · have hleader := committed_leader_ne_none hinv hchain hb
      exact Holds.of_base hinv hleader (hchain.committed_quorum _ b _ hb).1
        (hearlier _ t i k hproposed hleader hcommitted hgt) hnext

/-- The log is a prefix of what a leader of a term up to `limit` has declared committed. -/
def CommittedPrefix (s : State N V) (limit : ℕ) (log : List (Entry V)) : Prop :=
  log = [] ∨ ∃ t i k, t ≤ limit ∧ s.committed t i k ∧ log <+: (s.history t).take (i + 1)

lemma CommittedPrefix.nil (s : State N V) (limit : ℕ) : CommittedPrefix s limit [] :=
  Or.inl rfl

lemma CommittedPrefix.mono (h : CommittedPrefix s limit second) (hpre : first <+: second)
    (hlimit : limit ≤ limit') : CommittedPrefix s limit' first := by
  rcases h with rfl | ⟨t, i, k, ht, hcommitted, hlog⟩
  · exact .inl (prefix_nil.mp hpre)
  · exact .inr ⟨t, i, k, ht.trans hlimit, hcommitted, hpre.trans hlog⟩

lemma CommittedPrefix.extends (h : CommittedPrefix s limit log) (hchain : ChainInv s)
    (hext : Extends s s') : CommittedPrefix s' limit log := by
  rcases h with rfl | ⟨t, i, k, ht, hcommitted, hlog⟩
  · exact .inl rfl
  · refine .inr ⟨t, i, k, ht, hext.committed t i k hcommitted, ?_⟩
    obtain ⟨⟨entry, hentry, -⟩, -⟩ := hchain.committed_quorum t i k hcommitted
    rwa [hext.history_take (Nat.succ_le_of_lt (List.getElem?_eq_some_iff.mp hentry).1)]

lemma CommittedPrefix.prefix_history (hinv : Inv s) (hchain : ChainInv s)
    (h : CommittedPrefix s limit log) (hleader : s.leader limit ≠ none) :
    log <+: s.history limit := by
  rcases h with rfl | ⟨t, i, k, ht, hcommitted, hlog⟩
  · exact nil_prefix
  rcases Nat.eq_or_lt_of_le ht with rfl | hlt
  · exact hlog.trans (List.take_prefix _ _)
  · obtain ⟨c, hc⟩ := ne_none_iff_exists'.mp hleader
    have hholds := leader_completeness hinv hchain limit c hc (s.stoodCfg c limit) t i k
      (by omega) hcommitted hlt
    exact (hlog.trans hholds).trans (hinv.base_history limit hleader)

lemma CommittedPrefix.compare (hinv : Inv s) (hchain : ChainInv s)
    (hfirst : CommittedPrefix s limit first) (hsecond : CommittedPrefix s limit' second) :
    first <+: second ∨ second <+: first := by
  rcases hfirst with rfl | ⟨t, i, k, -, hc, hlog⟩
  · exact .inl nil_prefix
  rcases hsecond with rfl | ⟨u, j, l, -, hd, hlog'⟩
  · exact .inr nil_prefix
  -- both are prefixes of the history of the later of the two terms
  rcases Nat.le_total t u with htu | hut
  · have h₁ : CommittedPrefix s u first := .inr ⟨t, i, k, htu, hc, hlog⟩
    exact prefix_or_prefix_of_prefix
      (h₁.prefix_history hinv hchain (committed_leader_ne_none hinv hchain hd))
      (hlog'.trans (List.take_prefix _ _))
  · have h₂ : CommittedPrefix s t second := .inr ⟨u, j, l, hut, hd, hlog'⟩
    exact prefix_or_prefix_of_prefix (hlog.trans (List.take_prefix _ _))
      (h₂.prefix_history hinv hchain (committed_leader_ne_none hinv hchain hc))

lemma CommittedPrefix.getElem?_eq (hinv : Inv s) (hchain : ChainInv s)
    (hfirst : CommittedPrefix s limit first) (hsecond : CommittedPrefix s limit' second)
    (hi : i < first.length) (hj : i < second.length) : first[i]? = second[i]? := by
  rcases hfirst.compare hinv hchain hsecond with h | h
  · exact (prefix_getElem? h (getElem?_eq_getElem hi)).symm ▸ getElem?_eq_getElem hi
  · exact (prefix_getElem? h (getElem?_eq_getElem hj)) ▸ (getElem?_eq_getElem hj).symm

end Lockstep.Library.TermLog
