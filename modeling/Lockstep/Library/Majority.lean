import Lockstep.Library.TermLog
import Mathlib.Data.List.Nodup
import Mathlib.Data.List.Perm.Subperm

/-!
# Majorities of member lists

A quorum of a member list is a set that contains more than half as many distinct members as the list
has places.
-/

namespace Lockstep.Library.TermLog

open List

variable {N : Type*}

/-- The sets that contain more than half of the members. -/
def majorities (members : List N) : Set (Set N) :=
  { Q | ∃ votes : List N, votes.Nodup ∧ (∀ v ∈ votes, v ∈ members) ∧
      members.length / 2 + 1 ≤ votes.length ∧ ∀ v ∈ votes, v ∈ Q }

lemma mem_majorities_of_countP {members : List N} {nodes : List N} (hnodup : nodes.Nodup)
    {counted : N → Bool} (hcount : members.length / 2 + 1 ≤ nodes.countP counted)
    (hmember : ∀ v ∈ nodes, counted v = true → v ∈ members) :
    { v | v ∈ nodes ∧ counted v = true } ∈ majorities members := by
  refine ⟨nodes.filter counted, hnodup.filter _, ?_, ?_, ?_⟩
  · intro v hv
    exact hmember v (mem_filter.mp hv).1 (mem_filter.mp hv).2
  · rwa [← countP_eq_length_filter]
  · intro v hv
    exact mem_filter.mp hv

variable {first second : List N}

lemma meet_majorities_of_subset [DecidableEq N] (all : List N)
    (hfirst : ∀ v ∈ first, v ∈ all) (hsecond : ∀ v ∈ second, v ∈ all)
    (hlength : all.length < (first.length / 2 + 1) + (second.length / 2 + 1)) :
    Meet (majorities first) (majorities second) := by
  rintro Q ⟨votes, hnodup, hvotes, hcount, hQ⟩ R ⟨votes', hnodup', hvotes', hcount', hR⟩
  by_contra hempty
  have hdisjoint : votes.Disjoint votes' := by
    intro v hv hv'
    exact hempty ⟨v, hQ v hv, hR v hv'⟩
  have hsubset : votes ++ votes' ⊆ all :=
    append_subset.mpr ⟨fun v hv ↦ hfirst v (hvotes v hv), fun v hv ↦ hsecond v (hvotes' v hv)⟩
  have hall := List.Nodup.append hnodup hnodup' hdisjoint
  have hle := (subperm_of_subset hall hsubset).length_le
  rw [length_append] at hle
  omega

variable [DecidableEq N]

lemma meet_majorities_self (members : List N) :
    Meet (majorities members) (majorities members) :=
  meet_majorities_of_subset members (fun _ h ↦ h) (fun _ h ↦ h) (by omega)

lemma meet_majorities_append (members : List N) (added : N) :
    Meet (majorities members) (majorities (members ++ [added])) := by
  refine meet_majorities_of_subset (members ++ [added])
    (fun v h ↦ mem_append_left [added] h) (fun _ h ↦ h) ?_
  rw [length_append, length_singleton]
  omega

lemma meet_majorities_filter {members : List N} {removed : N} (hmem : removed ∈ members) :
    Meet (majorities members) (majorities (members.filter (· ≠ removed))) := by
  have hlength : (members.filter (· ≠ removed)).length < members.length :=
    length_filter_lt_length_iff_exists.mpr ⟨removed, hmem, by simp⟩
  refine meet_majorities_of_subset (removed :: members.filter (· ≠ removed)) ?_
    (fun v h ↦ mem_cons_of_mem _ h) ?_
  · intro v hv
    by_cases heq : v = removed
    · exact heq ▸ mem_cons_self
    · exact mem_cons_of_mem _ (mem_filter.mpr ⟨hv, by simpa using heq⟩)
  · rw [length_cons]
    omega

omit [DecidableEq N] in
lemma majorities_perm (hperm : first.Perm second) : majorities first = majorities second := by
  ext Q
  simp [majorities, hperm.length_eq, hperm.mem_iff]

end Lockstep.Library.TermLog
