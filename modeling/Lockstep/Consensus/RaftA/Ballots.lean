import Lockstep.Consensus.RaftA.Persistence

/-!
# The ballots of a stream

A ballot is a term with the vote cast in it. Each new ballot puts two equal metadata records into
the stream of a node, and no ballot comes twice (`Core.Balloted`). A replay has the ballot of the
last metadata record it has met (`Replay.replay_ballot`), so a part of the stream restores the
ballot of the node exactly when at most one metadata record is missing from it
(`Core.Balloted.replay_eq_iff`).
-/

namespace Lockstep.Consensus.RaftA

open List

/-! ### Lists written twice -/

section Twice

variable {α : Type*}

def twice (xs : List α) : List α := xs.flatMap fun x ↦ [x, x]

lemma twice_append (xs ys : List α) : twice (xs ++ ys) = twice xs ++ twice ys :=
  flatMap_append

lemma mem_of_mem_twice {x : α} {xs : List α} (h : x ∈ twice xs) : x ∈ xs := by
  obtain ⟨y, hy, hx⟩ := mem_flatMap.mp h
  rw [mem_pair, or_self] at hx
  exact hx ▸ hy

lemma getLastD_mem (d : α) (xs : List α) : xs.getLastD d ∈ d :: xs := by
  rcases eq_nil_or_concat xs with rfl | ⟨init, x, rfl⟩
  · exact mem_cons_self
  · rw [concat_eq_append, getLastD_concat]
    exact mem_cons_of_mem d (mem_append_right init (mem_singleton_self x))

lemma getLastD_append (d : α) (xs ys : List α) :
    (xs ++ ys).getLastD d = ys.getLastD (xs.getLastD d) := by
  rcases eq_nil_or_concat ys with rfl | ⟨init, y, rfl⟩
  · rw [append_nil]
    rfl
  · rw [concat_eq_append, ← append_assoc, getLastD_concat, getLastD_concat]

lemma getLastD_eq_iff_of_twice {d : α} {xs first second : List α}
    (h : twice xs = first ++ second) (hnodup : (d :: xs).Nodup) :
    first.getLastD d = xs.getLastD d ↔ second.length ≤ 1 := by
  rcases eq_nil_or_concat xs with rfl | ⟨init, x, rfl⟩
  · obtain ⟨rfl, rfl⟩ := append_eq_nil_iff.mp h.symm
    exact iff_of_true rfl (Nat.zero_le 1)
  rw [concat_eq_append] at h hnodup ⊢
  rw [getLastD_concat]
  have hmissing : ∀ ys : List α, (∀ y ∈ ys, y ∈ twice init) → ys.getLastD d ≠ x := by
    intro ys hys heq
    rw [← cons_append, nodup_append] at hnodup
    refine hnodup.2.2 x ?_ x (mem_singleton_self x) rfl
    rcases mem_cons.mp (heq ▸ getLastD_mem d ys) with rfl | hmem
    · exact mem_cons_self
    · exact mem_cons_of_mem d (mem_of_mem_twice (hys x hmem))
  rw [twice_append, append_eq_append_iff] at h
  rcases h with ⟨part, rfl, hpart⟩ | ⟨part, hinit, rfl⟩
  · -- the first part reaches into the last pair by none, one or both of its elements
    match part, hpart with
    | [], hpart =>
      rw [append_nil]
      refine iff_of_false (hmissing _ fun _ hy ↦ hy) ?_
      rw [show second = [x, x] from hpart.symm]
      exact Nat.lt_irrefl 1
    | [y], hpart =>
      cases hpart
      exact iff_of_true (getLastD_concat ..) le_rfl
    | [y, z], hpart =>
      cases hpart
      refine iff_of_true ?_ (Nat.zero_le 1)
      rw [append_cons, getLastD_concat]
    | _ :: _ :: _ :: _, hpart => cases hpart
  · refine iff_of_false (hmissing _ fun y hy ↦ hinit ▸ mem_append_left part hy) ?_
    rw [length_append, Nat.not_le]
    exact Nat.lt_of_lt_of_le Nat.one_lt_two (Nat.le_add_left 2 part.length)

end Twice

/-! ### Ballots -/

variable {k k' : Core} {st st' : Replay} {r : DurableRecord} {records : List DurableRecord}

def DurableRecord.ballot? : DurableRecord → Option (ℕ × NodeId)
  | recMeta term vote => some (term, vote)
  | _ => none

def ballots (records : List DurableRecord) : List (ℕ × NodeId) :=
  records.filterMap DurableRecord.ballot?

lemma ballots_append (first second : List DurableRecord) :
    ballots (first ++ second) = ballots first ++ ballots second :=
  filterMap_append

namespace Replay

def ballot (st : Replay) : ℕ × NodeId := (st.term, st.vote)

lemma applyRecord_ballot (h : st.applyRecord r = some st') :
    st'.ballot = (ballots [r]).getLastD st.ballot := by
  cases r with
  | recMeta => cases h; rfl
  | recEntry | recTrunc | recSnapshot | recSnapshotDelta | recConfig =>
    rw [applyRecord] at h
    split_ifs at h
    cases h
    rfl

lemma replay_ballot (h : st.replay records = some st') :
    st'.ballot = (ballots records).getLastD st.ballot := by
  induction records generalizing st with
  | nil => cases h; rfl
  | cons r records ih =>
    rw [replay_cons] at h
    obtain ⟨next, hnext, hrest⟩ := Option.bind_eq_some_iff.mp h
    rw [← singleton_append, ballots_append, getLastD_append, ih hrest, applyRecord_ballot hnext]

end Replay

namespace Core

def noBallot : ℕ × NodeId := (0, kNil)

/-- The stream holds two copies of each ballot the node has had, and the last one is its own. -/
def Balloted (k : Core) : Prop :=
  ∃ cast : List (ℕ × NodeId), ballots k.stream = twice cast ∧
    (noBallot :: cast).Nodup ∧ cast.getLastD noBallot = (k.term, k.vote) ∧
    ∀ b ∈ noBallot :: cast, ballotRank b.1 b.2 ≤ ballotRank k.term k.vote

lemma Balloted.step (h : k.Balloted) (hstep : CoreStep k k') : k'.Balloted := by
  obtain ⟨cast, hstream, hnodup, hlast, hrank⟩ := h
  -- only a ballot adds metadata records
  have hsame : ∀ added, k'.stream = k.stream ++ added → ballots added = [] →
      k'.term = k.term → k'.vote = k.vote → k'.Balloted := by
    intro added hadded hnone hterm hvote
    refine ⟨cast, ?_, hnodup, ?_, ?_⟩
    · rw [hadded, ballots_append, hnone, append_nil, hstream]
    · rw [hterm, hvote, hlast]
    · rwa [hterm, hvote]
  cases hstep with
  | ballot term vote hnew =>
    refine ⟨cast ++ [(term, vote)], ?_, ?_, getLastD_concat .., ?_⟩
    · rw [twice_append, ← hstream]
      exact ballots_append ..
    · rw [← cons_append, nodup_append]
      refine ⟨hnodup, nodup_singleton _, fun b hb b' hb' ↦ ?_⟩
      rw [mem_singleton.mp hb']
      rintro rfl
      exact absurd (hrank _ hb) (Nat.not_le.mpr hnew)
    · intro b hb
      rw [← cons_append, mem_append, mem_singleton] at hb
      rcases hb with hb | rfl
      · exact (hrank b hb).trans hnew.le
      · exact le_rfl
  | apply => exact hsame [] (append_nil _).symm rfl rfl rfl
  | append | truncate | compact | install | config => exact hsame _ rfl rfl rfl rfl

lemma Balloted.evolves (h : k.Balloted) (hsteps : k.Evolves k') : k'.Balloted := by
  induction hsteps with
  | refl => exact h
  | tail _ hstep ih => exact ih.step hstep

lemma Balloted.replay_eq_iff (h : k.Balloted) {first second : List DurableRecord}
    (hstream : k.stream = first ++ second) (hreplay : k.replayStart.replay first = some st) :
    st.term = k.term ∧ st.vote = k.vote ↔ (ballots second).length ≤ 1 := by
  obtain ⟨cast, hcast, hnodup, hlast, -⟩ := h
  have hballot : st.ballot = (ballots first).getLastD noBallot := Replay.replay_ballot hreplay
  rw [hstream, ballots_append] at hcast
  rw [← getLastD_eq_iff_of_twice hcast.symm hnodup, ← hballot, hlast, Replay.ballot, Prod.mk.injEq]

end Core

end Lockstep.Consensus.RaftA
