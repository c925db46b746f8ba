import Lockstep.Consensus.RaftA.RecordReplay

/-!
# What a node persists and what its records rebuild

`Core` is the part of a node that recovery has to rebuild, with the indices that bound it and the
stream of every record the node has enqueued. `CoreStep` lists the elementary changes of a core,
each with the records it enqueues: a new term or vote, an appended or truncated log, a commit index
that is applied or compacted up to, an installed snapshot, the next configuration.
-/

namespace Lockstep.Consensus.RaftA

open Relation List

structure Core where
  config : NodeConfig
  term : ℕ
  vote : NodeId
  log : List LogEntry
  base : ℕ
  state : List LogEntry
  persistedBase : ℕ
  applied : ℕ
  commit : ℕ
  chain : List (List NodeId)
  cfgIdx : ℕ
  stream : List DurableRecord

def Node.core (s : Node) : Core where
  config := s.cfg
  term := s.currentTerm
  vote := s.votedFor
  log := s.log
  base := s.snapBase
  state := s.snapState
  persistedBase := s.snapPersistedBase
  applied := s.appliedIndex
  commit := s.commitIndex
  chain := s.cfgChain
  cfgIdx := s.cfgIdx
  stream := s.disk ++ s.writeQueue

def ballotRank (term : ℕ) (vote : NodeId) : ℕ := 2 * term + if vote = kNil then 0 else 1

namespace Core

variable {k k' : Core}

def llen (k : Core) : ℕ := k.base + k.log.length

/-- The indices of a core are in order. What is committed is applied, and what is applied and not
yet folded into the snapshot is not more than the threshold. -/
structure Compacted (k : Core) : Prop where
  state_len : k.state.length = k.base
  persisted : k.persistedBase = k.base
  commit_le : k.commit ≤ k.applied
  applied_le : k.applied ≤ k.base + k.config.snapshotThreshold
  chain_len : k.chain.length = k.cfgIdx + 1

structure RebuiltBy (k : Core) (st : Replay) : Prop where
  term : st.term = k.term
  vote : st.vote = k.vote
  log : st.log = k.log
  base : st.base = k.base
  state : st.state = k.state
  chain : st.chain = k.chain
  cfgIdx : st.cfgIdx = k.cfgIdx

def replayStart (k : Core) : Replay where
  term := 0
  vote := kNil
  chain := initConfigChain k.config

def Rebuilt (k : Core) : Prop := ∃ st, k.replayStart.replay k.stream = some st ∧ k.RebuiltBy st

end Core

/-! ### Elementary changes -/

inductive CoreStep : Core → Core → Prop
  | ballot (k : Core) (term : ℕ) (vote : NodeId)
      (hrank : ballotRank k.term k.vote < ballotRank term vote) :
      CoreStep k { k with
                   term := term, vote := vote,
                   stream := k.stream ++ [.recMeta term vote, .recMeta term vote] }
  | append (k : Core) (e : LogEntry) :
      CoreStep k { k with log := k.log ++ [e], stream := k.stream ++ [.recEntry (k.llen + 1) e] }
  | truncate (k : Core) (newLen : ℕ) (hbase : k.base ≤ newLen) (hlen : newLen ≤ k.llen) :
      CoreStep k { k with
        log := k.log.take (newLen - k.base)
        stream := k.stream ++ [.recTrunc newLen] }
  | apply (k : Core) (c : ℕ) (hwindow : max k.applied c ≤ k.base + k.config.snapshotThreshold) :
      CoreStep k { k with commit := c, applied := max k.applied c }
  | compact (k : Core) (c : ℕ) (hbase : k.base < max k.applied c)
      (hlen : max k.applied c ≤ k.llen) :
      CoreStep k { k with
        commit := c
        applied := max k.applied c
        state := k.state ++ k.log.take (max k.applied c - k.base)
        log := k.log.drop (max k.applied c - k.base)
        base := max k.applied c
        persistedBase := max k.applied c
        stream := k.stream ++ [.recSnapshotDelta k.base (max k.applied c)
          (k.log.take (max k.applied c - k.base))] }
  | install (k : Core) (state : List LogEntry) (hbase : k.base ≤ state.length)
      (hlen : k.llen ≤ state.length) :
      CoreStep k { k with
                   state := state, log := [], base := state.length,
                   persistedBase := state.length, applied := state.length, commit := state.length,
                   stream := k.stream ++ [.recSnapshot state.length state] }
  | config (k : Core) (members : List NodeId) :
      CoreStep k { k with
                   chain := k.chain ++ [members], cfgIdx := k.cfgIdx + 1,
                   stream := k.stream ++ [.recConfig (k.cfgIdx + 1) members] }

def Core.Evolves : Core → Core → Prop := ReflTransGen CoreStep

variable {k k' : Core}

lemma CoreStep.config_eq (hstep : CoreStep k k') : k'.config = k.config := by
  cases hstep <;> rfl

lemma CoreStep.compacted (hstep : CoreStep k k') (h : k.Compacted) : k'.Compacted := by
  cases hstep with
  | ballot | append | truncate => exact { h with }
  | apply c hwindow => exact { h with commit_le := le_max_right _ _, applied_le := hwindow }
  | compact c hbase hlen =>
    have hstate := h.state_len
    rw [Core.llen] at hlen
    refine
      { h with
        state_len := ?_, persisted := rfl, commit_le := le_max_right _ _,
        applied_le := Nat.le_add_right _ _ }
    change (k.state ++ k.log.take (max k.applied c - k.base)).length = max k.applied c
    rw [length_append, length_take]
    omega
  | install state hbase hlen =>
    exact
      { h with
        state_len := rfl, persisted := rfl, commit_le := le_rfl,
        applied_le := Nat.le_add_right _ _ }
  | config members =>
    refine { h with chain_len := ?_ }
    change (k.chain ++ [members]).length = k.cfgIdx + 1 + 1
    rw [length_append, h.chain_len, length_singleton]

/-! ### Replaying the records of a change -/

namespace Core.RebuiltBy

variable {st : Replay}

lemma length_eq (h : k.RebuiltBy st) : st.length = k.llen := by
  rw [Replay.length, h.base, h.log, Core.llen]

lemma kept_eq (h : k.RebuiltBy st) (newBase : ℕ) :
    st.kept newBase = k.log.drop (newBase - k.base) ∨
      k.llen ≤ newBase ∧ st.kept newBase = [] := by
  rw [Replay.kept, h.length_eq, h.log, h.base]
  split_ifs with hlt
  · exact .inl rfl
  · exact .inr ⟨Nat.le_of_not_lt hlt, rfl⟩

end Core.RebuiltBy

lemma CoreStep.replay_records (hstep : CoreStep k k') (hk : k.Compacted) :
    ∃ records, k'.stream = k.stream ++ records ∧
      ∀ st, k.RebuiltBy st → ∃ st', st.replay records = some st' ∧ k'.RebuiltBy st' := by
  cases hstep with
  | ballot term vote =>
    exact ⟨_, rfl, fun st h ↦ ⟨_, rfl, { h with term := rfl, vote := rfl }⟩⟩
  | append e =>
    refine ⟨_, rfl, fun st h ↦ ?_⟩
    have hindex : k.llen + 1 = st.length + 1 := by rw [h.length_eq]
    exact ⟨_, (st.replay_single _).trans (if_pos hindex),
      { h with log := congrArg (· ++ [e]) h.log }⟩
  | truncate newLen hbase hlen =>
    refine ⟨_, rfl, fun st h ↦ ?_⟩
    have hcut : newLen ≤ st.length ∧ st.base ≤ newLen := by
      rw [h.length_eq, h.base]
      exact ⟨hlen, hbase⟩
    refine ⟨_, (st.replay_single _).trans (if_pos hcut), { h with log := ?_ }⟩
    change st.log.take (newLen - st.base) = k.log.take (newLen - k.base)
    rw [h.log, h.base]
  | apply c => exact ⟨[], (append_nil _).symm, fun st h ↦ ⟨st, rfl, { h with }⟩⟩
  | compact c hbase hlen =>
    rw [Core.llen] at hlen
    refine ⟨_, rfl, fun st h ↦ ?_⟩
    have hchain : k.base = st.base ∧ k.base ≤ max k.applied c ∧
        (k.log.take (max k.applied c - k.base)).length = max k.applied c - k.base :=
      ⟨h.base.symm, hbase.le, length_take_of_le (by omega)⟩
    refine ⟨_, (st.replay_single _).trans (if_pos hchain),
      { h with
        base := rfl, state := congrArg (· ++ k.log.take (max k.applied c - k.base)) h.state,
        log := ?_ }⟩
    rcases h.kept_eq (max k.applied c) with hkept | ⟨hle, hkept⟩
    · exact hkept
    · refine hkept.trans (drop_of_length_le ?_).symm
      rw [Core.llen] at hle
      omega
  | install state hbase hlen =>
    refine ⟨_, rfl, fun st h ↦ ?_⟩
    have hahead : st.base ≤ state.length ∧ state.length = state.length :=
      ⟨h.base.trans_le hbase, rfl⟩
    refine ⟨_, (st.replay_single _).trans (if_pos hahead),
      { h with base := rfl, state := rfl, log := ?_ }⟩
    rcases h.kept_eq state.length with hkept | ⟨-, hkept⟩
    · refine hkept.trans (drop_of_length_le ?_)
      rw [Core.llen] at hlen
      omega
    · exact hkept
  | config members =>
    refine ⟨_, rfl, fun st h ↦ ?_⟩
    have hnext : k.cfgIdx + 1 ≠ 0 ∧ k.cfgIdx + 1 ≤ st.chain.length :=
      ⟨Nat.succ_ne_zero _, (h.chain ▸ hk.chain_len).ge⟩
    refine ⟨_, (st.replay_single _).trans (if_pos hnext), { h with chain := ?_, cfgIdx := ?_ }⟩
    · change (st.chain ++ replicate (k.cfgIdx + 1 + 1 - st.chain.length) []).set
        (k.cfgIdx + 1) members = k.chain ++ [members]
      rw [h.chain, hk.chain_len, Nat.add_sub_cancel_left, ← hk.chain_len]
      simp
    · change max st.cfgIdx (k.cfgIdx + 1) = k.cfgIdx + 1
      rw [h.cfgIdx, Nat.max_eq_right (Nat.le_succ _)]

lemma CoreStep.rebuilt (hstep : CoreStep k k') (hk : k.Compacted) (h : k.Rebuilt) :
    k'.Rebuilt := by
  obtain ⟨st, hreplay, hst⟩ := h
  obtain ⟨records, hstream, hrecords⟩ := hstep.replay_records hk
  obtain ⟨st', hst', hrebuilt⟩ := hrecords st hst
  refine ⟨st', ?_, hrebuilt⟩
  rw [Core.replayStart, hstep.config_eq, hstream, Replay.replay_append]
  exact Option.bind_eq_some_iff.mpr ⟨st, hreplay, hst'⟩

namespace Core.Evolves

lemma config_eq (h : k.Evolves k') : k'.config = k.config := by
  induction h with
  | refl => rfl
  | tail _ hstep ih => exact hstep.config_eq.trans ih

lemma compacted (h : k.Evolves k') (hk : k.Compacted) : k'.Compacted := by
  induction h with
  | refl => exact hk
  | tail _ hstep ih => exact hstep.compacted ih

lemma rebuilt (h : k.Evolves k') (hk : k.Compacted) (hrebuilt : k.Rebuilt) : k'.Rebuilt := by
  induction h with
  | refl => exact hrebuilt
  | tail hsteps hstep ih => exact hstep.rebuilt (Core.Evolves.compacted hsteps hk) ih

end Core.Evolves

end Lockstep.Consensus.RaftA
