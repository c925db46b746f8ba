import Lockstep.Consensus.Sequencer
import Lockstep.Library.FirstOccurrences

/-!
# The commit order of cross-shard transactions

A transaction that touches several shards is committed in the log of each of them
(`txn/CrossShard.hpp`). `dedupGlobalOrder` turns the merged log into the order in which transactions
commit: a transaction is placed at its first occurrence in the log, once all the shards of its
footprint have it there, and is left out before that.

A transaction whose last shard commits it in a later epoch than its first is left out until that
epoch is sealed and then placed back at its first occurrence.
-/

namespace Lockstep.Transactions.CrossShard

open Consensus.Sequencer Library FirstOccurrences List

abbrev Footprints := TxnId → Option (Finset ℕ)

def seenOn (global : GlobalLog) : TxnId → Finset ℕ :=
  global.foldl (fun seen e ↦ Function.update seen e.txnId (insert e.shard (seen e.txnId)))
    fun _ ↦ ∅

def fullyCommitted (seen : TxnId → Finset ℕ) (shardsByTxn : Footprints) (txnId : TxnId) : Bool :=
  match shardsByTxn txnId with
  | none => false
  | some need => need ⊆ seen txnId

def place (seen : TxnId → Finset ℕ) (shardsByTxn : Footprints) (order : List TxnId)
    (e : GlobalEntry) : List TxnId :=
  if e.txnId ∈ order then order
  else if fullyCommitted seen shardsByTxn e.txnId then order ++ [e.txnId] else order

def dedupGlobalOrder (global : GlobalLog) (shardsByTxn : Footprints) : List TxnId :=
  global.foldl (place (seenOn global) shardsByTxn) []

variable {global : GlobalLog} {shardsByTxn : Footprints} {txnId : TxnId}

lemma mem_seenOn {s : ℕ} :
    s ∈ seenOn global txnId ↔ ∃ e ∈ global, e.txnId = txnId ∧ e.shard = s := by
  rw [seenOn]
  induction global using reverseRecOn with
  | nil => simp
  | append_singleton global e ih =>
    rw [foldl_append, foldl_cons, foldl_nil]
    simp only [mem_append, mem_singleton, or_and_right, exists_or, exists_eq_left]
    rw [← ih]
    by_cases hid : e.txnId = txnId
    · subst hid
      rw [Function.update_self, Finset.mem_insert, or_comm]
      simp [eq_comm]
    · rw [Function.update_of_ne (Ne.symm hid)]
      simp [hid]

lemma dedupGlobalOrder_eq (global : GlobalLog) (shardsByTxn : Footprints) :
    dedupGlobalOrder global shardsByTxn =
      (firsts (global.map GlobalEntry.txnId)).filter
        (fullyCommitted (seenOn global) shardsByTxn) := by
  rw [← foldl_place_eq, foldl_map]
  refine congrArg (fun f ↦ foldl f [] global) ?_
  funext order e
  rw [place]
  congr

lemma nodup_dedupGlobalOrder (global : GlobalLog) (shardsByTxn : Footprints) :
    (dedupGlobalOrder global shardsByTxn).Nodup := by
  rw [dedupGlobalOrder_eq]
  exact (nodup_firsts _).filter _

lemma mem_dedupGlobalOrder : txnId ∈ dedupGlobalOrder global shardsByTxn ↔
    (∃ e ∈ global, e.txnId = txnId) ∧ ∃ need, shardsByTxn txnId = some need ∧
      ∀ s ∈ need, ∃ e ∈ global, e.txnId = txnId ∧ e.shard = s := by
  rw [dedupGlobalOrder_eq, mem_filter, mem_firsts, mem_map, fullyCommitted]
  refine and_congr_right fun _ ↦ ?_
  cases shardsByTxn txnId with
  | none => simp
  | some need =>
    simp [Finset.subset_iff, mem_seenOn]

/-! ### Sealing one more epoch -/

def SealedEntry (shardLogs : List ShardLog) (sealed : ℕ) (x : GlobalEntry) : Prop :=
  Committed shardLogs x ∧ 1 ≤ x.epoch ∧ x.epoch ≤ sealed

/-- A transaction is in a sealed epoch, and in one on every shard of its known footprint. -/
def Complete (shardLogs : List ShardLog) (shardsByTxn : Footprints) (sealed : ℕ)
    (txnId : TxnId) : Prop :=
  (∃ x, SealedEntry shardLogs sealed x ∧ x.txnId = txnId) ∧
    ∃ need, shardsByTxn txnId = some need ∧
      ∀ s ∈ need, ∃ x, SealedEntry shardLogs sealed x ∧ x.txnId = txnId ∧ x.shard = s

/-- The next epoch completes a transaction that occurs, in a sealed epoch, before every occurrence
of one that is complete already. -/
def CompletesLate (shardLogs : List ShardLog) (ranks : ShardRank) (shardsByTxn : Footprints)
    (sealed : ℕ) : Prop :=
  ∃ late placed, Complete shardLogs shardsByTxn (sealed + 1) late ∧
    ¬ Complete shardLogs shardsByTxn sealed late ∧ Complete shardLogs shardsByTxn sealed placed ∧
    ∃ x, SealedEntry shardLogs sealed x ∧ x.txnId = late ∧
      ∀ y, SealedEntry shardLogs sealed y → y.txnId = placed → x.Precedes ranks y

/-- `dedup_global_order(merge(..))`, if the merge ends. -/
def commitOrder (fuel : ℕ) (shardLogs : List ShardLog) (ranks : ShardRank)
    (shardsByTxn : Footprints) (sealed : ℕ) : Option (List TxnId) :=
  (merge fuel shardLogs ranks sealed).map (dedupGlobalOrder · shardsByTxn)

/-- The commit order over the log that the merge is meant to return. -/
def sealedOrder (shardLogs : List ShardLog) (ranks : ShardRank) (shardsByTxn : Footprints)
    (sealed : ℕ) : List TxnId :=
  dedupGlobalOrder (sealedLog shardLogs ranks sealed) shardsByTxn

lemma commitOrder_eq_some_iff {shardLogs : List ShardLog} {ranks : ShardRank} {sealed : ℕ}
    {order : List TxnId} :
    (∃ fuel, commitOrder fuel shardLogs ranks shardsByTxn sealed = some order) ↔
      sealed + 1 < 2 ^ 64 ∧ order = sealedOrder shardLogs ranks shardsByTxn sealed := by
  simp only [commitOrder, Option.map_eq_some_iff]
  rw [exists_comm]
  simp only [exists_and_right, merge_eq_some_iff]
  constructor
  · rintro ⟨log, ⟨hsealed, rfl⟩, rfl⟩
    exact ⟨hsealed, rfl⟩
  · rintro ⟨hsealed, rfl⟩
    exact ⟨_, ⟨hsealed, rfl⟩, rfl⟩

variable {shardLogs : List ShardLog} {ranks : ShardRank} {sealed : ℕ}

lemma mem_sealedLog_iff {x : GlobalEntry} :
    x ∈ sealedLog shardLogs ranks sealed ↔ SealedEntry shardLogs sealed x := mem_sealedLog

lemma mem_sealedOrder (ranks : ShardRank) :
    txnId ∈ sealedOrder shardLogs ranks shardsByTxn sealed ↔
      Complete shardLogs shardsByTxn sealed txnId := by
  rw [sealedOrder, mem_dedupGlobalOrder, Complete]
  simp only [mem_sealedLog_iff]

def occurrences (shardLogs : List ShardLog) (ranks : ShardRank) (sealed : ℕ) : List TxnId :=
  firsts ((sealedLog shardLogs ranks sealed).map GlobalEntry.txnId)

lemma mem_occurrences : txnId ∈ occurrences shardLogs ranks sealed ↔
    ∃ x, SealedEntry shardLogs sealed x ∧ x.txnId = txnId := by
  rw [occurrences, mem_firsts, mem_map]
  simp only [mem_sealedLog_iff]

def placed (shardLogs : List ShardLog) (ranks : ShardRank) (shardsByTxn : Footprints)
    (sealed : ℕ) : TxnId → Bool :=
  fullyCommitted (seenOn (sealedLog shardLogs ranks sealed)) shardsByTxn

lemma complete_iff_placed (ranks : ShardRank) : Complete shardLogs shardsByTxn sealed txnId ↔
    txnId ∈ occurrences shardLogs ranks sealed ∧
      placed shardLogs ranks shardsByTxn sealed txnId = true := by
  rw [← mem_sealedOrder ranks, sealedOrder, dedupGlobalOrder_eq, mem_filter]
  rfl

lemma placed_mono (h : placed shardLogs ranks shardsByTxn sealed txnId = true) :
    placed shardLogs ranks shardsByTxn (sealed + 1) txnId = true := by
  rw [placed, fullyCommitted] at h ⊢
  cases hneed : shardsByTxn txnId with
  | none =>
    rw [hneed] at h
    cases h
  | some need =>
    rw [hneed] at h
    refine decide_eq_true ((of_decide_eq_true h).trans fun s hs ↦ ?_)
    obtain ⟨e, he, hid⟩ := mem_seenOn.mp hs
    exact mem_seenOn.mpr ⟨e, (sealedLog_prefix_of_le (Nat.le_succ sealed)).subset he, hid⟩

lemma occurrences_succ (shardLogs : List ShardLog) (ranks : ShardRank) (sealed : ℕ) :
    ∃ added, occurrences shardLogs ranks (sealed + 1) =
      occurrences shardLogs ranks sealed ++ added := by
  rw [occurrences, sealedLog_succ, map_append, firsts_append]
  exact ⟨_, rfl⟩

lemma pair_sublist_occurrences_iff {late early : TxnId} :
    [late, early].Sublist (occurrences shardLogs ranks sealed) ↔
      late ≠ early ∧ (∃ y, SealedEntry shardLogs sealed y ∧ y.txnId = early) ∧
        ∃ x, SealedEntry shardLogs sealed x ∧ x.txnId = late ∧
          ∀ y, SealedEntry shardLogs sealed y → y.txnId = early → x.Precedes ranks y := by
  rw [occurrences, pair_sublist_firsts_iff (fun _ _ ↦ GlobalEntry.Precedes.asymm)
    (pairwise_sealedLog shardLogs ranks sealed)]
  simp only [mem_sealedLog_iff]

lemma not_completesLate_iff :
    ¬ CompletesLate shardLogs ranks shardsByTxn sealed ↔
      ∀ late early, [late, early].Sublist (occurrences shardLogs ranks sealed) →
        placed shardLogs ranks shardsByTxn sealed early = true →
        placed shardLogs ranks shardsByTxn (sealed + 1) late = true →
        placed shardLogs ranks shardsByTxn sealed late = true := by
  obtain ⟨added, hadded⟩ := occurrences_succ shardLogs ranks sealed
  constructor
  · intro hno late early hpair hearly hlate
    by_contra hnot
    obtain ⟨-, ⟨y, hy, hyid⟩, x, hx, hxid, hbefore⟩ := pair_sublist_occurrences_iff.mp hpair
    have hlateMem : late ∈ occurrences shardLogs ranks sealed := mem_occurrences.mpr ⟨x, hx, hxid⟩
    refine hno ⟨late, early, ?_, ?_, ?_, x, hx, hxid, hbefore⟩
    · refine (complete_iff_placed ranks).mpr ⟨?_, hlate⟩
      rw [hadded]
      exact mem_append_left _ hlateMem
    · exact fun hcomplete ↦ hnot ((complete_iff_placed ranks).mp hcomplete).2
    · exact (complete_iff_placed ranks).mpr ⟨mem_occurrences.mpr ⟨y, hy, hyid⟩, hearly⟩
  · rintro h ⟨late, early, hnext, hnot, hearly, x, hx, hxid, hbefore⟩
    have hlateMem : late ∈ occurrences shardLogs ranks sealed := mem_occurrences.mpr ⟨x, hx, hxid⟩
    obtain ⟨hearlyMem, hplaced⟩ := (complete_iff_placed ranks).mp hearly
    refine hnot ((complete_iff_placed ranks).mpr ⟨hlateMem, h late early ?_ hplaced ?_⟩)
    · refine pair_sublist_occurrences_iff.mpr
        ⟨?_, mem_occurrences.mp hearlyMem, x, hx, hxid, hbefore⟩
      rintro rfl
      exact hnot hearly
    · exact ((complete_iff_placed ranks).mp hnext).2

lemma sealedOrder_grows_iff :
    sealedOrder shardLogs ranks shardsByTxn sealed <+:
        sealedOrder shardLogs ranks shardsByTxn (sealed + 1) ↔
      ¬ CompletesLate shardLogs ranks shardsByTxn sealed := by
  rw [not_completesLate_iff]
  obtain ⟨added, hadded⟩ := occurrences_succ shardLogs ranks sealed
  have hnodup : (occurrences shardLogs ranks (sealed + 1)).Nodup := nodup_firsts _
  rw [hadded] at hnodup
  have hkept : sealedOrder shardLogs ranks shardsByTxn sealed =
      (occurrences shardLogs ranks sealed).filter (placed shardLogs ranks shardsByTxn sealed) :=
    dedupGlobalOrder_eq _ _
  have hnow : sealedOrder shardLogs ranks shardsByTxn (sealed + 1) =
      (occurrences shardLogs ranks sealed).filter
        (placed shardLogs ranks shardsByTxn (sealed + 1)) ++
      added.filter (placed shardLogs ranks shardsByTxn (sealed + 1)) := by
    rw [← filter_append, ← hadded]
    exact dedupGlobalOrder_eq _ _
  rw [hkept, hnow]
  refine filter_prefix_iff (hnodup.sublist ?_) fun _ ↦ placed_mono
  exact filter_sublist.append_left _

/-- A list of transactions names each once, and exactly the complete ones. -/
def ListsComplete (shardLogs : List ShardLog) (shardsByTxn : Footprints) (sealed : ℕ)
    (order : List TxnId) : Prop :=
  order.Nodup ∧ ∀ txnId, txnId ∈ order ↔ Complete shardLogs shardsByTxn sealed txnId

lemma listsComplete_sealedOrder (ranks : ShardRank) (sealed : ℕ) :
    ListsComplete shardLogs shardsByTxn sealed
      (sealedOrder shardLogs ranks shardsByTxn sealed) :=
  ⟨nodup_dedupGlobalOrder _ _, fun _ ↦ mem_sealedOrder ranks⟩

def lateShardLogs : List ShardLog := [[⟨[1], 1⟩, ⟨[2], 1⟩], [⟨[1], 2⟩]]

def lateFootprints : Footprints :=
  fun txnId ↦ if txnId = [1] then some {0, 1} else if txnId = [2] then some {0} else none

end Lockstep.Transactions.CrossShard
