import Mathlib
import Lockstep.Library.GuardedRun
import Lockstep.Library.StableSort

/-!
# The global order of the shards

The cross-shard sequencer (`consensus/sequencer/Sequencer.hpp`). Each shard has a log of committed
transactions, each in an epoch, which is a number of 64 bits.

`sealedLog` is what the merge is meant to produce: each committed entry of a sealed epoch once
(`mem_sealedLog`, `nodup_sealedLog`), in the order of `GlobalEntry.Precedes`, which is by epoch,
rank, index and shard (`pairwise_sealedLog`). The loop of `merge` counts in 64 bits up to the sealed
epoch and including it, so it returns this log unless the sealed epoch is the largest there is
(`merge_eq_some_iff`).
-/

namespace Lockstep.Consensus.Sequencer

open Library GuardedRun List Option

abbrev TxnId := List UInt8

structure InputEntry where
  txnId : TxnId
  epoch : ℕ := 0
  deriving DecidableEq

abbrev ShardLog := List InputEntry

structure GlobalEntry where
  txnId : TxnId
  shard : ℕ := 0
  idx : ℕ := 0
  epoch : ℕ := 0
  deriving DecidableEq

abbrev GlobalLog := List GlobalEntry

abbrev ShardRank := List ℕ

def shardEntries (epoch : ℕ) (s : ℕ) (log : ShardLog) : GlobalLog :=
  log.zipIdx.filterMap fun (entry, i) ↦
    if entry.epoch = epoch then some ⟨entry.txnId, s, i + 1, epoch⟩ else none

def epochEntries (shardLogs : List ShardLog) (epoch : ℕ) : GlobalLog :=
  shardLogs.zipIdx.flatMap fun (log, s) ↦ shardEntries epoch s log

def lessEntry (ranks : ShardRank) (x y : GlobalEntry) : Bool :=
  let rx := ranks.getD x.shard 0
  let ry := ranks.getD y.shard 0
  if rx ≠ ry then rx < ry else x.idx < y.idx

def InOrder (ranks : ShardRank) (x y : GlobalEntry) : Prop := lessEntry ranks y x = false

instance (ranks : ShardRank) : DecidableRel (InOrder ranks) :=
  fun _ _ ↦ inferInstanceAs (Decidable (_ = _))

def sealedBatch (shardLogs : List ShardLog) (ranks : ShardRank) (epoch : ℕ) : GlobalLog :=
  (epochEntries shardLogs epoch).insertionSort (InOrder ranks)

/-- The loop of `merge` from an epoch on; `none` if it has not ended after so many epochs. -/
def mergeFrom (shardLogs : List ShardLog) (ranks : ShardRank) (sealed : ℕ) :
    ℕ → ℕ → Option GlobalLog
  | 0, _ => none
  | fuel + 1, epoch =>
    if epoch ≤ sealed then
      (mergeFrom shardLogs ranks sealed fuel ((epoch + 1) % 2 ^ 64)).map
        (sealedBatch shardLogs ranks epoch ++ ·)
    else some []

def merge (fuel : ℕ) (shardLogs : List ShardLog) (ranks : ShardRank) (sealed : ℕ) :
    Option GlobalLog :=
  mergeFrom shardLogs ranks sealed fuel 1

/-- The batches of the sealed epochs, one after the other. -/
def sealedLog (shardLogs : List ShardLog) (ranks : ShardRank) (sealed : ℕ) : GlobalLog :=
  (range' 1 sealed).flatMap (sealedBatch shardLogs ranks)

/-! ### The entries of an epoch -/

def Committed (shardLogs : List ShardLog) (x : GlobalEntry) : Prop :=
  1 ≤ x.idx ∧ (shardLogs.getD x.shard [])[x.idx - 1]? = some ⟨x.txnId, x.epoch⟩

instance (shardLogs : List ShardLog) (x : GlobalEntry) : Decidable (Committed shardLogs x) :=
  inferInstanceAs (Decidable (_ ∧ _))

variable {epoch : ℕ}

lemma mem_shardEntries {s : ℕ} {log : ShardLog} {x : GlobalEntry} : x ∈ shardEntries epoch s log ↔
      (1 ≤ x.idx ∧ log[x.idx - 1]? = some ⟨x.txnId, x.epoch⟩) ∧ x.shard = s ∧
        x.epoch = epoch := by
  rw [shardEntries, mem_filterMap]
  constructor
  · rintro ⟨⟨entry, i⟩, hmem, hx⟩
    rw [mem_zipIdx_iff_getElem?] at hmem
    dsimp only at hmem hx
    split_ifs at hx with hepoch
    obtain rfl := some.inj hx
    refine ⟨⟨Nat.le_add_left 1 i, ?_⟩, rfl, rfl⟩
    rw [Nat.add_sub_cancel, hmem, ← hepoch]
  · rintro ⟨⟨hidx, hget⟩, rfl, rfl⟩
    refine ⟨(⟨x.txnId, x.epoch⟩, x.idx - 1), mem_zipIdx_iff_getElem?.mpr hget, ?_⟩
    dsimp only
    rw [if_pos rfl, Nat.sub_add_cancel hidx]

lemma mem_epochEntries {shardLogs : List ShardLog} {x : GlobalEntry} :
    x ∈ epochEntries shardLogs epoch ↔ Committed shardLogs x ∧ x.epoch = epoch := by
  rw [epochEntries, mem_flatMap]
  constructor
  · rintro ⟨⟨log, s⟩, hlog, hx⟩
    obtain ⟨hcommitted, rfl, hepoch⟩ := mem_shardEntries.mp hx
    rw [mem_zipIdx_iff_getElem?] at hlog
    refine ⟨?_, hepoch⟩
    rw [Committed, getD_eq_getElem?_getD, hlog]
    exact hcommitted
  · rintro ⟨⟨hidx, hget⟩, hepoch⟩
    rw [getD_eq_getElem?_getD] at hget
    cases hlog : shardLogs[x.shard]? with
    | none =>
      rw [hlog] at hget
      simp at hget
    | some log =>
      rw [hlog] at hget
      exact ⟨(log, x.shard), mem_zipIdx_iff_getElem?.mpr hlog,
        mem_shardEntries.mpr ⟨⟨hidx, hget⟩, rfl, hepoch⟩⟩

lemma pairwise_zipIdx {α : Type*} (items : List α) (start : ℕ) :
    (items.zipIdx start).Pairwise fun x y ↦ x.2 < y.2 := by
  have hrange := pairwise_lt_range' (s := start) (n := items.length)
  rw [← zipIdx_map_snd start items, pairwise_map] at hrange
  exact hrange

/-- The entries are gathered shard by shard, and of a shard in the order of its log. -/
def GatheredBefore (x y : GlobalEntry) : Prop :=
  x.shard < y.shard ∨ x.shard = y.shard ∧ x.idx < y.idx

lemma pairwise_epochEntries (shardLogs : List ShardLog) (epoch : ℕ) :
    (epochEntries shardLogs epoch).Pairwise GatheredBefore := by
  apply pairwise_flatMap.mpr
  constructor
  · rintro ⟨log, s⟩ -
    refine (pairwise_zipIdx log 0).filterMap _ ?_
    rintro ⟨first, i⟩ ⟨second, j⟩ hlt x hx y hy
    dsimp only at hlt hx hy
    split_ifs at hx hy
    obtain rfl := some.inj hx
    obtain rfl := some.inj hy
    exact .inr ⟨rfl, Nat.add_lt_add_right hlt 1⟩
  · refine (pairwise_zipIdx shardLogs 0).imp ?_
    rintro ⟨first, s⟩ ⟨second, s'⟩ hlt x hx y hy
    refine .inl ?_
    rw [(mem_shardEntries.mp hx).2.1, (mem_shardEntries.mp hy).2.1]
    exact hlt

/-! ### The order of the merge -/

/-- The order of entries in the global log: by epoch, then by the rank of the shard, then by index,
and between shards of one rank by their number. -/
def GlobalEntry.Precedes (ranks : ShardRank) (x y : GlobalEntry) : Prop :=
  x.epoch < y.epoch ∨ x.epoch = y.epoch ∧
    (ranks.getD x.shard 0 < ranks.getD y.shard 0 ∨ ranks.getD x.shard 0 = ranks.getD y.shard 0 ∧
      (x.idx < y.idx ∨ x.idx = y.idx ∧ x.shard < y.shard))

instance (ranks : ShardRank) (x y : GlobalEntry) : Decidable (x.Precedes ranks y) :=
  inferInstanceAs (Decidable (_ ∨ _))

variable {ranks : ShardRank} {shardLogs : List ShardLog} {x y : GlobalEntry}

lemma inOrder_iff : InOrder ranks x y ↔
    ranks.getD x.shard 0 < ranks.getD y.shard 0 ∨
      ranks.getD x.shard 0 = ranks.getD y.shard 0 ∧ x.idx ≤ y.idx := by
  unfold InOrder lessEntry
  dsimp only
  split_ifs with hne
  · rw [decide_eq_false_iff_not]
    omega
  · rw [decide_eq_false_iff_not]
    omega

instance : Std.Total (InOrder ranks) where
  total x y := by
    rw [inOrder_iff, inOrder_iff]
    omega

instance : IsTrans GlobalEntry (InOrder ranks) where
  trans x y z hxy hyz := by
    rw [inOrder_iff] at hxy hyz ⊢
    omega

lemma mem_sealedBatch :
    x ∈ sealedBatch shardLogs ranks epoch ↔ Committed shardLogs x ∧ x.epoch = epoch := by
  rw [sealedBatch, mem_insertionSort, mem_epochEntries]

lemma pairwise_sealedBatch (shardLogs : List ShardLog) (ranks : ShardRank) (epoch : ℕ) :
    (sealedBatch shardLogs ranks epoch).Pairwise (GlobalEntry.Precedes ranks) := by
  refine (StableSort.pairwise_sort (InOrder ranks)
    (pairwise_epochEntries shardLogs epoch)).imp_of_mem ?_
  intro x y hx hy hxy
  rw [inOrder_iff, inOrder_iff] at hxy
  obtain ⟨horder, htie⟩ := hxy
  refine .inr ⟨(mem_sealedBatch.mp hx).2.trans (mem_sealedBatch.mp hy).2.symm, ?_⟩
  unfold GatheredBefore at htie
  omega

lemma mem_sealedLog {sealed : ℕ} : x ∈ sealedLog shardLogs ranks sealed ↔
    Committed shardLogs x ∧ 1 ≤ x.epoch ∧ x.epoch ≤ sealed := by
  rw [sealedLog, mem_flatMap]
  simp only [mem_sealedBatch, mem_range'_1]
  constructor
  · rintro ⟨epoch, ⟨hone, hle⟩, hcommitted, rfl⟩
    exact ⟨hcommitted, hone, by omega⟩
  · rintro ⟨hcommitted, hone, hle⟩
    exact ⟨x.epoch, ⟨hone, by omega⟩, hcommitted, rfl⟩

lemma pairwise_sealedLog (shardLogs : List ShardLog) (ranks : ShardRank) (sealed : ℕ) :
    (sealedLog shardLogs ranks sealed).Pairwise (GlobalEntry.Precedes ranks) := by
  apply pairwise_flatMap.mpr
  constructor
  · exact fun epoch _ ↦ pairwise_sealedBatch shardLogs ranks epoch
  refine (pairwise_lt_range' (s := 1)).imp ?_
  intro first second hlt x hx y hy
  refine .inl ?_
  rw [(mem_sealedBatch.mp hx).2, (mem_sealedBatch.mp hy).2]
  exact hlt

lemma GlobalEntry.Precedes.ne (h : x.Precedes ranks y) : x ≠ y := by
  rintro rfl
  unfold GlobalEntry.Precedes at h
  omega

lemma GlobalEntry.Precedes.asymm (h : x.Precedes ranks y) : ¬ y.Precedes ranks x := by
  unfold GlobalEntry.Precedes at h ⊢
  omega

lemma nodup_sealedLog (shardLogs : List ShardLog) (ranks : ShardRank) (sealed : ℕ) :
    (sealedLog shardLogs ranks sealed).Nodup :=
  (pairwise_sealedLog shardLogs ranks sealed).imp GlobalEntry.Precedes.ne

lemma sealedLog_congr {other : List ShardLog} {sealed : ℕ}
    (h : ∀ x : GlobalEntry, 1 ≤ x.epoch → x.epoch ≤ sealed →
      (Committed shardLogs x ↔ Committed other x)) :
    sealedLog shardLogs ranks sealed = sealedLog other ranks sealed := by
  have hperm : (sealedLog shardLogs ranks sealed).Perm (sealedLog other ranks sealed) := by
    refine (perm_ext_iff_of_nodup (nodup_sealedLog _ _ _) (nodup_sealedLog _ _ _)).mpr fun x ↦ ?_
    rw [mem_sealedLog, mem_sealedLog]
    constructor
    · rintro ⟨hcommitted, hone, hle⟩
      exact ⟨(h x hone hle).mp hcommitted, hone, hle⟩
    · rintro ⟨hcommitted, hone, hle⟩
      exact ⟨(h x hone hle).mpr hcommitted, hone, hle⟩
  refine hperm.eq_of_pairwise ?_ (pairwise_sealedLog _ _ _) (pairwise_sealedLog _ _ _)
  exact fun x y _ _ hxy hyx ↦ absurd hyx hxy.asymm

lemma sealedLog_succ (shardLogs : List ShardLog) (ranks : ShardRank) (sealed : ℕ) :
    sealedLog shardLogs ranks (sealed + 1) =
      sealedLog shardLogs ranks sealed ++ sealedBatch shardLogs ranks (sealed + 1) := by
  rw [sealedLog, sealedLog, range'_1_concat, flatMap_append, flatMap_singleton,
    Nat.add_comm 1 sealed]

lemma sealedLog_prefix_of_le {sealed later : ℕ} (h : sealed ≤ later) :
    sealedLog shardLogs ranks sealed <+: sealedLog shardLogs ranks later := by
  induction later, h using Nat.le_induction with
  | base => exact prefix_rfl
  | succ later _ ih =>
    rw [sealedLog_succ]
    exact ih.trans (prefix_append _ _)

/-! ### The loop -/

lemma mergeFrom_of_lt {sealed : ℕ} (hsealed : sealed + 1 < 2 ^ 64) (fuel : ℕ) {count epoch : ℕ}
    (hcount : epoch + count = sealed + 1) :
    mergeFrom shardLogs ranks sealed fuel epoch =
      if count < fuel then some ((range' epoch count).flatMap (sealedBatch shardLogs ranks))
      else none := by
  induction fuel generalizing count epoch with
  | zero => rfl
  | succ fuel ih =>
    rw [mergeFrom]
    cases count with
    | zero => rw [if_neg (by omega), if_pos (by omega), range'_zero, flatMap_nil]
    | succ count =>
      have hnext : (epoch + 1) % 2 ^ 64 = epoch + 1 := Nat.mod_eq_of_lt (by omega)
      rw [if_pos (by omega), hnext, @ih count (epoch + 1) (by omega), range'_succ, flatMap_cons]
      split_ifs
      · rfl
      · omega
      · omega
      · rfl

/-- With the largest epoch sealed, the next one is 0 and the loop starts over. -/
lemma mergeFrom_of_ge {sealed : ℕ} (hsealed : 2 ^ 64 ≤ sealed + 1) (fuel : ℕ) {epoch : ℕ}
    (hepoch : epoch < 2 ^ 64) : mergeFrom shardLogs ranks sealed fuel epoch = none := by
  induction fuel generalizing epoch with
  | zero => rfl
  | succ fuel ih => rw [mergeFrom, if_pos (by omega), ih (Nat.mod_lt _ (by decide)), map_none]

lemma merge_eq_some_iff {sealed : ℕ} {log : GlobalLog} :
    (∃ fuel, merge fuel shardLogs ranks sealed = some log) ↔
      sealed + 1 < 2 ^ 64 ∧ log = sealedLog shardLogs ranks sealed := by
  by_cases hsealed : sealed + 1 < 2 ^ 64
  · have hmerge : ∀ fuel, merge fuel shardLogs ranks sealed =
        if sealed < fuel then some (sealedLog shardLogs ranks sealed) else none :=
      fun fuel ↦ mergeFrom_of_lt hsealed fuel (Nat.add_comm 1 sealed)
    refine ⟨fun ⟨fuel, h⟩ ↦ ⟨hsealed, ?_⟩, fun h ↦ ⟨sealed + 1, ?_⟩⟩
    · rw [hmerge] at h
      split_ifs at h
      exact (some.inj h).symm
    · rw [hmerge, if_pos (Nat.lt_succ_self sealed), h.2]
  · refine iff_of_false (fun ⟨fuel, h⟩ ↦ ?_) fun h ↦ hsealed h.1
    rw [merge, mergeFrom_of_ge (Nat.not_lt.mp hsealed) fuel (by decide)] at h
    cases h

end Lockstep.Consensus.Sequencer

namespace Lockstep.Consensus

open Library GuardedRun Sequencer

structure Sequencer where
  ranks : ShardRank
  shardLogs : List ShardLog
  sealed : ℕ := 0
  deriving DecidableEq

variable (ranks : ShardRank)

namespace Sequencer

def new (ranks : ShardRank) : Sequencer :=
  { ranks := ranks, shardLogs := List.replicate ranks.length [] }

def commit (q : Sequencer) (s : ℕ) (txnId : TxnId) (epoch : ℕ) : Sequencer :=
  { q with shardLogs := q.shardLogs.modify s (· ++ [⟨txnId, epoch⟩]) }

def sealTo (q : Sequencer) (sealed : ℕ) : Sequencer :=
  if sealed > q.sealed then { q with sealed := sealed } else q

def global (fuel : ℕ) (q : Sequencer) : Option GlobalLog :=
  merge fuel q.shardLogs q.ranks q.sealed

/-- The call of `global` ends, and with this log. -/
def Returns (q : Sequencer) (log : GlobalLog) : Prop := ∃ fuel, q.global fuel = some log

/-- The log that `global` is meant to return. -/
def order (q : Sequencer) : GlobalLog := sealedLog q.shardLogs q.ranks q.sealed

lemma returns_iff {q : Sequencer} {log : GlobalLog} :
    q.Returns log ↔ q.sealed + 1 < 2 ^ 64 ∧ log = q.order :=
  merge_eq_some_iff

inductive Call where
  | commit (s : ℕ) (txnId : TxnId) (epoch : ℕ)
  | sealTo (sealed : ℕ)
  deriving DecidableEq

def step (q : Sequencer) : Call → Sequencer
  | .commit s txnId epoch => q.commit s txnId epoch
  | .sealTo sealed => q.sealTo sealed

/-- The epochs are numbers of 64 bits, and a commit goes to a shard that exists, in an epoch that is
not sealed and not before the epochs of that shard's log. -/
def Legal (q : Sequencer) : Call → Prop
  | .commit s _ epoch =>
    s < q.ranks.length ∧ q.sealed < epoch ∧ epoch < 2 ^ 64 ∧
      ∀ entry ∈ q.shardLogs.getD s [], entry.epoch ≤ epoch
  | .sealTo sealed => sealed < 2 ^ 64

instance (q : Sequencer) : (call : Call) → Decidable (q.Legal call)
  | .commit _ _ _ => inferInstanceAs (Decidable (_ ∧ _))
  | .sealTo _ => inferInstanceAs (Decidable (_ < _))

def after (ranks : ShardRank) (calls : List Call) : Sequencer := run step (new ranks) calls

def Call.entryFor (s : ℕ) : Call → Option InputEntry
  | .commit s' txnId epoch => if s' = s then some ⟨txnId, epoch⟩ else none
  | .sealTo _ => none

def received (calls : List Call) (s : ℕ) : ShardLog := calls.filterMap (Call.entryFor s)

/-! ### The logs after some calls -/

variable {q : Sequencer} {ranks : ShardRank} {calls : List Call}

lemma ranks_step (q : Sequencer) (call : Call) : (q.step call).ranks = q.ranks := by
  cases call with
  | commit s txnId epoch => rfl
  | sealTo sealed =>
    rw [step, sealTo]
    split_ifs
    · rfl
    · rfl

section

variable (calls)

lemma ranks_after : (after ranks calls).ranks = ranks :=
  run_keeps (fun q : Sequencer ↦ q.ranks = ranks) (fun q call h ↦ (ranks_step q call).trans h) rfl
    calls

lemma after_concat (call : Call) :
    after ranks (calls ++ [call]) = (after ranks calls).step call :=
  run_append _ _ _

lemma received_concat (call : Call) (s : ℕ) :
    received (calls ++ [call]) s = received calls s ++ (call.entryFor s).toList := by
  rw [received, received]
  cases h : call.entryFor s with
  | none => simp [h]
  | some entry => simp [h]

lemma shardLogs_after :
    (after ranks calls).shardLogs = (List.range ranks.length).map (received calls) := by
  induction calls using List.reverseRecOn with
  | nil =>
    refine (List.eq_replicate_iff.mpr ⟨by simp, fun log hlog ↦ ?_⟩).symm
    obtain ⟨s, -, rfl⟩ := List.mem_map.mp hlog
    rfl
  | append_singleton calls call ih =>
    rw [after_concat]
    cases call with
    | commit s txnId epoch =>
      rw [step, commit]
      rw [ih]
      refine List.ext_getElem (by simp) fun i hi hi' ↦ ?_
      rw [List.getElem_modify]
      simp only [List.getElem_map, List.getElem_range, received_concat, Call.entryFor]
      split_ifs with hs
      · rfl
      · exact (List.append_nil _).symm
    | sealTo sealed =>
      have hlogs : ((after ranks calls).step (.sealTo sealed)).shardLogs =
          (after ranks calls).shardLogs := by
        rw [step, sealTo]
        split_ifs
        · rfl
        · rfl
      rw [hlogs, ih]
      refine List.map_congr_left fun s _ ↦ ?_
      rw [received_concat]
      exact (List.append_nil _).symm

lemma getD_shardLogs_after (s : ℕ) : (after ranks calls).shardLogs.getD s [] =
      if s < ranks.length then received calls s else [] := by
  rw [shardLogs_after, List.getD_eq_getElem?_getD, List.getElem?_map]
  split_ifs with hlt
  · rw [List.getElem?_range hlt]
    rfl
  · rw [List.getElem?_eq_none (by simpa using hlt)]
    rfl

end

lemma received_of_legal (h : Meets step Legal (new ranks) calls) (s : ℕ) :
    (ranks.length ≤ s → received calls s = []) ∧
      (received calls s).Pairwise fun x y ↦ x.epoch ≤ y.epoch := by
  induction calls using List.reverseRecOn with
  | nil => exact ⟨fun _ ↦ rfl, List.Pairwise.nil⟩
  | append_singleton calls call ih =>
    obtain ⟨hcalls, hcall, -⟩ := h.of_append
    obtain ⟨hnil, hsorted⟩ := ih hcalls
    rw [received_concat]
    cases call with
    | sealTo sealed =>
      rw [Call.entryFor, Option.toList_none, List.append_nil]
      exact ⟨hnil, hsorted⟩
    | commit s' txnId epoch =>
      obtain ⟨hlt, -, -, hle⟩ := hcall
      change s' < (after ranks calls).ranks.length at hlt
      change ∀ entry ∈ (after ranks calls).shardLogs.getD s' [], entry.epoch ≤ epoch at hle
      rw [ranks_after] at hlt
      rw [getD_shardLogs_after, if_pos hlt] at hle
      rw [Call.entryFor]
      split_ifs with hs
      · subst hs
        refine ⟨fun hge ↦ absurd hlt (Nat.not_lt.mpr hge), ?_⟩
        refine List.pairwise_append.mpr ⟨hsorted, List.pairwise_singleton _ _, ?_⟩
        intro x hx y hy
        rw [List.mem_singleton.mp hy]
        exact hle x hx
      · rw [Option.toList_none, List.append_nil]
        exact ⟨hnil, hsorted⟩

lemma sealed_lt (h : Meets step Legal (new ranks) calls) :
    (after ranks calls).sealed < 2 ^ 64 := by
  induction calls using List.reverseRecOn with
  | nil => exact Nat.zero_lt_succ _
  | append_singleton calls call ih =>
    obtain ⟨hcalls, hcall, -⟩ := h.of_append
    rw [after_concat]
    cases call with
    | commit s txnId epoch => exact ih hcalls
    | sealTo sealed =>
      rw [step, sealTo]
      split_ifs
      · exact hcall
      · exact ih hcalls

lemma committed_after_iff (h : Meets step Legal (new ranks) calls) {x : GlobalEntry} :
    Committed (after ranks calls).shardLogs x ↔
      1 ≤ x.idx ∧ (received calls x.shard)[x.idx - 1]? = some ⟨x.txnId, x.epoch⟩ := by
  rw [Committed, getD_shardLogs_after]
  split_ifs with hlt
  · rfl
  · rw [(received_of_legal h x.shard).1 (Nat.not_lt.mp hlt)]

/-! ### The global order over a run -/

lemma committed_commit_iff {s : ℕ} {txnId : TxnId} {epoch : ℕ} {x : GlobalEntry}
    (hne : x.epoch ≠ epoch) :
    Committed (q.commit s txnId epoch).shardLogs x ↔ Committed q.shardLogs x := by
  rw [Committed, Committed, commit, List.getD_eq_getElem?_getD, List.getD_eq_getElem?_getD,
    List.getElem?_modify]
  cases hlog : q.shardLogs[x.shard]? with
  | none => rfl
  | some log =>
    dsimp only [Option.map_eq_map, Option.map_some, Option.getD_some]
    split_ifs with hs
    · refine and_congr_right fun _ ↦ ?_
      rw [List.getElem?_append]
      split_ifs with hlt
      · rfl
      rw [List.getElem?_eq_none (Nat.not_lt.mp hlt)]
      constructor
      · intro hget
        have hmem := List.mem_of_getElem? hget
        rw [List.mem_singleton, InputEntry.mk.injEq] at hmem
        exact absurd hmem.2 hne
      · exact fun hget ↦ absurd hget.symm (Option.some_ne_none _)
    · rfl

lemma order_step_grows {call : Call} (h : q.Legal call) :
    q.order <+: (q.step call).order := by
  cases call with
  | commit s txnId epoch =>
    obtain ⟨-, hopen, -, -⟩ := h
    rw [order]
    have hsame : sealedLog q.shardLogs q.ranks q.sealed =
        sealedLog (q.commit s txnId epoch).shardLogs q.ranks q.sealed := by
      refine sealedLog_congr fun x _ hle ↦ ?_
      exact (committed_commit_iff (Nat.ne_of_lt (hle.trans_lt hopen))).symm
    exact hsame ▸ List.prefix_rfl
  | sealTo sealed =>
    rw [step, sealTo]
    split_ifs with hlater
    · exact sealedLog_prefix_of_le hlater.le
    · exact List.prefix_rfl

lemma pairwise_order_idx (h : Meets step Legal (new ranks) calls) :
    (after ranks calls).order.Pairwise fun x y ↦ x.shard = y.shard → x.idx < y.idx := by
  refine (pairwise_sealedLog _ _ _).imp_of_mem ?_
  intro x y hx hy hxy hshard
  obtain ⟨hxidx, hxget⟩ := (committed_after_iff h).mp (mem_sealedLog.mp hx).1
  obtain ⟨hyidx, hyget⟩ := (committed_after_iff h).mp (mem_sealedLog.mp hy).1
  by_contra hge
  -- An entry at a smaller index of the log is not in a later epoch.
  have hepochs : y.epoch ≤ x.epoch := by
    rw [hshard] at hxget
    obtain ⟨hxlt, hxeq⟩ := getElem?_eq_some_iff.mp hxget
    obtain ⟨hylt, hyeq⟩ := getElem?_eq_some_iff.mp hyget
    rcases Nat.lt_or_eq_of_le (Nat.not_lt.mp hge) with hlt | heq
    · have hle := List.pairwise_iff_getElem.mp (received_of_legal h y.shard).2 (y.idx - 1)
        (x.idx - 1) hylt hxlt (by omega)
      rw [hxeq, hyeq] at hle
      exact hle
    · simp only [heq, hxeq, InputEntry.mk.injEq] at hyeq
      exact hyeq.2.ge
  unfold GlobalEntry.Precedes at hxy
  rw [hshard] at hxy
  omega

def interleaved : List Call :=
  [.commit 0 [97] 1, .commit 1 [98] 1, .commit 1 [99] 2, .sealTo 1, .commit 0 [100] 2]

end Sequencer

end Lockstep.Consensus
