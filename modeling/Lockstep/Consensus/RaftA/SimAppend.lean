import Lockstep.Consensus.RaftA.SimElection

/-!
# Replication keeps a node related to the machine

A follower that accepts an AppendEntries is offered the prefix of the leader's history that ends
with the batch.
-/

namespace Lockstep.Consensus.RaftA

open Library TermLog Node Moves List

variable {cc : ClusterConfig} {a : Machine} {n : NodeId} {s : Node} {m : RaftMsg}

/-- The snapshot agrees with the log, and adopting it loses the entries behind. -/
def Node.dropsMatchingSuffix (s : Node) (m : RaftMsg) : Bool :=
  s.adoptsSnapshot m && decide (m.lastIncludedIndex < s.llen ∧
    s.termAt m.lastIncludedIndex = lastTerm m.snapState)

/-! ### The conflict rule -/

variable {e : LogEntry}

lemma AppendOk.getElem?_entries (h : AppendOk a m) {j : ℕ}
    (he : m.entries[j]? = some e) : (a.history m.term)[m.prevLogIndex + j]? = some e := by
  have hj := (List.getElem?_eq_some_iff.mp he).1
  rw [← h.slice, List.getElem?_take_of_lt hj, List.getElem?_drop] at he
  exact he

namespace Node

lemma leads_of_not_skip (h : ¬ (s.role ≠ .leader ∨ m.term ≠ s.currentTerm)) :
    s.role = .leader ∧ m.term = s.currentTerm := by
  rw [not_or, not_not, not_not] at h
  exact h

lemma applyAndMaybeSnapshot_role (s : Node) : s.applyAndMaybeSnapshot.role = s.role := by
  rw [applyAndMaybeSnapshot_eq, takeSnapshot, persistSnapshot]
  split_ifs <;> rfl

lemma advanceFrom_role (s : Node) (k : ℕ) : (s.advanceFrom k).role = s.role := by
  induction k generalizing s with
  | zero => rfl
  | succ k ih =>
    rw [advanceFrom]
    extract_lets t
    split_ifs
    · rfl
    · exact ih t
    · rfl
    · exact ih t

lemma advanceCommitIndex_role (s : Node) : s.advanceCommitIndex.role = s.role := by
  rw [advanceCommitIndex]
  split_ifs
  · rfl
  · exact s.advanceFrom_role s.llen

end Node

namespace NodeSim

lemma take_prefix_history (h : NodeSim cc a n s) (hsound : Sound a)
    (hleader : a.leader s.currentTerm ≠ none) :
    s.logView.take s.commitIndex <+: a.history s.currentTerm :=
  h.committed.prefix_history hsound.inv hsound.chain hleader

lemma take_eq_of_le_snapBase (h : NodeSim cc a n s) (hsound : Sound a)
    (hleader : a.leader s.currentTerm ≠ none) {i : ℕ} (hi : i ≤ s.snapBase) :
    s.logView.take i = (a.history s.currentTerm).take i := by
  have hpre := h.take_prefix_history hsound hleader
  have hcommit := hi.trans h.base_commit
  rw [prefix_take_eq hpre (hcommit.trans_eq h.length_committed.symm), take_take,
    Nat.min_eq_left hcommit]

lemma take_eq_of_termAt (h : NodeSim cc a n s) (hsound : Sound a) {i : ℕ} (hpos : 0 < i)
    (hi : i ≤ s.llen) (he : (a.history s.currentTerm)[i - 1]? = some e)
    (hterm : s.termAt i = e.term) : s.logView.take i = (a.history s.currentTerm).take i := by
  have hget := logView_getElem? h.snap_len hpos hi
  have htake := Coherent.take_eq (h.log_eq ▸ hsound.inv.log_coherent n)
    (hsound.inv.history_coherent s.currentTerm) hget he
    ((termAt_of_getElem? h.snap_len hpos hget).symm.trans hterm)
  rwa [Nat.sub_add_cancel hpos] at htake

section Merge

variable (hsound : Sound a) (hm : AppendOk a m) (hterm : m.term = s.currentTerm)
  (hok : s.logOk m = true)
include hsound hm hterm hok

lemma take_prevLogIndex (h : NodeSim cc a n s) :
    m.prevLogIndex ≤ s.llen ∧
      s.logView.take m.prevLogIndex = (a.history s.currentTerm).take m.prevLogIndex := by
  rcases of_decide_eq_true hok with hzero | ⟨hle, hprev⟩
  · rw [hzero]
    exact ⟨Nat.zero_le _, rfl⟩
  refine ⟨hle, ?_⟩
  rcases Nat.eq_zero_or_pos m.prevLogIndex with hzero | hpos
  · rw [hzero, take_zero, take_zero]
  · obtain ⟨e, he, heterm⟩ := hm.prev hpos
    rw [hterm] at he
    exact h.take_eq_of_termAt hsound hpos hle he (hprev.trans heterm.symm)

omit hok in
lemma take_scanned (h : NodeSim cc a n s) {j : ℕ}
    (he : m.entries[j]? = some e) (hle : m.prevLogIndex + 1 + j ≤ s.llen)
    (hscan : s.snapBase < m.prevLogIndex + 1 + j →
      s.termAt (m.prevLogIndex + 1 + j) = e.term) :
    s.logView.take (m.prevLogIndex + 1 + j) =
      (a.history s.currentTerm).take (m.prevLogIndex + 1 + j) := by
  have hleader : a.leader s.currentTerm ≠ none := by
    rw [← hterm, hm.leads]
    exact Option.some_ne_none _
  rcases Nat.lt_or_ge s.snapBase (m.prevLogIndex + 1 + j) with hlt | hge
  · have hentry := hm.getElem?_entries he
    rw [hterm] at hentry
    refine h.take_eq_of_termAt hsound (by omega) hle (e := e) ?_ (hscan hlt)
    rw [show m.prevLogIndex + 1 + j - 1 = m.prevLogIndex + j by omega]
    exact hentry
  · exact h.take_eq_of_le_snapBase hsound hleader hge

/-- The conflict rule of the handler is the machine's `adoptLog`. -/
lemma mergeEntries_adoptLog (h : NodeSim cc a n s) :
    (s.mergeEntries m).logView = adoptLog s.logView
      ((a.history s.currentTerm).take (m.prevLogIndex + m.entries.length)) := by
  obtain ⟨hprev, hagree⟩ := h.take_prevLogIndex hsound hm hterm hok
  have hlen := length_logView h.snap_len
  have hslice := hm.slice
  have hhistory := hm.length_le
  rw [hterm] at hslice hhistory
  rw [mergeEntries_logView h.snap_len]
  by_cases hconflict : s.firstConflict m.prevLogIndex 1 m.entries ≠ 0
  · -- the log is cut before the first conflict and filled up from the batch
    obtain ⟨j, e, hj, he, hbase, hle, hne, hbefore⟩ := firstConflict_ne_zero hconflict
    have hjlt := (List.getElem?_eq_some_iff.mp he).1
    have hentry := hm.getElem?_entries he
    rw [hterm] at hentry
    rw [if_pos hconflict, hj, show m.prevLogIndex + (1 + j) - 1 = m.prevLogIndex + j by omega,
      show 1 + j - 1 = j by omega]
    have hcut : s.logView.take (m.prevLogIndex + j) =
        (a.history s.currentTerm).take (m.prevLogIndex + j) := by
      rcases j with _ | j
      · exact hagree
      · obtain ⟨f, hf⟩ : ∃ f, m.entries[j]? = some f := ⟨_, getElem?_eq_getElem (by omega)⟩
        have hscan := h.take_scanned hsound hm hterm hf (by omega)
          (hbefore j f (Nat.lt_succ_self j) hf)
        rwa [show m.prevLogIndex + 1 + j = m.prevLogIndex + (j + 1) by omega] at hscan
    have hget := logView_getElem? h.snap_len (i := m.prevLogIndex + 1 + j) (by omega) hle
    have htermAt := termAt_of_getElem? h.snap_len (by omega) hget
    rw [show m.prevLogIndex + 1 + j - 1 = m.prevLogIndex + j by omega] at hget
    rw [hcut, adoptLog_of_conflict (by omega) hget hentry fun heq ↦ hne (heq ▸ htermAt)]
    have hfill := take_append_drop_slice (a.history s.currentTerm) m.prevLogIndex
      m.entries.length j hjlt.le
    rwa [hslice] at hfill
  · -- without a conflict the log and the batch agree as far as both go
    have hshared : s.logView.take (min s.logView.length (m.prevLogIndex + m.entries.length)) =
        (a.history s.currentTerm).take
          (min s.logView.length (m.prevLogIndex + m.entries.length)) := by
      rw [hlen]
      rcases Nat.eq_or_lt_of_le
        (le_min hprev (Nat.le_add_right m.prevLogIndex m.entries.length)) with heq | hlt
      · rw [← heq]
        exact hagree
      obtain ⟨j, hj⟩ := Nat.exists_eq_add_of_lt hlt
      obtain ⟨e, he⟩ : ∃ e, m.entries[j]? = some e := ⟨_, getElem?_eq_getElem (by omega)⟩
      have hscan := h.take_scanned hsound hm hterm he (by omega) fun hbase ↦
        firstConflict_eq_zero Nat.one_pos (not_not.mp hconflict) he hbase (by omega)
      rwa [show m.prevLogIndex + 1 + j = m.prevLogIndex + j + 1 by omega, ← hj] at hscan
    rw [adoptLog_of_agree hhistory hshared, hlen]
    split_ifs with hshort
    · rw [hlen, Nat.min_eq_left hshort.le, ← hlen, take_length] at hshared
      have hfill := take_append_drop_slice (a.history s.currentTerm) m.prevLogIndex
        m.entries.length (s.llen - m.prevLogIndex) (by omega)
      rw [hslice, Nat.add_sub_cancel' hprev, ← hlen, ← hshared, hlen] at hfill
      exact hfill
    · rfl

end Merge

/-! ### AppendEntries -/

section

variable (h : NodeSim cc a n s)

include h

lemma clearRepair : s.clearRepair = s := by
  rw [Node.clearRepair, if_neg]
  rw [h.repair]
  exact fun hrepair ↦ absurd hrepair.1 (lt_irrefl 0)

lemma adopt (hsound : Sound a) (hrole : s.role = .follower)
    (hleader : a.leader s.currentTerm ≠ none) {k : ℕ} (hk : k ≤ (a.history s.currentTerm).length)
    {log : List LogEntry} {queue : List DurableRecord}
    (hlog : s.snapState ++ log = adoptLog s.logView ((a.history s.currentTerm).take k)) :
    Moves n a (a.adopt n k) ∧
      NodeSim cc (a.adopt n k) n { s with log := log, writeQueue := queue } := by
  have hpre := h.take_prefix_history hsound hleader
  have hmoves : Moves n a (a.adopt n k) := by
    rw [← h.term_eq] at hleader hk
    exact Moves.adopt hleader hk
  refine ⟨hmoves, ?_⟩
  have hkept := prefix_adoptLog_of_prefix (List.take_prefix _ s.logView) hpre k
  rw [← hlog] at hkept
  have hcut := h.length_committed
  exact
    { h with
      log_eq := by
        rw [a.adopt_log_self, h.log_eq, h.term_eq]
        exact hlog.symm
      commit_le := by
        have hle := hkept.length_le
        rw [hcut, length_append, h.snap_len] at hle
        exact hle
      committed := by
        change CommittedPrefix (a.adopt n k) s.currentTerm
          ((s.snapState ++ log).take s.commitIndex)
        rw [prefix_take_eq hkept hcut.ge, take_take, Nat.min_self]
        exact h.committed.extends hsound.chain hmoves.ext
      candidate := fun hcand ↦ by cases hrole.symm.trans hcand
      leader := fun hlead ↦ by cases hrole.symm.trans hlead
      outbox := fun msg hmsg ↦ (h.outbox msg hmsg).extends hsound hmoves.ext }

lemma mergeEntries (hsound : Sound a) (hrole : s.role = .follower)
    (hm : AppendOk a m) (hterm : m.term = s.currentTerm) (hok : s.logOk m = true) :
    Moves n a (a.adopt n (m.prevLogIndex + m.entries.length)) ∧
      NodeSim cc (a.adopt n (m.prevLogIndex + m.entries.length)) n (s.mergeEntries m) := by
  have hleader : a.leader s.currentTerm ≠ none := by
    rw [← hterm, hm.leads]
    exact Option.some_ne_none _
  have hk := hm.length_le
  have hlog := h.mergeEntries_adoptLog hsound hm hterm hok
  obtain ⟨log, records, heq⟩ := s.mergeEntries_eq m
  rw [heq] at hlog ⊢
  exact h.adopt hsound hrole hleader (hterm ▸ hk) hlog

lemma adoptCommit (hrole : s.role = .follower) (hm : AppendOk a m)
    (hterm : m.term = s.currentTerm)
    (hshared : (a.history s.currentTerm).take (m.prevLogIndex + m.entries.length) <+:
      s.logView) :
    NodeSim cc a n (s.adoptCommit m) := by
  have hhistory := hm.length_le
  have hcommitted := hm.committed
  rw [hterm] at hhistory hcommitted
  have hadopt : (if m.leaderCommit < m.prevLogIndex + m.entries.length then m.leaderCommit
      else m.prevLogIndex + m.entries.length) =
      min m.leaderCommit (m.prevLogIndex + m.entries.length) := by
    split_ifs with hlt
    · exact (Nat.min_eq_left hlt.le).symm
    · exact (Nat.min_eq_right (Nat.le_of_not_lt hlt)).symm
  rw [Node.adoptCommit, hadopt]
  split_ifs with hlt
  · generalize hc : min m.leaderCommit (m.prevLogIndex + m.entries.length) = c at hlt ⊢
    have hsharedLen : ((a.history s.currentTerm).take
        (m.prevLogIndex + m.entries.length)).length = m.prevLogIndex + m.entries.length :=
      length_take_of_le hhistory
    have hview := length_logView h.snap_len
    have hle : c ≤ s.llen := by
      have hlen := hshared.length_le
      omega
    have htake : s.logView.take c <+: (a.history s.currentTerm).take m.leaderCommit := by
      rw [prefix_take_eq hshared (by omega), take_take]
      exact take_prefix_take_left (by omega)
    exact
      { h with
        applied_le := h.applied_le.trans hlt.le
        commit_le := hle
        committed := hcommitted.mono htake le_rfl
        candidate := fun hcand ↦ by cases hrole.symm.trans hcand
        leader := fun hlead ↦ by cases hrole.symm.trans hlead }
  · exact h

/-- Accepted entries are one `adopt` of the machine. -/
lemma handleAppendEntries (hsound : Sound a) (hn : n ∈ cc.cluster)
    (hterm : m.term ≤ s.currentTerm) (hm : AppendOk a m) :
    ∃ a', Moves n a a' ∧ NodeSim cc a' n (s.handleAppendEntries m) := by
  have hself : s.self ∈ cc.cluster := h.self_eq.symm ▸ hn
  rw [Node.handleAppendEntries]
  split_ifs with hstale
  · exact ⟨a, refl n a, h.sendTo ⟨hself, fun hsuccess ↦ by cases hsuccess⟩⟩
  have hterm : m.term = s.currentTerm := by omega
  extract_lets follower checked scanned merged adopted
  have hchecked : NodeSim cc a n checked :=
    (h.toFollower m.source).access (termInBounds_eq_true h.snap_len _)
  split_ifs with hreject
  · exact ⟨a, refl n a, hchecked.sendTo ⟨hself, fun hsuccess ↦ by cases hsuccess⟩⟩
  have hok : checked.logOk m = true := by simpa using hreject
  have hbounds : ((range' (m.prevLogIndex + 1) m.entries.length).all fun i ↦
      decide (i ≤ checked.snapBase) || checked.termInBounds i) = true := by
    rw [all_eq_true]
    intro i _
    rw [termInBounds_eq_true hchecked.snap_len, Bool.or_true]
  have hscanned : NodeSim cc a n scanned := hchecked.access hbounds
  obtain ⟨hmoves, hmerge⟩ := hscanned.mergeEntries hsound rfl hm hterm hok
  have hmerged : merged = scanned.mergeEntries m := hmerge.clearRepair
  obtain ⟨log, records, heq⟩ := scanned.mergeEntries_eq m
  have hcommit : NodeSim cc (a.adopt n (m.prevLogIndex + m.entries.length)) n
      (merged.adoptCommit m) := by
    rw [hmerged]
    refine hmerge.adoptCommit ?_ (hm.extends hsound hmoves.ext) ?_ ?_
    · rw [heq]
      rfl
    · rw [heq]
      exact hterm
    · rw [mergeEntries_adoptLog (s := scanned) hsound hm hterm hok hscanned, heq]
      exact prefix_adoptLog _ _
  have hadopted : NodeSim cc _ n adopted := hcommit.applyAndMaybeSnapshot
  refine ⟨_, hmoves, hadopted.sendTo ⟨?_, fun _ ↦ ?_⟩⟩
  · change adopted.self ∈ cc.cluster
    rwa [hadopted.self_eq]
  · change _ ≤ (a.adopt n _).acked adopted.self adopted.currentTerm
    rw [hadopted.self_eq, ← hadopted.term_eq]
    exact a.le_adopt_acked n _

end

/-! ### InstallSnapshot -/

lemma keepSnapshot (h : NodeSim cc a n s) (hsound : Sound a) (hrole : s.role = .follower)
    (hleader : a.leader s.currentTerm ≠ none) {k : ℕ} (hk : k ≤ s.commitIndex) :
    Moves n a (a.adopt n k) ∧ NodeSim cc (a.adopt n k) n s := by
  have hpre := h.take_prefix_history hsound hleader
  have hcut := h.length_committed
  refine h.adopt hsound hrole hleader ((hk.trans_eq hcut.symm).trans hpre.length_le) ?_
  rw [prefix_take_eq hpre (hk.trans_eq hcut.symm), take_take, Nat.min_eq_left hk,
    adoptLog_eq_left (List.take_prefix _ _), logView]

lemma adoptLog_snapshot (h : NodeSim cc a n s) (hm : InstallOk a m)
    (hterm : m.term = s.currentTerm) (hadopts : s.adoptsSnapshot m = true)
    (hdrops : s.dropsMatchingSuffix m = false) :
    adoptLog s.logView ((a.history s.currentTerm).take m.lastIncludedIndex) = m.snapState := by
  have hpos : 0 < m.lastIncludedIndex := Nat.zero_lt_of_lt (of_decide_eq_true hadopts).1
  have hlen := hm.length_eq
  have hoffer : (a.history s.currentTerm).take m.lastIncludedIndex = m.snapState := by
    rw [← hterm, prefix_take_eq hm.history hlen.ge, ← hlen, take_length]
  rw [hoffer]
  by_cases hkeep : m.snapState <+: s.logView
  · rw [adoptLog_eq_left hkeep]
    have hle := hkeep.length_le
    rw [hlen, length_logView h.snap_len] at hle
    rcases Nat.eq_or_lt_of_le hle with heq | hlt
    · refine (hkeep.eq_of_length ?_).symm
      rw [hlen, heq, length_logView h.snap_len]
    -- the log would go on past the snapshot, which the condition excludes
    obtain ⟨e, hlast⟩ : ∃ e, m.snapState[m.snapState.length - 1]? = some e :=
      ⟨_, getElem?_eq_getElem (by omega)⟩
    have hget := prefix_getElem? hkeep hlast
    rw [hlen] at hget
    have htermAt := termAt_of_getElem? h.snap_len hpos hget
    rw [dropsMatchingSuffix, hadopts, Bool.true_and, decide_eq_false_iff_not] at hdrops
    exact absurd ⟨hlt, htermAt.trans (lastTerm_eq_of_getElem? hlast).symm⟩ hdrops
  · exact adoptLog_eq_right hkeep

lemma adoptSnapshot (h : NodeSim cc a n s) (hsound : Sound a) (hrole : s.role = .follower)
    (hm : InstallOk a m) (hterm : m.term = s.currentTerm) (hadopts : s.adoptsSnapshot m = true)
    (hdrops : s.dropsMatchingSuffix m = false) :
    Moves n a (a.adopt n m.lastIncludedIndex) ∧
      NodeSim cc (a.adopt n m.lastIncludedIndex) n (s.adoptSnapshot m) := by
  have hlog := h.adoptLog_snapshot hm hterm hadopts hdrops
  have hlen := hm.length_eq
  have hcommit : s.commitIndex < m.lastIncludedIndex := (of_decide_eq_true hadopts).2
  have hleads := hm.leads
  have hhistory := hm.history.length_le
  have hmoves : Moves n a (a.adopt n m.lastIncludedIndex) := by
    rw [hterm, ← h.term_eq] at hleads hhistory
    exact Moves.adopt (hleads.symm ▸ Option.some_ne_none _) (hlen.symm.trans_le hhistory)
  refine ⟨hmoves, ?_⟩
  have hmax : max s.commitIndex m.lastIncludedIndex = m.lastIncludedIndex :=
    Nat.max_eq_right hcommit.le
  exact
    { h with
      log_eq := by
        rw [a.adopt_log_self, h.log_eq, h.term_eq, hlog]
        exact (append_nil _).symm
      snap_len := hlen
      persisted := rfl
      base_applied := le_rfl
      applied_le := le_max_right _ _
      commit_le := hmax.le
      committed := by
        refine CommittedPrefix.mono (hm.committed.extends hsound.chain hmoves.ext) ?_ hterm.le
        change (m.snapState ++ []).take _ <+: _
        rw [append_nil]
        exact take_prefix _ _
      candidate := fun hcand ↦ by cases hrole.symm.trans hcand
      leader := fun hlead ↦ by cases hrole.symm.trans hlead
      outbox := fun msg hmsg ↦ (h.outbox msg hmsg).extends hsound hmoves.ext }

/-- A snapshot is one too, when no matching entries are dropped. -/
lemma handleInstallSnapshot (h : NodeSim cc a n s) (hsound : Sound a) (hn : n ∈ cc.cluster)
    (hterm : m.term ≤ s.currentTerm) (hm : InstallOk a m)
    (hdrops : m.term = s.currentTerm → s.dropsMatchingSuffix m = false) :
    ∃ a', Moves n a a' ∧ NodeSim cc a' n (s.handleInstallSnapshot m) := by
  rw [Node.handleInstallSnapshot]
  split_ifs with hstale
  · exact ⟨a, refl n a, h⟩
  have hterm : m.term = s.currentTerm := by omega
  have hleader : a.leader s.currentTerm ≠ none := by
    rw [← hterm, hm.leads]
    exact Option.some_ne_none _
  extract_lets follower installed cleared
  have hfollower : NodeSim cc a n follower := h.toFollower m.source
  -- either way the node has adopted the history up to the index it acknowledges
  obtain ⟨k, hmoves, hinstalled, hk⟩ : ∃ k, Moves n a (a.adopt n k) ∧
      NodeSim cc (a.adopt n k) n installed ∧ max installed.snapBase m.lastIncludedIndex ≤ k := by
    by_cases hadopts : follower.adoptsSnapshot m = true
    · have hinstalled : installed = follower.adoptSnapshot m := if_pos hadopts
      obtain ⟨hmoves, hsim⟩ :=
        hfollower.adoptSnapshot hsound rfl hm hterm hadopts (hdrops hterm)
      exact ⟨_, hmoves, hinstalled ▸ hsim, hinstalled ▸ (max_self _).le⟩
    · have hinstalled : installed = follower := if_neg hadopts
      have hbase := h.base_commit
      have hle : max s.snapBase m.lastIncludedIndex ≤ s.commitIndex := by
        by_contra hlt
        refine hadopts (decide_eq_true (⟨?_, ?_⟩ : s.snapBase < _ ∧ s.commitIndex < _)) <;> omega
      obtain ⟨hmoves, hsim⟩ := hfollower.keepSnapshot hsound rfl hleader hle
      exact ⟨_, hmoves, hinstalled ▸ hsim, hinstalled ▸ le_rfl⟩
  have hcleared : cleared = installed := hinstalled.clearRepair
  rw [hcleared]
  refine ⟨_, hmoves, hinstalled.sendTo ⟨hinstalled.self_eq.symm ▸ hn, ?_⟩⟩
  change max installed.snapBase m.lastIncludedIndex ≤
    (a.adopt n k).acked installed.self installed.currentTerm
  rw [hinstalled.self_eq, ← hinstalled.term_eq]
  exact hk.trans (a.le_adopt_acked n k)

/-! ### Replies -/

lemma acked_le_llen (h : NodeSim cc a n s) (hsound : Sound a) (hrole : s.role = .leader)
    (v : NodeId) : a.acked v s.currentTerm ≤ s.llen := by
  have hle := hsound.inv.acked_le v s.currentTerm
  rwa [h.history_eq hsound hrole, length_logView h.snap_len] at hle

variable {source : NodeId}

section

variable (h : NodeSim cc a n s)

include h

lemma setMatch (hsource : source ∈ cc.cluster)
    {matched : ℕ} (hmatched : matched ≤ a.acked source s.currentTerm) :
    NodeSim cc a n { s with matchIndex := s.matchIndex.set (s.idxOf source) matched } := by
  refine
    { h with
      match_len := (length_set ..).trans h.match_len
      candidate := fun hcand ↦ { h.candidate hcand with }
      leader := fun hlead ↦ { h.leader hlead with matched := fun v hv ↦ ?_ } }
  change (s.matchIndex.set (s.idxOf source) matched).getD (s.idxOf v) 0 ≤ _
  rw [getD_set_idxOf (h.match_len.trans (congrArg _ h.cluster_eq.symm))
    (h.cluster_eq.symm ▸ hv) (h.cluster_eq.symm ▸ hsource)]
  split_ifs with heq
  · rw [heq]
    exact hmatched
  · exact (h.leader hlead).matched v hv

lemma setNext (hsource : source ∈ cc.cluster) {next : ℕ} (hnext : next ≤ s.llen + 1) :
    NodeSim cc a n { s with nextIndex := s.nextIndex.set (s.idxOf source) next } := by
  refine
    { h with
      next_len := (length_set ..).trans h.next_len
      candidate := fun hcand ↦ { h.candidate hcand with }
      leader := fun hlead ↦ { h.leader hlead with next := fun v hv ↦ ?_ } }
  change (s.nextIndex.set (s.idxOf source) next).getD (s.idxOf v) 0 ≤ _
  rw [getD_set_idxOf (h.next_len.trans (congrArg _ h.cluster_eq.symm))
    (h.cluster_eq.symm ▸ hv) (h.cluster_eq.symm ▸ hsource)]
  split_ifs with heq
  · exact hnext
  · exact (h.leader hlead).next v hv

lemma advanceAndReplicate (hsound : Sound a) (hn : n ∈ cc.cluster)
    (hrole : s.role = .leader) (hsource : source ∈ cc.cluster) (more : Prop) [Decidable more] :
    ∃ a', Moves n a a' ∧ NodeSim cc a' n
      (if more then s.advanceCommitIndex.applyAndMaybeSnapshot.replicateTo source
        else s.advanceCommitIndex.applyAndMaybeSnapshot) := by
  obtain ⟨a', hmoves, hadvanced⟩ := h.advanceCommitIndex hsound hn
  have happlied := hadvanced.applyAndMaybeSnapshot
  refine ⟨a', hmoves, ?_⟩
  split_ifs
  · refine (happlied.replicateTo (hmoves.sound hsound) hn ?_ hsource).1
    rw [applyAndMaybeSnapshot_role, advanceCommitIndex_role, hrole]
  · exact happlied

/-- A reply moves the leader's books, and may commit. -/
lemma handleAppendEntriesResp (hsound : Sound a) (hn : n ∈ cc.cluster)
    (hsource : m.source ∈ cc.cluster)
    (hm : m.success = true → m.matchIndex ≤ a.acked m.source m.term) :
    ∃ a', Moves n a a' ∧ NodeSim cc a' n (s.handleAppendEntriesResp m) := by
  rw [Node.handleAppendEntriesResp]
  by_cases hskip : s.role ≠ .leader ∨ m.term ≠ s.currentTerm
  · rw [if_pos hskip]
    exact ⟨a, refl n a, h⟩
  rw [if_neg hskip]
  obtain ⟨hrole, hterm⟩ := leads_of_not_skip hskip
  have hleader := h.leader hrole
  rw [hterm] at hm
  extract_lets di matched noted advanced backed
  by_cases hsuccess : m.success = true
  · rw [if_pos hsuccess]
    have hmatched : matched ≤ a.acked m.source s.currentTerm :=
      max_le (hleader.matched m.source hsource) (hm hsuccess)
    have hnext : matched + 1 ≤ s.llen + 1 :=
      Nat.succ_le_succ (hmatched.trans (h.acked_le_llen hsound hrole _))
    exact ((h.setMatch hsource hmatched).setNext hsource hnext).advanceAndReplicate hsound hn hrole
      hsource _
  · rw [if_neg hsuccess]
    have hbacked : NodeSim cc a n backed ∧ backed.role = .leader := by
      by_cases hback : 1 < s.nextIndex.getD di 0
      · rw [show backed = _ from if_pos hback]
        exact ⟨h.setNext hsource ((Nat.sub_le _ _).trans (hleader.next m.source hsource)), hrole⟩
      · rw [show backed = _ from if_neg hback]
        exact ⟨h, hrole⟩
    exact ⟨a, refl n a, (hbacked.1.replicateTo hsound hn hbacked.2 hsource).1⟩

lemma handleInstallSnapshotResp (hsound : Sound a) (hn : n ∈ cc.cluster)
    (hsource : m.source ∈ cc.cluster) (hm : m.matchIndex ≤ a.acked m.source m.term) :
    NodeSim cc a n (s.handleInstallSnapshotResp m) := by
  rw [Node.handleInstallSnapshotResp]
  split_ifs with hskip
  · exact h
  obtain ⟨hrole, hterm⟩ := Node.leads_of_not_skip hskip
  rw [hterm] at hm
  have hmatched := max_le ((h.leader hrole).matched m.source hsource) hm
  have hnext : m.matchIndex + 1 ≤ s.llen + 1 :=
    Nat.succ_le_succ (hm.trans (h.acked_le_llen hsound hrole _))
  exact (((h.setMatch hsource hmatched).setNext hsource hnext).replicateTo hsound hn hrole
    hsource).1

end

end NodeSim

end Lockstep.Consensus.RaftA
