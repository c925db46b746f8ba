import Lockstep.Storage.Logged
import Lockstep.Storage.WalOnly
import Lockstep.Transactions.Transaction

/-!
# The durable store of committed write-sets

The store behind the queries (`query/Database.hpp`), over a log that is given to it: a committed
write-set goes to the engine key by key and is then synced, and a restart rebuilds the engine from
the bytes of the log.
-/

namespace Lockstep.Query

open Library Storage WalEngine RecordStream Disk List

abbrev WriteSet := Transactions.WriteSet

def deleteSentinel : Value := [0xFF]

/-- Committed write-sets over a log-only engine. -/
structure PersistentStore where
  engine : WalEngine
  snap : List Seq := [kNoSeq]

variable (writes : List (Key × Value))

namespace PersistentStore

def overLog (io : Script) (d : Disk) : WalEngine := { walOnly io with disk := d }

def injected (io : Script) : PersistentStore := { engine := walOnly io }

def applyWrite (e : WalEngine) (kv : Key × Value) : WalEngine :=
  if kv.2 = deleteSentinel then e.del kv.1 else e.put kv.1 kv.2

def applyWrites (e : WalEngine) (ws : WriteSet) : WalEngine := ws.entries.foldl applyWrite e

/-- One write-set: its records, then one sync. -/
def applyCommitted (s : PersistentStore) (ws : WriteSet) : PersistentStore :=
  let e := (applyWrites s.engine ws).sync.2
  { engine := e, snap := s.snap ++ [e.lastSeq] }

def applyCommittedNosync (s : PersistentStore) (ws : WriteSet) : PersistentStore :=
  let e := applyWrites s.engine ws
  { engine := e, snap := s.snap ++ [e.lastSeq] }

def syncDurable (s : PersistentStore) : PersistentStore := { s with engine := s.engine.sync.2 }

def tip (s : PersistentStore) : ℕ := s.snap.length - 1

def snapFor (s : PersistentStore) (count : ℕ) : Seq :=
  s.snap.getD (if count < s.snap.length then count else s.snap.length - 1) kNoSeq

def liveSnapSeq (s : PersistentStore) : Seq := s.snapFor s.tip

def recover (s : PersistentStore) (durableLen : ℕ) : PersistentStore :=
  let e := (overLog s.engine.io s.engine.disk).recoverLsm durableLen 0
  { engine := e, snap := if e.lastSeq = kNoSeq then [kNoSeq] else [kNoSeq, e.lastSeq] }

def live (s : PersistentStore) (key : Key) : Option Value := s.engine.get key s.liveSnapSeq

inductive Call where
  | apply (ws : WriteSet)
  | applyNosync (ws : WriteSet)
  | syncDurable
  deriving DecidableEq

def call (s : PersistentStore) : Call → PersistentStore
  | .apply ws => s.applyCommitted ws
  | .applyNosync ws => s.applyCommittedNosync ws
  | .syncDurable => s.syncDurable

/-! ### What a sequence of writes gives -/

def effect (value : Value) : Option Value := if value = deleteSentinel then none else some value

def contents (writes : List (Key × Value)) (key : Key) : Option Value :=
  writes.foldl (fun found kv ↦ if kv.1 = key then effect kv.2 else found) none

lemma contents_concat (kv : Key × Value) (key : Key) :
    contents (writes ++ [kv]) key = if kv.1 = key then effect kv.2 else contents writes key := by
  rw [contents, foldl_append]
  rfl

lemma contents_append_entries (ws : WriteSet) (key : Key) : contents (writes ++ ws.entries) key =
      ((ws.find key).map effect).getD (contents writes key) := by
  have hfind := ws.foldl_entries_eq key none
  rw [Option.or_none] at hfind
  rw [contents, foldl_append, ← hfind]
  generalize ws.entries = entries
  induction entries using reverseRecOn with
  | nil => rfl
  | append_singleton entries kv ih =>
    rw [foldl_append, foldl_append, ih]
    simp only [foldl_cons, foldl_nil]
    split_ifs <;> rfl

def record (seq : Seq) (kv : Key × Value) : WalRecord where
  seq := seq
  key := kv.1
  value := (effect kv.2).getD []
  tombstone := (effect kv.2).isNone

def records (writes : List (Key × Value)) : List WalRecord :=
  writes.mapIdx fun i kv ↦ record (i + 1) kv

lemma records_concat (kv : Key × Value) :
    records (writes ++ [kv]) = records writes ++ [record (writes.length + 1) kv] :=
  mapIdx_concat

lemma length_records : (records writes).length = writes.length :=
  length_mapIdx

lemma records_isPrefix (first second : List (Key × Value)) :
    records first <+: records (first ++ second) := by
  rw [records, records, mapIdx_append]
  exact prefix_append _ _

lemma eq_records_take {writes : List (Key × Value)} {kept : List WalRecord}
    (h : kept <+: records writes) : kept = records (writes.take kept.length) := by
  have hle := h.length_le
  rw [length_records] at hle
  have hfirst := records_isPrefix (writes.take kept.length) (writes.drop kept.length)
  rw [take_append_drop] at hfirst
  refine (prefix_of_prefix_length_le h hfirst ?_).eq_of_length ?_
  · rw [length_records, length_take_of_le hle]
  · rw [length_records, length_take_of_le hle]

lemma records_numbered : NumberedFrom 1 (records writes) := by
  induction writes using reverseRecOn with
  | nil => rfl
  | append_singleton writes kv ih =>
    rw [records_concat]
    refine ih.concat ?_
    rw [length_records, Nat.add_comm 1]
    rfl

/-- Keys and values fit the lengths of the log, and the writes take half of its numbers at most. -/
structure FitsLog (writes : List (Key × Value)) : Prop where
  key : ∀ kv ∈ writes, kv.1.length < 2 ^ 32
  value : ∀ kv ∈ writes, kv.2.length < 2 ^ 32
  count : writes.length < 2 ^ 63

lemma FitsLog.records {first second : List (Key × Value)} (hfirst : FitsLog first)
    (hsecond : FitsLog second) : ∀ r ∈ records (first ++ second), r.Fits := by
  intro r hr
  obtain ⟨i, hi, rfl⟩ := mem_mapIdx.mp hr
  have hmem := mem_append.mp (getElem_mem hi)
  refine ⟨?_, hmem.elim (hfirst.key _) (hsecond.key _), ?_, fun _ ↦ rfl⟩
  · have hlt := Nat.add_lt_add hfirst.count hsecond.count
    rw [← length_append] at hlt
    exact (Nat.succ_le_of_lt hi).trans_lt (hlt.trans_eq (by norm_num))
  have hvalue := hmem.elim (hfirst.value _) (hsecond.value _)
  rw [record, effect]
  dsimp only
  split_ifs
  · decide
  · exact hvalue

/-! ### An engine with these writes -/

structure Wrote (e : WalEngine) (writes : List (Key × Value)) : Prop where
  lsm : e.lsm = false
  threshold : e.flushThreshold = 0
  tables : e.sstables = []
  mem : e.mem = (records writes).foldl Memtable.insert {}
  lastSeq : e.lastSeq = writes.length

variable {e : WalEngine} {writes : List (Key × Value)}

lemma applyWrite_eq (e : WalEngine) (kv : Key × Value) :
    applyWrite e kv = e.commit kv.1 ((effect kv.2).getD []) (effect kv.2).isNone := by
  rw [applyWrite, effect]
  split_ifs <;> rfl

namespace Wrote

lemma start (io : Script) : Wrote (walOnly io) [] := ⟨rfl, rfl, rfl, rfl, rfl⟩

section

variable (h : Wrote e writes)

include h

lemma walOnly : e.WalOnly := by
  have hnumbers := records_numbered writes
  obtain ⟨hasc, hmem⟩ := foldl_insert_spec hnumbers (m := {}) List.Pairwise.nil
    nofun
  rw [← h.mem] at hasc hmem
  have hof : ∀ v ∈ e.mem.entries, v ∈ records writes := fun v hv ↦
    ((hmem v).mp hv).resolve_left not_mem_nil
  refine ⟨h.lsm, h.threshold, h.tables, hasc, fun v hv ↦ ?_, fun v hv w hw hseq ↦ ?_, fun v hv ↦ ?_⟩
  · rw [h.lastSeq, ← length_records]
    exact hnumbers.seq_le (hof v hv)
  · obtain ⟨i, hi, rfl⟩ := mem_mapIdx.mp (hof v hv)
    obtain ⟨j, hj, rfl⟩ := mem_mapIdx.mp (hof w hw)
    obtain rfl : i = j := Nat.succ.inj hseq
    rfl
  · obtain ⟨i, hi, rfl⟩ := mem_mapIdx.mp (hof v hv)
    rfl

lemma applyWrite (kv : Key × Value) : Wrote (applyWrite e kv) (writes ++ [kv]) := by
  obtain ⟨_, _, _, -, heq, -⟩ := h.walOnly.commit_spec kv.1 ((effect kv.2).getD [])
    (effect kv.2).isNone
  rw [applyWrite_eq, heq]
  refine ⟨h.lsm, h.threshold, h.tables, ?_, ?_⟩
  · rw [records_concat, foldl_append, ← h.mem, ← h.lastSeq]
    rfl
  · rw [length_append, ← h.lastSeq]
    rfl

lemma get_eq {other : WalEngine} (hother : Wrote other writes) (key : Key)
    (at_ : Seq) : e.get key at_ = other.get key at_ := by
  rw [h.walOnly.get_eq, hother.walOnly.get_eq, h.mem, hother.mem]

lemma foldl (more : List (Key × Value)) :
    Wrote (more.foldl PersistentStore.applyWrite e) (writes ++ more) := by
  induction more generalizing e writes with
  | nil =>
    rw [append_nil]
    exact h
  | cons kv more ih =>
    have hmore := ih (h.applyWrite kv)
    rwa [append_assoc] at hmore

lemma get_of_le (key : Key) {at_ : Seq} (hat : writes.length ≤ at_) :
    e.get key at_ = contents writes key := by
  induction writes using reverseRecOn generalizing e with
  | nil =>
    rw [h.get_eq (start Script.honest)]
    rfl
  | append_singleton writes kv ih =>
    have hold := (start Script.honest).foldl writes
    rw [length_append] at hat
    rw [h.get_eq (hold.applyWrite kv), applyWrite_eq, hold.walOnly.get_commit, contents_concat,
      ih hold (Nat.le_of_succ_le hat), hold.lastSeq]
    by_cases hkey : kv.1 = key
    · rw [if_pos ⟨hkey.symm, hat⟩, if_pos hkey]
      cases effect kv.2 <;> rfl
    · rw [if_neg fun hboth ↦ hkey hboth.1.symm, if_neg hkey]

end

end Wrote

/-! ### The log of a store -/

/-- The engine holds the synced and the pending writes, the log has their records, and what is
synced of it has those of the synced writes. -/
structure Logged (e : WalEngine) (synced pending : List (Key × Value)) : Prop
    extends Wrote e (synced ++ pending) where
  honest : e.io = Script.honest
  started : e.walStarted = false → e.disk.image = []
  log : ∃ front, (front = [] ∨ front = walHeader) ∧
    e.disk.image = front ++ (records (synced ++ pending)).flatMap encodeRecord ∧
    (synced ≠ [] → (front ++ (records synced).flatMap encodeRecord).length ≤ e.disk.durable.length)

variable {bytes : List UInt8}

namespace Logged

variable {synced pending : List (Key × Value)}

lemma start : Logged (walOnly Script.honest) [] [] where
  toWrote := Wrote.start _
  honest := rfl
  started _ := rfl
  log := ⟨[], Or.inl rfl, rfl, fun hne ↦ absurd rfl hne⟩

lemma applyWrite (h : Logged e synced pending) (kv : Key × Value) :
    Logged (applyWrite e kv) synced (pending ++ [kv]) := by
  have hwrote := h.toWrote.applyWrite kv
  rw [append_assoc] at hwrote
  obtain ⟨landed, io, d, hwritten, heq, hhonest⟩ := h.walOnly.commit_spec kv.1
    ((effect kv.2).getD []) (effect kv.2).isNone
  obtain ⟨rfl, rfl⟩ := hhonest h.honest
  obtain ⟨front, hfront, himage, hdurable⟩ := h.log
  refine { toWrote := hwrote, honest := ?_, started := ?_, log := ?_ }
  · rw [applyWrite_eq, heq]
  · rw [applyWrite_eq, heq]
    exact nofun
  · rw [applyWrite_eq, heq, ← append_assoc, records_concat, flatMap_append,
      flatMap_singleton, ← h.lastSeq]
    cases hwritten with
    | landed header hheader =>
      rcases hheader with rfl | ⟨rfl, hstarted⟩
      · refine ⟨front, hfront, ?_, hdurable⟩
        rw [image_append, image_append, himage, append_nil, append_assoc]
        rfl
      -- The header goes to an empty log.
      have hempty := h.started hstarted
      have hnone := (append_eq_nil_iff.mp (himage.symm.trans hempty)).2
      have hrecords : records (synced ++ pending) = [] := by
        have hpositive : ∀ r ∈ records (synced ++ pending), 0 < (encodeRecord r).length := by
          intro r _
          rw [WalRecord.length_encodeRecord, kWalHeaderBytes]
          omega
        have hlength := length_le_length_flatMap hpositive
        rw [hnone] at hlength
        exact length_eq_zero_iff.mp (Nat.le_zero.mp hlength)
      have hsynced : synced = [] := by
        have hlength := length_records (synced ++ pending)
        rw [hrecords] at hlength
        exact (append_eq_nil_iff.mp (length_eq_zero_iff.mp hlength.symm)).1
      refine ⟨walHeader, .inr rfl, ?_, fun hne ↦ absurd hsynced hne⟩
      rw [image_append, image_append, hempty, hnone, nil_append, nil_append]
      rfl

lemma foldl (h : Logged e synced pending) (writes : List (Key × Value)) :
    Logged (writes.foldl PersistentStore.applyWrite e) synced (pending ++ writes) := by
  induction writes generalizing e pending with
  | nil =>
    rw [append_nil]
    exact h
  | cons kv writes ih =>
    have hmore := ih (h.applyWrite kv)
    rwa [append_assoc] at hmore

lemma sync (h : Logged e synced pending) : Logged e.sync.2 (synced ++ pending) [] := by
  obtain ⟨ok, io, factory, d, heq, -, hsynced, -, hhonest⟩ := e.sync_spec
  obtain ⟨rfl, rfl⟩ := hhonest h.honest
  obtain ⟨rfl, -⟩ := hsynced rfl
  obtain ⟨front, hfront, himage, -⟩ := h.log
  rw [heq]
  refine { lsm := h.lsm, threshold := h.threshold, tables := h.tables, mem := ?_, lastSeq := ?_,
           honest := rfl, started := ?_, log := ⟨front, hfront, ?_, fun _ ↦ ?_⟩ }
  · rw [append_nil]
    exact h.mem
  · rw [append_nil]
    exact h.lastSeq
  · rw [image_sync]
    exact h.started
  · rw [image_sync, append_nil]
    exact himage
  · rw [durable_sync, himage]

def Leaves (d : Disk) (bytes : List UInt8) : Prop := d.durable <+: bytes ∧ bytes <+: d.image

lemma replayImage_eq (h : Logged e synced pending) (hsynced : FitsLog synced)
    (hpending : FitsLog pending) (hleaves : Leaves e.disk bytes)
    (base : WalEngine) : ∃ kept, kept <+: pending ∧
      base.replayImage bytes = steps base.replayRecord (records (synced ++ kept))
        { mem := base.mem.clear, lastSeq := base.lastSeq, expect := base.walTruncSeq + 1 } := by
  obtain ⟨hdurable, himage⟩ := hleaves
  obtain ⟨front, hfront, heq, hlength⟩ := h.log
  set kept := within encodeRecord (bytes.length - front.length)
    (records (synced ++ pending)) with hkept
  have hsub : kept <+: records (synced ++ pending) := within_isPrefix _ _ _
  have hreplay : base.replayImage _ = _ :=
    scan_streamBody_take _ (hsynced.records hpending) hfront bytes.length
  rw [← heq, ← prefix_iff_eq_take.mp himage, ← hkept, eq_records_take hsub] at hreplay
  -- The cut is behind the synced records.
  have hle : synced.length ≤ kept.length := by
    rcases eq_or_ne synced [] with rfl | hne
    · exact Nat.zero_le _
    have hcut := (hlength hne).trans hdurable.length_le
    rw [length_append] at hcut
    obtain ⟨rest, hrest⟩ := records_isPrefix synced pending
    rw [hkept, ← hrest, within_append (Nat.le_sub_of_add_le' hcut), length_append, length_records]
    exact Nat.le_add_right _ _
  refine ⟨pending.take (kept.length - synced.length), take_prefix _ _, ?_⟩
  rw [hreplay, take_append, take_of_length_le hle]

end Logged

/-! ### Recovery -/

lemma recoverLsm_overLog (io : Script) (d : Disk) : ∃ base : WalEngine, Wrote base [] ∧
    base.walTruncSeq = 0 ∧ base.mem.clear = {} ∧ base.io = io ∧ base.disk = d ∧
      (overLog io d).recoverLsm d.image.length 0 =
        { base with
          mem := (base.replayImage d.image).mem,
          lastSeq := (base.replayImage d.image).lastSeq, walStarted := !d.image.isEmpty } := by
  refine ⟨((overLog io d).freshWriteGen).recoverManifest 0, ⟨rfl, rfl, rfl, rfl, rfl⟩, rfl, rfl,
    rfl, rfl, ?_⟩
  rw [recoverLsm]
  have hread : (((overLog io d).freshWriteGen).recoverManifest 0).disk.read 0 d.image.length =
      some d.image := read_image d
  have hclear : { overLog io d with mem := (overLog io d).mem.clear } = overLog io d := rfl
  rw [hclear, hread]

lemma steps_records (htrunc : e.walTruncSeq = 0) (writes : List (Key × Value)) :
    steps e.replayRecord (records writes)
        { mem := {}, lastSeq := 0, expect := e.walTruncSeq + 1 } =
      { mem := (records writes).foldl Memtable.insert {}, lastSeq := writes.length,
        expect := writes.length + 1 } := by
  have hnumbers := records_numbered writes
  rw [steps_replayRecord _ (Nat.lt_succ_self _) (by rwa [htrunc]),
    foldl_max_of_numbered hnumbers le_rfl, length_records, Nat.add_sub_cancel_left,
    htrunc, Nat.zero_add, Nat.add_comm 1, Nat.zero_max]
  intro r hr hvlog
  obtain ⟨i, hi, rfl⟩ := mem_mapIdx.mp hr
  cases hvlog

variable {s : PersistentStore}

lemma liveSnapSeq_eq {seq : Seq} (h : s.snap.getLast? = some seq) : s.liveSnapSeq = seq := by
  obtain ⟨first, hfirst⟩ := getLast?_eq_some_iff.mp h
  rw [liveSnapSeq, snapFor, tip, hfirst]
  simp

def crashed (s : PersistentStore) (bytes : List UInt8) : PersistentStore :=
  { s with engine := { s.engine with disk := { durable := bytes } } }

lemma recover_crash {synced pending : List (Key × Value)}
    (h : Logged s.engine synced pending) (hsynced : FitsLog synced) (hpending : FitsLog pending)
    (hleaves : Logged.Leaves s.engine.disk bytes) :
    ∃ kept, kept <+: pending ∧ ∀ key,
      ((s.crashed bytes).recover bytes.length).live key = contents (synced ++ kept) key := by
  have himage : ({ durable := bytes } : Disk).image = bytes := append_nil _
  obtain ⟨base, hbase, htrunc, hclear, -, -, heq⟩ :=
    recoverLsm_overLog s.engine.io { durable := bytes }
  rw [himage] at heq
  obtain ⟨kept, hkept, hreplay⟩ := h.replayImage_eq hsynced hpending hleaves base
  rw [hclear, hbase.lastSeq, length_nil, steps_records htrunc] at hreplay
  refine ⟨kept, hkept, fun key ↦ ?_⟩
  have hwrote : Wrote ((s.crashed bytes).recover bytes.length).engine (synced ++ kept) := by
    change Wrote ((overLog s.engine.io { durable := bytes }).recoverLsm bytes.length 0) _
    rw [heq, hreplay]
    exact ⟨hbase.lsm, hbase.threshold, hbase.tables, rfl, rfl⟩
  rw [live, liveSnapSeq_eq, hwrote.get_of_le key hwrote.lastSeq.ge]
  change getLast? (if _ = kNoSeq then _ else _) = _
  split_ifs with hnone
  · exact congrArg some hnone.symm
  · rfl

lemma logged_recover {synced : List (Key × Value)}
    (h : Logged s.engine synced []) (hfits : FitsLog synced) :
    Logged (s.recover s.engine.disk.image.length).engine synced [] := by
  obtain ⟨base, hbase, htrunc, hclear, hio, hdisk, heq⟩ :=
    recoverLsm_overLog s.engine.io s.engine.disk
  have hleaves : Logged.Leaves s.engine.disk s.engine.disk.image :=
    ⟨prefix_append _ _, prefix_rfl⟩
  obtain ⟨kept, hkept, hreplay⟩ := h.replayImage_eq hfits
    ⟨nofun, nofun, by decide⟩
    hleaves base
  obtain rfl : kept = [] := prefix_nil.mp hkept
  rw [hclear, hbase.lastSeq, length_nil, steps_records htrunc] at hreplay
  change Logged ((overLog s.engine.io s.engine.disk).recoverLsm _ 0) _ _
  rw [heq, hreplay]
  refine { lsm := hbase.lsm, threshold := hbase.threshold, tables := hbase.tables, mem := rfl,
           lastSeq := rfl, honest := hio.trans h.honest, started := ?_, log := ?_ }
  · intro hstarted
    rw [hdisk]
    simpa using hstarted
  · rw [hdisk]
    exact h.log

/-- The store holds what was applied, the synced part durably. -/
structure Serves (s : PersistentStore) (synced pending : List (Key × Value)) : Prop
    extends Logged s.engine synced pending where
  last : s.snap.getLast? = some s.engine.lastSeq

def addTo (backlog : List (Key × Value) × List (Key × Value)) :
    Call → List (Key × Value) × List (Key × Value)
  | .apply ws => (backlog.1 ++ (backlog.2 ++ ws.entries), [])
  | .applyNosync ws => (backlog.1, backlog.2 ++ ws.entries)
  | .syncDurable => (backlog.1 ++ backlog.2, [])

namespace Serves

variable {s : PersistentStore} {synced pending : List (Key × Value)}

lemma start : Serves (injected Script.honest) [] [] := { Logged.start with last := rfl }

lemma live_eq (h : Serves s synced pending) (key : Key) :
    s.live key = contents (synced ++ pending) key := by
  rw [live, liveSnapSeq_eq h.last, h.get_of_le key h.lastSeq.ge]

lemma call (h : Serves s synced pending) (c : Call) :
    Serves (s.call c) (addTo (synced, pending) c).1 (addTo (synced, pending) c).2 := by
  cases c with
  | apply ws =>
    exact { (h.toLogged.foldl ws.entries).sync with last := getLast?_concat }
  | applyNosync ws =>
    exact { h.toLogged.foldl ws.entries with last := getLast?_concat }
  | syncDurable =>
    have hsync := h.toLogged.sync
    have hlast : s.engine.sync.2.lastSeq = s.engine.lastSeq := by
      rw [hsync.lastSeq, h.lastSeq, append_nil]
    exact { hsync with last := h.last.trans (congrArg some hlast.symm) }

lemma recover (h : Serves s synced []) (hfits : FitsLog synced) :
    Serves (s.recover s.engine.disk.image.length) synced [] := by
  refine { logged_recover h.toLogged hfits with last := ?_ }
  change getLast? (if _ = kNoSeq then _ else _) = _
  split_ifs with hnone
  · exact congrArg some hnone.symm
  · rfl

lemma run (h : Serves s synced pending) (calls : List Call) :
    Serves (calls.foldl PersistentStore.call s) (calls.foldl addTo (synced, pending)).1
      (calls.foldl addTo (synced, pending)).2 := by
  induction calls generalizing s synced pending with
  | nil => exact h
  | cons c calls ih => exact ih (h.call c)

end Serves

end PersistentStore

end Lockstep.Query
