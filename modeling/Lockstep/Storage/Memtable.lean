import Lockstep.Storage.SSTableRead

/-!
# The memtable

The in-memory versions of `storage/WalEngine.hpp`. The source keeps an ordered map from keys to
lists of versions; here the lists stand one behind another in key order.

Keys that start with a resident byte are never flushed: a flush takes the other versions
(`flushEntries`) and erases them (`eraseFlushable`).
-/

namespace Lockstep.Storage

open Library List

/-- The versions in memory, by key and sequence number. -/
structure Memtable where
  entries : List Entry := []
  resident : List UInt8 := []
  flushable : ℕ := 0
  deriving DecidableEq

namespace Memtable

def place (e : Entry) : List Entry → List Entry
  | [] => [e]
  | d :: entries => if e.key < d.key then e :: d :: entries else d :: place e entries

def isResident (m : Memtable) (key : Key) : Bool :=
  match key with
  | [] => false
  | byte :: _ => m.resident.contains byte

def anyResident (m : Memtable) : Bool := !m.resident.isEmpty

def insert (m : Memtable) (e : Entry) : Memtable :=
  { m with
    entries := place e m.entries,
    flushable := if m.isResident e.key then m.flushable else m.flushable + 1 }

def hitFrom (versions : List Entry) (at_ : Seq) : Option Entry :=
  (versions.takeWhile fun e ↦ e.seq ≤ at_).getLast?

def versions (m : Memtable) (key : Key) : List Entry := m.entries.filter fun e ↦ e.key = key

/-- The newest version not above the snapshot. -/
def lookupHit (m : Memtable) (key : Key) (at_ : Seq) : Option Entry :=
  hitFrom (m.versions key) at_

def clear (m : Memtable) : Memtable := { m with entries := [], flushable := 0 }

def eraseFlushable (m : Memtable) : Memtable :=
  if !m.anyResident then m.clear
  else { m with entries := m.entries.filter fun e ↦ m.isResident e.key, flushable := 0 }

def flushEntries (m : Memtable) : List SstEntry := m.entries.filter fun e ↦ !m.isResident e.key

def keys (m : Memtable) : List Key := SSTableBuilder.distinctKeys m.entries

variable {entries : List Entry}

lemma mem_place {e d : Entry} : d ∈ place e entries ↔ d = e ∨ d ∈ entries := by
  induction entries with
  | nil => simp [place]
  | cons first entries ih =>
    rw [place]
    split_ifs
    · rw [mem_cons]
    · rw [mem_cons, ih, mem_cons]
      tauto

lemma Ascending.place {e : Entry} (h : Ascending entries)
    (hnewest : ∀ d ∈ entries, d.key = e.key → d.seq ≤ e.seq) :
    Ascending (Memtable.place e entries) := by
  induction entries with
  | nil => exact pairwise_singleton _ _
  | cons first entries ih =>
    obtain ⟨hfirst, hrest⟩ := pairwise_cons.mp h
    rw [Memtable.place]
    split_ifs with hlt
    · refine pairwise_cons.mpr ⟨fun d hd ↦ .inl ?_, h⟩
      exact hlt.trans_le (h.key_le_of_mem d hd)
    · refine pairwise_cons.mpr
        ⟨fun d hd ↦ ?_, ih hrest (forall_mem_cons.mp hnewest).2⟩
      rcases mem_place.mp hd with rfl | hmem
      · rcases (not_lt.mp hlt).lt_or_eq with hkey | hkey
        · exact .inl hkey
        · exact .inr ⟨hkey, hnewest first mem_cons_self hkey⟩
      · exact hfirst d hmem

lemma lookupHit_eq_newest {m : Memtable} (hasc : Ascending m.entries) (key : Key)
    (at_ : Seq) :
    m.lookupHit key at_ =
      Newest.newest Entry.seq (m.entries.filter fun e ↦ e.VisibleAt key at_) := by
  rw [lookupHit, hitFrom, versions, Newest.getLast?_takeWhile (pairwise_seq_of_ascending hasc key),
    ← filter_visibleAt]

variable (m : Memtable)

lemma eraseFlushable_entries :
    m.eraseFlushable.entries = m.entries.filter fun e ↦ m.isResident e.key := by
  rw [eraseFlushable]
  split_ifs with hnone
  · have hempty : m.resident = [] := by simpa [anyResident] using hnone
    refine (filter_eq_nil_iff.mpr fun e _ hres ↦ ?_).symm
    cases hkey : e.key with
    | nil => simp [isResident, hkey] at hres
    | cons byte key => simp [isResident, hkey, hempty] at hres
  · rfl

@[simp]
lemma eraseFlushable_resident : m.eraseFlushable.resident = m.resident := by
  rw [eraseFlushable]
  split_ifs <;> rfl

lemma isResident_eraseFlushable (key : Key) :
    m.eraseFlushable.isResident key = m.isResident key := by
  cases key with
  | nil => rfl
  | cons byte _ => rw [isResident, isResident, eraseFlushable_resident]

end Memtable

end Lockstep.Storage
