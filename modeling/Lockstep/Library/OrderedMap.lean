import Mathlib
import Lockstep.Library.SortedByKey

/-!
# Ordered maps

A finite map as the list of its entries in the order of their keys. The order is a field, so two
maps that find the same values are equal (`ext_find`). `insert` assigns a value to a key.
-/

namespace Lockstep.Library

open SortedByKey List Option

structure OrderedMap (K V : Type*) [LinearOrder K] where
  entries : List (K × V) := []
  sorted : Sorted Prod.fst entries := by decide

namespace OrderedMap

variable {K V : Type*} [LinearOrder K]

def empty : OrderedMap K V := ⟨[], List.Pairwise.nil⟩

def find (m : OrderedMap K V) (k : K) : Option V :=
  (SortedByKey.find Prod.fst k m.entries).map Prod.snd

/-- Assigns a value to a key, over the value it had. -/
def insert (m : OrderedMap K V) (k : K) (v : V) : OrderedMap K V :=
  ⟨upsert Prod.fst (fun _ ↦ 0) (k, v) m.entries, m.sorted.upsert⟩

variable {first second : OrderedMap K V}

lemma entries_inj (h : first.entries = second.entries) : first = second := by
  cases first
  cases second
  cases h
  rfl

instance [DecidableEq V] : DecidableEq (OrderedMap K V) :=
  fun first second ↦ decidable_of_iff (first.entries = second.entries)
    ⟨entries_inj, congrArg OrderedMap.entries⟩

@[simp]
lemma find_empty (k : K) : (empty : OrderedMap K V).find k = none := rfl

variable {m : OrderedMap K V} {k : K}

lemma find_eq_some_iff {v : V} : m.find k = some v ↔ (k, v) ∈ m.entries := by
  rw [find, map_eq_some_iff]
  constructor
  · rintro ⟨⟨k', v'⟩, hfind, rfl⟩
    obtain rfl : k' = k := key_of_find hfind
    exact mem_of_find hfind
  · intro hmem
    exact ⟨(k, v), m.sorted.find_of_mem hmem, rfl⟩

lemma find_mk_cons {kv : K × V} {entries : List (K × V)} (h : Sorted Prod.fst (kv :: entries))
    (k : K) : (⟨kv :: entries, h⟩ : OrderedMap K V).find k =
      if kv.1 = k then some kv.2 else (⟨entries, h.tail⟩ : OrderedMap K V).find k := by
  rw [find, find_cons]
  split_ifs <;> rfl

lemma ext_find (h : ∀ k, first.find k = second.find k) : first = second := by
  refine entries_inj (first.sorted.eq_of_mem_iff second.sorted ?_)
  rintro ⟨k, v⟩
  rw [← find_eq_some_iff, ← find_eq_some_iff, h k]

lemma find_insert (m : OrderedMap K V) (k k' : K) (v : V) :
    (m.insert k v).find k' = if k = k' then some v else m.find k' := by
  rw [find, insert, find_upsert m.sorted]
  split_ifs with hk
  · cases hfound : SortedByKey.find Prod.fst k' m.entries with
    | none | some held => rfl
  · rfl

lemma mem_insert {v : V} {kv : K × V}
    (h : kv ∈ (m.insert k v).entries) : kv = (k, v) ∨ kv ∈ m.entries := by
  have hfind := find_eq_some_iff.mpr h
  rw [find_insert] at hfind
  split_ifs at hfind with hk
  · exact .inl (Prod.ext hk.symm (some.inj hfind).symm)
  · exact .inr (find_eq_some_iff.mp hfind)

lemma entries_insert_last (v : V) (h : ∀ kv ∈ m.entries, kv.1 < k) :
    (m.insert k v).entries = m.entries ++ [(k, v)] := by
  refine (m.insert k v).sorted.eq_of_mem_iff
    (pairwise_append.mpr ⟨m.sorted, pairwise_singleton _ _, by simpa using h⟩) ?_
  rintro ⟨k', v'⟩
  rw [← find_eq_some_iff, find_insert, mem_append, mem_singleton, Prod.mk.injEq]
  split_ifs with hk
  · subst hk
    have hnew : (k, v') ∉ m.entries := fun hmem ↦ lt_irrefl k (h _ hmem)
    simp [hnew, eq_comm]
  · simp [find_eq_some_iff, Ne.symm hk]

/-- The entries under other keys. -/
def erase (m : OrderedMap K V) (k : K) : OrderedMap K V :=
  ⟨m.entries.filter (·.1 ≠ k), m.sorted.filter _⟩

lemma find_erase (m : OrderedMap K V) (k k' : K) :
    (m.erase k).find k' = if k = k' then none else m.find k' := by
  refine ext fun v ↦ ?_
  rw [find_eq_some_iff, erase]
  by_cases hk : k = k'
  · simp [hk]
  · rw [if_neg hk, find_eq_some_iff]
    simp [Ne.symm hk]

lemma find_foldl_erase (m : OrderedMap K V) (keys : List K) (k : K) :
    (keys.foldl erase m).find k = if k ∈ keys then none else m.find k := by
  induction keys generalizing m with
  | nil => rfl
  | cons key keys ih =>
    rw [foldl_cons, ih, find_erase]
    by_cases hk : key = k
    · simp [hk]
    · simp [hk, Ne.symm hk]

def mapValues {W : Type*} (m : OrderedMap K V) (f : V → W) : OrderedMap K W :=
  ⟨m.entries.map fun kv : K × V ↦ (kv.1, f kv.2), pairwise_map.mpr m.sorted⟩

lemma find_mapValues {W : Type*} (m : OrderedMap K V) (f : V → W) (k : K) :
    (m.mapValues f).find k = (m.find k).map f := by
  rw [find, find, mapValues, SortedByKey.find, List.find?_map, Option.map_map, Option.map_map]
  rfl

/-- The entries whose values satisfy a condition. -/
def filterValues (m : OrderedMap K V) (p : V → Bool) : OrderedMap K V :=
  ⟨m.entries.filter fun kv ↦ p kv.2, m.sorted.filter _⟩

lemma find_filterValues (m : OrderedMap K V) (p : V → Bool) (k : K) :
    (m.filterValues p).find k = (m.find k).filter p := by
  refine ext fun v ↦ ?_
  rw [find_eq_some_iff, filter_eq_some_iff, find_eq_some_iff, filterValues]
  exact mem_filter

lemma find_foldl_insert_of_notMem {α : Type*} (key : α → K) (value : α → V) {l : List α}
    (hk : k ∉ l.map key) (m : OrderedMap K V) :
    (l.foldl (fun m x ↦ m.insert (key x) (value x)) m).find k = m.find k := by
  induction l generalizing m with
  | nil => rfl
  | cons x l ih =>
    rw [map_cons, mem_cons, not_or] at hk
    rw [foldl_cons, ih hk.2, find_insert, if_neg fun heq ↦ hk.1 heq.symm]

lemma find_foldl_insert_of_mem {α : Type*} (key : α → K) (value : α → V) {l : List α}
    (hnodup : (l.map key).Nodup) {x : α} (hx : x ∈ l) (m : OrderedMap K V) :
    (l.foldl (fun m x ↦ m.insert (key x) (value x)) m).find (key x) = some (value x) := by
  induction l generalizing m with
  | nil => cases hx
  | cons y l ih =>
    rw [map_cons, nodup_cons] at hnodup
    rw [foldl_cons]
    rcases mem_cons.mp hx with rfl | htail
    · rw [find_foldl_insert_of_notMem key value hnodup.1, find_insert, if_pos rfl]
    · exact ih hnodup.2 htail _

lemma foldl_entries_eq (m : OrderedMap K V) (k : K) (first : Option V) :
    m.entries.foldl (fun found kv ↦ if kv.1 = k then some kv.2 else found) first =
      (m.find k).or first := by
  obtain ⟨entries, hsorted⟩ := m
  rw [find]
  dsimp only
  induction entries generalizing first with
  | nil => rfl
  | cons kv entries ih =>
    rw [foldl_cons, ih _ hsorted.tail, find_cons]
    split_ifs with hk
    · rw [← hk, hsorted.find_tail_self]
      rfl
    · rfl

end OrderedMap

end Lockstep.Library
