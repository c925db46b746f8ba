import Mathlib.Order.WellFoundedSet
import Mathlib.Data.String.Basic

/-!
# The order of the tables in a dump

`sql_table_order` of `query/sql/Engine.hpp`: passes over the catalog that list each table whose
referenced tables are listed, and then the rest. It compares the name that a column carries for the
table it references with the names of the catalog as they stand. The foreign keys themselves look
the name up through the search path, and a column that was dropped has no foreign key any more.
-/

namespace Lockstep.Sql.Dump

open List Relation

structure Column where
  fkTable : String
  dropped : Bool := false
  deriving DecidableEq

structure Table where
  name : String
  columns : List Column
  deriving DecidableEq

/-- What `catalog_.all()` holds: the map orders the tables by their names, and the parser reads no
empty name. -/
structure Catalog where
  tables : List Table
  sorted : tables.Pairwise fun a b ↦ a.name < b.name
  named : ∀ t ∈ tables, t.name ≠ ""
  searchPath : String := ""

structure Sorting where
  order : List Table
  indeg : Table → ℤ
  progress : Bool

namespace Sorting

/-- The set `done` is that of the names of the tables in `order`. -/
def done (s : Sorting) : List String := s.order.map Table.name

/-- List `t` and relax its children. -/
def place (s : Sorting) (t : Table) : Sorting where
  order := s.order ++ [t]
  indeg := fun child ↦
    if child.name ∈ s.done ++ [t.name] then s.indeg child
    else s.indeg child - child.columns.countP fun c ↦ c.fkTable = t.name ∧ child.name ≠ t.name
  progress := true

lemma done_place (s : Sorting) (t : Table) : (s.place t).done = s.done ++ [t.name] := map_append

def visit (s : Sorting) (t : Table) : Sorting :=
  if t.name ∈ s.done ∨ s.indeg t ≠ 0 then s else s.place t

/-- Either every table is skipped, or one is listed. -/
lemma foldl_visit (tables : List Table) (s : Sorting) :
    tables.foldl visit s = s ∧ (∀ t ∈ tables, t.name ∈ s.done ∨ s.indeg t ≠ 0) ∨
      (tables.foldl visit s).progress = true ∧
        s.order.length < (tables.foldl visit s).order.length := by
  induction tables generalizing s with
  | nil => exact .inl ⟨rfl, nofun⟩
  | cons t tables ih =>
    rw [foldl_cons]
    by_cases hskip : t.name ∈ s.done ∨ s.indeg t ≠ 0
    · rw [visit, if_pos hskip]
      exact (ih s).imp_left fun ⟨hsame, hrest⟩ ↦ ⟨hsame, forall_mem_cons.mpr ⟨hskip, hrest⟩⟩
    · have hlt : s.order.length < (s.place t).order.length := by simp [place]
      rw [visit, if_neg hskip]
      refine .inr ?_
      rcases ih (s.place t) with ⟨hsame, -⟩ | ⟨hprogress, hmore⟩
      · rw [hsame]
        exact ⟨rfl, hlt⟩
      · exact ⟨hprogress, hlt.trans hmore⟩

end Sorting

namespace Catalog

variable (cat : Catalog)

/-- A column that keeps `t` back as long as the listed names are `done`. -/
def awaits (done : List String) (t : Table) (c : Column) : Bool :=
  c.fkTable ≠ "" ∧ c.fkTable ≠ t.name ∧ c.fkTable ∈ cat.tables.map Table.name ∧ c.fkTable ∉ done

def start : Sorting where
  order := []
  indeg := fun t ↦ t.columns.countP fun c ↦
    c.fkTable ≠ "" ∧ c.fkTable ≠ t.name ∧ c.fkTable ∈ cat.tables.map Table.name
  progress := true

def pass (s : Sorting) : Sorting :=
  cat.tables.foldl Sorting.visit { s with progress := false }

lemma pass_cases (s : Sorting) :
    cat.pass s = { s with progress := false } ∧
        (∀ t ∈ cat.tables, t.name ∈ s.done ∨ s.indeg t ≠ 0) ∨
      (cat.pass s).progress = true ∧ s.order.length < (cat.pass s).order.length :=
  Sorting.foldl_visit cat.tables { s with progress := false }

def passes (s : Sorting) : Sorting :=
  if s.order.length < cat.tables.length ∧ s.progress = true then passes (cat.pass s) else s
termination_by 2 * (cat.tables.length - s.order.length) + s.progress.toNat
decreasing_by
  rename_i hmore
  obtain ⟨hmore, hprogress⟩ := hmore
  rcases cat.pass_cases s with ⟨hstuck, -⟩ | ⟨hlisted, hlt⟩
  · simp [hstuck, hprogress]
  · simp only [hlisted, hprogress]
    omega

def sqlTableOrder : List Table :=
  let s := cat.passes cat.start
  s.order ++ cat.tables.filter fun t ↦ t.name ∉ s.done

def qualify (name : String) : String :=
  if '.' ∈ name.toList then name
  else if cat.searchPath ≠ "" then cat.searchPath ++ "." ++ name
  else name

/-- An edge of the foreign-key graph without self-references: `catalog_.find` finds the parent under
the name in a column that was not dropped. -/
def Refers (child parent : Table) : Prop :=
  child ∈ cat.tables ∧ parent ∈ cat.tables ∧ parent.name ≠ child.name ∧
    ∃ c ∈ child.columns, c.dropped = false ∧ c.fkTable ≠ "" ∧
      cat.qualify c.fkTable = parent.name

/-- What the passes take for an edge: a column, dropped or not, carries the name of the parent. -/
def Names (child parent : Table) : Prop :=
  child ∈ cat.tables ∧ parent ∈ cat.tables ∧ parent.name ≠ child.name ∧
    ∃ c ∈ child.columns, c.fkTable = parent.name

variable {cat} {s : Sorting} {t : Table}

lemma nodup_names : (cat.tables.map Table.name).Nodup :=
  pairwise_map.mpr (cat.sorted.imp ne_of_lt)

/-- What holds of the tables listed so far. -/
structure Sound (cat : Catalog) (s : Sorting) : Prop where
  subset : s.order ⊆ cat.tables
  nodup : s.done.Nodup
  closed : ∀ a ∈ s.order, ∀ b, cat.Names a b → b.name ∈ s.done
  ordered : s.order.Pairwise fun a b ↦ ¬ cat.Names a b
  indeg : ∀ t ∈ cat.tables, t.name ∉ s.done →
    s.indeg t = t.columns.countP (cat.awaits s.done t)

lemma sound_start : cat.Sound cat.start where
  subset := nil_subset _
  nodup := nodup_nil
  closed := nofun
  ordered := .nil
  indeg := fun t _ _ ↦ congrArg Nat.cast
    (countP_congr fun c _ ↦ by simp [awaits, start, Sorting.done])

/-- Listing `t` takes from a table's number its columns that refer to `t`. -/
lemma countP_awaits {done : List String} {child : Table} (ht : t ∈ cat.tables)
    (hnew : t.name ∉ done) (columns : List Column) :
    columns.countP (cat.awaits done child) =
      columns.countP (cat.awaits (done ++ [t.name]) child) +
        columns.countP fun c ↦ c.fkTable = t.name ∧ child.name ≠ t.name := by
  have hnamed := cat.named t ht
  have hmem : t.name ∈ cat.tables.map Table.name := mem_map_of_mem ht
  rw [countP_eq_countP_filter_add _ _ fun c ↦ c.fkTable ≠ t.name, countP_filter, countP_filter]
  congr 1 <;> refine countP_congr fun c _ ↦ ?_ <;> simp only [awaits] <;> grind

namespace Sound

lemma indeg_eq_zero_iff (h : cat.Sound s) (ht : t ∈ cat.tables) (hnew : t.name ∉ s.done) :
    s.indeg t = 0 ↔ ∀ parent, cat.Names t parent → parent.name ∈ s.done := by
  rw [h.indeg t ht hnew, Int.natCast_eq_zero, countP_eq_zero]
  constructor
  · rintro hnone parent ⟨-, hparent, hne, c, hc, hname⟩
    by_contra hout
    refine hnone c hc ?_
    rw [awaits, hname]
    exact decide_eq_true ⟨cat.named parent hparent, hne, mem_map_of_mem hparent, hout⟩
  · intro hlisted c hc hawaits
    obtain ⟨-, hother, hname, hout⟩ := of_decide_eq_true hawaits
    obtain ⟨parent, hparent, heq⟩ := mem_map.mp hname
    rw [← heq] at hother hout
    exact hout (hlisted parent ⟨ht, hparent, hother, c, hc, heq.symm⟩)

lemma place (h : cat.Sound s) (ht : t ∈ cat.tables) (hnew : t.name ∉ s.done)
    (hzero : s.indeg t = 0) : cat.Sound (s.place t) := by
  have hparents := (h.indeg_eq_zero_iff ht hnew).mp hzero
  constructor
  · exact append_subset.mpr ⟨h.subset, by simpa using ht⟩
  · rw [s.done_place]
    exact h.nodup.append (nodup_singleton _) (disjoint_singleton.mpr hnew)
  · rw [s.done_place]
    exact forall_mem_append.mpr ⟨fun a ha b hb ↦ mem_append_left _ (h.closed a ha b hb),
      forall_mem_singleton.mpr fun b hb ↦ mem_append_left _ (hparents b hb)⟩
  · exact pairwise_append.mpr ⟨h.ordered, pairwise_singleton _ _, fun a ha ↦
      forall_mem_singleton.mpr fun hnames ↦ hnew (h.closed a ha t hnames)⟩
  · rw [s.done_place]
    intro child hchild hout
    have hold := h.indeg child hchild fun hlisted ↦ hout (mem_append_left _ hlisted)
    have hcount := @countP_awaits cat t s.done child ht hnew child.columns
    have hnext : (s.place t).indeg child = _ := if_neg hout
    rw [hnext, hold, hcount, Int.natCast_add, Int.add_sub_cancel]

lemma visit (h : cat.Sound s) (ht : t ∈ cat.tables) : cat.Sound (s.visit t) := by
  rw [Sorting.visit]
  split_ifs with hskip
  · exact h
  · rw [not_or, not_not] at hskip
    exact h.place ht hskip.1 hskip.2

lemma pass (h : cat.Sound s) : cat.Sound (cat.pass s) :=
  foldlRecOn cat.tables _ { h with } fun _ h _ ht ↦ h.visit ht

/-- The passes end when each table is listed or kept back. -/
lemma passes (h : cat.Sound s) (hstart : s.progress = true) :
    cat.Sound (cat.passes s) ∧
      ∀ t ∈ cat.tables, t.name ∈ (cat.passes s).done ∨ (cat.passes s).indeg t ≠ 0 := by
  induction s using passes.induct cat with
  | case1 s hmore ih =>
    rw [Catalog.passes, if_pos hmore]
    rcases cat.pass_cases s with ⟨hstuck, hall⟩ | ⟨hprogress, -⟩
    · rw [Catalog.passes, if_neg (by simp [hstuck])]
      exact ⟨h.pass, hstuck ▸ hall⟩
    · exact ih h.pass hprogress
  | case2 s hend =>
    rw [Catalog.passes, if_neg hend]
    have hlength : cat.tables.length ≤ s.order.length := not_lt.mp fun hlt ↦ hend ⟨hlt, hstart⟩
    have hperm := (subperm_of_subset h.nodup.of_map h.subset).perm_of_length_le hlength
    exact ⟨h, fun t ht ↦ .inl (mem_map_of_mem (hperm.symm.subset ht))⟩

/-- In a finite acyclic graph one of the tables that are not listed names none of them. -/
lemma mem_done (h : cat.Sound s) (hacyclic : ∀ t, ¬ TransGen cat.Names t t)
    (hend : ∀ t ∈ cat.tables, t.name ∈ s.done ∨ s.indeg t ≠ 0) :
    ∀ t ∈ cat.tables, t.name ∈ s.done := by
  have : IsStrictOrder Table fun a b ↦ TransGen cat.Names b a :=
    { irrefl := hacyclic
      trans := fun _ _ _ hab hbc ↦ hbc.trans hab }
  let rest := { t | t ∈ cat.tables ∧ t.name ∉ s.done }
  have hfinite : rest.Finite := cat.tables.finite_toSet.subset fun t ht ↦ ht.1
  have hfounded : rest.WellFoundedOn fun a b ↦ TransGen cat.Names b a := hfinite.wellFoundedOn
  by_contra! hrest
  obtain ⟨t, ht⟩ := hrest
  obtain ⟨⟨t, ht, hnew⟩, -, hmin⟩ := hfounded.has_min Set.univ ⟨⟨t, ht⟩, trivial⟩
  refine (hend t ht).resolve_left hnew ((h.indeg_eq_zero_iff ht hnew).mpr fun parent hnames ↦ ?_)
  by_contra hout
  exact hmin ⟨parent, hnames.2.1, hout⟩ trivial (.single hnames)

end Sound

end Catalog

end Lockstep.Sql.Dump
