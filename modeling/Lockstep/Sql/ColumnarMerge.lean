import Lockstep.Sql.Columnar

/-!
# What a columnar table holds

After any sequence of statements and flushes the two readers find the rows that the statements left,
and no others (`Holds.run`).
-/

namespace Lockstep.Sql.Columnar

open Library SortedByKey OrderedMap Store Table List Option

variable {K P : Type} [LinearOrder K]

/-! ### Rows under a key -/

namespace Store

def settledRow (s : Store K P) (key : K) : Option (Origin × P) :=
  match findRun key s.runs.reverse with
  | some cell => cell.map (.overlay, ·)
  | none => (find Prod.fst key s.base.flatten).map fun row ↦ (.base, row.2)

def row (s : Store K P) (key : K) : Option (Origin × P) :=
  match s.delta.find key with
  | some cell => cell.map (.delta, ·)
  | none => s.settledRow key

def value (s : Store K P) (key : K) : Option P := (s.row key).map Prod.snd

/-- The blocks and runs are in the order of their keys, and the zone map counts the blocks. -/
structure Sound (s : Store K P) : Prop where
  base : Sorted Prod.fst s.base.flatten
  zones : s.zones = s.base.length
  runs : ∀ run ∈ s.runs, Sorted Prod.fst run.rows

end Store

lemma findBlock_eq (key : K) (base : List (List (K × P))) :
    findBlock key base = (SortedByKey.find Prod.fst key base.flatten).map Prod.snd := by
  rw [SortedByKey.find, find?_flatten, map_findSome?]
  rfl

lemma find_foldl_rows {rows : List (K × P)} (h : Sorted Prod.fst rows) (origin : Origin)
    (m : OrderedMap K (Origin × P)) (key : K) :
    (rows.foldl (fun m row ↦ m.insert row.1 (origin, row.2)) m).find key =
      ((find Prod.fst key rows).map fun row ↦ (origin, row.2)).or (m.find key) := by
  induction rows generalizing m with
  | nil => rfl
  | cons row rows ih =>
    rw [foldl_cons, ih h.tail, find_insert, find_cons]
    split_ifs with hkey
    · subst hkey
      rw [h.find_tail_self]
      rfl
    · rfl

variable {s : Store K P}

lemma find_settled (h : s.Sound) (key : K) :
    (settled s.base.flatten s.runs).find key = s.settledRow key := by
  obtain ⟨base, zones, runs, delta⟩ := s
  have hruns := h.runs
  have hbase := find_foldl_rows h.base .base .empty key
  rw [settledRow]
  dsimp only at hruns hbase ⊢
  clear h
  induction runs using reverseRecOn with
  | nil =>
    rw [settled, foldl_nil, hbase, find_empty, or_none]
    rfl
  | append_singleton runs run ih =>
    have hrest := ih fun other hother ↦ hruns other (mem_append_left _ hother)
    rw [settled] at hrest ⊢
    rw [foldl_append, foldl_cons, foldl_nil, find_foldl_erase,
      find_foldl_rows (hruns run (by simp)), hrest, reverse_append, reverse_singleton,
      singleton_append, findRun]
    split_ifs with htomb
    · rfl
    · cases find Prod.fst key run.rows <;> rfl

lemma find_overDelta (delta : OrderedMap K (Option P)) (m : OrderedMap K (Origin × P)) (key : K) :
    (overDelta delta m).find key = match delta.find key with
      | some cell => cell.map (.delta, ·)
      | none => m.find key := by
  obtain ⟨entries, hsorted⟩ := delta
  rw [overDelta]
  induction entries generalizing m with
  | nil => rfl
  | cons kv entries ih =>
    obtain ⟨key', cell⟩ := kv
    rw [foldl_cons, ih _ hsorted.tail, find_mk_cons]
    by_cases hkey : key' = key
    · subst hkey
      have hnone : (⟨entries, hsorted.tail⟩ : OrderedMap K (Option P)).find key' = none := by
        rw [OrderedMap.find, hsorted.find_tail_self]
        rfl
      cases cell <;> simp [OrderedMap.find_insert, OrderedMap.find_erase, hnone]
    · cases cell <;> simp [OrderedMap.find_insert, OrderedMap.find_erase, hkey]

variable {t : Table K P}

namespace Table

def rowAt (t : Table K P) (delta : OrderedMap K (Option P)) (key : K) : Option (Origin × P) :=
  match if t.deltaDirty then delta.find key else none with
  | some cell => cell.map (.delta, ·)
  | none => t.db.settledRow key

lemma activeRuns_eq (h : t.seen.runs = t.db.runs) : t.activeRuns = t.db.runs := by
  rw [activeRuns, h]
  refine ext_getElem? fun i ↦ ?_
  cases hrun : t.db.runs[i]? <;> simp [hrun]

lemma buildRows_spec (hruns : t.seen.runs = t.db.runs) (h : t.db.Sound)
    (delta : OrderedMap K (Option P)) :
    ∃ m : OrderedMap K (Origin × P), m.entries = t.buildRows delta ∧
      ∀ key, m.find key = t.rowAt delta key := by
  rw [buildRows, activeRuns_eq hruns]
  by_cases hdirty : t.deltaDirty = true
  · refine ⟨overDelta delta (settled t.db.base.flatten t.db.runs), by simp [hdirty], fun key ↦ ?_⟩
    rw [find_overDelta, find_settled h, rowAt, if_pos hdirty]
  by_cases hnone : t.db.runs = []
  · refine ⟨⟨t.db.base.flatten.map fun row : K × P ↦ (row.1, Origin.base, row.2),
      pairwise_map.mpr h.base⟩, by simp [hdirty, hnone], fun key ↦ ?_⟩
    rw [rowAt, if_neg hdirty, settledRow, hnone, OrderedMap.find, SortedByKey.find,
      find?_map, Option.map_map]
    rfl
  · refine ⟨settled t.db.base.flatten t.db.runs, by simp [hdirty, hnone], fun key ↦ ?_⟩
    rw [find_settled h, rowAt, if_neg hdirty]

end Table

/-! ### Flushes -/

lemma Store.value_eq (s : Store K P) (key : K) :
    s.value key = match s.delta.find key with
      | some cell => cell
      | none => match findRun key s.runs.reverse with
        | some cell => cell
        | none => (find Prod.fst key s.base.flatten).map Prod.snd := by
  rw [value, row, settledRow]
  cases s.delta.find key with
  | some cell => cases cell <;> rfl
  | none =>
    cases findRun key s.runs.reverse with
    | some cell => cases cell <;> rfl
    | none => cases find Prod.fst key s.base.flatten <;> rfl

lemma Store.value_of_empty (h : s.delta = .empty) (key : K) :
    s.value key = match findRun key s.runs.reverse with
      | some cell => cell
      | none => (find Prod.fst key s.base.flatten).map Prod.snd := by
  rw [value_eq, h, find_empty]

lemma find_filterMap {cells : List (K × Option P)} (h : Sorted Prod.fst cells) :
    Sorted Prod.fst (cells.filterMap fun kv ↦ kv.2.map (kv.1, ·)) ∧
      ∀ key, (find Prod.fst key (cells.filterMap fun kv ↦ kv.2.map (kv.1, ·))).map
        Prod.snd = ((find Prod.fst key cells).map Prod.snd).join := by
  induction cells with
  | nil => exact ⟨List.Pairwise.nil, fun key ↦ rfl⟩
  | cons kv cells ih =>
    obtain ⟨key', cell⟩ := kv
    obtain ⟨hsorted, hfind⟩ := ih h.tail
    cases cell with
    | none =>
      refine ⟨hsorted, fun key ↦ ?_⟩
      rw [find_cons]
      split_ifs with hkey
      · rw [filterMap_cons_none rfl, hfind, ← hkey, h.find_tail_self]
        rfl
      · exact hfind key
    | some row =>
      refine ⟨pairwise_cons.mpr ⟨fun other hother ↦ ?_, hsorted⟩, fun key ↦ ?_⟩
      · obtain ⟨⟨key'', cell''⟩, hmem, hcell⟩ := mem_filterMap.mp hother
        obtain ⟨row'', -, rfl⟩ := map_eq_some_iff.mp hcell
        exact h.lt_of_mem hmem
      show (find Prod.fst key ((key', row) :: cells.filterMap _)).map Prod.snd = _
      rw [find_cons, find_cons]
      split_ifs with hkey
      · rfl
      · exact hfind key

namespace Table

variable {t : Table K P}

lemma seen_eq (htxn : t.txn = none) : t.seen = t.db := by
  rw [seen, htxn]
  rfl

lemma commitWrites_eq (htxn : t.txn = none) (writes : List (Write K P)) :
    t.commitWrites writes = { t with
      db := writes.foldl apply t.db, versions := (t.commitWrites writes).versions } := by
  rw [commitWrites, htxn]
  cases writes <;> simp [← htxn]

lemma foldl_clearDelta (s : Store K P) (hs : s.delta = t.db.delta) :
    t.clearDelta.foldl apply s = { s with delta := .empty } := by
  have hfold : ∀ (cells : List (K × Option P)) (s : Store K P),
      (cells.map fun kv ↦ Write.delta kv.1 none).foldl apply s =
        { s with delta := (cells.map Prod.fst).foldl erase s.delta } := by
    intro cells
    induction cells with
    | nil => exact fun s ↦ rfl
    | cons kv cells ih => exact fun s ↦ ih _
  rw [clearDelta, hfold]
  congr 1
  refine ext_find fun key ↦ ?_
  rw [find_foldl_erase]
  split_ifs with hmem
  · rfl
  · refine eq_none_iff_forall_ne_some.mpr fun cell hcell ↦ hmem ?_
    rw [hs] at hcell
    exact mem_map.mpr ⟨(key, cell), find_eq_some_iff.mp hcell, rfl⟩

lemma liveRows_spec (t : Table K P) : Sorted Prod.fst t.liveRows ∧
    ∀ key, (find Prod.fst key t.liveRows).map Prod.snd = (t.db.delta.find key).join :=
  find_filterMap t.db.delta.sorted

end Table

lemma flatten_chunked {α : Type} (rows : List α) : (chunked rows).flatten = rows := by
  have htake : ∀ n, ((range n).map fun j ↦
      (rows.drop (j * kChunkRows)).take kChunkRows).flatten = rows.take (n * kChunkRows) := by
    intro n
    induction n with
    | zero => simp
    | succ n ih =>
      rw [range_succ, map_append, flatten_append, ih, Nat.succ_mul, take_add]
      simp
  rw [chunked, htake, take_of_length_le]
  have hpos : 0 < kChunkRows := by decide
  have hdiv := Nat.div_add_mod (rows.length + kChunkRows - 1) kChunkRows
  have hmod := Nat.mod_lt (rows.length + kChunkRows - 1) hpos
  rw [Nat.mul_comm] at hdiv
  omega

structure Store.Kept (s s' : Store K P) : Prop where
  sound : s'.Sound
  delta : s'.delta = .empty
  value : ∀ key, s'.value key = s.value key

namespace Table

structure Ok (t : Table K P) : Prop where
  txn : t.txn = none
  db : t.db.Sound
  clean : t.deltaDirty = false → t.db.delta = .empty

variable {t : Table K P} {writes : List (Write K P)}

lemma Ok.runs_eq (h : t.Ok) : t.activeRuns = t.db.runs :=
  activeRuns_eq (by rw [seen_eq h.txn])

lemma Ok.rowAt_eq (h : t.Ok) : t.rowAt t.db.delta = t.db.row := by
  funext key
  rw [rowAt, row]
  split_ifs with hdirty
  · rfl
  · rw [h.clean (Bool.not_eq_true _ ▸ hdirty), find_empty]

lemma Ok.incremental (h : t.Ok) (hwrites : t.tryIncrementalFlush = some writes) :
    t.db.Kept (writes.foldl apply t.db) := by
  simp only [tryIncrementalFlush, seen_eq h.txn, h.runs_eq, h.db.zones, Option.bind_eq_bind,
    Option.bind_eq_some_iff, Option.guard_eq_some', Option.pure_def, Option.some.injEq] at hwrites
  obtain ⟨-, ⟨hruns, hzones⟩, chunk, hchunk, last, hlast, -, ⟨-, hlive⟩, rfl⟩ := hwrites
  have hend : t.db.base.flatten.getLast? = some last := by
    rw [← getLast?_eq_getElem?] at hchunk
    obtain ⟨front, hfront⟩ := getLast?_eq_some_iff.mp hchunk
    obtain ⟨rows, rfl⟩ := getLast?_eq_some_iff.mp hlast
    rw [hfront]
    simp
  have hbehind : ∀ old ∈ t.db.base.flatten, ∀ kv ∈ t.db.delta.entries, old.1 < kv.1 := by
    intro old hold kv hkv
    obtain ⟨front, hfront⟩ := getLast?_eq_some_iff.mp hend
    have hsorted := h.db.base
    rw [hfront] at hold hsorted
    rcases mem_append.mp hold with hmem | hmem
    · exact ((pairwise_append.mp hsorted).2.2 old hmem last (by simp)).trans (hlive kv hkv).2
    · rw [mem_singleton.mp hmem]
      exact (hlive kv hkv).2
  have hbase : (t.db.apply (.blocks t.db.base.length (chunked t.liveRows) 0)).base.flatten =
      t.db.base.flatten ++ t.liveRows := by
    simp only [apply, take_length, flatten_append, flatten_chunked]
    rw [drop_eq_nil_of_le (by omega), flatten_nil, append_nil]
  rw [foldl_cons, foldl_clearDelta (t.db.apply _) rfl]
  refine ⟨⟨?_, by simp [apply], h.db.runs⟩, rfl, fun key ↦ ?_⟩
  · rw [hbase]
    refine pairwise_append.mpr ⟨h.db.base, t.liveRows_spec.1, fun old hold new hnew ↦ ?_⟩
    obtain ⟨kv, hkv, hcell⟩ := mem_filterMap.mp hnew
    obtain ⟨row, -, rfl⟩ := map_eq_some_iff.mp hcell
    exact hbehind old hold kv hkv
  · have hfind := t.liveRows_spec.2 key
    rw [value_of_empty rfl, value_eq]
    rw [hbase, find_append, show (t.db.apply (.blocks _ _ _)).runs = [] from hruns, hruns]
    cases hcell : t.db.delta.find key with
    | none =>
      rw [hcell, join_none, map_eq_none_iff] at hfind
      rw [hfind, or_none]
    | some cell =>
      have hmem := find_eq_some_iff.mp hcell
      rw [hcell] at hfind
      rw [find_eq_none_iff.mpr fun old hold ↦ (hbehind old hold _ hmem).ne]
      exact hfind

lemma Ok.overlay (h : t.Ok) (hwrites : t.createOverlayRun = some writes) :
    t.db.Kept (writes.foldl apply t.db) := by
  simp only [createOverlayRun, seen_eq h.txn, h.runs_eq, Option.bind_eq_bind,
    Option.bind_eq_some_iff, Option.guard_eq_some', Option.pure_def, Option.some.injEq] at hwrites
  obtain ⟨-, -, rfl⟩ := hwrites
  rw [foldl_cons, foldl_clearDelta (t.db.apply _) rfl]
  refine ⟨⟨h.db.base, h.db.zones, fun run hrun ↦ ?_⟩, rfl, fun key ↦ ?_⟩
  · simp only [apply, take_length, mem_append, mem_singleton] at hrun
    rcases hrun with hrun | rfl
    · exact h.db.runs run hrun
    · exact t.liveRows_spec.1
  · have hfind := t.liveRows_spec.2 key
    have htomb : key ∈ (t.db.delta.entries.filter fun kv ↦ kv.2.isNone).map Prod.fst ↔
        t.db.delta.find key = some none := by
      rw [find_eq_some_iff]
      simp
    rw [value_of_empty rfl, value_eq]
    simp only [apply, take_length, reverse_append, reverse_singleton, singleton_append, findRun]
    rcases hcell : t.db.delta.find key with _ | _ | row <;> rw [hcell] at hfind htomb
    · rw [join_none, map_eq_none_iff] at hfind
      simp [htomb, hfind]
    · simp only [htomb, if_true]
    · obtain ⟨found, hrow, rfl⟩ := map_eq_some_iff.mp hfind
      simp [htomb, hrow]

lemma Ok.compaction (h : t.Ok) : t.db.Kept (t.compaction.foldl apply t.db) := by
  obtain ⟨m, hentries, hfind⟩ := buildRows_spec (by rw [seen_eq h.txn]) h.db t.db.delta
  have hstore : t.compaction.foldl apply t.db =
      { t.db.apply (.blocks 0 (chunked (m.entries.map fun row ↦ (row.1, row.2.2)))
        t.db.base.length) with delta := .empty, runs := [] } := by
    rw [Table.compaction, cons_append, foldl_cons, foldl_append,
      foldl_clearDelta (t.db.apply _) rfl, ← hentries, h.runs_eq]
    cases hruns : t.db.runs with
    | nil => simp [apply, hruns]
    | cons run runs => rfl
  have hbase : (t.compaction.foldl apply t.db).base.flatten =
      m.entries.map fun row ↦ (row.1, row.2.2) := by
    rw [hstore]
    simp only [apply, take_zero, nil_append, flatten_append, flatten_chunked]
    rw [drop_eq_nil_of_le (le_max_right _ _), flatten_nil, append_nil]
  refine ⟨⟨?_, ?_, ?_⟩, by rw [hstore], fun key ↦ ?_⟩
  · rw [hbase]
    exact pairwise_map.mpr m.sorted
  · rw [hstore]
    simp [apply]
  · rw [hstore]
    exact nofun
  · have hrow := hfind key
    rw [h.rowAt_eq, OrderedMap.find] at hrow
    rw [value_of_empty (by rw [hstore]), hbase, value, ← hrow, hstore]
    simp only [reverse_nil, findRun, SortedByKey.find, find?_map, Option.map_map]
    rfl

lemma Ok.flushColumnar (h : t.Ok) :
    t.flushColumnar.Ok ∧ ∀ key, t.flushColumnar.db.value key = t.db.value key := by
  rw [Table.flushColumnar]
  split_ifs with hdirty
  · exact ⟨h, fun key ↦ rfl⟩
  have hkept : t.db.Kept
      (((t.tryIncrementalFlush.or t.createOverlayRun).getD t.compaction).foldl apply
        t.db) := by
    cases hfirst : t.tryIncrementalFlush with
    | some writes => exact h.incremental hfirst
    | none =>
      cases hsecond : t.createOverlayRun with
      | some writes => exact h.overlay hsecond
      | none => exact h.compaction
  set writes := (t.tryIncrementalFlush.or t.createOverlayRun).getD t.compaction
  dsimp only
  rw [commitWrites_eq h.txn]
  exact ⟨⟨h.txn, hkept.sound, fun _ ↦ hkept.delta⟩, hkept.value⟩

lemma Ok.readRow_eq (h : t.Ok) : t.readRow = t.db.row := by
  funext key
  rw [readRow, seen_eq h.txn, h.runs_eq, findBlock_eq, Option.map_map]
  rfl

end Table

/-! ### Statements -/

def applyCells (m : OrderedMap K P) (cells : List (K × Option P)) : OrderedMap K P :=
  cells.foldl (fun m cell ↦ match cell.2 with
    | some row => m.insert cell.1 row
    | none => m.erase cell.1) m

def Stmt.run (m : OrderedMap K P) (stmt : Stmt K P) : OrderedMap K P :=
  ((stmt.cells m.entries m.find).map (applyCells m)).getD m

lemma foldl_cellWrites (cells : List (K × Option P)) (s : Store K P) :
    (cellWrites cells).foldl apply s =
      { s with delta := cells.foldl (fun m cell ↦ m.insert cell.1 cell.2) s.delta } := by
  induction cells generalizing s with
  | nil => rfl
  | cons cell cells ih => exact ih _

variable {m : OrderedMap K P}

lemma value_cellWrites (h : ∀ key, s.value key = m.find key) (cells : List (K × Option P))
    (key : K) :
    ((cellWrites cells).foldl apply s).value key = (applyCells m cells).find key := by
  induction cells generalizing s m with
  | nil => exact h key
  | cons cell cells ih =>
    obtain ⟨key', cell⟩ := cell
    refine ih fun key ↦ ?_
    have hvalue := h key
    rw [value_eq] at hvalue ⊢
    simp only [apply]
    rw [find_insert]
    split_ifs with hkey
    · cases cell <;> simp [find_insert, find_erase, hkey]
    · cases cell <;> simpa [find_insert, find_erase, hkey] using hvalue

namespace Table

/-- The table is what the statements make of it. -/
structure Holds (t : Table K P) (m : OrderedMap K P) : Prop where
  ok : t.Ok
  value : ∀ key, t.db.value key = m.find key

variable {t : Table K P} {m : OrderedMap K P}

lemma Holds.flushColumnar (h : t.Holds m) : t.flushColumnar.Holds m :=
  ⟨h.ok.flushColumnar.1, fun key ↦ (h.ok.flushColumnar.2 key).trans (h.value key)⟩

lemma Holds.committed (h : t.Holds m) :
    ((t.buildRows t.db.delta).map fun row ↦ (row.1, row.2.2)) = m.entries := by
  obtain ⟨found, hentries, hfind⟩ := buildRows_spec (by rw [seen_eq h.ok.txn]) h.ok.db t.db.delta
  have hmap : found.mapValues Prod.snd = m := ext_find fun key ↦ by
    rw [find_mapValues, hfind, h.ok.rowAt_eq, ← h.value]
    rfl
  rw [← hentries, ← hmap]
  rfl

lemma Holds.noteWrites (h : t.Holds m) (cells : List (K × Option P)) :
    ((t.commitWrites (cellWrites cells)).noteWrites cells.length).Holds (applyCells m cells) := by
  have hvalue := value_cellWrites h.value cells
  rw [foldl_cellWrites] at hvalue
  rw [commitWrites_eq h.ok.txn, foldl_cellWrites]
  refine ⟨⟨h.ok.txn, { h.ok.db with }, fun hclean ↦ ?_⟩, hvalue⟩
  obtain ⟨hdirty, hnone⟩ := Bool.or_eq_false_iff.mp hclean
  obtain rfl : cells = [] := by simpa using hnone
  exact h.ok.clean hdirty

lemma Holds.exec (h : t.Holds m) (stmt : Stmt K P) : (t.exec stmt).Holds (stmt.run m) := by
  have hlookup : (fun key ↦ (t.readRow key).map Prod.snd) = m.find := by
    funext key
    rw [h.ok.readRow_eq]
    exact h.value key
  rw [Table.exec, cells, h.committed, hlookup, Stmt.run]
  cases stmt.cells m.entries m.find with
  | none => exact h
  | some cells =>
    show (maybeAutoFlush _).Holds (applyCells m cells)
    rw [maybeAutoFlush]
    split_ifs
    · exact (h.noteWrites cells).flushColumnar
    · exact h.noteWrites cells

end Table

/-! ### Runs -/

inductive Event (K P : Type) where
  | stmt (stmt : Stmt K P)
  | flush

def Table.step (t : Table K P) : Event K P → Table K P
  | .stmt stmt => t.exec stmt
  | .flush => t.flushColumnar

def Event.run (m : OrderedMap K P) : Event K P → OrderedMap K P
  | .stmt s => s.run m
  | .flush => m

lemma Table.Holds.run (h : t.Holds m)
    (events : List (Event K P)) : (events.foldl step t).Holds (events.foldl Event.run m) := by
  refine foldl_rel h fun event _ t m h ↦ ?_
  cases event with
  | stmt stmt => exact h.exec stmt
  | flush => exact h.flushColumnar

lemma Table.Holds.start (rows : ℕ) :
    Holds { autoFlushRows := rows } (.empty (K := K) (V := P)) where
  ok := ⟨rfl, ⟨List.Pairwise.nil, rfl, nofun⟩, fun _ ↦ rfl⟩
  value := fun _ ↦ rfl

end Lockstep.Sql.Columnar
