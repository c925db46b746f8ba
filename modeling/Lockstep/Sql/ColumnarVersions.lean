import Lockstep.Sql.ColumnarMerge

/-!
# Transactions and old versions of a columnar table

A transaction buffers its writes, and a flush that its statements start reads the committed delta,
buffers its own writes and marks the delta clean at once.

A query of an old version reads the delta of that version, and the runs and blocks as they are now.
-/

namespace Lockstep.Sql.Columnar

open Library SortedByKey Table OrderedMap Store
open List

variable {K P : Type} [LinearOrder K]

/-! ### Transactions -/

/-- The rows that the statement writes and the checks it makes are the same over any rows. -/
def Stmt.Blind : Stmt K P → Prop
  | .insert rows _ accepts =>
    (∀ c c', rows c = rows c') ∧ ∀ c c' new row, accepts c new row = accepts c' new row
  | .update _ _ => True
  | .delete _ accepts => ∀ c c', accepts c = accepts c'

lemma Stmt.Blind.cells_eq {stmt : Stmt K P} (h : stmt.Blind) (c c' : List (K × P))
    (find : K → Option P) : stmt.cells c find = stmt.cells c' find := by
  cases stmt with
  | insert rows onConflict accepts =>
    have hstage : stage c find onConflict accepts = stage c' find onConflict accepts := by
      funext staged row
      simp only [stage, h.2 c c' staged.new row]
    rw [Stmt.cells, Stmt.cells, h.1 c c', hstage]
  | update key set => rfl
  | delete key accepts => rw [Stmt.cells, Stmt.cells, h c c']

namespace Table

def Calm (t : Table K P) (stmt : Stmt K P) : Prop :=
  ∀ cells, t.cells stmt = some cells →
    t.autoFlushRows ≠ 0 → t.deltaCount + cells.length < t.autoFlushRows

structure Beside (before t plain : Table K P) : Prop where
  txn : t.txn.isSome
  db : t.db = before.db
  seen : t.seen = plain.db
  base : plain.db.base = before.db.base
  runs : plain.db.runs = before.db.runs
  plainTxn : plain.txn = none
  dirty : t.deltaDirty = plain.deltaDirty
  kept : t.deltaDirty = false → before.deltaDirty = false
  count : t.deltaCount = plain.deltaCount
  rows : t.autoFlushRows = plain.autoFlushRows

variable {before t plain : Table K P} {stmt : Stmt K P}

lemma Beside.cells_eq (h : Beside before t plain) (hblind : stmt.Blind) :
    t.cells stmt = plain.cells stmt := by
  have hruns : t.activeRuns = plain.activeRuns := by
    rw [activeRuns_eq (by rw [h.seen, h.runs, h.db]),
      activeRuns_eq (by rw [seen_eq h.plainTxn]), h.db, h.runs]
  have hread : t.readRow = plain.readRow := by
    funext key
    rw [readRow, readRow, hruns, h.seen, seen_eq h.plainTxn, h.db, h.base]
  rw [cells, cells, hread, hblind.cells_eq]

lemma Beside.exec (h : Beside before t plain) (hblind : stmt.Blind) (hcalm : t.Calm stmt) :
    Beside before (t.exec stmt) (plain.exec stmt) := by
  rw [Table.exec, Table.exec, ← h.cells_eq hblind]
  cases hcells : t.cells stmt with
  | none => exact h
  | some cells =>
    have hstays : ¬(t.autoFlushRows ≠ 0 ∧ t.autoFlushRows ≤ t.deltaCount + cells.length) :=
      fun h ↦ absurd (hcalm cells hcells h.1) (not_lt.mpr h.2)
    obtain ⟨buffered, htxn⟩ := Option.isSome_iff_exists.mp h.txn
    have hseen : (buffered ++ cellWrites cells).foldl apply t.db =
        (cellWrites cells).foldl apply plain.db := by
      rw [foldl_append, ← h.seen, Table.seen, htxn]
      rfl
    have hbuffer : t.commitWrites (cellWrites cells) =
        { t with txn := some (buffered ++ cellWrites cells) } := by rw [commitWrites, htxn]
    have hcalm : maybeAutoFlush (({ t with txn := some (buffered ++ cellWrites cells) } :
        Table K P).noteWrites cells.length) = _ := if_neg hstays
    rw [h.rows, h.count] at hstays
    have hplain : maybeAutoFlush (({ plain with
        db := (cellWrites cells).foldl apply plain.db
        versions := (plain.commitWrites (cellWrites cells)).versions } :
        Table K P).noteWrites cells.length) = _ := if_neg hstays
    show Beside before (maybeAutoFlush _) (maybeAutoFlush _)
    rw [hbuffer, commitWrites_eq h.plainTxn, hcalm, hplain, foldl_cellWrites]
    exact ⟨rfl, h.db, hseen.trans (foldl_cellWrites _ _), h.base, h.runs, h.plainTxn,
      congrArg (· || _) h.dirty, fun hclean ↦ h.kept (Bool.or_eq_false_iff.mp hclean).1,
      congrArg (· + _) h.count, h.rows⟩

lemma Beside.run (h : Beside before t plain) {stmts : List (Stmt K P)}
    (hmeets : GuardedRun.Meets Table.exec (fun t stmt ↦ stmt.Blind ∧ t.Calm stmt) t stmts) :
    Beside before (stmts.foldl Table.exec t) (stmts.foldl Table.exec plain) := by
  induction stmts generalizing t plain with
  | nil => exact h
  | cons stmt stmts ih => exact ih (h.exec hmeets.1.1 hmeets.1.2) hmeets.2

lemma Ok.buildRows_eq {t' : Table K P} (h : t.Ok) (h' : t'.Ok) (hdb : t.db = t'.db) :
    t.buildRows t.db.delta = t'.buildRows t'.db.delta := by
  obtain ⟨m, hentries, hfind⟩ := buildRows_spec (by rw [seen_eq h.txn]) h.db t.db.delta
  obtain ⟨m', hentries', hfind'⟩ := buildRows_spec (by rw [seen_eq h'.txn]) h'.db t'.db.delta
  rw [← hentries, ← hentries']
  refine congrArg entries (ext_find fun key ↦ ?_)
  rw [hfind, hfind', h.rowAt_eq, h'.rowAt_eq, hdb]

end Table

/-- A transaction whose statements start no flush and decide nothing by a scan leaves the rows that
the statements leave without it, and the rows from before when it is rolled back. -/
theorem transaction_as_statements (autoFlushRows : ℕ) (events : List (Event K P))
    (stmts : List (Stmt K P)) :
    let t := events.foldl step { autoFlushRows := autoFlushRows }
    let inside := stmts.foldl exec t.begin
    let plain := stmts.foldl exec t
    GuardedRun.Meets exec (fun t stmt ↦ stmt.Blind ∧ t.Calm stmt) t.begin stmts →
      inside.commit.buildRows inside.commit.db.delta = plain.buildRows plain.db.delta ∧
        inside.rollback.buildRows inside.rollback.db.delta = t.buildRows t.db.delta := by
  intro t inside plain hmeets
  have hholds := (Table.Holds.start autoFlushRows).run events
  have hbegin : Table.Beside t t.begin t :=
    ⟨rfl, rfl, rfl, rfl, rfl, hholds.ok.txn, rfl, id, rfl, rfl⟩
  have h := hbegin.run hmeets
  have hplain : plain.Ok := by
    have hrun := (hholds.run (stmts.map .stmt)).ok
    rwa [foldl_map] at hrun
  have hsound : inside.seen.Sound := h.seen ▸ hplain.db
  have hcommit : inside.commit.Ok ∧ inside.commit.db = plain.db := by
    rw [commit, commitWrites_eq rfl]
    exact ⟨⟨rfl, hsound, fun hclean ↦ (congrArg delta h.seen).trans
      (hplain.clean (h.dirty.symm.trans hclean))⟩, h.seen⟩
  have hrollback : inside.rollback.Ok := by
    refine ⟨rfl, ?_, fun hclean ↦ ?_⟩
    · exact (congrArg Sound h.db).mpr hholds.ok.db
    · exact (congrArg delta h.db).trans (hholds.ok.clean (h.kept hclean))
  exact ⟨hcommit.1.buildRows_eq hplain hcommit.2, hrollback.buildRows_eq hholds.ok h.db⟩

/-- Two rows in one transaction, with automatic flushes at three. -/
theorem transaction_as_statements_two :
    let insert (id row : ℕ) : Stmt ℕ ℕ := .insert (fun _ ↦ [(id, row)]) .error fun _ _ _ ↦ true
    let inside := [insert 1 7, insert 2 8].foldl exec (begin { autoFlushRows := 3 })
    inside.commit.buildRows inside.commit.db.delta = [(1, .delta, 7), (2, .delta, 8)] := by
  intro insert inside
  have h := (transaction_as_statements 3 [] [insert 1 7, insert 2 8] ⟨⟨⟨fun _ _ ↦ rfl,
    fun _ _ _ _ ↦ rfl⟩, fun cells hcells _ ↦ by cases hcells; decide⟩, ⟨⟨fun _ _ ↦ rfl,
    fun _ _ _ _ ↦ rfl⟩, fun cells hcells _ ↦ by cases hcells; decide⟩, trivial⟩).1
  exact h.trans (by decide +kernel)

/-- The flush that the insert starts finds nothing committed, and leaves the delta marked clean: the
row is committed and not found. -/
theorem committed_row_not_found :
    let stmts : List (Stmt ℕ ℕ) := [.insert (fun _ ↦ [(1, 7)]) .error fun _ _ _ ↦ true]
    let inside := (stmts.foldl exec (begin { autoFlushRows := 1 })).commit
    let plain := stmts.foldl exec { autoFlushRows := 1 }
    inside.buildRows inside.db.delta = [] ∧ plain.buildRows plain.db.delta = [(1, .base, 7)] := by
  decide +kernel

/-! ### Old versions -/

def Store.rows (s : Store K P) : List (K × P) :=
  (buildRows { db := s, deltaDirty := true } s.delta).map fun row ↦ (row.1, row.2.2)

def Table.selectAt (t : Table K P) (version : Store K P) : List (K × P) :=
  (t.buildRows version.delta).map fun row ↦ (row.1, row.2.2)

lemma map_entries_eq_iff {m m' : OrderedMap K (Origin × P)} :
    (m.entries.map fun row ↦ (row.1, row.2.2)) = (m'.entries.map fun row ↦ (row.1, row.2.2)) ↔
      ∀ key, (m.find key).map Prod.snd = (m'.find key).map Prod.snd := by
  refine ⟨fun heq key ↦ ?_, fun heq ↦ ?_⟩
  · rw [← find_mapValues, ← find_mapValues]
    exact congrArg (OrderedMap.find · key) (OrderedMap.entries_inj heq)
  · have hmap : m.mapValues Prod.snd = m'.mapValues Prod.snd := OrderedMap.ext_find fun key ↦ by
      rw [OrderedMap.find_mapValues, OrderedMap.find_mapValues, heq key]
    exact congrArg OrderedMap.entries hmap

namespace Table

variable {t : Table K P} {m : OrderedMap K P} {version : Store K P}

/-- The version `s'` is committed over `s`: a statement adds cells to the delta, and a flush empties
it and keeps the values. -/
def Follows (s s' : Store K P) : Prop :=
  ((∀ key, s'.settledRow key = s.settledRow key) ∧
    ∀ key, (s.delta.find key).isSome → (s'.delta.find key).isSome) ∨
  s'.delta = .empty ∧ ∀ key, s'.value key = s.value key

/-- The last cell for a key that was flushed in the versions behind one. -/
def flushedSince (key : K) : Store K P → List (Store K P) → Option (Option P)
  | _, [] => none
  | s, s' :: rest =>
    (flushedSince key s' rest).or (if s'.delta.entries.isEmpty then s.delta.find key else none)

lemma settledRow_of_follows {s db : Store K P} {rest : List (Store K P)}
    (h : (s :: rest).IsChain Follows) (hdb : (s :: rest).getLast (by simp) = db) (key : K) :
    (db.settledRow key).map Prod.snd =
        (flushedSince key s rest).getD ((s.settledRow key).map Prod.snd) ∧
      (flushedSince key s rest = none → (s.delta.find key).isSome →
        (db.delta.find key).isSome) := by
  induction rest generalizing s with
  | nil =>
    obtain rfl : s = db := hdb
    exact ⟨rfl, fun _ ↦ id⟩
  | cons s' rest ih =>
    obtain ⟨hfirst, hrest⟩ := isChain_cons_cons.mp h
    obtain ⟨hrow, hkeeps⟩ := ih hrest (by simpa using hdb)
    rw [flushedSince]
    cases hflushed : flushedSince key s' rest with
    | some cell => exact ⟨by simp [hrow, hflushed], by simp⟩
    | none =>
      rw [hflushed] at hrow
      rw [Option.none_or, hrow, Option.getD_none]
      rcases hfirst with ⟨hsame, hadds⟩ | ⟨hempty, hvalue⟩
      · rw [hsame]
        split_ifs with hdelta
        · -- nothing was in the delta of `s` either
          have hnone : s.delta.find key = none := by
            by_contra hsome
            have := hadds key (Option.isSome_iff_ne_none.mpr hsome)
            have hempty : s'.delta = .empty := entries_inj (isEmpty_iff.mp hdelta)
            rw [hempty] at this
            cases this
          exact ⟨by rw [hnone, Option.getD_none], by simp [hnone]⟩
        · exact ⟨rfl, fun _ hs ↦ hkeeps hflushed (hadds key hs)⟩
      · have hsettled : (s'.settledRow key).map Prod.snd = s.value key := by
          rw [← hvalue, value, Store.row, hempty, find_empty]
        rw [if_pos (by rw [hempty]; rfl), hsettled, value, Store.row]
        cases s.delta.find key with
        | none => exact ⟨rfl, by simp⟩
        | some cell => exact ⟨by cases cell <;> rfl, by simp⟩

/-- The versions are sound and follow one another up to the store of today. -/
structure Chained (t : Table K P) : Prop where
  sound : ∀ version ∈ t.versions, version.Sound
  chain : ({} :: t.versions).IsChain Follows
  last : ({} :: t.versions).getLast (by simp) = t.db

lemma Chained.commitWrites (h : t.Chained) (htxn : t.txn = none) {writes : List (Write K P)}
    (hsound : (writes.foldl apply t.db).Sound) (hdb : Follows t.db (writes.foldl apply t.db)) :
    (t.commitWrites writes).Chained := by
  rw [Table.commitWrites, htxn]
  cases writes with
  | nil => exact h
  | cons write writes =>
    refine ⟨forall_mem_append.mpr ⟨h.sound, forall_mem_singleton.mpr hsound⟩, ?_, by simp⟩
    show ((({} : Store K P) :: t.versions) ++ [_]).IsChain Follows
    refine h.chain.append (isChain_singleton _) fun x hx y hy ↦ ?_
    rw [getLast?_eq_some_getLast (by simp), h.last] at hx
    cases hx
    cases hy
    exact hdb

lemma Chained.flushColumnar (h : t.Chained) (hok : t.Ok) : t.flushColumnar.Chained := by
  obtain ⟨hflushed, hvalue⟩ := hok.flushColumnar
  rw [Table.flushColumnar] at hflushed hvalue ⊢
  split_ifs at hflushed hvalue ⊢ with hdirty
  · exact h
  have hdelta := hflushed.clean rfl
  have hsound := hflushed.db
  dsimp only at hdelta hsound hvalue
  rw [commitWrites_eq hok.txn] at hdelta hsound hvalue
  exact { h.commitWrites hok.txn hsound (.inr ⟨hdelta, hvalue⟩) with }

lemma follows_cellWrites (s : Store K P) (cells : List (K × Option P)) :
    Follows s ((cellWrites cells).foldl apply s) := by
  rw [foldl_cellWrites]
  refine .inl ⟨fun _ ↦ rfl, fun key hsome ↦ ?_⟩
  refine foldlRecOn cells _ (motive := fun delta : OrderedMap K (Option P) ↦
    (delta.find key).isSome) hsome fun delta hdelta cell _ ↦ ?_
  rw [find_insert]
  split_ifs
  · rfl
  · exact hdelta

lemma Chained.run (hchained : t.Chained) (h : t.Holds m) (events : List (Event K P)) :
    (events.foldl step t).Chained := by
  induction events generalizing t m with
  | nil => exact hchained
  | cons event events ih =>
    cases event with
    | flush => exact ih (hchained.flushColumnar h.ok) h.flushColumnar
    | stmt stmt =>
      refine ih ?_ (h.exec stmt)
      rw [step, Table.exec]
      cases hcells : t.cells stmt with
      | none => exact hchained
      | some cells =>
        have hnote := h.noteWrites cells
        have hdb := hnote.ok.db
        rw [commitWrites_eq h.ok.txn] at hdb
        have hkept : ((t.commitWrites (cellWrites cells)).noteWrites cells.length).Chained :=
          { hchained.commitWrites h.ok.txn hdb (follows_cellWrites t.db cells) with }
        dsimp only
        rw [maybeAutoFlush]
        split_ifs
        · exact hkept.flushColumnar hnote.ok
        · exact hkept

lemma Chained.settled_iff (h : t.Chained) (hok : t.Ok) {before after : List (Store K P)}
    (hversions : t.versions = before ++ version :: after) (key : K)
    (hguard : t.deltaDirty = false ∨ version.delta.find key = none) :
    (t.db.settledRow key).map Prod.snd = version.value key ↔
      ∀ cell ∈ flushedSince key version after, cell = version.value key := by
  have hchain := h.chain
  have hlast := h.last
  simp only [hversions, ← cons_append] at hchain hlast
  have hdb : (version :: after).getLast (by simp) = t.db := by
    rw [← hlast, getLast_append_of_ne_nil]
  obtain ⟨hsettled, hkeeps⟩ := settledRow_of_follows (isChain_append.mp hchain).2.1 hdb key
  rw [hsettled]
  cases hflushed : flushedSince key version after with
  | some cell => simp
  | none =>
    refine iff_of_true ?_ (by simp)
    have hnone : version.delta.find key = none := hguard.elim (fun hclean ↦ by
      by_contra hsome
      have hdelta := hkeeps hflushed (Option.isSome_iff_ne_none.mpr hsome)
      rw [hok.clean hclean] at hdelta
      cases hdelta) id
    rw [Option.getD_none, value, Store.row, hnone]

end Table

end Lockstep.Sql.Columnar
