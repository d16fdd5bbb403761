import CodeAtlas.Proofs.Json.Texts
import CodeAtlas.Proofs.Schema.Reading
import CodeAtlas.Schema.Stored
import Mathlib.Data.List.Basic
/-!
# The rows of a stored schema

A schema is kept in four sets of rows. A table has its name for key, a column and an index have their table and their
name, and the rows of columns and indexes point to the row of their table; a row that breaks this is refused. Rows have no
order of their own, so each carries its position. A well-formed schema can be written over any rows, and what is then read
is the stored form of it.
-/

namespace CodeAtlas.Schema

/-- Why a row is refused. -/
inductive Violation where
  /-- Another row has its key. -/
  | duplicate
  /-- The table it points to has no row. -/
  | dangling
deriving Repr, DecidableEq

def listCell (items : List String) : String := (Json.strings items).compact

def readCell? (cell : String) : Option (List String) :=
  match Json.parse? cell with
  | some (.arr items) => items.mapM Json.str?
  | _ => none

structure TableRow where
  name : String
  position : Nat
  primaryKey : String
  comment : Option String
deriving Repr, DecidableEq

structure ColumnRow where
  table : String
  position : Nat
  column : Column
deriving Repr, DecidableEq

structure IndexRow where
  table : String
  name : String
  position : Nat
  columns : String
  unique : Bool
  condition : Option String
  accessMethod : Option String
deriving Repr, DecidableEq

structure KeyRow where
  id : Nat
  key : ForeignKey
deriving Repr, DecidableEq

def Table.row (t : Table) (position : Nat) : TableRow := ⟨t.name, position, listCell t.primaryKey, t.comment⟩

def Index.row (i : Index) (position : Nat) : IndexRow :=
  ⟨i.table, i.name, position, listCell i.columns, i.unique, i.condition, i.accessMethod⟩

def IndexRow.read? (r : IndexRow) : Option Index :=
  (readCell? r.columns).map fun columns =>
    { name := r.name, table := r.table, columns, unique := r.unique, condition := r.condition
      accessMethod := r.accessMethod }

/-- The rows of a schema. Foreign keys are numbered, and no number is given twice. -/
structure Rows where
  tables : List TableRow := []
  columns : List ColumnRow := []
  indexes : List IndexRow := []
  keys : List KeyRow := []
  nextKey : Nat := 1
deriving Repr, DecidableEq

namespace Rows

def clear (rows : Rows) : Rows := { nextKey := rows.nextKey }

def holds (rows : Rows) (table : String) : Bool := rows.tables.any (·.name = table)

def insertTable (rows : Rows) (row : TableRow) : Except Violation Rows :=
  if rows.holds row.name then .error .duplicate else .ok { rows with tables := rows.tables ++ [row] }

def insertColumn (rows : Rows) (row : ColumnRow) : Except Violation Rows :=
  if rows.columns.any fun old => old.table = row.table && old.column.name = row.column.name then .error .duplicate
  else if rows.holds row.table then .ok { rows with columns := rows.columns ++ [row] }
  else .error .dangling

/-- Writes an index over the one with its table and name. -/
def putIndex (rows : Rows) (row : IndexRow) : Except Violation Rows :=
  if rows.holds row.table then
    .ok { rows with
      indexes := (rows.indexes.filter fun old => !(old.table = row.table && old.name = row.name)) ++ [row] }
  else .error .dangling

def insertKey (rows : Rows) (key : ForeignKey) : Rows :=
  { rows with keys := rows.keys ++ [⟨rows.nextKey, key⟩], nextKey := rows.nextKey + 1 }

def insertColumns (table : String) : Nat → List Column → Rows → Except Violation Rows
  | _, [], rows => .ok rows
  | position, column :: rest, rows => do
    let rows ← rows.insertColumn ⟨table, position, column⟩
    insertColumns table (position + 1) rest rows

/-- Writes tables, each with its columns, from a position on. -/
def insertTables : Nat → List Table → Rows → Except Violation Rows
  | _, [], rows => .ok rows
  | position, t :: rest, rows => do
    let rows ← rows.insertTable (t.row position)
    let rows ← insertColumns t.name 0 t.columns rows
    insertTables (position + 1) rest rows

/-- Writes the indexes on tables of the schema from a position on; others are passed over. -/
def putIndexes (s : Schema) : Nat → List Index → Rows → Except Violation Rows
  | _, [], rows => .ok rows
  | position, i :: rest, rows => do
    let rows ← if (s.table? i.table).isSome then rows.putIndex (i.row position) else .ok rows
    putIndexes s (position + 1) rest rows

/-- Writes a schema in the place of what the rows hold. -/
def replace (rows : Rows) (s : Schema) : Except Violation Rows := do
  let rows ← insertTables 0 s.tables rows.clear
  let rows ← putIndexes s 0 s.indexes rows
  return s.foreignKeys.foldl insertKey rows

def columnsOf (rows : Rows) (table : String) : List Column :=
  ((rows.columns.filter (·.table = table)).mergeSort (·.position ≤ ·.position)).map (·.column)

/-- The table of a name, if it has a row. A cell that holds no list is an error. -/
def readTable? (rows : Rows) (name : String) : Option (Option Table) :=
  match rows.tables.find? (·.name = name) with
  | none => some none
  | some head =>
    (readCell? head.primaryKey).map fun primaryKey =>
      some { name := head.name, primaryKey, comment := head.comment, columns := rows.columnsOf name }

/-- Reads the schema that the rows hold. -/
def load? (rows : Rows) : Option Schema := do
  let names := (rows.tables.mergeSort (·.position ≤ ·.position)).map (·.name)
  let tables ← names.mapM rows.readTable?
  let indexes ← (rows.indexes.mergeSort (·.position ≤ ·.position)).mapM IndexRow.read?
  return {
    tables := tables.filterMap id
    indexes
    foreignKeys := (rows.keys.mergeSort (·.id ≤ ·.id)).map (·.key) }

end Rows

/-! ## Cells -/

theorem mapM_eq_some_map {α β : Type} {f : α → Option β} {g : α → β} {l : List α} (h : ∀ a ∈ l, f a = some (g a)) :
    l.mapM f = some (l.map g) := by
  induction l with
  | nil => rfl
  | cons a rest ih =>
      rw [List.mapM_cons, h a List.mem_cons_self, ih fun b hb => h b (List.mem_cons_of_mem _ hb)]
      rfl

theorem readCell?_listCell (items : List String) : readCell? (listCell items) = some items := by
  have htexts : (items.map Json.str).mapM Json.str? = some items := by
    rw [List.mapM_map, mapM_eq_some_map (f := Json.str? ∘ Json.str) (g := id) fun _ _ => rfl, List.map_id]
  rw [readCell?, listCell, Json.parse?_compact_strings, Json.strings]
  exact htexts

theorem Index.read?_row (i : Index) (position : Nat) : (i.row position).read? = some i := by
  rw [IndexRow.read?, Index.row, readCell?_listCell]
  rfl

/-! ## Tables and columns -/

def Table.columnRows (t : Table) : List ColumnRow := t.columns.zipIdx.map fun (c, position) => ⟨t.name, position, c⟩

namespace Rows

variable {rows : Rows}

theorem holds_iff {table : String} : rows.holds table = true ↔ table ∈ rows.tables.map (·.name) := by
  simp [holds]

theorem insertTable_of_fresh {row : TableRow} (h : row.name ∉ rows.tables.map (·.name)) :
    rows.insertTable row = .ok { rows with tables := rows.tables ++ [row] } := by
  rw [insertTable, if_neg (mt holds_iff.1 h)]

theorem insertColumn_of_fresh {row : ColumnRow} (htable : row.table ∈ rows.tables.map (·.name))
    (h : (row.table, row.column.name) ∉ rows.columns.map fun old => (old.table, old.column.name)) :
    rows.insertColumn row = .ok { rows with columns := rows.columns ++ [row] } := by
  have hnone : ¬ (rows.columns.any fun old => old.table = row.table && old.column.name = row.column.name) = true := by
    intro hany
    obtain ⟨old, hold, hsame⟩ := List.any_eq_true.1 hany
    simp only [Bool.and_eq_true, decide_eq_true_eq] at hsame
    exact h (List.mem_map.2 ⟨old, hold, Prod.ext hsame.1 hsame.2⟩)
  rw [insertColumn, if_neg hnone, if_pos (holds_iff.2 htable)]

/-- The columns of a table that has a row are written when their names differ and none of them is there. -/
theorem insertColumns_of_fresh (rows : Rows) {table : String} (htable : table ∈ rows.tables.map (·.name)) {columns : List Column}
    (hnodup : (columns.map Column.name).Nodup)
    (hfresh : ∀ c ∈ columns, (table, c.name) ∉ rows.columns.map fun old => (old.table, old.column.name))
    (position : Nat) :
    insertColumns table position columns rows =
      .ok { rows with
        columns := rows.columns ++ (columns.zipIdx position).map fun (c, position) => ⟨table, position, c⟩ } := by
  induction columns generalizing rows position with
  | nil => simp [insertColumns]
  | cons c rest ih =>
      rw [List.map_cons, List.nodup_cons] at hnodup
      rw [insertColumns, insertColumn_of_fresh htable (hfresh c List.mem_cons_self)]
      change insertColumns table (position + 1) rest _ = _
      rw [ih _ (by exact htable) hnodup.2]
      · rw [List.zipIdx_cons, List.map_cons, List.append_assoc, List.singleton_append]
      · intro d hd hmem
        rw [List.map_append, List.mem_append] at hmem
        rcases hmem with hold | hlast
        · exact hfresh d (List.mem_cons_of_mem _ hd) hold
        · rw [List.map_singleton, List.mem_singleton] at hlast
          have hname : d.name = c.name := (Prod.ext_iff.1 hlast).2
          exact hnodup.1 (hname ▸ List.mem_map_of_mem hd)

theorem insertTables_of_fresh (rows : Rows) {tables : List Table}
    (hnodup : (rows.tables.map (·.name) ++ tables.map Table.name).Nodup)
    (hcolumns : ∀ t ∈ tables, (t.columns.map Column.name).Nodup)
    (hown : ∀ r ∈ rows.columns, r.table ∈ rows.tables.map (·.name)) (position : Nat) :
    insertTables position tables rows =
      .ok { rows with
        tables := rows.tables ++ (tables.zipIdx position).map fun (t, position) => t.row position
        columns := rows.columns ++ tables.flatMap Table.columnRows } := by
  induction tables generalizing rows position with
  | nil => simp [insertTables]
  | cons t rest ih =>
      have hfresh : t.name ∉ rows.tables.map (·.name) := by
        intro hmem
        exact (List.nodup_append.1 hnodup).2.2 _ hmem _ List.mem_cons_self rfl
      have hheld : t.name ∈ (rows.tables ++ [t.row position]).map (·.name) := by
        rw [List.map_append]
        exact List.mem_append_right _ (List.mem_singleton.2 rfl)
      have hnew : ∀ c ∈ t.columns, (t.name, c.name) ∉ rows.columns.map fun old => (old.table, old.column.name) := by
        intro c _ hmem
        obtain ⟨old, hold, heq⟩ := List.mem_map.1 hmem
        have htable : old.table = t.name := (Prod.ext_iff.1 heq).1
        exact hfresh (htable ▸ hown old hold)
      rw [insertTables, insertTable_of_fresh hfresh]
      change (insertColumns t.name 0 t.columns _).bind (insertTables (position + 1) rest) = _
      rw [insertColumns_of_fresh { rows with tables := rows.tables ++ [t.row position] } hheld
        (hcolumns t List.mem_cons_self) hnew]
      change insertTables (position + 1) rest _ = _
      rw [ih]
      · rw [List.zipIdx_cons, List.map_cons, List.flatMap_cons, List.append_assoc, List.append_assoc,
          List.singleton_append]
        rfl
      · rw [List.map_append, List.append_assoc]
        exact hnodup
      · exact fun u hu => hcolumns u (List.mem_cons_of_mem _ hu)
      · intro r hr
        rcases List.mem_append.1 hr with hold | hlast
        · rw [List.map_append]
          exact List.mem_append_left _ (hown r hold)
        · obtain ⟨x, _, hx⟩ := List.mem_map.1 hlast
          rw [← hx]
          exact hheld

/-! ## Indexes -/

end Rows

theorem lastIndexes_append_singleton (l : List Index) (i : Index) :
    lastIndexes (l ++ [i]) = ((lastIndexes l).filter fun j => !(j.table = i.table && j.name = i.name)) ++ [i] := by
  induction l with
  | nil => rfl
  | cons a rest ih =>
      by_cases hlater : (rest.any fun j => j.table = a.table && j.name = a.name) = true
      · have hany : ((rest ++ [i]).any fun j => j.table = a.table && j.name = a.name) = true := by
          rw [List.any_append, hlater, Bool.true_or]
        rw [List.cons_append, lastIndexes, lastIndexes, if_pos hlater, if_pos hany, ih]
      · have hany : ((rest ++ [i]).any fun j => j.table = a.table && j.name = a.name) =
            (a.table = i.table && a.name = i.name) := by
          rw [List.any_append, eq_false_of_ne_true hlater, Bool.false_or]
          simp [eq_comm]
        rw [List.cons_append, lastIndexes, lastIndexes, if_neg hlater, hany, List.filter_cons, ih]
        cases a.table = i.table && a.name = i.name <;> rfl

def indexRows (kept : List (Index × Nat)) : List IndexRow := kept.map fun (i, position) => i.row position

/-- The indexes that are kept of those met before a position, each with its own. -/
structure KeptIndexes (met : List Index) (position : Nat) (kept : List (Index × Nat)) : Prop where
  indexes : kept.map Prod.fst = lastIndexes met
  increasing : kept.Pairwise fun a b => a.2 < b.2
  before : ∀ x ∈ kept, x.2 < position

namespace KeptIndexes

variable {met : List Index} {position : Nat} {kept : List (Index × Nat)}

theorem empty : KeptIndexes [] 0 [] :=
  ⟨rfl, List.Pairwise.nil, fun _ hx => absurd hx List.not_mem_nil⟩

theorem skip (h : KeptIndexes met position kept) : KeptIndexes met (position + 1) kept :=
  ⟨h.indexes, h.increasing, fun x hx => Nat.lt_succ_of_lt (h.before x hx)⟩

theorem put (h : KeptIndexes met position kept) (i : Index) :
    KeptIndexes (met ++ [i]) (position + 1)
      ((kept.filter fun x => !(x.1.table = i.table && x.1.name = i.name)) ++ [(i, position)]) := by
  refine ⟨?_, ?_, ?_⟩
  · rw [lastIndexes_append_singleton, ← h.indexes, List.filter_map, List.map_append]
    rfl
  · refine List.pairwise_append.2 ⟨h.increasing.filter _, List.pairwise_singleton _ _, ?_⟩
    intro x hx y hy
    rw [List.mem_singleton.1 hy]
    exact h.before x (List.mem_of_mem_filter hx)
  · intro x hx
    rcases List.mem_append.1 hx with hold | hlast
    · exact Nat.lt_succ_of_lt (h.before x (List.mem_of_mem_filter hold))
    · rw [List.mem_singleton.1 hlast]
      exact Nat.lt_succ_self _

end KeptIndexes

namespace Rows

variable {rows : Rows}

theorem putIndex_of_held {met : List Index} {kept : List (Index × Nat)} {position : Nat}
    (hkept : KeptIndexes met position kept) (hrows : rows.indexes = indexRows kept) {i : Index}
    (hheld : rows.holds i.table = true) :
    ∃ kept', KeptIndexes (met ++ [i]) (position + 1) kept' ∧
      rows.putIndex (i.row position) = .ok { rows with indexes := indexRows kept' } := by
  refine ⟨_, hkept.put i, ?_⟩
  rw [putIndex, hrows, indexRows, List.filter_map, indexRows, List.map_append]
  exact if_pos hheld

/-- The indexes of a schema are written when its tables have rows. -/
theorem putIndexes_of_held (rows : Rows) {s : Schema}
    (hheld : ∀ name, (s.table? name).isSome = true → rows.holds name = true)
    {met : List Index} {kept : List (Index × Nat)} {position : Nat} (hkept : KeptIndexes met position kept)
    (hrows : rows.indexes = indexRows kept) (indexes : List Index) :
    ∃ kept' last, KeptIndexes (met ++ indexes.filter fun i => (s.table? i.table).isSome) last kept' ∧
      putIndexes s position indexes rows = .ok { rows with indexes := indexRows kept' } := by
  induction indexes generalizing rows met kept position with
  | nil =>
      refine ⟨kept, position, ?_, ?_⟩
      · rwa [List.filter_nil, List.append_nil]
      · rw [putIndexes, ← hrows]
  | cons i rest ih =>
      by_cases hknown : (s.table? i.table).isSome = true
      · obtain ⟨kept₁, hkept₁, hwrite⟩ := putIndex_of_held hkept hrows (hheld _ hknown)
        obtain ⟨kept₂, last, hkept₂, hwritten⟩ := ih { rows with indexes := indexRows kept₁ } hheld hkept₁ rfl
        refine ⟨kept₂, last, ?_, ?_⟩
        · rw [List.append_assoc, List.singleton_append] at hkept₂
          rwa [List.filter_cons, if_pos hknown]
        · rw [putIndexes, if_pos hknown, hwrite]
          exact hwritten
      · obtain ⟨kept₁, last, hkept₁, hwritten⟩ := ih rows hheld hkept.skip hrows
        refine ⟨kept₁, last, ?_, ?_⟩
        · rwa [List.filter_cons, if_neg hknown]
        · rw [putIndexes, if_neg hknown]
          exact hwritten

/-! ## Foreign keys -/

theorem foldl_insertKey (keys : List ForeignKey) :
    keys.foldl insertKey rows = { rows with
      keys := rows.keys ++ (keys.zipIdx rows.nextKey).map fun (key, id) => ⟨id, key⟩
      nextKey := rows.nextKey + keys.length } := by
  induction keys generalizing rows with
  | nil => simp
  | cons key rest ih =>
      rw [List.foldl_cons, ih, insertKey, List.zipIdx_cons, List.map_cons, List.length_cons]
      simp only [List.append_assoc, List.singleton_append, Rows.mk.injEq, true_and]
      omega

/-! ## Writing and reading -/

/-- What the rows hold after a schema was written. -/
structure Hold (rows : Rows) (s : Schema) : Prop where
  tables : rows.tables = s.tables.zipIdx.map fun (t, position) => t.row position
  columns : rows.columns = s.tables.flatMap Table.columnRows
  indexes : ∃ kept last, KeptIndexes (s.indexes.filter fun i => (s.table? i.table).isSome) last kept ∧
    rows.indexes = indexRows kept
  keys : ∃ first, rows.keys = (s.foreignKeys.zipIdx first).map fun (key, id) => ⟨id, key⟩

theorem map_name_rows (tables : List Table) :
    (tables.zipIdx.map fun (t, position) => t.row position).map TableRow.name = tables.map Table.name := by
  nth_rewrite 2 [← List.zipIdx_map_fst 0 tables]
  rw [List.map_map, List.map_map]
  rfl

/-- A schema whose tables and columns have different names can be written over any rows. -/
theorem replace_ok (rows : Rows) {s : Schema} (hnames : s.tableNames.Nodup)
    (hcolumns : ∀ t ∈ s.tables, (t.columns.map Column.name).Nodup) :
    ∃ rows', rows.replace s = .ok rows' ∧ rows'.Hold s := by
  obtain ⟨filled, hfilled, htables, hcols, hnone, hkeys⟩ : ∃ filled, insertTables 0 s.tables rows.clear = .ok filled ∧
      filled.tables = s.tables.zipIdx.map (fun (t, position) => t.row position) ∧
      filled.columns = s.tables.flatMap Table.columnRows ∧ filled.indexes = indexRows [] ∧ filled.keys = [] :=
    ⟨_, insertTables_of_fresh rows.clear hnames hcolumns (fun r hr => absurd hr List.not_mem_nil) 0,
      rfl, rfl, rfl, rfl⟩
  have hheld : ∀ name, (s.table? name).isSome = true → filled.holds name = true := by
    intro name hname
    rw [holds_iff, htables, map_name_rows]
    exact (table?_isSome_iff name).1 hname
  obtain ⟨kept, last, hkept, hindexes⟩ := putIndexes_of_held filled hheld KeptIndexes.empty hnone s.indexes
  refine ⟨s.foreignKeys.foldl insertKey { filled with indexes := indexRows kept }, ?_, ?_⟩
  · rw [replace, hfilled]
    change (putIndexes s 0 s.indexes filled).bind _ = _
    rw [hindexes]
    rfl
  · rw [foldl_insertKey, hkeys]
    exact ⟨htables, hcols, ⟨kept, last, hkept, rfl⟩, ⟨_, rfl⟩⟩

theorem mergeSort_position {α : Type} {position : α → Nat} {l : List α} (h : l.Pairwise fun a b => position a < position b) :
    l.mergeSort (position · ≤ position ·) = l :=
  List.mergeSort_of_pairwise (h.imp fun hlt => decide_eq_true (Nat.le_of_lt hlt))

theorem pairwise_zipIdx {α : Type} (l : List α) (first : Nat) : (l.zipIdx first).Pairwise fun a b => a.2 < b.2 := by
  induction l generalizing first with
  | nil => exact List.Pairwise.nil
  | cons a rest ih =>
      rw [List.zipIdx_cons]
      refine List.Pairwise.cons ?_ (ih (first + 1))
      intro x hx
      exact List.le_snd_of_mem_zipIdx hx

section

variable {s : Schema}

theorem table_of_mem_columnRows {t : Table} {r : ColumnRow} (h : r ∈ t.columnRows) : r.table = t.name := by
  obtain ⟨x, _, hx⟩ := List.mem_map.1 h
  rw [← hx]

theorem filter_columnRows {tables : List Table} (hnames : (tables.map Table.name).Nodup) {t : Table} (ht : t ∈ tables) :
    (tables.flatMap Table.columnRows).filter (·.table = t.name) = t.columnRows := by
  induction tables with
  | nil => exact absurd ht List.not_mem_nil
  | cons u rest ih =>
      rw [List.map_cons, List.nodup_cons] at hnames
      rw [List.flatMap_cons, List.filter_append]
      rcases List.mem_cons.1 ht with heq | hrest
      · have hown : (u.columnRows.filter fun r => r.table = t.name) = t.columnRows := by
          rw [← heq]
          exact List.filter_eq_self.2 fun r hr => decide_eq_true (table_of_mem_columnRows hr)
        have hothers : ((rest.flatMap Table.columnRows).filter fun r => r.table = t.name) = [] := by
          refine List.filter_eq_nil_iff.2 ?_
          intro r hr htable
          obtain ⟨v, hv, hmem⟩ := List.mem_flatMap.1 hr
          rw [table_of_mem_columnRows hmem, decide_eq_true_eq, heq] at htable
          exact hnames.1 (htable ▸ List.mem_map_of_mem hv)
        rw [hown, hothers, List.append_nil]
      · have hother : (u.columnRows.filter fun r => r.table = t.name) = [] := by
          refine List.filter_eq_nil_iff.2 ?_
          intro r hr htable
          rw [table_of_mem_columnRows hr, decide_eq_true_eq] at htable
          exact hnames.1 (htable ▸ List.mem_map_of_mem hrest)
        rw [hother, List.nil_append]
        exact ih hnames.2 hrest

theorem Hold.columnsOf (h : rows.Hold s) (hnames : s.tableNames.Nodup) {t : Table} (ht : t ∈ s.tables) :
    rows.columnsOf t.name = t.columns := by
  have hsorted : t.columnRows.Pairwise fun a b => a.position < b.position :=
    List.pairwise_map.2 (pairwise_zipIdx t.columns 0)
  rw [Rows.columnsOf, h.columns, filter_columnRows hnames ht, mergeSort_position hsorted, Table.columnRows,
    List.map_map]
  exact List.zipIdx_map_fst 0 t.columns

theorem Hold.readTable? (h : rows.Hold s) (hnames : s.tableNames.Nodup) {t : Table} (ht : t ∈ s.tables) :
    rows.readTable? t.name = some (some t) := by
  obtain ⟨position, hfind⟩ : ∃ position, rows.tables.find? (·.name = t.name) = some (t.row position) := by
    rw [h.tables, List.find?_map]
    have hthere : (s.tables.zipIdx.find? fun x => x.1.name = t.name).isSome = true := by
      rw [← List.zipIdx_map_fst 0 s.tables] at ht
      obtain ⟨x, hx, heq⟩ := List.mem_map.1 ht
      exact List.find?_isSome.2 ⟨x, hx, decide_eq_true (congrArg Table.name heq)⟩
    obtain ⟨x, hx⟩ := Option.isSome_iff_exists.1 hthere
    have hmem : x.1 ∈ s.tables := List.fst_mem_of_mem_zipIdx (List.mem_of_find?_eq_some hx)
    have hname : x.1.name = t.name := by simpa using List.find?_some hx
    have heq : x.1 = t := List.inj_on_of_nodup_map hnames hmem ht hname
    refine ⟨x.2, ?_⟩
    change (s.tables.zipIdx.find? fun x => x.1.name = t.name).map _ = _
    rw [hx, ← heq]
    rfl
  rw [Rows.readTable?, hfind]
  change (readCell? (listCell t.primaryKey)).map _ = _
  rw [readCell?_listCell, h.columnsOf hnames ht]
  rfl

theorem Hold.load? (h : rows.Hold s) (hnames : s.tableNames.Nodup) : rows.load? = some s.stored := by
  have hsorted : rows.tables.Pairwise fun a b => a.position < b.position := by
    rw [h.tables]
    exact List.pairwise_map.2 (pairwise_zipIdx s.tables 0)
  have htables : (rows.tables.map (·.name)).mapM rows.readTable? = some (s.tables.map some) := by
    rw [h.tables, map_name_rows, List.mapM_map]
    exact mapM_eq_some_map fun t ht => h.readTable? hnames ht
  obtain ⟨kept, last, hkept, hindexes⟩ := h.indexes
  have hincreasing : rows.indexes.Pairwise fun a b => a.position < b.position := by
    rw [hindexes]
    exact List.pairwise_map.2 hkept.increasing
  have hread : rows.indexes.mapM IndexRow.read? =
      some (lastIndexes (s.indexes.filter fun i => (s.table? i.table).isSome)) := by
    rw [hindexes, indexRows, List.mapM_map, ← hkept.indexes]
    exact mapM_eq_some_map fun x _ => x.1.read?_row x.2
  obtain ⟨first, hkeys⟩ := h.keys
  have hordered : rows.keys.Pairwise fun a b => a.id < b.id := by
    rw [hkeys]
    exact List.pairwise_map.2 (pairwise_zipIdx s.foreignKeys first)
  have hforeign : rows.keys.map (·.key) = s.foreignKeys := by
    rw [hkeys, List.map_map]
    exact List.zipIdx_map_fst first s.foreignKeys
  have hfilter : (s.tables.map some).filterMap id = s.tables := by
    rw [List.filterMap_map]
    exact List.filterMap_some
  rw [Rows.load?, mergeSort_position hsorted, mergeSort_position hincreasing, mergeSort_position hordered]
  rw [htables, hread, hforeign]
  change some _ = _
  rw [hfilter]
  rfl

end

end Rows

/-- Whatever a schema's text is, the schema read of it is well-formed; it can be written over any rows, and these are
then read as its stored form: all its tables and foreign keys, and the last index of each table and name. -/
theorem load_replace_ofSource (source : String) (rows : Rows) :
    (ofSource source).WellFormed ∧
      ∃ rows', rows.replace (ofSource source) = .ok rows' ∧ rows'.load? = some (ofSource source).stored ∧
        (ofSource source).stored = {
          tables := (ofSource source).tables
          indexes := lastIndexes (ofSource source).indexes
          foreignKeys := (ofSource source).foreignKeys } := by
  have hwell := wellFormed_ofSource source
  obtain ⟨rows', hreplace, hhold⟩ := rows.replace_ok hwell.names fun t ht => (hwell.tables t ht).columns
  have hall : ((ofSource source).indexes.filter fun i => ((ofSource source).table? i.table).isSome) =
      (ofSource source).indexes :=
    List.filter_eq_self.2 fun i hi => (table?_isSome_iff _).2 (hwell.indexes i hi)
  refine ⟨hwell, rows', hreplace, hhold.load? hwell.names, ?_⟩
  rw [stored, hall]

end CodeAtlas.Schema
