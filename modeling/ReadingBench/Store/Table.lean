import ReadingBench.Sql.Error
import ReadingBench.Sql.Literal
import Std.Data.TreeMap

namespace ReadingBench.Store

open Sql

/-- A stored row: one value per column of its table, in the table's order. -/
abbrev Tuple := List Value

structure TableSpec where
  table : TableRef
  columns : List String
  uniqueKeys : List (List String) := []

abbrev Index := Std.TreeMap String Nat

/-- Beside its rows a table keeps one index per unique key, from the encoded key of a row to the row's
position; a row with NULL in a key has no entry there. Operations that fail give no table, so their caller
keeps the one it has. -/
structure Table where
  spec : TableSpec
  rows : Array Tuple
  indexes : List Index

namespace TableSpec

def position (spec : TableSpec) (column : String) : Except Error Nat :=
  match spec.columns.idxOf? column with
  | some i => .ok i
  | none => .error (.unknownColumn column spec.table.key)

/-- The literals of a key's columns, or `none` at the first NULL. -/
def keyParts (spec : TableSpec) (row : Tuple) : List String → Except Error (Option (List String))
  | [] => return some []
  | column :: key => do
    match row.getD (← spec.position column) .null with
    | .null => return none
    | value => return (← spec.keyParts row key).map (value.literal :: ·)

/-- The encoded key of a row: its literals with a separator between them. -/
def keyOf (spec : TableSpec) (row : Tuple) (key : List String) : Except Error (Option String) := do
  return (← spec.keyParts row key).map "\x1f".intercalate

def keysOf (spec : TableSpec) (row : Tuple) : Except Error (List (Option String)) :=
  spec.uniqueKeys.mapM (spec.keyOf row)

/-- A row of the table's width that takes the given columns and is NULL elsewhere. A column that is
named twice takes the later value. -/
def fullRow (spec : TableSpec) (columns : List String) (values : List Value) : Except Error Tuple :=
  (columns.zip values).foldlM
    (fun row (column, value) => return row.set (← spec.position column) value)
    (List.replicate spec.columns.length .null)

end TableSpec

namespace Index

/-- Points the key of a row at its position. -/
def enter (pos : Nat) (key : Option String) (index : Index) : Index :=
  match key with
  | some key => index.insert key pos
  | none => index

/-- Follows a row whose key has changed. An entry under the old key goes only if it is the row's own;
one that another row has under the new key is taken over. -/
def move (pos : Nat) (old new : Option String) (index : Index) : Index :=
  if new = old then index
  else
    let index := match old with
      | some key => if index[key]? = some pos then index.erase key else index
      | none => index
    Index.enter pos new index

end Index

/-- The column of an upsert's stamp and the time of the statement. -/
structure Stamp where
  column : Nat
  now : Value

/-- What became of one tuple of an insert. -/
inductive Applied where
  | inserted
  | updated
  | unchanged
  | skipped

/-- An updated row counts twice. -/
def Applied.affected : Applied → Nat
  | inserted => 1
  | updated => 2
  | unchanged | skipped => 0

namespace Table

def empty (spec : TableSpec) : Table := ⟨spec, #[], spec.uniqueKeys.map fun _ => ∅⟩

/-- The position of the row that holds the first taken key, in the order of the keys. -/
def holder (spec : TableSpec) (row : Tuple) :
    List (List String × Index) → Except Error (Option Nat)
  | [] => return none
  | (key, index) :: rest => do
    match (← spec.keyOf row key).bind (index[·]?) with
    | some pos => return some pos
    | none => holder spec row rest

def conflict (t : Table) (row : Tuple) : Except Error (Option Nat) :=
  holder t.spec row (t.spec.uniqueKeys.zip t.indexes)

/-- Appends a row whose keys are free. -/
def append (t : Table) (row : Tuple) : Except Error Table := do
  let keys ← t.spec.keysOf row
  let indexes := List.zipWith (Index.enter t.rows.size) keys t.indexes
  return { t with rows := t.rows.push row, indexes }

/-- Takes the values of the target columns from `source`. -/
def overwrite (source : Tuple) (targets : List Nat) (row : Tuple) : Tuple :=
  targets.foldl (fun row i =>
    if row.getD i .null != source.getD i .null then row.set i (source.getD i .null) else row) row

/-- Updates the row at `pos` from `source`. -/
def update (t : Table) (pos : Nat) (source : Tuple) (columns : List String) (stamp : Option Stamp) :
    Except Error (Table × Applied) := do
  let old := t.rows.getD pos []
  let before ← t.spec.keysOf old
  let targets := (← columns.mapM t.spec.position) ++ (stamp.map (·.column)).toList
  if targets.any fun i => old.getD i .null != source.getD i .null then
    let row := overwrite source targets old
    let after ← t.spec.keysOf row
    let indexes := List.zipWith (fun (old, new) index => Index.move pos old new index)
      (before.zip after) t.indexes
    return ({ t with rows := t.rows.setIfInBounds pos row, indexes }, .updated)
  else return (t, .unchanged)

/-- The stamp column takes the time where it would be NULL. -/
def stamped (stamp : Option Stamp) (row : Tuple) : Tuple :=
  match stamp with
  | some { column, now } => if (row.getD column .null).isNull then row.set column now else row
  | none => row

/-- Applies one tuple of an insert. -/
def apply (t : Table) (columns : List String) (onConflict : OnConflict) (stamp : Option Stamp)
    (values : List Value) : Except Error (Table × Applied) := do
  let row := stamped stamp (← t.spec.fullRow columns values)
  match ← t.conflict row, onConflict with
  | none, _ => return (← t.append row, .inserted)
  | some _, .fail => throw (.duplicateEntry t.spec.table.key)
  | some _, .ignore => return (t, .skipped)
  | some pos, .update targets => t.update pos row targets stamp

/-- Applies tuples in order; gives the affected count. -/
def applyAll (t : Table) (columns : List String) (onConflict : OnConflict) (stamp : Option Stamp)
    (rows : List (List Value)) : Except Error (Table × Nat) :=
  rows.foldlM (fun (t, affected) values => do
    let (t, applied) ← t.apply columns onConflict stamp values
    return (t, affected + applied.affected)) (t, 0)

def insert (t : Table) (now : DateTime) (s : Insert) : Except Error (Table × Nat) := do
  let stamp ← s.stamp.mapM fun column => return ⟨← t.spec.position column, .dateTime now⟩
  t.applyAll s.columns s.onConflict stamp s.rows

/-- Enters rows from position `pos` on. -/
def indexFrom (spec : TableSpec) : Nat → List Tuple → List Index → Except Error (List Index)
  | _, [], indexes => return indexes
  | pos, row :: rows, indexes => do
    let keys ← spec.keysOf row
    indexFrom spec (pos + 1) rows (List.zipWith (Index.enter pos) keys indexes)

/-- The rows without the first `count`, with the indexes as they were. -/
def dropFirst (t : Table) (count : Nat) : Table := { t with rows := t.rows.extract count t.rows.size }

/-- The same rows with indexes made anew. -/
def reindex (t : Table) : Except Error Table := do
  let indexes ← indexFrom t.spec 0 t.rows.toList (t.spec.uniqueKeys.map fun _ => ∅)
  return { t with indexes }

/-- The named columns of the rows that pass the filter. -/
def select (t : Table) (s : Select) : Except Error (List Row) := do
  let positions ← s.columns.mapM t.spec.position
  let filter ← s.filter.mapM fun (column, value) => return (← t.spec.position column, value)
  let chosen := t.rows.filter fun row => filter.all fun (i, value) => row.getD i .null == value
  return chosen.toList.map fun row => ⟨s.columns, positions.map fun i => row.getD i .null⟩

end Table
end ReadingBench.Store
