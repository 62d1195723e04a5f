import ReadingBench.Chunk
import ReadingBench.Sql.Value
import ReadingBench.Text.Quoted

namespace ReadingBench.Sql

/-- An identifier between back-quotes, so that any text can be one. -/
def quoteIdent (name : String) : String := String.ofList (Text.quote '`' name.toList)

def quoteIdents (names : List String) : String := ", ".intercalate (names.map quoteIdent)

/-- A table, in a keyspace or not. -/
structure TableRef where
  keyspace : Option String
  name : String
  deriving DecidableEq

namespace TableRef

/-- The name by which a store keeps the table: `keyspace.name`, or `name` alone. -/
def key (t : TableRef) : String :=
  match t.keyspace with
  | some keyspace => keyspace ++ "." ++ t.name
  | none => t.name

def sql (t : TableRef) : String :=
  match t.keyspace with
  | some keyspace => quoteIdent keyspace ++ "." ++ quoteIdent t.name
  | none => quoteIdent t.name

end TableRef

/-- Fetches columns of all rows, or of the rows where the filter's column has the filter's value. -/
structure Select where
  table : TableRef
  columns : List String
  filter : Option (String × Value) := none

namespace Select

def sql (s : Select) : String :=
  let text := "SELECT " ++ quoteIdents s.columns ++ " FROM " ++ s.table.sql
  match s.filter with
  | some (column, _) => text ++ " WHERE " ++ quoteIdent column ++ " = ?"
  | none => text

def params (s : Select) : List Value := (s.filter.map (·.2)).toList

end Select

/-- What becomes of a tuple whose unique key is taken. -/
inductive OnConflict where
  /-- The statement fails. -/
  | fail
  /-- The tuple is dropped. -/
  | ignore
  /-- The row that holds the key takes these columns from the tuple. -/
  | update (columns : List String)
  deriving DecidableEq

/-- The most `?` that one prepared statement may have. -/
def maxPlaceholders : Nat := 65535

structure Insert where
  table : TableRef
  columns : List String
  rows : List (List Value)
  onConflict : OnConflict := .fail
  /-- The column that holds the time of a row's last change. -/
  stamp : Option String := none

namespace Insert

def isEmpty (s : Insert) : Bool := s.rows.isEmpty

/-- How many rows stay within `maxPlaceholders`; at least one. -/
def rowsPerStatement (s : Insert) : Nat := max (maxPlaceholders / max s.columns.length 1) 1

/-- The rows in groups that fit into one statement each. -/
def statementChunks (s : Insert) : List (List (List Value)) := chunks s.rowsPerStatement s.rows

/-- `(?, ?)`. -/
def placeholders (s : Insert) : String :=
  "(" ++ ", ".intercalate (List.replicate s.columns.length "?") ++ ")"

/-- The assignments of an upsert; the stamp takes part in no other insert. -/
def assignments (s : Insert) : List String :=
  match s.onConflict with
  | .update columns =>
    columns.map (fun c => quoteIdent c ++ " = VALUES(" ++ quoteIdent c ++ ")") ++
      (s.stamp.map fun c => quoteIdent c ++ " = CURRENT_TIMESTAMP").toList
  | _ => []

def verb (s : Insert) : String :=
  match s.onConflict with
  | .ignore => "INSERT IGNORE INTO"
  | _ => "INSERT INTO"

def updateClause (s : Insert) : String :=
  match s.onConflict with
  | .update _ => " ON DUPLICATE KEY UPDATE " ++ ", ".intercalate s.assignments
  | _ => ""

/-- The statement for `rows` tuples. -/
def sqlFor (s : Insert) (rows : Nat) : String :=
  s.verb ++ " " ++ s.table.sql ++ " (" ++ quoteIdents s.columns ++ ") VALUES " ++
    ", ".intercalate (List.replicate rows s.placeholders) ++ s.updateClause

def sql (s : Insert) : String := s.sqlFor s.rows.length

end Insert

/-- Removes all rows, or the first `limit`. -/
structure Delete where
  table : TableRef
  limit : Option Nat := none

namespace Delete

def sql (s : Delete) : String :=
  match s.limit with
  | some limit => "DELETE FROM " ++ s.table.sql ++ " LIMIT " ++ String.ofList (Decimal.digits limit)
  | none => "DELETE FROM " ++ s.table.sql

end Delete
end ReadingBench.Sql
