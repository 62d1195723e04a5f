import ReadingBench.Sql.Reading
import ReadingBench.Store.Table

namespace ReadingBench.Store

open Sql

/-- A statement is logged first, then takes a failure from the queue if there is one, and only then does its
work. -/
structure Server where
  tables : Std.TreeMap String Table
  log : Array String
  commits : Nat
  /-- Failures for the next statements, in order. -/
  failures : List Error
  /-- Sessions opened and not yet closed. -/
  openSessions : Nat
  /-- For each session whether it has been closed. The root's session comes first. -/
  closed : Array Bool
  /-- The clock's reading at each statement, by its place in the log. -/
  clock : Nat → DateTime

/-- A statement at work. It changes the server also where it fails. -/
abbrev Action (α : Type) := ExceptT Error (StateM Server) α

/-- A session, by its place among all that were opened. -/
structure Session where
  number : Nat
  deriving DecidableEq

namespace Server

def define (server : Server) (spec : TableSpec) : Server :=
  { server with tables := server.tables.insert spec.table.key (.empty spec) }

/-- A server with the given tables and nothing but its root session. -/
def ofSpecs (clock : Nat → DateTime) (specs : List TableSpec) : Server :=
  specs.foldl define
    { tables := ∅, log := #[], commits := 0, failures := [], openSessions := 0, closed := #[false], clock }

def table? (server : Server) (table : TableRef) : Option Table := server.tables[table.key]?

def rowCount (server : Server) (table : TableRef) : Nat :=
  ((server.table? table).map (·.rows.size)).getD 0

/-- All rows of a table with all its columns. -/
def rows (server : Server) (table : TableRef) : Except Error (List Row) :=
  match server.table? table with
  | some t => .ok (t.rows.toList.map fun row => ⟨t.spec.columns, row⟩)
  | none => .error (.unknownTable table.key)

/-- Makes the next statement that has no failure waiting for it fail. -/
def failNext (server : Server) (e : Error) : Server :=
  { server with failures := server.failures ++ [e] }

end Server

namespace Action

/-- Logs a statement and takes the failure that waits for it. -/
def begin (sql : String) : Action Unit := do
  modify fun server => { server with log := server.log.push sql }
  match (← get).failures with
  | [] => return
  | e :: rest =>
    modify fun server => { server with failures := rest }
    throw e

def table (ref : TableRef) : Action Table := do
  match (← get).table? ref with
  | some t => return t
  | none => throw (.unknownTable ref.key)

def setTable (ref : TableRef) (t : Table) : Action Unit :=
  modify fun server => { server with tables := server.tables.insert ref.key t }

def select (s : Select) : Action (List Row) := do
  begin s.sql
  let t ← table s.table
  t.select s

/-- The table stays as it is unless every tuple goes in. -/
def applyInsert (s : Insert) : Action Nat := do
  let t ← table s.table
  let server ← get
  let (t, affected) ← t.insert (server.clock server.log.size) s
  setTable s.table t
  return affected

def insert (s : Insert) : Action Nat := do
  begin s.sql
  applyInsert s

/-- Removes rows from the front and then makes the indexes anew. -/
def delete (s : Delete) : Action Nat := do
  begin s.sql
  let t ← table s.table
  let count := min (s.limit.getD t.rows.size) t.rows.size
  let t := t.dropFirst count
  setTable s.table t
  setTable s.table (← t.reindex)
  return count

/-- The first word of a statement in capitals. -/
def verb (cs : List Char) : String :=
  String.ofList ((cs.takeWhile (¬Text.isBlank ·)).map Char.toUpper)

/-- Executes text: inserts, and settings and transaction control, which have no effect here. -/
def execute (sql : String) : Action Nat := do
  begin sql
  let head := Text.skipBlank sql.toList
  match verb head with
  | "INSERT" =>
    match InsertText.read (String.ofList head) with
    | .ok { ignore, table, columns, rows } =>
      applyInsert { table, columns, rows, onConflict := if ignore then .ignore else .fail }
    | .error e => throw (.parse e.message)
  | "SET" | "COMMIT" | "ROLLBACK" | "BEGIN" => return 0
  | verb => throw (.unsupported verb)

def commit : Action Unit := do
  begin "COMMIT"
  modify fun server => { server with commits := server.commits + 1 }

end Action

namespace Session

/-- The session of the client that made the server. It is not among the counted ones. -/
def root : Session := ⟨0⟩

def isClosed (s : Session) (server : Server) : Bool := server.closed.getD s.number true

/-- Opens another session over the same tables. -/
def openNew (server : Server) : Session × Server :=
  (⟨server.closed.size⟩,
    { server with openSessions := server.openSessions + 1, closed := server.closed.push false })

/-- The first step of closing: sets the flag, and says whether this call was the one to set it. -/
def shut (s : Session) (server : Server) : Bool × Server :=
  (!s.isClosed server, { server with closed := server.closed.setIfInBounds s.number true })

/-- The second step of closing, for the call that set the flag: lowers the count. -/
def release (s : Session) (server : Server) : Server :=
  if s = root then server else { server with openSessions := server.openSessions - 1 }

def close (s : Session) (server : Server) : Server :=
  match s.shut server with
  | (true, server) => s.release server
  | (false, server) => server

/-- Runs a statement unless the session is closed. -/
def run {α : Type} (s : Session) (action : Action α) : Action α := do
  if s.isClosed (← get) then throw .sessionClosed
  action

def select (s : Session) (statement : Select) : Action (List Row) := s.run (.select statement)

def insert (s : Session) (statement : Insert) : Action Nat := s.run (.insert statement)

def delete (s : Session) (statement : Delete) : Action Nat := s.run (.delete statement)

def execute (s : Session) (sql : String) : Action Nat := s.run (.execute sql)

def commit (s : Session) : Action Unit := s.run .commit

end Session
end ReadingBench.Store
