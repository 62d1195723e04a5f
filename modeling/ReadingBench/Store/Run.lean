import ReadingBench.RunError
import ReadingBench.Schema
import ReadingBench.Store.Server

namespace ReadingBench.Store

open Sql

/-- A longer piece of work on a server, made of statements. Where it stops, the server is as the last
statement left it. -/
abbrev Run (α : Type) := ExceptT Halt (StateM Server) α

/-- Whether a run came back: with a result or with an error, and not because a value left its range, which
ends the whole program. -/
def Returned {α : Type} : Except Halt α → Prop
  | .ok _ => True
  | .error (.failed _) => True
  | .error .outOfRange => False
  | .error .unfinished => False

instance {α : Type} : (result : Except Halt α) → Decidable (Returned result)
  | .ok _ => .isTrue trivial
  | .error (.failed _) => .isTrue trivial
  | .error .outOfRange => .isFalse id
  | .error .unfinished => .isFalse id

/-- The sessions that work has open, with the keyspaces they are for, in the order of their opening. -/
abbrev OpenSessions := List (Keyspace × Session)

def OpenSessions.closeAll (sessions : OpenSessions) (server : Server) : Server :=
  sessions.foldl (fun server entry => entry.2.close server) server

/-- Work that keeps a list of its sessions. Where it stops, those that it has left open are on the list. -/
abbrev Opening (α : Type) := ExceptT Halt (StateT OpenSessions (StateM Server)) α

namespace Opening

/-- Work that opens no session and closes none. -/
def ofRun {α : Type} (work : Run α) : Opening α := fun sessions server =>
  let (result, server) := work server
  ((result, sessions), server)

/-- Opens a session for a keyspace. -/
def session (keyspace : Keyspace) : Opening Session := fun sessions server =>
  let (session, server) := Session.openNew server
  ((.ok session, sessions ++ [(keyspace, session)]), server)

/-- Closes the first session for a keyspace before the work has come to its end. -/
def close (keyspace : Keyspace) : Opening Unit := fun sessions server =>
  match sessions.find? (·.1 = keyspace) with
  | some entry => ((.ok (), sessions.eraseP (·.1 = keyspace)), entry.2.close server)
  | none => ((.ok (), sessions), server)

end Opening

namespace Run

variable {α : Type}

/-- A statement as part of a run, which ends where the statement fails. -/
def ofAction (action : Action α) : Run α := fun server =>
  match action server with
  | (.ok a, server) => (.ok a, server)
  | (.error e, server) => (.error (.failed (.sql e)), server)

def ofExcept (result : Except RunError α) : Run α :=
  match result with
  | .ok a => pure a
  | .error e => throw (.failed e)

/-- Work with sessions of its own. Those that are still open when it comes back are closed, whether it has
failed or not. -/
def withSessions (work : Opening α) : Run α := fun server =>
  let ((result, sessions), server) := work [] server
  (result, if Returned result then sessions.closeAll server else server)

end Run
end ReadingBench.Store

namespace ReadingBench.Sql

/-- The text in a column that has to hold text. -/
def Row.requireText (row : Row) (keyspace : Keyspace) (column : String) : Except RunError String :=
  match row.getText? column with
  | some s => .ok s
  | none => .error (.missingColumn keyspace.table.key column)

end ReadingBench.Sql
