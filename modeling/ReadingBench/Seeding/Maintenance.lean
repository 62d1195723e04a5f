import ReadingBench.Config.Basic
import ReadingBench.Store.Run

namespace ReadingBench.Seeding

open Sql Store

def bulkSettings : List String := ["SET unique_checks = 0", "SET foreign_key_checks = 0"]

def restoringSettings : List String := ["SET unique_checks = 1", "SET foreign_key_checks = 1"]

/-- Makes backslashes in literals stand for themselves. -/
def noBackslashEscapes : String :=
  "SET SESSION sql_mode = CONCAT(@@sql_mode, ',NO_BACKSLASH_ESCAPES')"

/-- Applies settings one by one and gives the number of those that were accepted. A server need not
know them, so a refusal is passed over. -/
def applySettings (session : Session) : List String → StateM Server Nat
  | [] => return 0
  | setting :: rest => do
    match ← session.execute setting with
    | .ok _ => return (← applySettings session rest) + 1
    | .error _ => applySettings session rest

/-- Prepares a session for a bulk load, with values in the statements' text or not. -/
def optimize (session : Session) (rawText : Bool) : StateM Server Unit := do
  let _ ← applySettings session bulkSettings
  if rawText then
    let _ ← applySettings session [noBackslashEscapes]

def restore (session : Session) : StateM Server Unit := do
  let _ ← applySettings session restoringSettings

/-- Tries an action again, up to `more` times, as long as it fails with a transient error. -/
def retrying {α : Type} (action : Action α) : Nat → Action α
  | 0 => action
  | more + 1 => tryCatch action fun e => if e.isTransient then retrying action more else throw e

/-- Rows that are removed by one statement. -/
def truncateChunk : Nat := 1000

/-- Removes the first rows of a table and commits. -/
def deleteChunk (session : Session) (table : TableRef) : Action Nat := do
  let count ← session.delete { table, limit := some truncateChunk }
  session.commit
  return count

/-- Removes chunks until one is empty, at most `most`. -/
def deleteChunks (session : Session) (table : TableRef) (policy : RetryPolicy) : Nat → Action Nat
  | 0 => return 0
  | most + 1 => do
    let count ← retrying (deleteChunk session table) (policy.maxAttempts.toNat - 1)
    if count = 0 then return 0
    else return count + (← deleteChunks session table policy most)

/-- Empties a table and gives the number of rows it had. Every chunk but the last holds a row, so the
rows bound their number. -/
def truncate (session : Session) (table : TableRef) (policy : RetryPolicy) : Run Nat := do
  let most := (← get).rowCount table + 1
  Run.ofAction (deleteChunks session table policy most)

end ReadingBench.Seeding
