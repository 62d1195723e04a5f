import ReadingBench.Config.Basic
import ReadingBench.Seeding.Batch
import ReadingBench.Seeding.Maintenance

namespace ReadingBench

open Sql Store

namespace Seeding

def insertUsers (session : Session) (batch : List User) : Run Nat :=
  if batch.isEmpty then return 0
  else Run.ofAction <| session.insert
    { table := Keyspace.user.table, columns := Keyspace.user.columns, rows := batch.map User.toRow }

def insertArticles (session : Session) (batch : List Article) : Run Nat :=
  if batch.isEmpty then return 0
  else Run.ofAction <| session.insert
    { table := Keyspace.article.table, columns := Keyspace.article.columns
      rows := batch.map Article.toRow }

def insertReads (session : Session) (batch : List Read) : Run Nat :=
  match (Read.rawInsert batch).sql? with
  | some sql => Run.ofAction (session.execute sql)
  | none => return 0

/-- Inserts a batch and commits. Gives the affected count of the insert. -/
def flush {ρ : Type} (insert : Session → List ρ → Run Nat) (session : Session) (batch : List ρ) :
    Run Nat := do
  let affected ← insert session batch
  Run.ofAction session.commit
  return affected

/-- What loading one table came to. -/
structure Loaded (σ : Type) where
  batches : Nat
  truncated : Nat
  source : Batches σ

/-- Loads all records of a source, after emptying the table if asked to. -/
def loadTable {σ ρ : Type} (session : Session) (table : TableRef) (truncateFirst : Bool)
    (policy : RetryPolicy) (source : Source σ ρ) (insert : Session → List ρ → Run Nat) (budget : Nat)
    (start : Batches σ) : Run (Loaded σ) := do
  let truncated ← if truncateFirst then truncate session table policy else pure 0
  optimize session false
  let (batches, source) ← start.run source budget fun batch => do
    let _ ← flush insert session batch
  restore session
  return { batches, truncated, source }

end Seeding

/-- The index of what is stored. -/
def ReferentialIndex.load (session : Session) : Run ReferentialIndex := do
  let users ← Run.ofAction <| session.select
    { table := Keyspace.user.table, columns := ["uid", "region"] }
  let index ← Run.ofExcept <| users.foldlM (fun (index : ReferentialIndex) row => do
    let uid ← row.requireText .user "uid"
    let region ← row.requireText .user "region"
    return index.addUser uid (← Attribute.read region)) .empty
  let articles ← Run.ofAction <| session.select
    { table := Keyspace.article.table, columns := ["aid", "language"] }
  Run.ofExcept <| articles.foldlM (fun (index : ReferentialIndex) row => do
    let aid ← row.requireText .article "aid"
    let language ← row.requireText .article "language"
    return index.addArticle aid (← Attribute.read language)) index

end ReadingBench
