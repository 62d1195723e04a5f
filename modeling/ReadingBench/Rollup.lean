import ReadingBench.Config.Basic
import ReadingBench.Record.BeRead
import ReadingBench.Store.Run

namespace ReadingBench

open Sql Store

/-- The part of a read that the rollup needs. -/
structure ReadFlags where
  uid : String
  agree : Bool
  comment : Bool
  share : Bool
  deriving DecidableEq

namespace ReadFlags

/-- A flag is set by the integer 1 and nothing else. -/
def flag (row : Row) (column : String) : Bool := row.getInt? column = some 1

def ofRow (row : Row) : Except RunError ReadFlags := do
  return {
    uid := ← row.requireText .read "uid"
    agree := flag row "agreeOrNot"
    comment := flag row "commentOrNot"
    share := flag row "shareOrNot" }

end ReadFlags

/-- The uids of all reads, and of those with each of the flags, in the order of the reads. -/
def ReadStats.ofReads (reads : List ReadFlags) : ReadStats :=
  { readUids := reads.map (·.uid)
    commentUids := (reads.filter (·.comment)).map (·.uid)
    agreeUids := (reads.filter (·.agree)).map (·.uid)
    shareUids := (reads.filter (·.share)).map (·.uid) }

structure RollupReport where
  articles : Nat
  reads : Nat
  batches : Nat
  deriving DecidableEq

namespace Rollup

def articleSelect : Select := { table := Keyspace.article.table, columns := ["aid", "category"] }

/-- The reads of one article. -/
def readSelect (aid : String) : Select :=
  { table := Keyspace.read.table
    columns := ["uid", "agreeOrNot", "commentOrNot", "shareOrNot"]
    filter := some ("aid", .text aid) }

/-- The rollup of one article row, at place `id` of the fetch. -/
def ofArticle (reads : Session) (id : Nat) (row : Row) : Run BeRead := do
  let aid ← Run.ofExcept (row.requireText .article "aid")
  let rows ← Run.ofAction (reads.select (readSelect aid))
  let flags ← Run.ofExcept (rows.mapM ReadFlags.ofRow)
  return {
    id := UInt64.ofNat id, aid, category := (row.getText? "category").getD ""
    stats := .ofReads flags }

/-- One rollup for each article, in the order of the fetch and with ids from 1. -/
def compute (articles reads : Session) : Run (List BeRead) := do
  let rows ← Run.ofAction (articles.select articleSelect)
  (rows.zipIdx 1).mapM fun (row, id) => ofArticle reads id row

/-- Writes rollups; where an article has one already, all of it but id and category is overwritten. -/
def upsert (rows : List BeRead) : Insert :=
  { table := Keyspace.beRead.table
    columns := Keyspace.beRead.columns
    rows := rows.map BeRead.toRow
    onConflict := .update Keyspace.updateColumns
    stamp := some Keyspace.stampColumn }

/-- Upserts one batch and commits it. -/
def persistBatch (sink : Session) (batch : List BeRead) : Run Unit := do
  let _ ← Run.ofAction (sink.insert (upsert batch))
  Run.ofAction sink.commit

/-- Stores rollups in batches and gives the number of batches. -/
def persist (config : RollupConfig) (sink : Session) (rows : List BeRead) : Run Nat := do
  let batches := chunks config.batchSize.toNat rows
  batches.forM (persistBatch sink)
  return batches.length

/-- Computes and stores all rollups, with a session for each table. -/
def perform (config : RollupConfig) : Opening RollupReport := do
  let articles ← Opening.session .article
  let reads ← Opening.session .read
  let sink ← Opening.session .beRead
  let rows ← Opening.ofRun (compute articles reads)
  let batches ← Opening.ofRun (persist config sink rows)
  return {
    articles := rows.length
    reads := (rows.flatMap (·.stats.readUids)).length
    batches }

def run (config : RollupConfig) : Run RollupReport := Run.withSessions (perform config)

end Rollup
end ReadingBench
