import ReadingBench.Calendar.Bucket
import ReadingBench.Config.Basic
import ReadingBench.Record.PopularRank
import ReadingBench.Store.Run

namespace ReadingBench

open Sql Store

/-- An article with the number of its reads. -/
structure ArticleScore where
  aid : String
  /-- When it was published; an article without a date counts in all buckets. -/
  date : Option Date
  readNum : Int64
  deriving DecidableEq

namespace Ranking

def earlier (a b : Date) : Date := if b < a then b else a

def later (a b : Date) : Date := if a ≤ b then b else a

/-- The first and the last date of an article, or `today` twice where no article has a date. -/
def dateRange (articles : List ArticleScore) (today : Date) : Date × Date :=
  match articles.filterMap (·.date) with
  | [] => (today, today)
  | d :: ds => (ds.foldl earlier d, ds.foldl later d)

/-- The articles published by `edge`, in order. -/
def eligible (articles : List ArticleScore) (edge : Date) : List ArticleScore :=
  articles.filter fun a => a.date.all (· ≤ edge)

/-- The articles read most, at most `count`; of equally read ones those that come first. -/
def topAids (count : Nat) (articles : List ArticleScore) : List String :=
  ((articles.mergeSort fun a b => b.readNum ≤ a.readNum).take count).map (·.aid)

/-- One bucket of the ranking, without its id. -/
structure Bucket where
  granularity : Granularity
  anchor : Date
  aids : List String

/-- The bucket at `anchor`; none where its last day is outside the calendar. -/
def bucket? (config : RankConfig) (articles : List ArticleScore) (g : Granularity) (anchor : Date) :
    Option Bucket := do
  let edge ← g.upperEdge? anchor
  return ⟨g, anchor, topAids config.topN.toNat (eligible articles edge)⟩

/-- All buckets: daily, then weekly, then monthly. -/
def buckets? (config : RankConfig) (articles : List ArticleScore) (today : Date) :
    Option (List Bucket) := do
  let (first, last) := dateRange articles today
  let lists ← (Attribute.all : List Granularity).mapM fun g => do
    (← g.anchors? first last).mapM (bucket? config articles g)
  return lists.flatten

/-- The ranking of articles; there is none without articles. Ids run on from 1 over all buckets. -/
def compute? (config : RankConfig) (articles : List ArticleScore) (today : Date) :
    Option (List PopularRank) :=
  if articles.isEmpty then some []
  else (buckets? config articles today).map fun buckets =>
    buckets.mapIdx fun i b => ⟨UInt64.ofNat (i + 1), b.granularity, b.anchor, b.aids⟩

/-- The reads of each article according to the rollup. -/
def loadCounts (beReads : Session) : Run (Std.TreeMap String Int64) := do
  let rows ← Run.ofAction <| beReads.select
    { table := Keyspace.beRead.table, columns := ["aid", "readNum"] }
  Run.ofExcept <| rows.foldlM (fun (counts : Std.TreeMap String Int64) row => do
    let aid ← row.requireText .beRead "aid"
    return counts.insert aid ((row.getInt? "readNum").getD 0)) ∅

def score (counts : Std.TreeMap String Int64) (row : Row) : Except RunError ArticleScore := do
  let aid ← row.requireText .article "aid"
  return ⟨aid, (row.getDateTime? "timestamp").map (·.date), counts[aid]?.getD 0⟩

/-- All articles in the order of the fetch. One without a rollup counts as unread. -/
def load (articles beReads : Session) : Run (List ArticleScore) := do
  let counts ← loadCounts beReads
  let rows ← Run.ofAction <| articles.select
    { table := Keyspace.article.table, columns := ["aid", "timestamp"] }
  Run.ofExcept (rows.mapM (score counts))

/-- Rows of one insert. -/
def insertChunk : Nat := 1000

def insertRanks (sink : Session) (ranks : List PopularRank) : Run Unit := do
  let _ ← Run.ofAction <| sink.insert
    { table := Keyspace.popularRank.table, columns := Keyspace.popularRank.columns
      rows := ranks.map PopularRank.toRow }

/-- Replaces the whole ranking and commits. -/
def persist (sink : Session) (ranks : List PopularRank) : Run Unit := do
  let _ ← Run.ofAction <| sink.delete { table := Keyspace.popularRank.table }
  (chunks insertChunk ranks).forM (insertRanks sink)
  Run.ofAction sink.commit

/-- Computes the ranking, or stops where it needs a date outside the calendar. -/
def compute (config : RankConfig) (articles : List ArticleScore) (today : Date) :
    Run (List PopularRank) :=
  match compute? config articles today with
  | some ranks => return ranks
  | none => throw .outOfRange

/-- Rebuilds the ranking, with a session for each table. Gives the number of its rows. -/
def perform (config : RankConfig) (today : Date) : Opening Nat := do
  let articles ← Opening.session .article
  let beReads ← Opening.session .beRead
  let sink ← Opening.session .popularRank
  let scores ← Opening.ofRun (load articles beReads)
  let ranks ← Opening.ofRun (compute config scores today)
  Opening.ofRun (persist sink ranks)
  return ranks.length

def run (config : RankConfig) (today : Date) : Run Nat := Run.withSessions (perform config today)

end Ranking
end ReadingBench
