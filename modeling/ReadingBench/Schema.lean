import ReadingBench.Store.Table

namespace ReadingBench

open Sql Store

inductive Keyspace where
  | user
  | article
  | read
  | beRead
  | popularRank
  deriving DecidableEq

namespace Keyspace

def all : List Keyspace := [user, article, read, beRead, popularRank]

def name : Keyspace → String
  | user => "user_keyspace"
  | article => "article_keyspace"
  | read => "read_keyspace"
  | beRead => "beread_keyspace"
  | popularRank => "popularrank_keyspace"

def tableName : Keyspace → String
  | user => "user"
  | article => "article"
  | read => "read"
  | beRead => "beread"
  | popularRank => "popular_rank"

/-- The table with its keyspace, so that any session can name it. -/
def table (keyspace : Keyspace) : TableRef := ⟨some keyspace.name, keyspace.tableName⟩

/-- The columns that records are written to. -/
def columns : Keyspace → List String
  | user =>
    ["id", "uid", "timestamp", "name", "gender", "email", "phone", "dept", "grade", "language",
      "region", "role", "preferTags", "obtainedCredits"]
  | article =>
    ["id", "aid", "timestamp", "title", "category", "abstract", "articleTags", "authors", "language",
      "text", "textPath", "imagePath", "videoPath"]
  | read =>
    ["id", "uid", "aid", "timestamp", "region", "readTimeLength", "agreeOrNot", "commentOrNot",
      "commentDetail", "shareOrNot"]
  | beRead =>
    ["id", "aid", "category", "readNum", "readUidList", "commentNum", "commentUidList", "agreeNum",
      "agreeUidList", "shareNum", "shareUidList"]
  | popularRank => ["id", "temporalGranularity", "articleAidList", "rankDate"]

/-- The column of the rollup that holds the time of a row's last change. -/
def stampColumn : String := "timestamp"

/-- What a rollup overwrites where the article has a row already. -/
def updateColumns : List String :=
  ["readNum", "readUidList", "commentNum", "commentUidList", "agreeNum", "agreeUidList", "shareNum",
    "shareUidList"]

def uniqueKeys : Keyspace → List (List String)
  | user => [["id"], ["uid"]]
  | article => [["id"], ["aid"]]
  | read => [["id"], ["uid", "aid"]]
  | beRead => [["id"], ["aid"]]
  | popularRank => [["id"]]

def spec (keyspace : Keyspace) : TableSpec :=
  { table := keyspace.table
    columns := match keyspace with
      | beRead => keyspace.columns ++ [stampColumn]
      | _ => keyspace.columns
    uniqueKeys := keyspace.uniqueKeys }

end Keyspace

/-- The shapes of all tables. -/
def standardSpecs : List TableSpec := Keyspace.all.map Keyspace.spec

end ReadingBench
