import ReadingBench.Population.Attribute
import ReadingBench.Text.StringList

namespace ReadingBench

/-- Uids in the order of the reads. A count is the length of its list. -/
structure ReadStats where
  readUids : List String
  commentUids : List String
  agreeUids : List String
  shareUids : List String
  deriving DecidableEq

/-- The rollup of one article: who read it, and who of them commented, agreed and shared. -/
structure BeRead where
  /-- The place of the article in the fetch, from 1. -/
  id : UInt64
  aid : String
  /-- As it stands in the article's row. -/
  category : String
  stats : ReadStats
  deriving DecidableEq

namespace ReadStats

def members : List String := ["readUidList", "commentUidList", "agreeUidList", "shareUidList"]

def toNode (s : ReadStats) : Node :=
  .map (members.zip
    [.ofTexts s.readUids, .ofTexts s.commentUids, .ofTexts s.agreeUids, .ofTexts s.shareUids])

def ofNode? (node : Node) : Option ReadStats := do
  let get ← node.members? members
  return {
    readUids := ← get.required "readUidList" Node.texts?
    commentUids := ← get.required "commentUidList" Node.texts?
    agreeUids := ← get.required "agreeUidList" Node.texts?
    shareUids := ← get.required "shareUidList" Node.texts? }

end ReadStats

namespace BeRead

/-- A count and the list it counts. -/
def listColumns (uids : List String) : List Sql.Value :=
  [.ofUInt64 (UInt64.ofNat uids.length), .text (Text.encodeList uids)]

/-- The values of the rollup's columns, in their order and without the stamp. -/
def toRow (b : BeRead) : List Sql.Value :=
  [.ofUInt64 b.id, .text b.aid, .text b.category] ++ listColumns b.stats.readUids ++
    listColumns b.stats.commentUids ++ listColumns b.stats.agreeUids ++ listColumns b.stats.shareUids

def members : List String := ["id", "aid", "category", "stats"]

def toNode (b : BeRead) : Node :=
  .map (members.zip [.int b.id.toNat, .text b.aid, .text b.category, b.stats.toNode])

def ofNode? (node : Node) : Option BeRead := do
  let get ← node.members? members
  return {
    id := ← get.required "id" Node.uint64?
    aid := ← get.required "aid" Node.text?
    category := ← get.required "category" Node.text?
    stats := ← get.required "stats" ReadStats.ofNode? }

end BeRead
end ReadingBench
