import ReadingBench.Population.Attribute
import ReadingBench.Text.StringList

namespace ReadingBench

/-- The top articles of one bucket of one granularity. -/
structure PopularRank where
  id : UInt64
  granularity : Granularity
  /-- The first day of the bucket. -/
  rankDate : Date
  aids : List String
  deriving DecidableEq

namespace PopularRank

/-- The values of the ranking table's columns, in their order. -/
def toRow (r : PopularRank) : List Sql.Value :=
  [.ofUInt64 r.id, Attribute.value r.granularity, .text (Text.encodeList r.aids), .date r.rankDate]

def members : List String := ["id", "temporalGranularity", "rankDate", "articleAidList"]

def toNode (r : PopularRank) : Node :=
  .map (members.zip
    [.int r.id.toNat, Attribute.toNode r.granularity, .text r.rankDate.text, .ofTexts r.aids])

def ofNode? (node : Node) : Option PopularRank := do
  let get ← node.members? members
  return {
    id := ← get.required "id" Node.uint64?
    granularity := ← get.required "temporalGranularity" Attribute.ofNode?
    rankDate := ← get.required "rankDate" Node.date?
    aids := ← get.required "articleAidList" Node.texts? }

end PopularRank
end ReadingBench
