import ReadingBench.Population.Attribute
import ReadingBench.Schema
import ReadingBench.Sql.Literal

namespace ReadingBench

/-- One user reading one article. Pairs of user and article are meant to be unique: the store drops a second
read of a pair. -/
structure Read where
  id : UInt64
  uid : String
  aid : String
  timestamp : DateTime
  /-- The region of the user. -/
  region : Region
  /-- In seconds. -/
  readTimeLength : UInt32
  agreeOrNot : UInt8
  commentOrNot : UInt8
  commentDetail : Option String
  shareOrNot : UInt8
  deriving DecidableEq

namespace Read

/-- The bytes that a read takes: three texts of three words each, and 32 for the rest. -/
def width : Nat := 104

/-- The values of the read table's columns, in their order. -/
def toRow (r : Read) : List Sql.Value :=
  [.ofUInt64 r.id, .text r.uid, .text r.aid, .dateTime r.timestamp, Attribute.value r.region,
    .ofUInt32 r.readTimeLength, .ofUInt8 r.agreeOrNot, .ofUInt8 r.commentOrNot,
    .ofText? r.commentDetail, .ofUInt8 r.shareOrNot]

def members : List String :=
  ["id", "uid", "aid", "timestamp", "region", "readTimeLength", "agreeOrNot", "commentOrNot",
    "commentDetail", "shareOrNot"]

def toNode (r : Read) : Node :=
  .map (members.zip
    [.int r.id.toNat, .text r.uid, .text r.aid, .text r.timestamp.recordText,
      Attribute.toNode r.region, .int r.readTimeLength.toNat, .int r.agreeOrNot.toNat,
      .int r.commentOrNot.toNat, .ofText? r.commentDetail, .int r.shareOrNot.toNat])

def ofNode? (node : Node) : Option Read := do
  let get ← node.members? members
  return {
    id := ← get.required "id" Node.uint64?
    uid := ← get.required "uid" Node.text?
    aid := ← get.required "aid" Node.text?
    timestamp := ← get.required "timestamp" Node.dateTime?
    region := ← get.required "region" Attribute.ofNode?
    readTimeLength := ← get.required "readTimeLength" Node.uint32?
    agreeOrNot := ← get.required "agreeOrNot" Node.uint8?
    commentOrNot := ← get.required "commentOrNot" Node.uint8?
    commentDetail := ← get.optional "commentDetail" Node.text?
    shareOrNot := ← get.required "shareOrNot" Node.uint8? }

/-- A batch of reads as one raw insert, which drops reads of pairs that are stored already. -/
def rawInsert (batch : List Read) : Sql.RawInsert :=
  ⟨Keyspace.read.table, Keyspace.read.columns, batch.map toRow⟩

end Read
end ReadingBench
