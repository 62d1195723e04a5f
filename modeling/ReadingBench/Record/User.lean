import ReadingBench.Population.Attribute
import ReadingBench.Text.StringList

namespace ReadingBench

/-- Reads refer to users by `uid`; `id` is the key that rows are sharded by. -/
structure User where
  id : UInt64
  uid : String
  timestamp : DateTime
  name : String
  gender : Gender
  email : String
  phone : String
  dept : String
  grade : String
  language : Language
  region : Region
  role : String
  preferTags : List String
  obtainedCredits : UInt32
  deriving DecidableEq

namespace User

/-- The bytes that a user takes: seven texts and a list of three words each, and 32 for the rest. -/
def width : Nat := 224

/-- The values of the user table's columns, in their order. -/
def toRow (u : User) : List Sql.Value :=
  [.ofUInt64 u.id, .text u.uid, .dateTime u.timestamp, .text u.name, Attribute.value u.gender,
    .text u.email, .text u.phone, .text u.dept, .text u.grade, Attribute.value u.language,
    Attribute.value u.region, .text u.role, .text (Text.encodeList u.preferTags),
    .ofUInt32 u.obtainedCredits]

def members : List String :=
  ["id", "uid", "timestamp", "name", "gender", "email", "phone", "dept", "grade", "language", "region",
    "role", "preferTags", "obtainedCredits"]

def toNode (u : User) : Node :=
  .map (members.zip
    [.int u.id.toNat, .text u.uid, .text u.timestamp.recordText, .text u.name,
      Attribute.toNode u.gender, .text u.email, .text u.phone, .text u.dept, .text u.grade,
      Attribute.toNode u.language, Attribute.toNode u.region, .text u.role, .ofTexts u.preferTags,
      .int u.obtainedCredits.toNat])

def ofNode? (node : Node) : Option User := do
  let get ← node.members? members
  return {
    id := ← get.required "id" Node.uint64?
    uid := ← get.required "uid" Node.text?
    timestamp := ← get.required "timestamp" Node.dateTime?
    name := ← get.required "name" Node.text?
    gender := ← get.required "gender" Attribute.ofNode?
    email := ← get.required "email" Node.text?
    phone := ← get.required "phone" Node.text?
    dept := ← get.required "dept" Node.text?
    grade := ← get.required "grade" Node.text?
    language := ← get.required "language" Attribute.ofNode?
    region := ← get.required "region" Attribute.ofNode?
    role := ← get.required "role" Node.text?
    preferTags := ← get.required "preferTags" Node.texts?
    obtainedCredits := ← get.required "obtainedCredits" Node.uint32? }

end User
end ReadingBench
