import ReadingBench.Population.Attribute
import ReadingBench.Text.StringList

namespace ReadingBench

/-- Reads refer to articles by `aid`. -/
structure Article where
  id : UInt64
  aid : String
  category : Category
  timestamp : DateTime
  title : String
  abstractText : String
  articleTags : List String
  authors : List String
  language : Language
  text : String
  textPath : String
  imagePath : String
  videoPath : Option String
  deriving DecidableEq

namespace Article

/-- The bytes that an article takes: nine texts and lists of three words each, and 24 for the rest. -/
def width : Nat := 240

/-- The values of the article table's columns, in their order. -/
def toRow (a : Article) : List Sql.Value :=
  [.ofUInt64 a.id, .text a.aid, .dateTime a.timestamp, .text a.title, Attribute.value a.category,
    .text a.abstractText, .text (Text.encodeList a.articleTags), .text (Text.encodeList a.authors),
    Attribute.value a.language, .text a.text, .text a.textPath, .text a.imagePath,
    .ofText? a.videoPath]

def members : List String :=
  ["id", "aid", "category", "timestamp", "title", "abstract", "articleTags", "authors", "language",
    "text", "textPath", "imagePath", "videoPath"]

def toNode (a : Article) : Node :=
  .map (members.zip
    [.int a.id.toNat, .text a.aid, Attribute.toNode a.category, .text a.timestamp.recordText,
      .text a.title, .text a.abstractText, .ofTexts a.articleTags, .ofTexts a.authors,
      Attribute.toNode a.language, .text a.text, .text a.textPath, .text a.imagePath,
      .ofText? a.videoPath])

def ofNode? (node : Node) : Option Article := do
  let get ← node.members? members
  return {
    id := ← get.required "id" Node.uint64?
    aid := ← get.required "aid" Node.text?
    category := ← get.required "category" Attribute.ofNode?
    timestamp := ← get.required "timestamp" Node.dateTime?
    title := ← get.required "title" Node.text?
    abstractText := ← get.required "abstract" Node.text?
    articleTags := ← get.required "articleTags" Node.texts?
    authors := ← get.required "authors" Node.texts?
    language := ← get.required "language" Attribute.ofNode?
    text := ← get.required "text" Node.text?
    textPath := ← get.required "textPath" Node.text?
    imagePath := ← get.required "imagePath" Node.text?
    videoPath := ← get.optional "videoPath" Node.text? }

end Article
end ReadingBench
