import ReadingBench.Document.Node
import ReadingBench.RunError
import ReadingBench.Sql.Value

namespace ReadingBench

/-- An enumeration whose members are known by their texts. -/
class Attribute (α : Type) where
  kind : String
  all : List α
  text : α → String

namespace Attribute

def ofText? {α : Type} [Attribute α] (s : String) : Option α := (all (α := α)).find? (text · = s)

def read {α : Type} [Attribute α] (s : String) : Except RunError α :=
  match ofText? s with
  | some a => .ok a
  | none => .error (.unknownValue (kind α) s)

/-- In a document a member is its text, or a map from its text to null. -/
def ofNode? {α : Type} [Attribute α] : Node → Option α
  | .map [(s, .null)] => ofText? s
  | node => node.text? >>= ofText?

def toNode {α : Type} [Attribute α] (a : α) : Node := .text (text a)

def value {α : Type} [Attribute α] (a : α) : Sql.Value := .text (text a)

end Attribute

/-- A user's home. -/
inductive Region where
  | beijing
  | hongKong
  deriving DecidableEq

instance : Attribute Region where
  kind := "Region"
  all := [.beijing, .hongKong]
  text
    | .beijing => "Beijing"
    | .hongKong => "HongKong"

inductive Language where
  | en
  | zh
  deriving DecidableEq

instance : Attribute Language where
  kind := "Language"
  all := [.en, .zh]
  text
    | .en => "en"
    | .zh => "zh"

inductive Gender where
  | male
  | female
  | other
  deriving DecidableEq

instance : Attribute Gender where
  kind := "Gender"
  all := [.male, .female, .other]
  text
    | .male => "male"
    | .female => "female"
    | .other => "other"

inductive Category where
  | science
  | technology
  deriving DecidableEq

instance : Attribute Category where
  kind := "Category"
  all := [.science, .technology]
  text
    | .science => "science"
    | .technology => "technology"

/-- The corpus that an article's text is said to be from. -/
inductive TextTopic where
  | tech
  | business
  | entertainment
  | sport
  deriving DecidableEq

instance : Attribute TextTopic where
  kind := "TextTopic"
  all := [.tech, .business, .entertainment, .sport]
  text
    | .tech => "tech"
    | .business => "business"
    | .entertainment => "entertainment"
    | .sport => "sport"

/-- The width of a ranking's buckets. -/
inductive Granularity where
  | daily
  | weekly
  | monthly
  deriving DecidableEq

instance : Attribute Granularity where
  kind := "Granularity"
  all := [.daily, .weekly, .monthly]
  text
    | .daily => "daily"
    | .weekly => "weekly"
    | .monthly => "monthly"

end ReadingBench
