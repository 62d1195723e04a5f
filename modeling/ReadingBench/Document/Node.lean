import ReadingBench.Calendar.Text
import ReadingBench.Decimal.Digits

namespace ReadingBench

/-- The tag of a YAML scalar. -/
inductive Tag where
  | null
  | bool
  | int
  | other
  deriving DecidableEq

inductive Node where
  | null
  | bool (b : Bool)
  | int (n : Int)
  /-- A number that is not written as an integer. -/
  | real
  | text (s : String)
  /-- An unquoted YAML scalar, as it stands. -/
  | plain (tag : Option Tag) (s : String)
  /-- A literal YAML scalar, which is typed by its tag. -/
  | literal (tag : Tag) (s : String)
  /-- A JSON array. It may stand for a record, whose members it gives in order. -/
  | array (items : List Node)
  | map (entries : List (String × Node))
  /-- A YAML collection that stands for no record: a list, or a map with a key that is no scalar. -/
  | other

namespace Node

/-- Whether a node that may be null is. Unquoted nothing is null as well as the words for it, unless it
has a tag; the tag of null allows the words and nothing else. -/
def isNull? : Node → Option Bool
  | null => some true
  | plain tag s =>
    let isWord := s ∈ ["null", "Null", "NULL", "~"]
    match tag with
    | none => some (s = "" || isWord)
    | some .null => if isWord then some true else none
    | some _ => some false
  | _ => some false

def text? : Node → Option String
  | text s | plain _ s | literal _ s => some s
  | _ => none

def boolOf? (s : String) : Option Bool :=
  if s ∈ ["true", "True", "TRUE"] then some true
  else if s ∈ ["false", "False", "FALSE"] then some false
  else none

def bool? : Node → Option Bool
  | bool b => some b
  | plain _ s | literal .bool s => boolOf? s
  | _ => none

def digitOf? (base : Nat) (c : Char) : Option Nat :=
  let d :=
    if Decimal.isDigit c then c.toNat - 48
    else if 'a' ≤ c ∧ c ≤ 'f' then c.toNat - 87
    else if 'A' ≤ c ∧ c ≤ 'F' then c.toNat - 55
    else base
  if d < base then some d else none

def natOf? (base : Nat) (cs : List Char) : Option Nat :=
  if cs.isEmpty then none
  else cs.foldlM (fun n c => (digitOf? base c).map (base * n + ·)) 0

/-- A number after its sign: with a mark for its base, or decimal without zeros in front. -/
def magnitude? : List Char → Option Nat
  | '0' :: 'x' :: cs => natOf? 16 cs
  | '0' :: 'o' :: cs => natOf? 8 cs
  | '0' :: 'b' :: cs => natOf? 2 cs
  | '0' :: c :: cs => if (c :: cs).all Decimal.isDigit then none else natOf? 10 ('0' :: c :: cs)
  | cs => natOf? 10 cs

def integer? : List Char → Option Int
  | '-' :: cs => (magnitude? cs).map fun n => -(n : Int)
  | '+' :: cs => (magnitude? cs).map Int.ofNat
  | cs => (magnitude? cs).map Int.ofNat

def int? : Node → Option Int
  | int n => some n
  | plain _ s | literal .int s => integer? s.toList
  | _ => none

/-- An integer from `low` to `high`. -/
def intWithin? (low high : Int) (node : Node) : Option Int :=
  node.int?.filter fun n => low ≤ n ∧ n ≤ high

/-- An unsigned integer below `size`; it takes no minus sign. -/
def nat? (size : Nat) (node : Node) : Option Nat :=
  if node.text?.any (·.toList.head? = some '-') then none
  else (node.intWithin? 0 (size - 1)).map Int.toNat

def uint8? (node : Node) : Option UInt8 := (node.nat? UInt8.size).map UInt8.ofNat

def uint16? (node : Node) : Option UInt16 := (node.nat? UInt16.size).map UInt16.ofNat

def uint32? (node : Node) : Option UInt32 := (node.nat? UInt32.size).map UInt32.ofNat

def uint64? (node : Node) : Option UInt64 := (node.nat? UInt64.size).map UInt64.ofNat

def int64? (node : Node) : Option Int64 :=
  (node.intWithin? Int64.minValue.toInt Int64.maxValue.toInt).map Int64.ofInt

def texts? : Node → Option (List String)
  | array items => items.mapM text?
  | _ => none

def date? (node : Node) : Option Date := node.text? >>= Date.ofRecordText?

def dateTime? (node : Node) : Option DateTime := node.text? >>= DateTime.ofRecordText?

/-- The members of a record, by name. -/
abbrev Members := String → Option Node

/-- Reads a node as a record with these members: a map that gives none of them twice, an array with no
more than their number, or nothing at all. -/
def members? (names : List String) : Node → Option Members
  | map entries =>
    if names.all fun name => (entries.filter (·.1 = name)).length ≤ 1 then some (entries.lookup ·)
    else none
  | array items => if items.length ≤ names.length then some ((names.zip items).lookup ·) else none
  | plain _ "" => some fun _ => none
  | _ => none

namespace Members

def required {α : Type} (get : Members) (name : String) (read : Node → Option α) : Option α :=
  get name >>= read

/-- A member that may be missing or null. -/
def optional {α : Type} (get : Members) (name : String) (read : Node → Option α) :
    Option (Option α) :=
  match get name with
  | some node => do if ← node.isNull? then return none else return some (← read node)
  | none => some none

/-- A member that takes a default where it is missing. -/
def defaulted {α : Type} (get : Members) (name : String) (read : Node → Option α) (default : α) :
    Option α :=
  match get name with
  | some node => read node
  | none => some default

end Members

def ofTexts (ss : List String) : Node := array (ss.map text)

def ofText? : Option String → Node
  | some s => text s
  | none => null

end Node
end ReadingBench
