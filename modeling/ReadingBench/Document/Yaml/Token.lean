import ReadingBench.Document.Yaml.Property
import ReadingBench.Document.Yaml.Scalar

namespace ReadingBench.Yaml

inductive Style where
  | plain
  | quoted
  | literal
  deriving DecidableEq

/-- Indentation becomes tokens too: one where a block collection begins and one where it ends. A key on one
line has no mark in front, so a token is set aside wherever one may begin, and is filled in when the colon
behind it is found. -/
inductive Token where
  | directive (d : Directive)
  | documentStart
  | documentEnd
  | blockSequence
  | blockMapping
  | blockEnd
  | flowSequence
  | flowSequenceEnd
  | flowMapping
  | flowMappingEnd
  /-- A dash before an item. -/
  | item
  | comma
  | key
  | value
  | anchor (name : String)
  | backReference (name : String)
  | tag (name : TagName)
  | scalar (style : Style) (text : List Char)
  deriving DecidableEq

/-- A place where a key may have begun. -/
structure PossibleKey where
  /-- The number of the group of tokens that is set aside for its mark. -/
  group : Nat
  start : Letter
  /-- In the column of a block map nothing but a key may begin. -/
  required : Bool

namespace PossibleKey

/-- A key has to be followed by its colon on the line on which it begins, within 1024 bytes. -/
def isPast (key : PossibleKey) (here : Letter) : Bool :=
  key.start.line < here.line || key.start.offset + 1024 < here.offset

/-- Gives up a place where no key turned out to begin, unless one was required. -/
def giveUp? : Option PossibleKey → Option (Option PossibleKey)
  | some key => if key.required then none else some none
  | none => some none

/-- The key that a colon ends, if it ends any. -/
def endedBy? (here : Letter) (key : Option PossibleKey) : Option (Option PossibleKey) :=
  if key.any (·.isPast here) then giveUp? key else some key

end PossibleKey

/-- A text that is read up to some point. -/
structure Layout where
  rest : List Letter
  /-- Tokens so far, in groups, the latest first. -/
  groups : List (List Token) := []
  /-- The number of groups. -/
  count : Nat := 0
  /-- The possible key of the innermost flow collection, or of the block if there is none. -/
  key : Option PossibleKey := none
  /-- The possible keys around the open flow collections, innermost first. -/
  outerKeys : List (Option PossibleKey) := []
  /-- The columns of the open block collections, innermost first. -/
  columns : List Nat := []
  keyAllowed : Bool := true

namespace Layout

def inFlow (s : Layout) : Bool := !s.outerKeys.isEmpty

/-- The least column of content in the innermost block collection. -/
def least (s : Layout) : Nat := s.columns.head?.elim 0 (· + 1)

/-- Skips white space, comments and byte order marks at the start of a line. Tabs count as white space
only where they cannot be taken for indentation. In blocks a new line allows a key. -/
def skipFrom (flow : Bool) : Bool → List Letter → Bool × List Letter
  | keyAllowed, [] => (keyAllowed, [])
  | keyAllowed, l :: ls =>
    if l.isBreak then skipFrom flow (keyAllowed || !flow) ls
    else if l.char = '#' then skipFrom flow keyAllowed (ls.dropWhile (!·.isBreak))
    else if l.char = ' ' || (l.char = '\t' && (flow || !keyAllowed)) ||
        (isByteOrderMark l.char && l.column = 0) then
      skipFrom flow keyAllowed ls
    else (keyAllowed, l :: ls)
termination_by _ ls => ls.length
decreasing_by
  · simp
  · have := (List.dropWhile_sublist (p := fun l : Letter => !l.isBreak) (l := ls)).length_le
    simp only [List.length_cons]
    omega
  · simp

def skip (s : Layout) : Layout :=
  let (keyAllowed, rest) := skipFrom s.inFlow s.keyAllowed s.rest
  { s with keyAllowed, rest }

def push (group : List Token) (s : Layout) : Layout :=
  { s with groups := group :: s.groups, count := s.count + 1 }

def emit (token : Token) (rest : List Letter) (s : Layout) : Layout := { s.push [token] with rest }

/-- Opens a block collection, unless one is open in that column. There are none between brackets. -/
def openBlock (token : Token) (column : Nat) (s : Layout) : Layout :=
  if !s.inFlow && s.least ≤ column then
    { s.push [token] with columns := column :: s.columns }
  else s

/-- Closes the block collections that are indented further than the column, or all of them. -/
def closeBlocks (column : Option Nat) (s : Layout) : Layout :=
  let (closed, columns) := s.columns.span fun c => column.all (· < c)
  if s.inFlow || closed.isEmpty then s
  else { s.push (closed.map fun _ => .blockEnd) with columns }

def giveUpKey? (s : Layout) : Option Layout := do
  return { s with key := ← PossibleKey.giveUp? s.key }

/-- Remembers that a key may begin here, if one is allowed. -/
def possibleKey? (here : Letter) (s : Layout) : Option Layout :=
  if s.keyAllowed then do
    let s ← s.giveUpKey?
    let required := !s.inFlow && s.columns.head? = some here.column
    return { s.push [] with key := some ⟨s.count, here, required⟩ }
  else some s

/-- A directive or a marker between documents. -/
def betweenDocuments? (token : Token) (rest : List Letter) (s : Layout) : Option Layout := do
  let s ← (s.closeBlocks none).giveUpKey?
  return { s with keyAllowed := false }.emit token rest

/-- A flow collection may be a key. -/
def openFlow? (token : Token) (here : Letter) (rest : List Letter) (s : Layout) : Option Layout := do
  let s ← s.possibleKey? here
  return { s with key := none, outerKeys := s.key :: s.outerKeys, keyAllowed := true }.emit token rest

def closeFlow? (token : Token) (rest : List Letter) (s : Layout) : Option Layout := do
  let s ← s.giveUpKey?
  return { s with key := s.outerKeys.head?.join, outerKeys := s.outerKeys.tail, keyAllowed := false }
    |>.emit token rest

def comma? (rest : List Letter) (s : Layout) : Option Layout := do
  let s ← s.giveUpKey?
  return { s with keyAllowed := true }.emit .comma rest

/-- The mark of an item or of a key in a block, which begins a collection if none is open there. -/
def blockMark? (collection mark : Token) (column : Nat) (rest : List Letter) (s : Layout) :
    Option Layout := do
  if !s.inFlow && !s.keyAllowed then none
  let s ← (s.openBlock collection column).giveUpKey?
  return s.emit mark rest

def item? (column : Nat) (rest : List Letter) (s : Layout) : Option Layout := do
  let s ← s.blockMark? .blockSequence .item column rest
  return { s with keyAllowed := true }

def explicitKey? (column : Nat) (rest : List Letter) (s : Layout) : Option Layout := do
  let s ← s.blockMark? .blockMapping .key column rest
  return { s with keyAllowed := !s.inFlow }

/-- A colon. If a key may have begun on the line, it has. -/
def value? (here : Letter) (rest : List Letter) (s : Layout) : Option Layout := do
  match ← PossibleKey.endedBy? here s.key with
  | some key =>
    let opens := !s.inFlow && s.least ≤ key.start.column
    let columns := if opens then key.start.column :: s.columns else s.columns
    let marks := if opens then [.blockMapping, .key] else [.key]
    let groups := s.groups.set (s.count - 1 - key.group) marks
    return { s with columns, groups, key := none, keyAllowed := false }.emit .value rest
  | none =>
    let s ← s.blockMark? .blockMapping .value here.column rest
    return { s with key := none, keyAllowed := !s.inFlow }

/-- A token with which a key may begin. -/
def keyPart? (token : Token) (here : Letter) (rest : List Letter) (s : Layout) : Option Layout := do
  let s ← s.possibleKey? here
  return { s with keyAllowed := false }.emit token rest

def quotedScalar? (most : Nat) (here : Letter) (rest : List Letter) (s : Layout) : Option Layout := do
  let (text, rest) ← quoted? here.char most rest
  s.keyPart? (.scalar .quoted text) here rest

/-- A key is allowed behind a plain scalar that ends before its line does. -/
def plainScalar? (most : Nat) (here : Letter) (s : Layout) : Option Layout := do
  let ((text, broken), rest) ← plain? s.inFlow s.least most [] s.rest
  let s ← s.keyPart? (.scalar .plain text) here rest
  return { s with keyAllowed := broken }

def blockScalar? (most : Nat) (style : Style) (rest : List Letter) (s : Layout) : Option Layout := do
  let (text, rest) ← block? most (style = .literal) s.least rest
  let s ← s.giveUpKey?
  return { s with keyAllowed := true }.emit (.scalar style text) rest

/-- Reads the token that begins with the letter `here`, before `rest`, in which there are fewer than
`most` letters. -/
def next? (most : Nat) (here : Letter) (rest : List Letter) (s : Layout) : Option Layout := do
  let flow := s.inFlow
  if here.column = 0 && here.char = '%' then
    let (directive, rest) ← directive? rest
    s.betweenDocuments? (.directive directive) rest
  else if isMarker '-' s.rest then s.betweenDocuments? .documentStart (rest.drop 2)
  else if isMarker '.' s.rest then s.betweenDocuments? .documentEnd (rest.drop 2)
  else if startsPlain flow s.rest then s.plainScalar? most here
  else
    match here.char with
    | '[' => s.openFlow? .flowSequence here rest
    | '{' => s.openFlow? .flowMapping here rest
    | ']' => s.closeFlow? .flowSequenceEnd rest
    | '}' => s.closeFlow? .flowMappingEnd rest
    | ',' => s.comma? rest
    | '-' => s.item? here.column rest
    | '?' => s.explicitKey? here.column rest
    | ':' => s.value? here rest
    | '\'' | '"' => s.quotedScalar? most here rest
    | '&' =>
      let (name, rest) ← anchorName? rest
      s.keyPart? (.anchor name) here rest
    | '*' =>
      let (name, rest) ← anchorName? rest
      s.keyPart? (.backReference name) here rest
    | '!' =>
      let (name, rest) ← tag? flow rest
      s.keyPart? (.tag name) here rest
    | '|' => if flow then none else s.blockScalar? most .literal rest
    | '>' => if flow then none else s.blockScalar? most .quoted rest
    | _ => none

/-- The tokens from here to the end, where fewer than `most` letters are left. Each token begins with a
letter of its own. -/
def tokens? : (most : Nat) → Layout → Option (List Token)
  | 0, _ => none
  | most + 1, s =>
    let s := s.skip
    match s.rest with
    | [] => (s.closeBlocks none).giveUpKey?.map (·.groups.reverse.flatten)
    | here :: rest => do
      let s ← (s.closeBlocks (some here.column)).next? (most + 1) here rest
      tokens? most s

end Layout

def tokens? (cs : List Char) : Option (List Token) := do
  let letters ← letters? cs
  ({ rest := letters } : Layout).tokens? (letters.length + 1)

end ReadingBench.Yaml
