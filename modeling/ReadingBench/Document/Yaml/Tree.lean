import ReadingBench.Document.Yaml.Token

namespace ReadingBench.Yaml

/-- Anchors are numbered as they come; an alias holds the number that its name has at that point. -/
inductive Tree where
  | scalar (style : Style) (tag : Option (List Char)) (text : List Char)
  | sequence (items : List Tree)
  | mapping (entries : List (Tree × Tree))
  | anchored (number : Nat) (node : Tree)
  | backReference (number : Nat)

/-- A node that is left out. -/
def Tree.absent : Tree := .scalar .plain none []

/-- A document that is read up to some point. -/
structure Progress where
  tokens : List Token
  /-- What the handles of tags stand for. -/
  handles : List (List Char × List Char) := []
  /-- The latest number of each name. -/
  anchors : List (String × Nat) := []

abbrev Grammar (α : Type) := StateT Progress Option α

/-- Where a node stands. -/
inductive Position where
  | flow
  | block
  /-- Behind a key or a colon, where the items of a sequence need not be indented. -/
  | blockEntry
  deriving DecidableEq

namespace Grammar

def peek : Grammar (Option Token) := return (← get).tokens.head?

def advance : Grammar Unit := modify fun p => { p with tokens := p.tokens.tail }

/-- Takes the next token if it is `token`. -/
def eat (token : Token) : Grammar Bool := do
  if (← peek) = some token then advance; return true else return false

def expect (token : Token) : Grammar Unit := do
  if !(← eat token) then failure

/-- A node, or nothing before one of the tokens `stops`. -/
def unlessAt (stops : List Token) (node : Grammar Tree) : Grammar Tree := do
  if (← peek).any (· ∈ stops) then return .absent else node

/-- A number for a name: how many names there are so far. A name that comes again may so share its number
with the next new name. -/
def numberAnchor (name : String) : Grammar Nat := do
  let p ← get
  set { p with anchors := (name, p.anchors.length) :: p.anchors.filter (·.1 ≠ name) }
  return p.anchors.length

/-- A tag in full, if its handle stands for anything. -/
def fullTag (tag : TagName) : Grammar (List Char) := do
  if tag.handle.isEmpty then return tag.suffix
  else return (← (← get).handles.lookup tag.handle) ++ tag.suffix

def anchorMark : Grammar (Option String) := do
  match ← peek with
  | some (.anchor name) => advance; return some name
  | _ => return none

def tagMark : Grammar (Option TagName) := do
  match ← peek with
  | some (.tag name) => advance; return some name
  | _ => return none

/-- An anchor and a tag, in any order. -/
def properties : Grammar (Option String × Option TagName) := do
  match ← anchorMark with
  | some anchor => return (some anchor, ← tagMark)
  | none =>
    match ← tagMark with
    | some tag => return (← anchorMark, some tag)
    | none => return (none, none)

mutual

def node : Nat → Position → Grammar Tree
  | 0, _ => failure
  | fuel + 1, position => do
    match ← peek with
    | some (.backReference name) =>
      advance
      return .backReference (← (← get).anchors.lookup name)
    | _ =>
      let (anchor, tag) ← properties
      let tag ← tag.mapM fullTag
      match anchor with
      | some name => return .anchored (← numberAnchor name) (← content fuel position true tag)
      | none => content fuel position tag.isSome tag

/-- A node behind its properties. One that has any may be left out. For a scalar an exclamation mark
alone is no tag. -/
def content : Nat → Position → Bool → Option (List Char) → Grammar Tree
  | 0, _, _, _ => failure
  | fuel + 1, position, marked, tag => do
    match ← peek, position with
    | some (.scalar style text), _ => advance; return .scalar style (tag.filter (· ≠ ['!'])) text
    | some .flowSequence, _ => advance; return .sequence (← flowItems fuel true)
    | some .flowMapping, _ => advance; return .mapping (← flowEntries fuel true)
    | some .item, .blockEntry => return .sequence (← looseItems fuel)
    | some .blockSequence, .block | some .blockSequence, .blockEntry =>
      advance
      return .sequence (← items fuel)
    | some .blockMapping, .block | some .blockMapping, .blockEntry =>
      advance
      return .mapping (← entries fuel)
    | _, _ => if marked then return .scalar .plain tag [] else failure

/-- The items of a block sequence. -/
def items : Nat → Grammar (List Tree)
  | 0 => failure
  | fuel + 1 => do
    if ← eat .blockEnd then return []
    expect .item
    let item ← unlessAt [.item, .blockEnd] (node fuel .block)
    return item :: (← items fuel)

/-- The items of a block sequence that is not indented. -/
def looseItems : Nat → Grammar (List Tree)
  | 0 => failure
  | fuel + 1 => do
    if !(← eat .item) then return []
    let item ← unlessAt [.item, .key, .value, .blockEnd] (node fuel .block)
    return item :: (← looseItems fuel)

/-- The entries of a block mapping. -/
def entries : Nat → Grammar (List (Tree × Tree))
  | 0 => failure
  | fuel + 1 => do
    if ← eat .blockEnd then return []
    expect .key
    let part := unlessAt [.key, .value, .blockEnd] (node fuel .blockEntry)
    let key ← part
    let value ← if ← eat .value then part else pure .absent
    return (key, value) :: (← entries fuel)

/-- Commas stand between the items of a flow sequence, and one may stand behind the last. -/
def flowItems : Nat → Bool → Grammar (List Tree)
  | 0, _ => failure
  | fuel + 1, first => do
    if ← eat .flowSequenceEnd then return []
    if !first then
      expect .comma
      if ← eat .flowSequenceEnd then return []
    let item ← if ← eat .key then flowPair fuel else node fuel .flow
    return item :: (← flowItems fuel false)

/-- A mapping of one entry without brackets of its own. Where its key is left out, the token behind the
mark is passed over. -/
def flowPair : Nat → Grammar Tree
  | 0 => failure
  | fuel + 1 => do
    let key ←
      if (← peek).any (· ∈ [.value, .comma, .flowSequenceEnd]) then advance; pure Tree.absent
      else node fuel .flow
    let value ←
      if ← eat .value then unlessAt [.comma, .flowSequenceEnd] (node fuel .flow) else pure .absent
    return .mapping [(key, value)]

def flowEntries : Nat → Bool → Grammar (List (Tree × Tree))
  | 0, _ => failure
  | fuel + 1, first => do
    if ← eat .flowMappingEnd then return []
    if !first then
      expect .comma
      if ← eat .flowMappingEnd then return []
    let entry ← flowEntry fuel
    return entry :: (← flowEntries fuel false)

/-- An entry of a flow mapping. Without a mark of a key there is no value. -/
def flowEntry : Nat → Grammar (Tree × Tree)
  | 0 => failure
  | fuel + 1 => do
    if ← eat .key then
      let key ← unlessAt [.value, .comma, .flowMappingEnd] (node fuel .flow)
      let value ←
        if ← eat .value then unlessAt [.comma, .flowMappingEnd] (node fuel .flow) else pure .absent
      return (key, value)
    else return (← node fuel .flow, .absent)

end

end Grammar

/-- The handles that stand for something in every document. -/
def standardHandles : List (List Char × List Char) :=
  [(['!'], ['!']), (['!', '!'], "tag:yaml.org,2002:".toList)]

/-- What handles stand for after directives: none may be declared twice, nor may the version. -/
def handles? (directives : List Directive) : Option (List (List Char × List Char)) :=
  let declared := directives.filterMap fun
    | .tag handle start => some (handle, start)
    | .version => none
  if directives.count .version ≤ 1 ∧ (declared.map (·.1)).Nodup then some (declared ++ standardHandles)
  else none

def Token.directive? : Token → Option Directive
  | directive d => some d
  | _ => none

/-- The tree of the only document. Directives have to be followed by a marker, which may have no content
behind it; a document without a marker has some. -/
def document? (tokens : List Token) : Option Tree := do
  let marked := tokens.dropWhile (·.directive?.isSome)
  let directives := tokens.filterMap Token.directive?
  let fuel := 3 * tokens.length + 3
  let document : Grammar Tree := do
    if !directives.isEmpty ∨ tokens.head? = some .documentStart then
      Grammar.expect .documentStart
      if (← Grammar.peek).all (· ∈ [.documentStart, .documentEnd]) then return .absent
      else Grammar.node fuel .block
    else if tokens.isEmpty then return .absent
    else Grammar.node fuel .block
  let (tree, after) ← document { tokens := marked, handles := ← handles? directives }
  if after.tokens.all (· = .documentEnd) then some tree else none

end ReadingBench.Yaml
