import ReadingBench.Document.Node
import ReadingBench.Document.Yaml.Letter

namespace ReadingBench.Yaml

/-- The characters of anchors and of the handles of tags. -/
def isWordChar (c : Char) : Bool := c.isAlphanum || c = '_' || c = '-'

/-- A word, perhaps an empty one, and the letters after it. -/
def word (ls : List Letter) : List Char × List Letter :=
  (chars (ls.takeWhile (isWordChar ·.char)), ls.dropWhile (isWordChar ·.char))

/-- The name of an anchor or an alias. -/
def anchorName? (ls : List Letter) : Option (String × List Letter) :=
  let (name, rest) := word ls
  let ends := endsWord rest || rest.head?.any (·.char ∈ ['?', ':', ',', ']', '}', '%', '@', '`'])
  if !name.isEmpty && ends then some (String.ofList name, rest) else none

/-- The characters of a tag; commas and square brackets only in those that are written in full. -/
def isTagChar (full : Bool) (c : Char) : Bool :=
  isWordChar c ||
    c ∈ [';', '/', '?', ':', '@', '&', '=', '+', '$', '.', '!', '~', '*', '\'', '(', ')'] ||
    (full && c ∈ [',', '[', ']'])

/-- An octet in its escaped form, a percent sign and two digits. -/
def octet? (ls : List Letter) : Option (Nat × List Letter) :=
  match chars (ls.take 3) with
  | ['%', a, b] => do
    let high ← Node.digitOf? 16 a
    let low ← Node.digitOf? 16 b
    return (16 * high + low, ls.drop 3)
  | _ => none

/-- The number of octets of a character whose first is `octet`. -/
def octetCount? (octet : Nat) : Option Nat :=
  if octet < 0x80 then some 1
  else if 0xC0 ≤ octet ∧ octet < 0xE0 then some 2
  else if 0xE0 ≤ octet ∧ octet < 0xF0 then some 3
  else if 0xF0 ≤ octet ∧ octet < 0xF8 then some 4
  else none

/-- So many octets that go on with a character. -/
def laterOctets? : Nat → List Letter → Option (List Nat × List Letter)
  | 0, ls => some ([], ls)
  | count + 1, ls => do
    let (octet, ls) ← octet? ls
    if octet < 0x80 ∨ 0xC0 ≤ octet then none
    let (more, rest) ← laterOctets? count ls
    return (octet :: more, rest)

/-- An escaped character, octet by octet. -/
def escapedOctets? (ls : List Letter) : Option (List Nat × List Letter) := do
  let (octet, ls) ← octet? ls
  let count ← octetCount? octet
  let (more, rest) ← laterOctets? (count - 1) ls
  return (octet :: more, rest)

/-- The text of a tag. Octets count as the characters with their numbers: no tag with a meaning here has
any beyond ASCII. -/
def tagText? (full : Bool) : Nat → List Letter → Option (List Char × List Letter)
  | fuel + 1, l :: ls =>
    if l.char = '%' then do
      let (octets, ls) ← escapedOctets? (l :: ls)
      let (more, rest) ← tagText? full fuel ls
      return (octets.map Char.ofNat ++ more, rest)
    else if isTagChar full l.char then
      (tagText? full fuel ls).map fun (more, rest) => (l.char :: more, rest)
    else some ([], l :: ls)
  | _, ls => some ([], ls)

/-- The text of a tag up to the end of the word. An escaped NUL ends it before. -/
def tagWord? (full : Bool) (ls : List Letter) : Option (List Char × List Letter) :=
  let most := (ls.takeWhile (!·.isSpace)).length
  (tagText? full most ls).map fun (text, rest) => (text.takeWhile (· ≠ '\x00'), rest)

/-- The text of a tag, which has to begin with a character of tags. -/
def someTagWord? (full : Bool) (ls : List Letter) : Option (List Char × List Letter) :=
  if ls.head?.any fun l => l.char = '%' || isTagChar full l.char then tagWord? full ls else none

/-- A tag as it is written: its handle stands for its beginning. One that is written in full has none. -/
structure TagName where
  handle : List Char
  suffix : List Char
  deriving DecidableEq

/-- The handle at the front of what follows an exclamation mark: up to a second one if a word at most
stands between them, and otherwise the first alone. -/
def handle (ls : List Letter) : List Char × List Letter :=
  match behind? '!' (word ls).2 with
  | some rest => ('!' :: ((word ls).1 ++ ['!']), rest)
  | none => (['!'], ls)

/-- The tag behind its first exclamation mark. That mark alone is a tag written in full. -/
def tagName? (ls : List Letter) : Option (TagName × List Letter) := do
  match behind? '<' ls with
  | some ls =>
    let (text, rest) ← someTagWord? true ls
    return (⟨[], text⟩, ← behind? '>' rest)
  | none =>
    let (handle, ls) := handle ls
    if handle ≠ ['!'] then
      let (text, rest) ← someTagWord? false ls
      return (⟨handle, text⟩, rest)
    else
      let (text, rest) ← tagWord? false ls
      return (if text.isEmpty then ⟨[], ['!']⟩ else ⟨handle, text⟩, rest)

/-- A tag ends before white space, between brackets also before a comma. -/
def tag? (flow : Bool) (ls : List Letter) : Option (TagName × List Letter) := do
  let (tag, rest) ← tagName? ls
  if endsWord rest || (flow && rest.head?.any (·.char = ',')) then some (tag, rest) else none

inductive Directive where
  /-- A version of the language that is known. -/
  | version
  /-- What a handle stands for. -/
  | tag (handle start : List Char)
  deriving DecidableEq

/-- A number of at most nine digits in a version. -/
def versionNumber? (ls : List Letter) : Option (Nat × List Letter) :=
  let digits := chars (ls.takeWhile (Decimal.isDigit ·.char))
  if digits.isEmpty ∨ 9 < digits.length then none
  else some (Decimal.value digits, ls.drop digits.length)

/-- The versions 1.1 and 1.2 are known. -/
def version? (ls : List Letter) : Option (List Letter) := do
  let (major, rest) ← versionNumber? ls
  let (minor, rest) ← versionNumber? (← behind? '.' rest)
  if major = 1 ∧ (minor = 1 ∨ minor = 2) then some rest else none

/-- A handle, white space, and the text that the handle stands for. -/
def tagDirective? (ls : List Letter) : Option (Directive × List Letter) := do
  let (handle, rest) := handle (← behind? '!' ls)
  if !rest.head?.any Letter.isGap then none
  let (text, rest) ← someTagWord? true (rest.dropWhile Letter.isGap)
  if endsWord rest then some (.tag handle text, rest) else none

/-- The directive behind its percent sign, with the rest of its line. -/
def directive? (ls : List Letter) : Option (Directive × List Letter) := do
  let (name, rest) := word ls
  if !endsWord rest then none
  let arguments := rest.dropWhile Letter.isGap
  let (directive, rest) ←
    match String.ofList name with
    | "YAML" => (version? arguments).map (Directive.version, ·)
    | "TAG" => tagDirective? arguments
    | _ => none
  return (directive, ← nextLine? rest)

end ReadingBench.Yaml
