import ReadingBench.Document.Node
import ReadingBench.Document.Yaml.Letter

namespace ReadingBench.Yaml

/-- What stands for a stretch of white space between words. Separators of lines and of paragraphs stay. -/
def folded (space : List Char) : List Char :=
  match space.filter isBreak with
  | [] => space
  | ['\n'] => [' ']
  | '\n' :: more => more
  | breaks => breaks

def escapes : List (Char × Char) :=
  [('0', '\x00'), ('a', '\x07'), ('b', '\x08'), ('t', '\t'), ('\t', '\t'), ('n', '\n'), ('v', '\x0b'),
    ('f', '\x0c'), ('r', '\r'), ('e', '\x1b'), (' ', ' '), ('"', '"'), ('/', '/'), ('\\', '\\'),
    ('N', '\u0085'), ('_', '\u00a0'), ('L', '\u2028'), ('P', '\u2029')]

/-- The character with a number of hexadecimal digits. -/
def numbered? (digits : Nat) (ls : List Letter) : Option (List Char × List Letter) := do
  let n ← Node.natOf? 16 (chars (ls.take digits))
  if h : n.isValidChar then some ([Char.ofNatAux n h], ls.drop digits) else none

/-- What a backslash and the letters behind it stand for. An escaped line end stands for nothing, with
the white space behind it but for further line ends. -/
def escaped? : List Letter → Option (List Char × List Letter)
  | [] => none
  | l :: ls =>
    if l.isBreak then
      some ((chars (ls.takeWhile Letter.isSpace)).filter isBreak, ls.dropWhile Letter.isSpace)
    else
      match l.char with
      | 'x' => numbered? 2 ls
      | 'u' => numbered? 4 ls
      | 'U' => numbered? 8 ls
      | c => (escapes.lookup c).map ([·], ls)

/-- The rest of a quoted scalar, in at most `fuel` steps. Single quotes know no escape but the doubled
mark. -/
def quoted? (mark : Char) : Nat → List Letter → Option (List Char × List Letter)
  | fuel + 1, l :: ls =>
    if atMarker (l :: ls) then none
    else if l.isSpace then
      (quoted? mark fuel (ls.dropWhile Letter.isSpace)).map fun (text, rest) =>
        (folded (l.char :: chars (ls.takeWhile Letter.isSpace)) ++ text, rest)
    else if l.char = mark then
      if mark = '\'' ∧ ls.head?.any (·.char = mark) then
        (quoted? mark fuel (ls.drop 1)).map fun (text, rest) => (mark :: text, rest)
      else some ([], ls)
    else if mark = '"' ∧ l.char = '\\' then do
      let (text, ls) ← escaped? ls
      let (more, rest) ← quoted? mark fuel ls
      return (text ++ more, rest)
    else (quoted? mark fuel ls).map fun (text, rest) => (l.char :: text, rest)
  | _, _ => none

def isFlowMark (c : Char) : Bool := c ∈ [',', '[', ']', '{', '}']

/-- Marks that no plain scalar starts with. -/
def isIndicator (c : Char) : Bool :=
  isFlowMark c || c ∈ ['#', '&', '*', '!', '|', '>', '\'', '"', '%', '@', '`']

/-- Whether a plain scalar starts here. Between brackets a colon or a question mark never starts one. -/
def startsPlain (flow : Bool) : List Letter → Bool
  | [] => false
  | l :: ls =>
    if l.char = '-' then !endsWord ls
    else if l.char ∈ ['?', ':'] then !flow && !endsWord ls
    else !l.isSpace && !isIndicator l.char

/-- The letters up to white space, to a colon that ends a key or, between brackets, to a mark. A colon
there has to stand off from a mark behind it. -/
def plainWord? (flow : Bool) : List Letter → Option (List Char × List Letter)
  | [] => some ([], [])
  | l :: ls =>
    let colon := l.char = ':'
    if colon && flow && ls.head?.any fun m => isFlowMark m.char || m.char = '?' then none
    else if l.isSpace || (colon && endsWord ls) || (flow && isFlowMark l.char) then some ([], l :: ls)
    else (plainWord? flow ls).map fun (text, rest) => (l.char :: text, rest)

/-- Words up to a comment, a marker or a line that is indented less than `indent`, after the white space
`space`. The flag says whether a line end stands behind the last of them. Tabs do not indent. -/
def plain? (flow : Bool) (indent : Nat) :
    Nat → List Char → List Letter → Option ((List Char × Bool) × List Letter)
  | 0, _, _ => none
  | fuel + 1, space, ls => do
    let (word, rest) ← if atMarker ls || ls.head?.any (·.char = '#') then some ([], ls) else plainWord? flow ls
    if word.isEmpty then return (([], space.any isBreak), ls)
    let gap := rest.takeWhile Letter.isSpace
    if (gap.dropWhile (!·.isBreak)).any fun l => l.char = '\t' && l.column < indent then none
    let next := rest.dropWhile Letter.isSpace
    let text := folded space ++ word
    if !flow && next.head?.any (·.column < indent) then return ((text, gap.any Letter.isBreak), next)
    let ((more, broken), rest) ← plain? flow indent fuel (chars gap) next
    return ((text ++ more, broken), rest)

/-- What is kept of the line ends behind a block scalar. -/
inductive Chomping where
  | strip
  | clip
  | keep
  deriving DecidableEq

def chomping? : List Letter → Option (Chomping × List Letter)
  | [] => none
  | l :: ls =>
    match l.char with
    | '-' => some (.strip, ls)
    | '+' => some (.keep, ls)
    | _ => none

/-- How far the text is indented beyond its parent: a digit, but no zero; 0 if that is left open. -/
def indentation? : List Letter → Option (Nat × List Letter)
  | [] => some (0, [])
  | l :: ls =>
    if l.char = '0' then none
    else if Decimal.isDigit l.char then some (l.char.toNat - 48, ls)
    else some (0, l :: ls)

/-- The header of a block scalar: both marks in any order, and nothing else on the line. -/
def blockHeader? (ls : List Letter) : Option ((Chomping × Nat) × List Letter) := do
  match chomping? ls with
  | some (chomping, ls) =>
    let (n, ls) ← indentation? ls
    return ((chomping, n), ← nextLine? ls)
  | none =>
    let (n, ls) ← indentation? ls
    let (chomping, ls) := (chomping? ls).getD (.clip, ls)
    return ((chomping, n), ← nextLine? ls)

/-- Skips blank lines and the indentation up to the column `indent`, or all spaces where that is 0. Gives
the line ends, and the greatest column that was reached. Tabs do not indent. -/
def blankLines? (indent : Nat) : List Letter → Nat → Option ((List Char × Nat) × List Letter)
  | [], reached => some (([], reached), [])
  | l :: ls, reached =>
    let inside := indent = 0 || l.column < indent
    if inside && l.char = ' ' then blankLines? indent ls (max reached (l.column + 1))
    else if inside && l.char = '\t' then none
    else if l.isBreak then
      (blankLines? indent ls reached).map fun ((breaks, reached), rest) =>
        ((l.char :: breaks, reached), rest)
    else some (([], reached), l :: ls)

/-- What stands between two lines of a block scalar that are `last` and then `breaks` apart. In a folded
one a line end becomes a space unless a line beside it starts with white space. -/
def joint (fold : Bool) (last breaks : List Char) : List Char :=
  if fold && last = ['\n'] then if breaks.isEmpty then [' '] else breaks else last ++ breaks

/-- What is kept of the line ends behind the last line, which ends in `last`. -/
def Chomping.keepOf (last breaks : List Char) : Chomping → List Char
  | strip => []
  | clip => last
  | keep => last ++ breaks

/-- The lines of a block scalar that is indented by `indent`, at most `fuel` of them, after a line that
ends in `last` and starts with white space or not, and after blank lines. -/
def blockLines? (literal : Bool) (chomping : Chomping) (indent : Nat) :
    Nat → List Char → Bool → List Char → List Letter → Option (List Char × List Letter)
  | 0, _, _, _, _ => none
  | fuel + 1, last, spaced, breaks, ls => do
    let some l := ls.head?.filter (·.column = indent) | return (chomping.keepOf last breaks, ls)
    let rest := ls.dropWhile (!·.isBreak)
    let ((more, _), next) ← blankLines? indent (rest.drop 1) 0
    let (text, after) ←
      blockLines? literal chomping indent fuel (chars (rest.take 1)) l.isGap more next
    let line := chars (ls.takeWhile (!·.isBreak))
    return (joint (!literal && !spaced && !l.isGap) last breaks ++ line ++ text, after)

/-- A block scalar behind its mark, of fewer than `most` lines, in a collection whose content is indented
by at least `least`. The first line that is not blank sets the indentation unless the header does. -/
def block? (most : Nat) (literal : Bool) (least : Nat) (ls : List Letter) : Option (List Char × List Letter) := do
  let ((chomping, n), ls) ← blockHeader? ls
  let given := if n = 0 then 0 else least - 1 + n
  let ((breaks, reached), rest) ← blankLines? given ls 0
  let indent := if n = 0 then max (max reached least) 1 else given
  blockLines? literal chomping indent most [] false breaks rest

end ReadingBench.Yaml
