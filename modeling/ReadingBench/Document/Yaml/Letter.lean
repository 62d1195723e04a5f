namespace ReadingBench.Yaml

/-- A character of a text in its place. A line end of any kind is one character: a carriage return, a line
feed, both together and the next-line character all read as a line feed, the separators of lines and of
paragraphs as themselves. -/
structure Letter where
  char : Char
  line : Nat
  column : Nat
  /-- The number of bytes before it. -/
  offset : Nat

/-- The characters that a text may hold. -/
def isAllowed (c : Char) : Bool :=
  let n := c.toNat
  n = 9 ∨ n = 10 ∨ n = 13 ∨ (0x20 ≤ n ∧ n ≤ 0x7E) ∨ n = 0x85 ∨ (0xA0 ≤ n ∧ n ≤ 0xFFFD) ∨ 0x10000 ≤ n

def isGap (c : Char) : Bool := c = ' ' || c = '\t'

def isBreak (c : Char) : Bool := c = '\n' || c = '\u2028' || c = '\u2029'

def isSpace (c : Char) : Bool := isGap c || isBreak c

def isByteOrderMark (c : Char) : Bool := c = '\ufeff'

/-- The letters of a text that goes on from a place. -/
def lettersFrom (line column offset : Nat) : List Char → List Letter
  | [] => []
  | '\r' :: '\n' :: cs => ⟨'\n', line, column, offset⟩ :: lettersFrom (line + 1) 0 (offset + 2) cs
  | c :: cs =>
    let char := if c = '\r' ∨ c = '\u0085' then '\n' else c
    let next := offset + c.utf8Size
    ⟨char, line, column, offset⟩ ::
      if isBreak char then lettersFrom (line + 1) 0 next cs else lettersFrom line (column + 1) next cs

/-- The letters of a text, if it holds no forbidden character. -/
def letters? (cs : List Char) : Option (List Letter) :=
  if cs.all isAllowed then some (lettersFrom 0 0 0 cs) else none

namespace Letter

def isGap (l : Letter) : Bool := Yaml.isGap l.char

def isBreak (l : Letter) : Bool := Yaml.isBreak l.char

def isSpace (l : Letter) : Bool := Yaml.isSpace l.char

end Letter

def chars (ls : List Letter) : List Char := ls.map (·.char)

/-- The letters behind `c`, if it is next. -/
def behind? (c : Char) : List Letter → Option (List Letter)
  | [] => none
  | l :: ls => if l.char = c then some ls else none

/-- Whether a word ends before the letter that comes next: there is none, or it is white space. -/
def endsWord (ls : List Letter) : Bool := ls.head?.all Letter.isSpace

/-- Whether three times `mark` stands alone at the start of a line. -/
def isMarker (mark : Char) (ls : List Letter) : Bool :=
  ls.head?.any (·.column = 0) && chars (ls.take 3) = [mark, mark, mark] && endsWord (ls.drop 3)

/-- Whether a document begins or ends here. -/
def atMarker (ls : List Letter) : Bool := isMarker '-' ls || isMarker '.' ls

/-- The next line, if nothing but white space and perhaps a comment is left on this one. -/
def nextLine? (ls : List Letter) : Option (List Letter) :=
  let ls := ls.dropWhile Letter.isGap
  let ls := if ls.head?.any (·.char = '#') then ls.dropWhile (!·.isBreak) else ls
  match ls with
  | [] => some []
  | l :: rest => if l.isBreak then some rest else none

end ReadingBench.Yaml
