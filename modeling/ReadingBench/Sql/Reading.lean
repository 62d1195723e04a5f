import ReadingBench.Decimal.Reading
import ReadingBench.Sql.Statement
import ReadingBench.Text.Alphanumeric

namespace ReadingBench.Sql

open Text

/-- What was missing where reading stopped. -/
inductive Missing where
  | mark (c : Char)
  | keyword (word : String)
  | identifier
  | identifierEnd
  | literal
  | textEnd
  | endOfValues
  | endOfInsert
  deriving DecidableEq

inductive SyntaxError where
  | missing (what : Missing) (offset : Nat)
  | badNumber (text : String)
  | arity (found expected : Nat)
  deriving DecidableEq

def Missing.message : Missing → String
  | mark c => s!"expected '{c}'"
  | keyword word => s!"expected {word}"
  | identifier => "expected identifier"
  | identifierEnd => "unterminated identifier"
  | literal => "expected literal"
  | textEnd => "unterminated string literal"
  | endOfValues => "trailing input after value list"
  | endOfInsert => "trailing input after insert"

def SyntaxError.message : SyntaxError → String
  | missing what offset => s!"{what.message} at offset {offset}"
  | badNumber text => s!"bad numeric literal '{text}'"
  | arity found expected => s!"tuple has {found} values, expected {expected}"

/-- Where reading stopped, with the characters that were left. -/
inductive Stop where
  | missing (what : Missing) (rest : List Char)
  | badNumber (text : List Char)

def byteLength (cs : List Char) : Nat := cs.foldr (fun c n => c.utf8Size + n) 0

def Stop.toError (input : List Char) : Stop → SyntaxError
  | missing what rest => .missing what (byteLength input - byteLength rest)
  | badNumber text => .badNumber (String.ofList text)

abbrev Reader (α : Type) := StateT (List Char) (Except Stop) α

namespace Reader

def stop {α : Type} (what : Missing) : Reader α := fun cs => .error (.missing what cs)

def blanks : Reader Unit := modify skipBlank

/-- Takes `c` if it is next. -/
def eat (c : Char) : Reader Bool := do
  blanks
  match ← get with
  | d :: rest => if d = c then set rest; return true else return false
  | [] => return false

def expect (c : Char) : Reader Unit := do
  if !(← eat c) then stop (.mark c)

/-- The characters after `word`, in any ASCII case, if they do not continue it to a longer word. -/
def afterWord? (word : String) (cs : List Char) : Option (List Char) :=
  let rest := cs.drop word.length
  if (cs.take word.length).map Char.toUpper = word.toList ∧ ¬rest.head?.any isWordChar then some rest
  else none

/-- Takes a keyword, given in capitals, if it is next. -/
def eatWord (word : String) : Reader Bool := do
  blanks
  match afterWord? word (← get) with
  | some rest => set rest; return true
  | none => return false

def expectWord (word : String) : Reader Unit := do
  if !(← eatWord word) then stop (.keyword word)

/-- The rest of a quoted text, after its opening mark. -/
def body (mark : Char) (unclosed : Missing) : Reader String := do
  match readBody? mark (← get) with
  | some (text, rest) => set rest; return String.ofList text
  | none => set ([] : List Char); stop unclosed

def ident : Reader String := do
  blanks
  match ← get with
  | '`' :: rest => set rest; body '`' .identifierEnd
  | cs =>
    let word := cs.takeWhile isWordChar
    if word.isEmpty then stop .identifier
    set (cs.dropWhile isWordChar)
    return String.ofList word

/-- A keyspace's point follows it at once. -/
def tableRef : Reader TableRef := do
  let first ← ident
  match ← get with
  | '.' :: rest => set rest; return ⟨some first, ← ident⟩
  | _ => return ⟨none, first⟩

def isNumberChar (c : Char) : Bool :=
  Decimal.isDigit c || c = '.' || c = 'e' || c = 'E' || c = '+' || c = '-'

/-- The longest run of number characters: an integer if it reads as one in range, else a float. -/
def number : Reader Value := do
  let text := (← get).takeWhile isNumberChar
  set ((← get).dropWhile isNumberChar)
  match Decimal.readInt64? text, Decimal.readFloat? text with
  | some n, _ => return .int n
  | none, some x => return .float x
  | none, none => throw (.badNumber text)

def literal : Reader Value := do
  blanks
  match ← get with
  | '\'' :: rest => set rest; return .text (← body '\'' .textEnd)
  | cs =>
    if cs.head?.any fun c => c = '-' || Decimal.isDigit c then number
    else if ← eatWord "NULL" then return .null
    else stop .literal

/-- One item or more with commas between them, at most `most`. -/
def separated {α : Type} (item : Reader α) : Nat → Reader (List α)
  | 0 => return []
  | most + 1 => do
    let first ← item
    if ← eat ',' then return first :: (← separated item most) else return [first]

/-- A list between round brackets. -/
def bracketed {α : Type} (item : Reader α) (most : Nat) : Reader (List α) := do
  expect '('
  let items ← separated item most
  expect ')'
  return items

def tuple (most : Nat) : Reader (List Value) := bracketed literal most

def tuples (most : Nat) : Reader (List (List Value)) := separated (tuple most) most

def finish (what : Missing) : Reader Unit := do
  blanks
  if !(← get).isEmpty then stop what

/-- Reads a text with the reader made for its number of characters. Each item of a list takes a
character, so no list has more items than that. -/
def run {α : Type} (r : (most : Nat) → Reader α) (cs : List Char) : Except SyntaxError α :=
  match r (cs.length + 1) cs with
  | .ok (a, _) => .ok a
  | .error e => .error (e.toError cs)

end Reader

open Reader

/-- Reads a tuple list such as `(1, 'a', NULL), (2, 'b', NULL)`. -/
def readValues (s : String) : Except SyntaxError (List (List Value)) :=
  Reader.run (fun most => do let rows ← tuples most; finish .endOfValues; return rows) s.toList

/-- A raw insert as it was written. -/
structure InsertText where
  ignore : Bool
  table : TableRef
  columns : List String
  rows : List (List Value)

namespace InsertText

def reader (most : Nat) : Reader InsertText := do
  expectWord "INSERT"
  let ignore ← eatWord "IGNORE"
  expectWord "INTO"
  let table ← tableRef
  let columns ← bracketed ident most
  expectWord "VALUES"
  let rows ← tuples most
  let _ ← eat ';'
  finish .endOfInsert
  return { ignore, table, columns, rows }

/-- Reads `INSERT [IGNORE] INTO table (columns) VALUES tuples`, with a semicolon at the end or not.
Every tuple must have a value for each column. -/
def read (s : String) : Except SyntaxError InsertText := do
  let insert ← Reader.run reader s.toList
  match insert.rows.find? (·.length ≠ insert.columns.length) with
  | some row => throw (.arity row.length insert.columns.length)
  | none => return insert

end InsertText
end ReadingBench.Sql
