import ReadingBench.Proofs.Sql.Grammar

namespace ReadingBench.Sql

open Text

theorem byteLength_append (as bs : List Char) : byteLength (as ++ bs) = byteLength as + byteLength bs := by
  induction as with
  | nil => simp [byteLength]
  | cons a as ih =>
    simp only [byteLength, List.cons_append, List.foldr_cons] at ih ⊢
    omega

theorem byteLength_eq_zero {cs : List Char} : byteLength cs = 0 ↔ cs = [] := by
  cases cs with
  | nil => exact iff_of_true rfl rfl
  | cons c cs =>
    have hpos := c.utf8Size_pos
    simp only [byteLength, List.foldr_cons, reduceCtorEq, iff_false]
    omega

theorem utf8Size_toUpper (c : Char) : c.toUpper.utf8Size = c.utf8Size := by
  unfold Char.toUpper
  split
  case isTrue lower =>
    have hlow : 97 ≤ c.val.toNat := UInt32.le_iff_toNat_le.1 lower.1
    have hhigh : c.val.toNat ≤ 122 := UInt32.le_iff_toNat_le.1 lower.2
    have hsmall : c.val ≤ 127 := UInt32.le_iff_toNat_le.2 (hhigh.trans (by decide))
    have hupper : c.val + ('A'.val - 'a'.val) ≤ 127 := by
      have hshift : ('A'.val - 'a'.val).toNat = 4294967264 := by decide
      rw [UInt32.le_iff_toNat_le, UInt32.toNat_add, hshift]
      exact (by omega : (c.val.toNat + 4294967264) % 2 ^ 32 ≤ 127)
    rw [Char.utf8Size_eq_one_iff.2 hsmall]
    exact Char.utf8Size_eq_one_iff.2 hupper
  case isFalse => rfl

theorem byteLength_map_toUpper (cs : List Char) : byteLength (cs.map Char.toUpper) = byteLength cs := by
  rw [byteLength, List.foldr_map]
  simp only [utf8Size_toUpper]
  rfl

theorem byteLength_toList (s : String) : byteLength s.toList = s.utf8ByteSize := by
  induction s using String.push_induction with
  | empty => rfl
  | push s c ih =>
    rw [String.toList_push, byteLength_append, ih, String.utf8ByteSize_push]
    rfl

/-- A text before and after a byte offset, if the offset lies within the text and between two characters. -/
def cut? : List Char → Nat → Option (List Char × List Char)
  | cs, 0 => some ([], cs)
  | [], _ + 1 => none
  | c :: cs, n + 1 =>
    if c.utf8Size ≤ n + 1 then
      (cut? cs (n + 1 - c.utf8Size)).map fun (before, after) => (c :: before, after)
    else none

theorem cut?_byteLength (before after : List Char) :
    cut? (before ++ after) (byteLength before) = some (before, after) := by
  induction before with
  | nil => cases after <;> rfl
  | cons c before ih =>
    have hpos := c.utf8Size_pos
    obtain ⟨n, hn⟩ : ∃ n, byteLength (c :: before) = n + 1 :=
      Nat.exists_eq_add_one.2 (by simp only [byteLength, List.foldr_cons]; omega)
    have hlength : c.utf8Size + byteLength before = n + 1 := hn
    have hle : c.utf8Size ≤ n + 1 := by omega
    have hrest : n + 1 - c.utf8Size = byteLength before := by omega
    rw [hn, List.cons_append, cut?, if_pos hle, hrest, ih]
    rfl

theorem cut?_eq_some {cs before after : List Char} {n : Nat} (h : cut? cs n = some (before, after)) :
    cs = before ++ after ∧ byteLength before = n := by
  fun_induction cut? cs n generalizing before with
  | case1 =>
    obtain ⟨rfl, rfl⟩ := Prod.mk.inj (Option.some.inj h)
    exact ⟨rfl, rfl⟩
  | case2 => cases h
  | case3 c cs n hle ih =>
    obtain ⟨⟨inner, behind⟩, hinner, h⟩ := Option.map_eq_some_iff.1 h
    obtain ⟨rfl, rfl⟩ := Prod.mk.inj h
    obtain ⟨rfl, hlength⟩ := ih hinner
    refine ⟨rfl, ?_⟩
    simp only [byteLength, List.foldr_cons] at hlength ⊢
    omega
  | case4 => cases h

example : cut? ['a', 'é'] 2 = none := by decide

inductive Failure where
  | stopped (e : SyntaxError)
  /-- A slice past the end of the text, or through a character. -/
  | badSlice
  deriving DecidableEq

structure Input where
  text : List Char
  /-- How often a loop may go round. -/
  rounds : Nat

/-- From an input and an offset to an outcome and the next offset, if it comes to an outcome. -/
abbrev Cursor (α : Type) := ReaderT Input (StateT Nat (ExceptT Failure Option)) α

namespace Cursor

def endless {α : Type} : Cursor α := fun _ _ => none

def stop {α : Type} (what : Missing) : Cursor α := do
  throw (.stopped (.missing what (← get)))

/-- Both sides of an offset of a text. -/
def cut (cs : List Char) (offset : Nat) : Cursor (List Char × List Char) :=
  match cut? cs offset with
  | some parts => return parts
  | none => throw .badSlice

/-- The text from the offset on. -/
def rest : Cursor (List Char) := do
  return (← cut (← read).text (← get)).2

def between (start stop : Nat) : Cursor (List Char) := do
  let (before, _) ← cut (← read).text stop
  return (← cut before start).2

def atEnd : Cursor Bool := do
  return byteLength (← read).text ≤ (← get)

def peek : Cursor (Option Char) := do
  return (← rest).head?

def bump : Cursor (Option Char) := do
  match ← peek with
  | some c => modify (· + c.utf8Size); return some c
  | none => return none

def skipRounds (p : Char → Bool) : Nat → Cursor Unit
  | 0 => endless
  | rounds + 1 => do
    if (← peek).any p then
      let _ ← bump
      skipRounds p rounds

def skipWhile (p : Char → Bool) : Cursor Unit := do
  skipRounds p (← read).rounds

def blanks : Cursor Unit := skipWhile isBlank

def eat (c : Char) : Cursor Bool := do
  blanks
  if (← peek) = some c then
    let _ ← bump
    return true
  else return false

def expect (c : Char) : Cursor Unit := do
  if !(← eat c) then stop (.mark c)

/-- Compares as many bytes as the keyword has, if they are whole characters. -/
def eatWord (word : String) : Cursor Bool := do
  blanks
  let cs ← rest
  match cut? cs word.utf8ByteSize with
  | some (head, _) =>
    if head.map Char.toUpper = word.toList.map Char.toUpper then
      let (_, behind) ← cut cs word.utf8ByteSize
      if behind.head?.any isWordChar then return false
      else
        modify (· + word.utf8ByteSize)
        return true
    else return false
  | none => return false

def expectWord (word : String) : Cursor Unit := do
  if !(← eatWord word) then stop (.keyword word)

/-- Goes on in a quoted text, of which it has read the part `before`. -/
def bodyRounds (mark : Char) (unclosed : Missing) : Nat → String → Cursor String
  | 0, _ => endless
  | rounds + 1, before => do
    match ← bump with
    | some c =>
      if c = mark then
        if (← peek) = some mark then
          let _ ← bump
          bodyRounds mark unclosed rounds (before.push mark)
        else return before
      else bodyRounds mark unclosed rounds (before.push c)
    | none => stop unclosed

/-- Goes on behind an opening mark. -/
def body (mark : Char) (unclosed : Missing) : Cursor String := do
  bodyRounds mark unclosed (← read).rounds ""

def ident : Cursor String := do
  blanks
  if (← peek) = some '`' then
    let _ ← bump
    body '`' .identifierEnd
  else
    let start ← get
    skipWhile isWordChar
    if start = (← get) then stop .identifier
    else return String.ofList (← between start (← get))

def tableRef : Cursor TableRef := do
  let first ← ident
  if (← peek) = some '.' then
    let _ ← bump
    return ⟨some first, ← ident⟩
  else return ⟨none, first⟩

/-- What a slice of number characters is read as. -/
def numeral (text : List Char) : Cursor Value :=
  match Decimal.readInt64? text, Decimal.readFloat? text with
  | some n, _ => return .int n
  | none, some x => return .float x
  | none, none => throw (.stopped (.badNumber (String.ofList text)))

def number : Cursor Value := do
  let start ← get
  if (← peek) = some '-' then
    let _ ← bump
  skipWhile Reader.isNumberChar
  numeral (← between start (← get))

def literal : Cursor Value := do
  blanks
  let next ← peek
  if next = some '\'' then
    let _ ← bump
    return .text (← body '\'' .textEnd)
  else if next.any fun c => c = '-' || Decimal.isDigit c then number
  else if ← eatWord "NULL" then return .null
  else stop .literal

/-- Goes on as long as a comma follows. -/
def itemRounds {α : Type} (item : Cursor α) : Nat → Cursor (List α)
  | 0 => endless
  | rounds + 1 => do
    let first ← item
    if ← eat ',' then return first :: (← itemRounds item rounds) else return [first]

def items {α : Type} (item : Cursor α) : Cursor (List α) := do
  itemRounds item (← read).rounds

def bracketed {α : Type} (item : Cursor α) : Cursor (List α) := do
  expect '('
  let all ← items item
  expect ')'
  return all

def tuples : Cursor (List (List Value)) := items (bracketed literal)

def finish (what : Missing) : Cursor Unit := do
  blanks
  if !(← atEnd) then stop what

def values : Cursor (List (List Value)) := do
  let rows ← tuples
  finish .endOfValues
  return rows

def insertText : Cursor InsertText := do
  expectWord "INSERT"
  let ignore ← eatWord "IGNORE"
  expectWord "INTO"
  let table ← tableRef
  let columns ← bracketed ident
  expectWord "VALUES"
  let rows ← tuples
  blanks
  let _ ← eat ';'
  finish .endOfInsert
  return { ignore, table, columns, rows }

def insert : Cursor InsertText := do
  let insert ← insertText
  match insert.rows.find? (·.length ≠ insert.columns.length) with
  | some row => throw (.stopped (.arity row.length insert.columns.length))
  | none => return insert

/-- The outcome on a whole text, if no loop goes round more often than `rounds` times. -/
def run {α : Type} (rounds : Nat) (c : Cursor α) (s : String) : Option (Except Failure α) :=
  ((c ⟨s.toList, rounds⟩).run 0).run.map fun outcome => outcome.map Prod.fst

end Cursor
end ReadingBench.Sql
