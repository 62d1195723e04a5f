import Mathlib
import ReadingBench.Text.StringList

namespace ReadingBench.Text

def hexValue? (c : Char) : Option Nat :=
  if '0' ≤ c ∧ c ≤ '9' then some (c.toNat - 48)
  else if 'a' ≤ c ∧ c ≤ 'f' then some (c.toNat - 87)
  else if 'A' ≤ c ∧ c ≤ 'F' then some (c.toNat - 55)
  else none

/-- The four digits of `u0000`, and what stands behind them. -/
def readCodeUnit? : List Char → Option (Nat × List Char)
  | 'u' :: a :: b :: c :: d :: rest => do
    let value := ((← hexValue? a) * 16 + (← hexValue? b)) * 16 + (← hexValue? c)
    return (value * 16 + (← hexValue? d), rest)
  | _ => none

/-- The character of a code unit. One beyond the first plane takes two, a high and a low surrogate. -/
def readScalar? (unit : Nat) (rest : List Char) : Option (Char × List Char) :=
  if unit < 0xD800 ∨ 0xE000 ≤ unit then some (Char.ofNat unit, rest)
  else
    match rest with
    | '\\' :: more => do
      let (low, rest) ← readCodeUnit? more
      if unit < 0xDC00 ∧ 0xDC00 ≤ low ∧ low < 0xE000 then
        some (Char.ofNat (0x10000 + (unit - 0xD800) * 0x400 + (low - 0xDC00)), rest)
      else none
    | _ => none

def shortEscape? : Char → Option Char
  | '"' => some '"'
  | '\\' => some '\\'
  | '/' => some '/'
  | 'b' => some '\x08'
  | 'f' => some '\x0c'
  | 'n' => some '\n'
  | 'r' => some '\r'
  | 't' => some '\t'
  | _ => none

/-- What a backslash escapes. -/
def readEscape? (cs : List Char) : Option (Char × List Char) :=
  match readCodeUnit? cs with
  | some (unit, rest) => readScalar? unit rest
  | none =>
    match cs with
    | c :: rest => (shortEscape? c).map fun c => (c, rest)
    | [] => none

/-- One character inside a string, and what stands behind it. -/
def readChar? : List Char → Option (Char × List Char)
  | '\\' :: rest => readEscape? rest
  | c :: rest => if c = '"' ∨ c.toNat < 0x20 then none else some (c, rest)
  | [] => none

section Length

variable {cs rest : List Char} {c : Char} {unit : Nat}

theorem length_of_readCodeUnit (h : readCodeUnit? cs = some (unit, rest)) : rest.length < cs.length := by
  unfold readCodeUnit? at h
  split at h
  · simp only [bind, Option.bind_eq_some_iff, pure, Option.some.injEq, Prod.mk.injEq] at h
    obtain ⟨_, -, _, -, _, -, _, -, -, rfl⟩ := h
    simp only [List.length_cons]
    omega
  · cases h

theorem length_of_readScalar (h : readScalar? unit cs = some (c, rest)) : rest.length ≤ cs.length := by
  unfold readScalar? at h
  split at h
  · obtain ⟨-, rfl⟩ := Prod.mk.inj (Option.some.inj h)
    exact Nat.le_refl _
  · split at h
    · obtain ⟨⟨low, behind⟩, hunit, h⟩ := Option.bind_eq_some_iff.1 h
      have hlength := length_of_readCodeUnit hunit
      dsimp only at h
      split at h
      · obtain ⟨-, rfl⟩ := Prod.mk.inj (Option.some.inj h)
        simp only [List.length_cons]
        omega
      · cases h
    · cases h

theorem length_of_readChar (h : readChar? cs = some (c, rest)) : rest.length < cs.length := by
  unfold readChar? at h
  split at h
  · unfold readEscape? at h
    split at h
    · rename_i hunit
      have hlength := length_of_readCodeUnit hunit
      have hscalar := length_of_readScalar h
      simp only [List.length_cons]
      omega
    · split at h
      · simp only [Option.map_eq_some_iff, Prod.mk.injEq] at h
        obtain ⟨_, -, -, rfl⟩ := h
        simp only [List.length_cons]
        omega
      · cases h
  · split at h
    · cases h
    · cases h
      simp
  · cases h

end Length

theorem hexValue?_hexDigit {n : Nat} (h : n < 16) : hexValue? (hexDigit n) = some n := by
  revert n
  decide

theorem readScalar?_of_lt {unit : Nat} (h : unit < 0xD800) (rest : List Char) :
    readScalar? unit rest = some (Char.ofNat unit, rest) := by
  unfold readScalar?
  exact if_pos (.inl h)

theorem readChar?_jsonChar (c : Char) (rest : List Char) :
    readChar? (jsonChar c ++ rest) = some (c, rest) := by
  unfold jsonChar
  split
  · rfl
  · rfl
  · rfl
  · rfl
  · rfl
  · rfl
  · rfl
  · rename_i hquote hbackslash _ _ _ _ _
    split
    · rename_i hcontrol
      have hhigh : hexValue? (hexDigit (c.toNat / 16)) = some (c.toNat / 16) :=
        hexValue?_hexDigit (by omega)
      have hlow : hexValue? (hexDigit (c.toNat % 16)) = some (c.toNat % 16) :=
        hexValue?_hexDigit (by omega)
      have hzero : hexValue? '0' = some 0 := rfl
      have hvalue : ((0 * 16 + 0) * 16 + c.toNat / 16) * 16 + c.toNat % 16 = c.toNat := by omega
      have hunit : readCodeUnit? ('u' :: '0' :: '0' :: hexDigit (c.toNat / 16) ::
          hexDigit (c.toNat % 16) :: rest) = some (c.toNat, rest) := by
        simp only [readCodeUnit?, hzero, hhigh, hlow, bind, Option.bind_some, hvalue]
        rfl
      have hscalar : c.toNat < 0xD800 := by omega
      simp only [List.cons_append, List.nil_append, readChar?, readEscape?, hunit]
      rw [readScalar?_of_lt hscalar, Char.ofNat_toNat]
    · rename_i hplain
      simp only [List.cons_append, List.nil_append]
      rw [readChar?]
      · exact if_neg (not_or.2 ⟨hquote, hplain⟩)
      · exact hbackslash

/-- Reads up to the closing quote. -/
def readString? (cs : List Char) : Option (List Char × List Char) :=
  match _ : readChar? cs with
  | some (c, rest) => (readString? rest).map fun (text, rest) => (c :: text, rest)
  | none =>
    match cs with
    | '"' :: rest => some ([], rest)
    | _ => none
termination_by cs.length
decreasing_by exact length_of_readChar ‹_›

theorem readString?_cons {cs rest : List Char} {c : Char} (h : readChar? cs = some (c, rest)) :
    readString? cs = (readString? rest).map fun (text, rest) => (c :: text, rest) := by
  rw [readString?]
  split
  · rename_i c' rest' h'
    obtain ⟨rfl, rfl⟩ := Prod.mk.inj (Option.some.inj (h.symm.trans h'))
    rfl
  · rename_i h'
    cases h.symm.trans h'

theorem readString?_quote (rest : List Char) : readString? ('"' :: rest) = some ([], rest) := by
  rw [readString?]
  rfl

theorem readString?_jsonChars (cs rest : List Char) :
    readString? (cs.flatMap jsonChar ++ '"' :: rest) = some (cs, rest) := by
  induction cs with
  | nil => exact readString?_quote rest
  | cons c cs ih =>
    rw [List.flatMap_cons, List.append_assoc, readString?_cons (readChar?_jsonChar c _), ih]
    rfl

theorem length_of_readString {cs text rest : List Char} (h : readString? cs = some (text, rest)) :
    rest.length < cs.length := by
  induction cs using readString?.induct generalizing text rest with
  | case1 cs c behind hchar ih =>
    rw [readString?_cons hchar, Option.map_eq_some_iff] at h
    obtain ⟨⟨more, last⟩, hmore, h⟩ := h
    obtain ⟨-, rfl⟩ := Prod.mk.inj h
    exact Nat.lt_trans (ih hmore) (length_of_readChar hchar)
  | case2 behind hchar =>
    rw [readString?_quote] at h
    obtain ⟨-, rfl⟩ := Prod.mk.inj (Option.some.inj h)
    exact Nat.lt_succ_self _
  | case3 cs hchar _ hother =>
    rw [readString?] at h
    split at h
    · rename_i hsome
      cases hchar.symm.trans hsome
    · split at h
      · exact (hother _ hchar rfl HEq.rfl).elim
      · cases h

/-- White space between the parts of a JSON text. -/
def isJsonSpace (c : Char) : Bool := c = ' ' ∨ c = '\t' ∨ c = '\n' ∨ c = '\r'

/-- One string of the array with the mark behind it. -/
def readItem? (cs : List Char) : Option (String × Char × List Char) :=
  match cs.dropWhile isJsonSpace with
  | '"' :: rest => do
    let (text, rest) ← readString? rest
    match rest.dropWhile isJsonSpace with
    | mark :: rest => some (String.ofList text, mark, rest)
    | [] => none
  | _ => none

theorem length_of_readItem {cs rest : List Char} {text : String} {mark : Char}
    (h : readItem? cs = some (text, mark, rest)) : rest.length < cs.length := by
  have hblank : ∀ cs : List Char, (cs.dropWhile isJsonSpace).length ≤ cs.length := fun cs =>
    (List.dropWhile_suffix isJsonSpace).length_le
  unfold readItem? at h
  split at h
  · rename_i behind hquote
    obtain ⟨⟨chars, more⟩, hstring, h⟩ := Option.bind_eq_some_iff.1 h
    dsimp only at h
    split at h
    · rename_i mark' last hmark
      obtain ⟨-, hlast⟩ := Prod.mk.inj (Option.some.inj h)
      obtain ⟨-, rfl⟩ := Prod.mk.inj hlast
      have hopens := congrArg List.length hquote
      have hends := congrArg List.length hmark
      have hlength := length_of_readString hstring
      have hstarts := hblank cs
      have hskips := hblank more
      simp only [List.length_cons] at hopens hends
      omega
    · cases h
  · cases h

/-- Strings with commas between them, up to the closing bracket. -/
def readStrings? (cs : List Char) : Option (List String × List Char) :=
  match _ : readItem? cs with
  | some (text, ',', rest) => (readStrings? rest).map fun (texts, rest) => (text :: texts, rest)
  | some (text, ']', rest) => some ([text], rest)
  | _ => none
termination_by cs.length
decreasing_by exact length_of_readItem ‹_›

theorem readItem?_jsonString (s : String) {mark : Char} (hmark : isJsonSpace mark = false) (rest : List Char) :
    readItem? (jsonString s ++ mark :: rest) = some (s, mark, rest) := by
  have hstart : (jsonString s ++ mark :: rest).dropWhile isJsonSpace =
      '"' :: (s.toList.flatMap jsonChar ++ '"' :: mark :: rest) := by
    simp [jsonString, isJsonSpace]
  have hend : (mark :: rest).dropWhile isJsonSpace = mark :: rest := by
    rw [List.dropWhile_cons_of_neg (by simp [hmark])]
  simp [readItem?, hstart, readString?_jsonChars, hend]

theorem readStrings?_comma {cs rest : List Char} {s : String} (h : readItem? cs = some (s, ',', rest)) :
    readStrings? cs = (readStrings? rest).map fun (texts, rest) => (s :: texts, rest) := by
  rw [readStrings?]
  split <;> simp_all

theorem readStrings?_bracket {cs rest : List Char} {s : String} (h : readItem? cs = some (s, ']', rest)) :
    readStrings? cs = some ([s], rest) := by
  rw [readStrings?]
  split <;> simp_all

theorem readStrings?_jsonStrings (s : String) (ss : List String) (rest : List Char) :
    readStrings? (jsonStrings (s :: ss) ++ ']' :: rest) = some (s :: ss, rest) := by
  induction ss generalizing s with
  | nil =>
    rw [jsonStrings]
    exact readStrings?_bracket (readItem?_jsonString s rfl rest)
  | cons t ss ih =>
    rw [jsonStrings, List.append_assoc, List.cons_append,
      readStrings?_comma (readItem?_jsonString s rfl _), ih]
    rfl

/-- An array, empty or not. -/
def readList? (cs : List Char) : Option (List String × List Char) :=
  match cs.dropWhile isJsonSpace with
  | '[' :: rest =>
    match rest.dropWhile isJsonSpace with
    | ']' :: rest => some ([], rest)
    | items => readStrings? items
  | _ => none

/-- The list in the text of a JSON array of strings. -/
def decodeList (s : String) : Option (List String) :=
  match readList? s.toList with
  | some (texts, rest) => if rest.all isJsonSpace then some texts else none
  | none => none

/-- Every list is read back from its text. -/
theorem decodeList_encodeList (ss : List String) : decodeList (encodeList ss) = some ss := by
  unfold decodeList encodeList
  rw [String.toList_ofList]
  cases ss with
  | nil => rfl
  | cons s ss =>
    have hitems := readStrings?_jsonStrings s ss []
    obtain ⟨behind, hquote⟩ : ∃ behind, jsonStrings (s :: ss) = '"' :: behind := by
      cases ss <;> exact ⟨_, rfl⟩
    rw [hquote] at hitems ⊢
    have hlist : readList? ('[' :: ('"' :: behind ++ [']'])) =
        readStrings? ('"' :: behind ++ [']']) := rfl
    rw [hlist, hitems]
    rfl

/-- Escapes that the encoder does not use are read too. -/
example : decodeList "[ \"\\u00e9\" , \"\\ud83d\\ude00\" ]" = some ["é", "😀"] := by decide +kernel

end ReadingBench.Text
