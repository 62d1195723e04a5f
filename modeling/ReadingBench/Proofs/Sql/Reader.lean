import ReadingBench.Proofs.Outcome
import ReadingBench.Sql.Literal
import ReadingBench.Sql.Reading

namespace ReadingBench

namespace Decimal

theorem ne_minus_of_mem_digits {n : Nat} {c : Char} (h : c ∈ digits n) : c ≠ '-' := by
  rintro rfl
  exact absurd (isDigit_of_mem_digits h) (by decide)

theorem not_isBlank_of_isDigit {c : Char} (h : isDigit c) : ¬Text.isBlank c := by
  obtain ⟨hlow, hhigh⟩ : '0' ≤ c ∧ c ≤ '9' := by simpa [isDigit] using h
  have hlow : 48 ≤ c.toNat := hlow
  have hhigh : c.toNat ≤ 57 := hhigh
  simp only [Text.isBlank, decide_eq_true_eq]
  omega

theorem readInt64?_signed (n : Int64) : readInt64? (signed n.toInt) = some n := by
  have hdigits : ¬((digits n.toInt.natAbs).isEmpty ∨ ¬(digits n.toInt.natAbs).all isDigit) := by
    rintro (h | h)
    · exact digits_ne_nil _ (List.isEmpty_iff.1 h)
    · exact h (List.all_eq_true.2 fun c hc => isDigit_of_mem_digits hc)
  have hrange : Int64.minValue.toInt ≤ n.toInt ∧ n.toInt ≤ Int64.maxValue.toInt :=
    ⟨n.minValue_le_toInt, n.toInt_le⟩
  unfold readInt64? signed
  split
  rename_i negative ds hsign
  by_cases hneg : n.toInt < 0
  · rw [if_pos hneg] at hsign
    obtain ⟨rfl, rfl⟩ := Prod.mk.inj hsign
    have habs : -((n.toInt.natAbs : Nat) : Int) = n.toInt := by omega
    rw [if_neg hdigits, if_pos rfl, value_digits, habs]
    exact (if_pos hrange).trans (congrArg some (Int64.ofInt_toInt n))
  · rw [if_neg hneg] at hsign
    have habs : ((n.toInt.natAbs : Nat) : Int) = n.toInt := by omega
    split at hsign
    · rename_i rest hrest
      exact absurd rfl (ne_minus_of_mem_digits (hrest ▸ List.mem_cons_self))
    · obtain ⟨rfl, rfl⟩ := Prod.mk.inj hsign
      rw [if_neg hdigits, if_neg Bool.false_ne_true, value_digits, habs]
      exact (if_pos hrange).trans (congrArg some (Int64.ofInt_toInt n))

end Decimal

namespace Sql.Reader

open Text

variable {α β : Type}

theorem bind_run (r : Reader α) (f : α → Reader β) (cs : List Char) :
    (r >>= f) cs = (do
      let (a, rest) ← r cs
      f a rest) := rfl

theorem ok_bind_run {r : Reader α} {cs rest : List Char} {a : α} (h : r cs = .ok (a, rest))
    (f : α → Reader β) : (r >>= f) cs = f a rest := by
  rw [bind_run, h]
  rfl

theorem toOption_bind_run (r : Reader α) (f : α → Reader β) (cs : List Char) :
    ((r >>= f) cs).toOption = (r cs).toOption.bind fun (a, rest) => (f a rest).toOption :=
  Outcome.toOption_bind _ _

theorem get_bind_run (f : List Char → Reader α) (cs : List Char) :
    (get >>= f : Reader α) cs = f cs cs := rfl

theorem set_bind_run (rest : List Char) (f : PUnit → Reader α) (cs : List Char) :
    (set rest >>= f : Reader α) cs = f ⟨⟩ rest := rfl

theorem blanks_run (cs : List Char) : blanks cs = .ok ((), skipBlank cs) := rfl

theorem skipBlank_cons {c : Char} (hc : ¬isBlank c) (cs : List Char) :
    skipBlank (c :: cs) = c :: cs := by
  simp [skipBlank, hc]

theorem eat_hit {c : Char} {cs rest : List Char} (h : skipBlank cs = c :: rest) :
    eat c cs = .ok (true, rest) := by
  rw [eat, ok_bind_run (blanks_run cs), get_bind_run, h]
  simp only [if_true, set_bind_run]
  rfl

theorem eat_miss {c : Char} {cs : List Char} (h : (skipBlank cs).head? ≠ some c) :
    eat c cs = .ok (false, skipBlank cs) := by
  rw [eat, ok_bind_run (blanks_run cs), get_bind_run]
  cases hcs : skipBlank cs with
  | nil => rfl
  | cons d rest =>
    have hne : d ≠ c := fun hdc => h (by rw [hcs, hdc]; rfl)
    simp only [hne, if_false]
    rfl

theorem expect_hit {c : Char} {cs rest : List Char} (h : skipBlank cs = c :: rest) :
    expect c cs = .ok ((), rest) := by
  rw [expect, ok_bind_run (eat_hit h)]
  rfl

theorem eatWord_hit {word : String} {cs rest : List Char}
    (h : afterWord? word (skipBlank cs) = some rest) : eatWord word cs = .ok (true, rest) := by
  rw [eatWord, ok_bind_run (blanks_run cs), get_bind_run]
  simp only [h, set_bind_run]
  rfl

theorem expectWord_hit {word : String} {cs rest : List Char}
    (h : afterWord? word (skipBlank cs) = some rest) : expectWord word cs = .ok ((), rest) := by
  rw [expectWord, ok_bind_run (eatWord_hit h)]
  rfl

/-- A keyword in capitals is found where no word character follows it. -/
theorem afterWord?_append {word : String} (hword : word.toList.map Char.toUpper = word.toList)
    {rest : List Char} (hrest : ¬rest.head?.any isWordChar) :
    afterWord? word (word.toList ++ rest) = some rest := by
  have hlen : word.length = word.toList.length := String.length_toList.symm
  simp only [afterWord?, hlen, List.take_left, List.drop_left, hword]
  rw [if_pos ⟨trivial, hrest⟩]

theorem body_hit {mark : Char} {unclosed : Missing} (text : List Char) {rest : List Char}
    (h : rest.head? ≠ some mark) : body mark unclosed (quotedBody mark text ++ mark :: rest) =
      .ok (String.ofList text, rest) := by
  rw [body, get_bind_run]
  simp only [readBody?_body mark text h, set_bind_run]
  rfl

theorem ident_quote {cs : List Char} (name : String) {rest : List Char}
    (hrest : rest.head? ≠ some '`') (h : skipBlank cs = quote '`' name.toList ++ rest) :
    ident cs = .ok (name, rest) := by
  have hquote : skipBlank cs = '`' :: (quotedBody '`' name.toList ++ '`' :: rest) := by
    rw [h]
    simp [quote]
  rw [ident, ok_bind_run (blanks_run cs), get_bind_run, hquote]
  simp only [set_bind_run, body_hit name.toList hrest, String.ofList_toList]

theorem literal_quote {cs : List Char} (text : List Char) {rest : List Char}
    (hrest : rest.head? ≠ some '\'') (h : skipBlank cs = quote '\'' text ++ rest) :
    literal cs = .ok (.text (String.ofList text), rest) := by
  have hquote : skipBlank cs = '\'' :: (quotedBody '\'' text ++ '\'' :: rest) := by
    rw [h]
    simp [quote]
  rw [literal, ok_bind_run (blanks_run cs), get_bind_run, hquote]
  simp only [set_bind_run]
  rw [ok_bind_run (body_hit text hrest)]
  rfl

theorem isNumberChar_of_mem_signed {n : Int} {c : Char} (h : c ∈ Decimal.signed n) : isNumberChar c := by
  have hdigit : ∀ m, ∀ c ∈ Decimal.digits m, isNumberChar c := by
    intro m c hc
    simp [isNumberChar, Decimal.isDigit_of_mem_digits hc]
  unfold Decimal.signed at h
  split at h
  · rcases List.mem_cons.1 h with rfl | h
    · decide
    · exact hdigit _ c h
  · exact hdigit _ c h

theorem number_signed (n : Int64) {rest : List Char} (hrest : ¬rest.head?.any isNumberChar) :
    number (Decimal.signed n.toInt ++ rest) = .ok (.int n, rest) := by
  have hchars : ∀ c ∈ Decimal.signed n.toInt, isNumberChar c := fun _ hc => isNumberChar_of_mem_signed hc
  have hstop : rest.takeWhile isNumberChar = [] ∧ rest.dropWhile isNumberChar = rest := by
    cases rest with
    | nil => simp
    | cons c rest => simp_all
  rw [number, get_bind_run, get_bind_run, set_bind_run]
  rw [List.takeWhile_append_of_pos hchars, List.dropWhile_append_of_pos hchars, hstop.1, hstop.2,
    List.append_nil, Decimal.readInt64?_signed]
  rfl

theorem literal_signed {cs : List Char} (n : Int64) {rest : List Char}
    (hrest : ¬rest.head?.any isNumberChar) (h : skipBlank cs = Decimal.signed n.toInt ++ rest) :
    literal cs = .ok (.int n, rest) := by
  obtain ⟨c, tail, hsigned, hc⟩ : ∃ c tail, Decimal.signed n.toInt = c :: tail ∧
      (c = '-' ∨ Decimal.isDigit c) := by
    unfold Decimal.signed
    split
    · exact ⟨'-', _, rfl, .inl rfl⟩
    · cases hdigits : Decimal.digits n.toInt.natAbs with
      | nil => exact absurd hdigits (Decimal.digits_ne_nil _)
      | cons c tail =>
        have hmem : c ∈ c :: tail := List.mem_cons_self
        exact ⟨c, tail, rfl, .inr (Decimal.isDigit_of_mem_digits (hdigits ▸ hmem))⟩
  rw [literal, ok_bind_run (blanks_run cs), get_bind_run, h]
  have hnumber := number_signed n hrest
  have hne : c ≠ '\'' := by
    rintro rfl
    revert hc
    decide
  rw [hsigned, List.cons_append] at hnumber ⊢
  have hhead : ((c :: (tail ++ rest)).head?.any fun c => c = '-' || Decimal.isDigit c) := by
    simpa using hc
  refine (congrFun ?_ _).trans hnumber
  split
  · rename_i quoted hquote
    exact absurd (List.cons.inj hquote).1 hne
  · rw [if_pos hhead]

theorem literal_null {cs : List Char} {rest : List Char} (hrest : ¬rest.head?.any isWordChar)
    (h : skipBlank cs = "NULL".toList ++ rest) : literal cs = .ok (.null, rest) := by
  have hword : eatWord "NULL" ("NULL".toList ++ rest) = .ok (true, rest) :=
    eatWord_hit (afterWord?_append (by decide) hrest)
  rw [literal, ok_bind_run (blanks_run cs), get_bind_run, h]
  exact ok_bind_run hword _

/-- A text that white space before it does not change. -/
def Visible (cs : List Char) : Prop := ∃ c tail, cs = c :: tail ∧ ¬isBlank c

theorem Visible.append {cs : List Char} (h : Visible cs) (rest : List Char) : Visible (cs ++ rest) := by
  obtain ⟨c, tail, rfl, hc⟩ := h
  exact ⟨c, tail ++ rest, rfl, hc⟩

theorem Visible.skipBlank_append {cs : List Char} (h : Visible cs) (rest : List Char) :
    skipBlank (cs ++ rest) = cs ++ rest := by
  obtain ⟨c, tail, rfl, hc⟩ := h
  exact skipBlank_cons hc _

theorem skipBlank_append {gap : List Char} (h : ∀ c ∈ gap, isBlank c) (cs : List Char) :
    skipBlank (gap ++ cs) = skipBlank cs := List.dropWhile_append_of_pos h

variable {item : Reader α} {text : β → List Char} {value : β → α} {value? : β → Option α}
  {gap : List Char}

theorem visible_intercalate {xs : List β} (hxs : xs ≠ []) (hvisible : ∀ x ∈ xs, Visible (text x)) :
    Visible ((',' :: gap).intercalate (xs.map text)) := by
  obtain ⟨x, xs, rfl⟩ := List.exists_cons_of_ne_nil hxs
  obtain ⟨c, tail, hx, hc⟩ := hvisible x (by simp)
  refine ⟨c, ?_⟩
  cases xs <;> simp [hx, hc, List.intercalate_cons_cons]

/-- A list is read back if each of its items is, whatever white space follows the commas, and otherwise not
at all. -/
theorem toOption_separated (hgap : ∀ c ∈ gap, isBlank c) {xs : List β} (hxs : xs ≠ [])
    (hvisible : ∀ x ∈ xs, Visible (text x)) {rest : List Char} (hrest : (skipBlank rest).head? ≠ some ',')
    (hitem : ∀ x ∈ xs, ∀ cs tail, tail.head? = some ',' ∨ tail = rest → skipBlank cs = text x ++ tail →
      (item cs).toOption = (value? x).map (·, tail))
    {most : Nat} (hmost : xs.length ≤ most) {cs : List Char}
    (h : skipBlank cs = (',' :: gap).intercalate (xs.map text) ++ rest) :
    (separated item most cs).toOption = (xs.mapM value?).map (·, skipBlank rest) := by
  induction xs generalizing cs most with
  | nil => exact absurd rfl hxs
  | cons x xs ih =>
    obtain ⟨most, rfl⟩ : ∃ m, most = m + 1 := Nat.exists_eq_add_one.2 (by simp at hmost; omega)
    rw [separated, toOption_bind_run, List.mapM_cons]
    cases xs with
    | nil =>
      have hx := hitem x (by simp) cs rest (.inr rfl) (by simpa using h)
      rw [hx]
      cases value? x with
      | none => rfl
      | some a => exact congrArg Except.toOption (ok_bind_run (eat_miss hrest) _)
    | cons y ys =>
      rw [List.map_cons, List.map_cons, List.intercalate_cons_cons, ← List.map_cons] at h
      set others := (',' :: gap).intercalate ((y :: ys).map text)
      have hx := hitem x (by simp) cs (',' :: (gap ++ (others ++ rest))) (.inl rfl) (by rw [h]; simp)
      rw [hx]
      cases value? x with
      | none => rfl
      | some a =>
        have hcomma : eat ',' (',' :: (gap ++ (others ++ rest))) = .ok (true, gap ++ (others ++ rest)) :=
          eat_hit (skipBlank_cons (by decide) _)
        have hnext : Visible others := visible_intercalate (by simp) fun z hz => hvisible z (by simp [hz])
        have hskip : skipBlank (gap ++ (others ++ rest)) = others ++ rest := by
          rw [skipBlank_append hgap, hnext.skipBlank_append]
        have hothersMost : (y :: ys).length ≤ most := by simp at hmost ⊢; omega
        have hothers := ih (by simp) (fun z hz => hvisible z (by simp [hz]))
          (fun z hz => hitem z (by simp [hz])) hothersMost hskip
        rw [Option.map_some, Option.bind_some]
        dsimp only
        rw [ok_bind_run hcomma, if_pos rfl, toOption_bind_run, hothers]
        cases (y :: ys).mapM value? <;> rfl

theorem separated_intercalate (hgap : ∀ c ∈ gap, isBlank c) {xs : List β} (hxs : xs ≠ [])
    (hvisible : ∀ x ∈ xs, Visible (text x)) {rest : List Char}
    (hrest : (skipBlank rest).head? ≠ some ',')
    (hitem : ∀ x ∈ xs, ∀ cs tail, tail.head? = some ',' ∨ tail = rest →
      skipBlank cs = text x ++ tail → item cs = .ok (value x, tail))
    {most : Nat} (hmost : xs.length ≤ most) {cs : List Char}
    (h : skipBlank cs = (',' :: gap).intercalate (xs.map text) ++ rest) :
    separated item most cs = .ok (xs.map value, skipBlank rest) := by
  have hsome : ∀ x ∈ xs, ∀ cs tail, tail.head? = some ',' ∨ tail = rest → skipBlank cs = text x ++ tail →
      (item cs).toOption = (some (value x)).map (·, tail) :=
    fun x hx cs tail htail hcs => congrArg Except.toOption (hitem x hx cs tail htail hcs)
  have hread := toOption_separated hgap hxs hvisible hrest hsome hmost h
  have hall : xs.mapM (fun x => some (value x)) = some (xs.map value) := List.mapM_pure
  rw [hall] at hread
  exact Outcome.toOption_eq_some.1 hread

/-- Each item takes a character. -/
theorem length_le_intercalate {xs : List β} (hvisible : ∀ x ∈ xs, Visible (text x)) :
    xs.length ≤ ((',' :: gap).intercalate (xs.map text)).length := by
  induction xs with
  | nil => simp
  | cons x xs ih =>
    obtain ⟨c, tail, hx, -⟩ := hvisible x (by simp)
    have hxs := ih fun z hz => hvisible z (by simp [hz])
    cases xs with
    | nil => simp [hx]
    | cons y ys =>
      simp only [List.map_cons, List.intercalate_cons_cons, List.length_append, List.length_cons,
        hx] at hxs ⊢
      omega

theorem bracketed_intercalate (hgap : ∀ c ∈ gap, isBlank c) {xs : List β} (hxs : xs ≠ [])
    (hvisible : ∀ x ∈ xs, Visible (text x))
    (hitem : ∀ x ∈ xs, ∀ cs tail, tail.head? = some ',' ∨ tail.head? = some ')' →
      skipBlank cs = text x ++ tail → item cs = .ok (value x, tail))
    {most : Nat} (hmost : xs.length ≤ most) {cs rest : List Char}
    (h : skipBlank cs = '(' :: ((',' :: gap).intercalate (xs.map text) ++ ')' :: rest)) :
    bracketed item most cs = .ok (xs.map value, rest) := by
  have hclose : skipBlank (')' :: rest) = ')' :: rest := skipBlank_cons (by decide) rest
  have hend : (skipBlank (')' :: rest)).head? ≠ some ',' := by simp [hclose]
  have hitems := separated_intercalate hgap hxs hvisible hend
    (fun x hx cs tail htail => hitem x hx cs tail (htail.imp_right fun htail => by simp [htail]))
    hmost ((visible_intercalate hxs hvisible).skipBlank_append _)
  rw [bracketed, ok_bind_run (expect_hit h), ok_bind_run hitems, hclose,
    ok_bind_run (expect_hit hclose)]
  rfl

end Sql.Reader
end ReadingBench
