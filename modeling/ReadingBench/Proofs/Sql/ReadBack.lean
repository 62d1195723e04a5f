import ReadingBench.Proofs.Decimal.Positional
import ReadingBench.Proofs.Sql.Grammar
import ReadingBench.Proofs.Sql.RawInsert

namespace ReadingBench.Sql

open Text Reader Grammar

namespace Reader

theorem eatWord_miss {word : String} {cs : List Char} (h : afterWord? word (skipBlank cs) = none) :
    eatWord word cs = .ok (false, skipBlank cs) := by
  rw [eatWord, ok_bind_run (blanks_run cs), get_bind_run, h]
  rfl

end Reader

namespace Value

/-- A float is an integer where its text reads as one. -/
def reread? : Value → Option Value
  | float x => ((Decimal.readInt64? (floatChars x)).map int).or
      ((Decimal.readFloat? (floatChars x)).map float)
  | v => some v.written

def isFinite : Value → Bool
  | float x => !x.isNaN && !x.isInf
  | _ => true

theorem exact_or_float (v : Value) : v.isExact ∨ ∃ x, v = float x := by
  cases v with
  | float x => exact .inr ⟨x, rfl⟩
  | _ => exact .inl rfl

theorem reread?_of_exact {v : Value} (hv : v.isExact) : v.reread? = some v.written := by
  cases v with
  | float x => exact absurd hv Bool.false_ne_true
  | _ => rfl

theorem isFinite_of_exact {v : Value} (hv : v.isExact) : v.isFinite := by
  cases v with
  | float x => exact absurd hv Bool.false_ne_true
  | _ => rfl

theorem signedPositional_literalChars {x : Float} (h : (float x).isFinite) :
    Decimal.SignedPositional (float x).literalChars := by
  obtain ⟨hnan, hinf⟩ : x.isNaN = false ∧ x.isInf = false := by simpa only [isFinite, Bool.and_eq_true,
    Bool.not_eq_true'] using h
  exact floatChars_of_finite hnan hinf

theorem endless_literalChars {x : Float} (h : (float x).isFinite = false) :
    (float x).literalChars ∈ endlessTexts := by
  refine floatChars_of_endless ?_
  simpa only [isFinite, Bool.and_eq_false_iff, Bool.not_eq_false'] using h

/-- No word for a float that is not finite is a numeral. -/
theorem reread?_endless {x : Float} (h : (float x).isFinite = false) : (float x).reread? = none := by
  have hnone : ∀ cs ∈ endlessTexts, Decimal.readInt64? cs = none ∧ (Decimal.readFloat? cs).isNone := by
    decide +kernel
  obtain ⟨hint, hfloat⟩ := hnone _ (endless_literalChars h)
  change ((Decimal.readInt64? (float x).literalChars).map int).or
    ((Decimal.readFloat? (float x).literalChars).map float) = none
  rw [hint, Option.isNone_iff_eq_none.1 hfloat]
  rfl

theorem isSome_reread? (v : Value) : v.reread?.isSome = v.isFinite := by
  rcases v.exact_or_float with hv | ⟨x, rfl⟩
  · rw [reread?_of_exact hv, isFinite_of_exact hv]
    rfl
  · cases hfinite : (float x).isFinite with
    | true =>
      obtain ⟨y, hy⟩ := (signedPositional_literalChars hfinite).exists_floating
      have hread : Decimal.readFloat? (floatChars x) = some y := Decimal.readFloat?_eq_some_iff.2 hy
      rw [reread?, hread, Option.map_some]
      cases (Decimal.readInt64? (floatChars x)).map int <;> rfl
    | false =>
      rw [reread?_endless hfinite]
      rfl

theorem visible_endless : ∀ cs ∈ endlessTexts, Visible cs := by
  intro cs hcs
  simp only [endlessTexts, List.mem_cons, List.not_mem_nil, or_false] at hcs
  rcases hcs with rfl | rfl | rfl
  · exact ⟨'N', _, rfl, by decide⟩
  · exact ⟨'i', _, rfl, by decide⟩
  · exact ⟨'-', _, rfl, by decide⟩

theorem isNumberChar_of_mem {cs : List Char} (h : Decimal.SignedPositional cs) :
    ∀ c ∈ cs, isNumberChar c := by
  intro c hc
  rcases h.mem c hc with hdigit | rfl | rfl
  · simp [isNumberChar, hdigit]
  · decide
  · decide

/-- The text of a finite float is a literal of the number that it reads as. -/
theorem exists_literal_of_finite {x : Float} (hx : (float x).isFinite) {rest : List Char}
    (hrest : ¬rest.head?.any isNumberChar) :
    ∃ w, (float x).reread? = some w ∧ Literal (float x).literalChars w rest := by
  have hpositional := signedPositional_literalChars hx
  obtain ⟨w, hw⟩ := Option.isSome_iff_exists.1 ((isSome_reread? _).trans hx)
  exact ⟨w, hw, .number ⟨hpositional.starts, isNumberChar_of_mem hpositional, hrest⟩ (number_iff.2 hw)⟩

theorem visible (v : Value) : Visible v.literalChars := by
  rcases v.exact_or_float with hv | ⟨x, rfl⟩
  · exact visible_literalChars hv
  · cases hfinite : (float x).isFinite with
    | true =>
      obtain ⟨w, -, hliteral⟩ := exists_literal_of_finite hfinite (by decide : ¬[].head?.any isNumberChar)
      exact hliteral.visible
    | false => exact visible_endless _ (endless_literalChars hfinite)

/-- A word that does not begin like NULL. -/
theorem afterWord?_null {c d : Char} (h : c.toUpper ≠ 'N' ∨ d.toUpper ≠ 'U') (rest : List Char) :
    afterWord? "NULL" (c :: d :: rest) = none := by
  refine if_neg ?_
  intro hword
  have hletters : c.toUpper :: d.toUpper :: (rest.take 2).map Char.toUpper = ['N', 'U', 'L', 'L'] := hword.1
  rcases h with hc | hd
  · exact hc (List.cons.inj hletters).1
  · exact hd (List.cons.inj (List.cons.inj hletters).2).1

/-- What begins neither like a text nor like a number nor like NULL is no literal. -/
theorem literal_neither {cs rest : List Char} {c d : Char} (h : skipBlank cs = c :: d :: rest)
    (unquoted : c ≠ '\'') (other : ¬(c = '-' || Decimal.isDigit c))
    (word : c.toUpper ≠ 'N' ∨ d.toUpper ≠ 'U') : (Reader.literal cs).toOption = none := by
  have hblank : skipBlank (skipBlank cs) = skipBlank cs := List.dropWhile_idempotent _ _
  have hunquoted : (skipBlank cs).head? ≠ some '\'' := by simpa [h] using unquoted
  have hother : ¬StartsNumber (skipBlank cs) := h ▸ other
  have hword : afterWord? "NULL" (skipBlank (skipBlank cs)) = none := by
    rw [hblank, h]
    exact afterWord?_null word rest
  rw [literal_of_other hunquoted hother, ok_bind_run (eatWord_miss hword)]
  rfl

theorem literal_endless {word : List Char} (hword : word ∈ endlessTexts) {cs rest : List Char}
    (h : skipBlank cs = word ++ rest) : (Reader.literal cs).toOption = none := by
  simp only [endlessTexts, List.mem_cons, List.not_mem_nil, or_false] at hword
  rcases hword with rfl | rfl | rfl
  · exact literal_neither h (by decide) (by decide) (.inr (by decide))
  · exact literal_neither h (by decide) (by decide) (.inl (by decide))
  · have hstarts : StartsNumber (skipBlank cs) := by
      rw [h]
      rfl
    rw [literal_of_start hstarts, h]
    rfl

/-- A literal is read back whatever its value is. -/
theorem toOption_literal {v : Value} {cs rest : List Char}
    (hrest : rest.head? = some ',' ∨ rest.head? = some ')') (h : skipBlank cs = v.literalChars ++ rest) :
    (Reader.literal cs).toOption = v.reread?.map (·, rest) := by
  rcases v.exact_or_float with hv | ⟨x, rfl⟩
  · rw [literal_literalChars hv hrest h, reread?_of_exact hv]
    rfl
  · cases hfinite : (float x).isFinite with
    | true =>
      have hstop : ¬rest.head?.any isNumberChar ∧ rest.head? ≠ some '\'' := by
        rcases hrest with hrest | hrest <;> rw [hrest] <;> decide
      obtain ⟨w, hw, hliteral⟩ := exists_literal_of_finite hfinite hstop.1
      obtain ⟨gap, blanks, hcs⟩ := exists_gap cs
      rw [hcs, h, literal_complete blanks hliteral hstop.2, hw]
      rfl
    | false =>
      rw [literal_endless (endless_literalChars hfinite) h, reread?_endless hfinite]
      rfl

end Value

/-- A tuple is read back value by value, if at all. -/
theorem toOption_tuple {values : List Value} (hvalues : values ≠ []) {most : Nat} (hmost : values.length ≤ most)
    {cs rest : List Char} (h : skipBlank cs = (tupleText values).toList ++ rest) :
    (tuple most cs).toOption = (values.mapM Value.reread?).map (·, rest) := by
  have hgap : ∀ c ∈ [' '], isBlank c := List.forall_mem_singleton.2 (by decide)
  have hclose : skipBlank (')' :: rest) = ')' :: rest := skipBlank_cons (by decide) rest
  have hend : (skipBlank (')' :: rest)).head? ≠ some ',' := by simp [hclose]
  rw [toList_tupleText, List.cons_append, List.append_assoc] at h
  have hvisible := fun v (_ : v ∈ values) => v.visible
  have hitem : ∀ v ∈ values, ∀ cs tail, tail.head? = some ',' ∨ tail = ')' :: rest →
      skipBlank cs = v.literalChars ++ tail → (Reader.literal cs).toOption = v.reread?.map (·, tail) :=
    fun v _ cs tail htail hcs => Value.toOption_literal (htail.imp_right fun htail => by simp [htail]) hcs
  have hitems := toOption_separated hgap hvalues hvisible hend hitem hmost
    ((visible_intercalate hvalues hvisible).skipBlank_append _)
  rw [tuple, bracketed, ok_bind_run (expect_hit h), toOption_bind_run, List.singleton_append, hitems, hclose]
  cases values.mapM Value.reread? with
  | none => rfl
  | some found =>
    rw [Option.map_some, Option.bind_some]
    dsimp only
    rw [ok_bind_run (expect_hit hclose)]
    rfl

theorem length_le_tupleText (values : List Value) : values.length ≤ (tupleText values).toList.length := by
  have hvalues : values.length ≤ ([',', ' '].intercalate (values.map Value.literalChars)).length :=
    length_le_intercalate fun v _ => v.visible
  rw [toList_tupleText, List.length_cons, List.length_append]
  omega

theorem toOption_run {α : Type} (r : Nat → Reader α) (cs : List Char) :
    (Reader.run r cs).toOption = (r (cs.length + 1) cs).toOption.map (·.1) := by
  unfold Reader.run
  rcases r (cs.length + 1) cs with e | ⟨a, rest⟩ <;> rfl

/-- One tuple is read back as one tuple. -/
theorem toOption_readValues {values : List Value} (hvalues : values ≠ []) :
    (readValues (tupleText values)).toOption = (values.mapM Value.reread?).map ([·]) := by
  have hvisible : Visible (tupleText values).toList := ⟨'(', _, toList_tupleText values, by decide⟩
  have hskip : skipBlank ((tupleText values).toList ++ []) = (tupleText values).toList ++ [] :=
    hvisible.skipBlank_append []
  have hmost : values.length ≤ (tupleText values).toList.length + 1 :=
    (length_le_tupleText values).trans (Nat.le_succ _)
  have htuple := toOption_tuple hvalues hmost hskip
  rw [List.append_nil] at htuple
  rw [readValues, toOption_run, tuples, separated]
  simp only [toOption_bind_run, htuple]
  cases values.mapM Value.reread? <;> rfl

end ReadingBench.Sql
