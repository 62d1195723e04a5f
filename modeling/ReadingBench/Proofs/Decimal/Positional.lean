import ReadingBench.Decimal.Shortest
import ReadingBench.Proofs.Calendar.Text
import ReadingBench.Proofs.Decimal.Numeral

namespace ReadingBench

open Decimal

namespace Decimal

/-- Digits and at most one point, from a digit on. -/
structure Positional (cs : List Char) : Prop where
  starts : cs.head?.any isDigit
  mantissa : ∃ ds places, Mantissa cs ds places

theorem positional_of_digits {ds : List Char} (some_digit : ds ≠ []) (digits : ∀ c ∈ ds, isDigit c) :
    Positional ds where
  starts := by
    obtain ⟨c, tail, rfl⟩ := List.exists_cons_of_ne_nil some_digit
    exact digits c List.mem_cons_self
  mantissa := ⟨ds, 0, .whole some_digit digits⟩

theorem positional_of_point {ds fraction : List Char} (some_digit : ds ≠ [])
    (digits : ∀ c ∈ ds ++ fraction, isDigit c) : Positional (ds ++ '.' :: fraction) where
  starts := by
    obtain ⟨c, tail, rfl⟩ := List.exists_cons_of_ne_nil some_digit
    exact digits c (by simp)
  mantissa := ⟨_, _, .point (by simp [some_digit]) digits⟩

theorem Scientific.positional_positional (s : Scientific) : Positional s.positional := by
  unfold Scientific.positional
  split
  · refine positional_of_digits (by simp [digits_ne_nil]) ?_
    intro c hc
    rcases List.mem_append.1 hc with hc | hc
    · exact isDigit_of_mem_digits hc
    · rw [List.eq_of_mem_replicate hc]
      decide
  · -- There is a digit before the point, since the digits are padded beyond the places.
    set places := (-s.exponent).toNat
    set ds := padded (places + 1) s.coefficient
    have hdigits : ∀ c ∈ ds, isDigit c := fun c hc => isDigit_of_mem_padded hc
    have hlength : places + 1 ≤ ds.length := by
      simp only [ds, padded, List.length_append, List.length_replicate]
      omega
    have hwhole : ds.take (ds.length - places) ≠ [] := by
      rw [← List.length_pos_iff, List.length_take]
      omega
    have htaken : ∀ c ∈ ds.take (ds.length - places), isDigit c :=
      fun c hc => hdigits c (List.mem_of_mem_take hc)
    dsimp only
    split
    · rw [List.append_nil]
      exact positional_of_digits hwhole htaken
    · refine positional_of_point hwhole ?_
      intro c hc
      rcases List.mem_append.1 hc with hc | hc
      · exact htaken c hc
      · have hdropped := (List.dropWhile_suffix _).subset (List.mem_reverse.1 hc)
        exact hdigits c (List.mem_of_mem_drop (List.mem_reverse.1 hdropped))

theorem Mantissa.mem {cs ds : List Char} {places : Nat} (h : Mantissa cs ds places) :
    ∀ c ∈ cs, isDigit c ∨ c = '.' := by
  intro c hc
  cases h with
  | whole _ digits => exact .inl (digits c hc)
  | point _ digits =>
    rcases List.mem_append.1 hc with hc | hc
    · exact .inl (digits c (List.mem_append_left _ hc))
    · rcases List.mem_cons.1 hc with rfl | hc
      · exact .inr rfl
      · exact .inl (digits c (List.mem_append_right _ hc))

theorem Positional.unsigned {cs : List Char} (h : Positional cs) : ∃ x, Unsigned cs x := by
  obtain ⟨ds, places, mantissa⟩ := h.mantissa
  have hnumber := Unsigned.number mantissa .none
  rw [List.append_nil] at hnumber
  exact ⟨_, hnumber⟩

/-- A positional text with a minus sign or without one. -/
inductive SignedPositional : List Char → Prop where
  | plain {cs : List Char} (positional : Positional cs) : SignedPositional cs
  | minus {cs : List Char} (positional : Positional cs) : SignedPositional ('-' :: cs)

namespace SignedPositional

variable {cs : List Char}

theorem exists_floating (h : SignedPositional cs) : ∃ x, Floating cs x := by
  cases h with
  | plain positional =>
    obtain ⟨x, unsigned⟩ := positional.unsigned
    exact ⟨x, .plain unsigned⟩
  | minus positional =>
    obtain ⟨x, unsigned⟩ := positional.unsigned
    exact ⟨-x, .minus unsigned⟩

theorem starts (h : SignedPositional cs) : cs.head?.any fun c => c = '-' || isDigit c := by
  cases h with
  | minus => rfl
  | plain positional =>
    have hstarts := positional.starts
    cases cs with
    | nil => cases hstarts
    | cons c tail => exact (Bool.or_eq_true _ _).mpr (.inr hstarts)

theorem mem (h : SignedPositional cs) : ∀ c ∈ cs, isDigit c ∨ c = '.' ∨ c = '-' := by
  intro c hc
  cases h with
  | plain positional =>
    obtain ⟨ds, places, mantissa⟩ := positional.mantissa
    exact (mantissa.mem c hc).imp_right .inl
  | minus positional =>
    obtain ⟨ds, places, mantissa⟩ := positional.mantissa
    rcases List.mem_cons.1 hc with rfl | hc
    · exact .inr (.inr rfl)
    · exact (mantissa.mem c hc).imp_right .inl

end SignedPositional
end Decimal

/-- The texts of the floats that are not finite. -/
def endlessTexts : List (List Char) := [['N', 'a', 'N'], ['i', 'n', 'f'], ['-', 'i', 'n', 'f']]

theorem floatChars_of_finite {x : Float} (hnan : x.isNaN = false) (hinf : x.isInf = false) :
    SignedPositional (floatChars x) := by
  have hzero : Positional ['0'] :=
    positional_of_digits (List.cons_ne_nil _ _) (List.forall_mem_singleton.2 (by decide))
  have hmagnitude : Positional
      (if x == 0 then ['0'] else (Binary.ofBits x.toBits).neighbourhood.shortest.positional) := by
    split
    · exact hzero
    · exact Scientific.positional_positional _
  unfold floatChars
  rw [hnan, hinf]
  simp only [Bool.false_eq_true, if_false]
  split
  · exact .minus hmagnitude
  · exact .plain hmagnitude

theorem floatChars_of_endless {x : Float} (h : x.isNaN ∨ x.isInf) : floatChars x ∈ endlessTexts := by
  unfold floatChars
  by_cases hnan : x.isNaN
  · rw [if_pos hnan]
    simp [endlessTexts]
  · rw [if_neg hnan, if_pos (h.resolve_left hnan)]
    dsimp only
    split <;> simp [endlessTexts]

end ReadingBench
