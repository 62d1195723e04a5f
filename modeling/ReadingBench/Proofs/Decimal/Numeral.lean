import Mathlib
import ReadingBench.Decimal.Reading

namespace ReadingBench

/-- A run that what stands behind it does not continue. -/
theorem takeWhile_append {α : Type} {p : α → Bool} {run rest : List α} (all : ∀ x ∈ run, p x)
    (stop : ¬rest.head?.any p) : (run ++ rest).takeWhile p = run ∧ (run ++ rest).dropWhile p = rest := by
  rw [List.takeWhile_append_of_pos all, List.dropWhile_append_of_pos all]
  cases rest with
  | nil => simp
  | cons x rest => simp_all

namespace Decimal

/-- One digit or more. -/
structure Natural (ds : List Char) (n : Nat) : Prop where
  some_digit : ds ≠ []
  digits : ∀ c ∈ ds, isDigit c
  value_eq : value ds = n

inductive Integer : List Char → Int → Prop where
  | plain {ds : List Char} {n : Nat} (natural : Natural ds n) : Integer ds n
  | minus {ds : List Char} {n : Nat} (natural : Natural ds n) : Integer ('-' :: ds) (-n)

/-- Digits with a point or without one: the digits, and how many of them stand behind the point. -/
inductive Mantissa : List Char → List Char → Nat → Prop where
  | whole {ds : List Char} (some_digit : ds ≠ []) (digits : ∀ c ∈ ds, isDigit c) : Mantissa ds ds 0
  | point {ds fraction : List Char} (some_digit : ds ++ fraction ≠ [])
      (digits : ∀ c ∈ ds ++ fraction, isDigit c) :
      Mantissa (ds ++ '.' :: fraction) (ds ++ fraction) fraction.length

/-- Nothing, or a letter and an integer, which may have a plus sign. -/
inductive Exponent : List Char → Int → Prop where
  | none : Exponent [] 0
  | marked {mark : Char} {cs : List Char} {n : Int} (letter : mark = 'e' ∨ mark = 'E') (integer : Integer cs n) :
      Exponent (mark :: cs) n
  | plus {mark : Char} {ds : List Char} {n : Nat} (letter : mark = 'e' ∨ mark = 'E') (natural : Natural ds n) :
      Exponent (mark :: '+' :: ds) n

inductive Unsigned : List Char → Float → Prop where
  | number {mantissa ds exponent : List Char} {places : Nat} {n : Int} (digits : Mantissa mantissa ds places)
      (power : Exponent exponent n) :
      Unsigned (mantissa ++ exponent) (nearestFloat (value ds) (n - places))

inductive Floating : List Char → Float → Prop where
  | plain {cs : List Char} {x : Float} (unsigned : Unsigned cs x) : Floating cs x
  | minus {cs : List Char} {x : Float} (unsigned : Unsigned cs x) : Floating ('-' :: cs) (-x)

/-- The test that the readers make before they take digits for their number. -/
theorem digits_eq_some_iff {β : Type} {ds : List Char} {f : Nat → Option β} {b : β} :
    (if ds.isEmpty ∨ ¬ds.all isDigit then none else f (value ds)) = some b ↔
      ∃ n, Natural ds n ∧ f n = some b := by
  split
  case isTrue other =>
    constructor
    · intro h
      cases h
    · rintro ⟨n, natural, -⟩
      rcases other with hempty | hall
      · exact absurd (List.isEmpty_iff.1 hempty) natural.some_digit
      · exact absurd (List.all_eq_true.2 natural.digits) hall
  case isFalse digits =>
    rw [not_or, not_not, List.isEmpty_iff, List.all_eq_true] at digits
    constructor
    · intro h
      exact ⟨value ds, ⟨digits.1, digits.2, rfl⟩, h⟩
    · rintro ⟨n, natural, h⟩
      rwa [natural.value_eq]

theorem Natural.head_ne {c d : Char} {ds : List Char} {n : Nat} (h : Natural (c :: ds) n)
    (hd : isDigit d = false) : c ≠ d := by
  rintro rfl
  rw [h.digits c List.mem_cons_self] at hd
  cases hd

theorem integer_minus_iff {ds : List Char} {z : Int} :
    Integer ('-' :: ds) z ↔ ∃ n : Nat, Natural ds n ∧ -(n : Int) = z := by
  constructor
  · intro h
    cases h with
    | plain natural => exact absurd rfl (natural.head_ne (by decide))
    | minus natural => exact ⟨_, natural, rfl⟩
  · rintro ⟨n, natural, rfl⟩
    exact .minus natural

theorem integer_iff {cs : List Char} {z : Int} (unsigned : ∀ ds, cs ≠ '-' :: ds) :
    Integer cs z ↔ ∃ n : Nat, Natural cs n ∧ (n : Int) = z := by
  constructor
  · intro h
    cases h with
    | plain natural => exact ⟨_, natural, rfl⟩
    | minus natural => exact absurd rfl (unsigned _)
  · rintro ⟨n, natural, rfl⟩
    exact .plain natural

/-- The word of an integer, where there is one. -/
def ofInt? (z : Int) : Option Int64 :=
  if Int64.minValue.toInt ≤ z ∧ z ≤ Int64.maxValue.toInt then some (Int64.ofInt z) else none

theorem ofInt?_eq_some_iff {z : Int} {n : Int64} : ofInt? z = some n ↔ z = n.toInt := by
  unfold ofInt?
  split
  case isTrue range =>
    rw [Option.some.injEq]
    constructor
    · rintro rfl
      have hmax : Int64.maxValue.toInt = 2 ^ 63 - 1 := by decide
      exact (Int64.toInt_ofInt_of_le range.1 (by omega)).symm
    · rintro rfl
      exact Int64.ofInt_toInt n
  case isFalse beyond =>
    constructor
    · intro h
      cases h
    · rintro rfl
      exact absurd ⟨n.minValue_le_toInt, n.toInt_le⟩ beyond

theorem readInt64?_eq_some_iff {cs : List Char} {n : Int64} :
    readInt64? cs = some n ↔ Integer cs n.toInt := by
  unfold readInt64?
  split
  rename_i negative ds hsign
  split at hsign
  · obtain ⟨rfl, rfl⟩ := Prod.mk.inj hsign
    rw [integer_minus_iff]
    exact (digits_eq_some_iff (f := fun m => ofInt? (-m))).trans
      (exists_congr fun m => and_congr_right fun _ => ofInt?_eq_some_iff)
  · rename_i unsigned
    obtain ⟨rfl, rfl⟩ := Prod.mk.inj hsign
    rw [integer_iff unsigned]
    exact (digits_eq_some_iff (f := fun m => ofInt? m)).trans
      (exists_congr fun m => and_congr_right fun _ => ofInt?_eq_some_iff)

theorem exponent_cons_iff {mark : Char} {cs : List Char} {z : Int} (letter : mark = 'e' ∨ mark = 'E') :
    Exponent (mark :: cs) z ↔
      Integer cs z ∨ ∃ ds, cs = '+' :: ds ∧ ∃ n : Nat, Natural ds n ∧ (n : Int) = z := by
  constructor
  · intro h
    cases h with
    | marked _ integer => exact .inl integer
    | plus _ natural => exact .inr ⟨_, rfl, _, natural, rfl⟩
  · rintro (integer | ⟨ds, rfl, n, natural, rfl⟩)
    · exact .marked letter integer
    · exact .plus letter natural

theorem readExponent?_eq_some_iff {cs : List Char} {z : Int} :
    readExponent? cs = some z ↔ Exponent cs z := by
  cases cs with
  | nil =>
    constructor
    · intro h
      obtain rfl := Option.some.inj h
      exact .none
    · intro h
      cases h
      rfl
  | cons mark rest =>
    unfold readExponent?
    dsimp only
    by_cases letter : mark = 'e' ∨ mark = 'E'
    · rw [if_pos letter, exponent_cons_iff letter]
      split
      case h_1 ds =>
        have unplussed : ¬∃ ds', '-' :: ds = '+' :: ds' ∧ ∃ n : Nat, Natural ds' n ∧ (n : Int) = z := by
          rintro ⟨ds', hplus, -⟩
          cases hplus
        rw [or_iff_left unplussed, integer_minus_iff]
        exact (digits_eq_some_iff (f := fun m => some (-(m : Int)))).trans
          (exists_congr fun m => and_congr_right fun _ => Option.some_inj)
      case h_2 ds =>
        have unsigned : ¬Integer ('+' :: ds) z := by
          intro h
          cases h with
          | plain natural => exact absurd rfl (natural.head_ne (by decide))
        rw [or_iff_right unsigned]
        refine (digits_eq_some_iff (f := fun m => some (m : Int))).trans ?_
        constructor
        · rintro ⟨n, natural, hn⟩
          exact ⟨ds, rfl, n, natural, Option.some.inj hn⟩
        · rintro ⟨ds', hds, n, natural, hn⟩
          obtain rfl := (List.cons.inj hds).2
          exact ⟨n, natural, congrArg some hn⟩
      case h_3 unsigned other =>
        have unplussed : ¬∃ ds, rest = '+' :: ds ∧ ∃ n : Nat, Natural ds n ∧ (n : Int) = z := by
          rintro ⟨ds, rfl, -⟩
          exact other ds rfl
        rw [or_iff_left unplussed, integer_iff unsigned]
        exact (digits_eq_some_iff (f := fun m => some (m : Int))).trans
          (exists_congr fun m => and_congr_right fun _ => Option.some_inj)
    · rw [if_neg letter]
      constructor
      · intro h
        cases h
      · intro h
        cases h with
        | marked letter' _ => exact absurd letter' letter
        | plus letter' _ => exact absurd letter' letter

/-- Digits up to the first other character. -/
theorem span_isDigit {ds rest : List Char} (digits : ∀ c ∈ ds, isDigit c) (stop : ¬rest.head?.any isDigit) :
    (ds ++ rest).span isDigit = (ds, rest) := by
  obtain ⟨htake, hdrop⟩ := takeWhile_append digits stop
  rw [List.span_eq_takeWhile_dropWhile, htake, hdrop]

theorem readMantissa?_append {mantissa ds rest : List Char} {places : Nat} (h : Mantissa mantissa ds places)
    (stop : ¬rest.head?.any isDigit) (unpointed : rest.head? ≠ some '.') :
    readMantissa? (mantissa ++ rest) = some (ds, places, rest) := by
  unfold readMantissa?
  cases h with
  | whole some_digit digits =>
    rw [span_isDigit digits stop]
    dsimp only
    split
    case h_1 tail => exact absurd rfl unpointed
    case h_2 => simp [some_digit]
  | @point ds fraction some_digit digits =>
    have hdigits : ∀ c ∈ ds, isDigit c := fun c hc => digits c (List.mem_append_left _ hc)
    have hfraction : ∀ c ∈ fraction, isDigit c := fun c hc => digits c (List.mem_append_right _ hc)
    have hsome : ¬(ds.isEmpty ∧ fraction.isEmpty) := by
      rwa [List.isEmpty_iff, List.isEmpty_iff, ← List.append_eq_nil_iff]
    have hpoint : ¬('.' :: (fraction ++ rest)).head?.any isDigit := (by decide : ¬isDigit '.')
    rw [List.append_assoc, List.cons_append, span_isDigit hdigits hpoint]
    dsimp only
    split
    case h_1 tail htail =>
      obtain rfl := (List.cons.inj htail).2
      rw [span_isDigit hfraction stop]
      dsimp only
      rw [if_neg hsome]
    case h_2 other => exact absurd rfl (other (fraction ++ rest))

theorem exists_mantissa {cs ds rest : List Char} {places : Nat}
    (h : readMantissa? cs = some (ds, places, rest)) :
    ∃ mantissa, cs = mantissa ++ rest ∧ Mantissa mantissa ds places := by
  have htaken : ∀ cs : List Char, ∀ c ∈ cs.takeWhile isDigit, isDigit c :=
    fun _ _ hc => List.mem_takeWhile_imp hc
  unfold readMantissa? at h
  rw [List.span_eq_takeWhile_dropWhile] at h
  dsimp only at h
  split at h
  case h_1 tail hpoint =>
    rw [List.span_eq_takeWhile_dropWhile] at h
    dsimp only at h
    split at h
    case isTrue => cases h
    case isFalse hsome =>
      obtain ⟨rfl, rfl, rfl⟩ : _ ∧ _ ∧ _ := by simpa using h
      refine ⟨cs.takeWhile isDigit ++ '.' :: tail.takeWhile isDigit, ?_, .point ?_ ?_⟩
      · rw [List.append_assoc, List.cons_append, List.takeWhile_append_dropWhile, ← hpoint,
          List.takeWhile_append_dropWhile]
      · rwa [List.isEmpty_iff, List.isEmpty_iff, ← List.append_eq_nil_iff] at hsome
      · intro c hc
        rcases List.mem_append.1 hc with hc | hc
        · exact htaken cs c hc
        · exact htaken tail c hc
  case h_2 =>
    dsimp only at h
    split at h
    case isTrue => cases h
    case isFalse hsome =>
      obtain ⟨rfl, rfl, rfl⟩ : _ ∧ _ ∧ _ := by simpa using h
      refine ⟨cs.takeWhile isDigit, List.takeWhile_append_dropWhile.symm, .whole ?_ (htaken cs)⟩
      simpa using hsome

/-- An exponent's first character continues no mantissa. -/
theorem Exponent.head {cs : List Char} {z : Int} (h : Exponent cs z) :
    ¬cs.head?.any isDigit ∧ cs.head? ≠ some '.' := by
  cases h with
  | none => decide
  | marked letter _ | plus letter _ =>
    rcases letter with rfl | rfl
    · exact ⟨(by decide : ¬isDigit 'e'), by simp⟩
    · exact ⟨(by decide : ¬isDigit 'E'), by simp⟩

theorem unsigned_iff {cs : List Char} {x : Float} : Unsigned cs x ↔ ∃ ds places rest n,
    readMantissa? cs = some (ds, places, rest) ∧ readExponent? rest = some n ∧
      nearestFloat (value ds) (n - places) = x := by
  constructor
  · rintro ⟨digits, power⟩
    obtain ⟨stop, unpointed⟩ := power.head
    exact ⟨_, _, _, _, readMantissa?_append digits stop unpointed, readExponent?_eq_some_iff.2 power, rfl⟩
  · rintro ⟨ds, places, rest, n, hmantissa, hexponent, rfl⟩
    obtain ⟨mantissa, rfl, digits⟩ := exists_mantissa hmantissa
    exact .number digits (readExponent?_eq_some_iff.1 hexponent)

theorem Mantissa.head {mantissa ds : List Char} {places : Nat} (h : Mantissa mantissa ds places) :
    ∃ c tail, mantissa = c :: tail ∧ (isDigit c ∨ c = '.') := by
  cases h with
  | whole some_digit digits =>
    obtain ⟨c, tail, rfl⟩ := List.exists_cons_of_ne_nil some_digit
    exact ⟨c, tail, rfl, .inl (digits c List.mem_cons_self)⟩
  | @point whole fraction some_digit digits =>
    cases whole with
    | nil => exact ⟨'.', fraction, rfl, .inr rfl⟩
    | cons c whole => exact ⟨c, _, rfl, .inl (digits c List.mem_cons_self)⟩

theorem Unsigned.ne_minus {cs ds : List Char} {x : Float} (h : Unsigned cs x) : cs ≠ '-' :: ds := by
  obtain ⟨digits, -⟩ := h
  obtain ⟨c, tail, rfl, hc⟩ := digits.head
  rw [List.cons_append]
  intro hminus
  obtain rfl := (List.cons.inj hminus).1
  revert hc
  decide

theorem magnitude_eq_some_iff {cs : List Char} {x : Float} (f : Float → Float) :
    (do
      let (ds, places, rest) ← readMantissa? cs
      let n ← readExponent? rest
      return f (nearestFloat (value ds) (n - places))) = some x ↔ ∃ y, Unsigned cs y ∧ f y = x := by
  simp only [unsigned_iff, Option.bind_eq_bind, Option.bind_eq_some_iff, Prod.exists, Option.pure_def,
    Option.some.injEq]
  constructor
  · rintro ⟨ds, places, rest, hmantissa, n, hexponent, rfl⟩
    exact ⟨_, ⟨ds, places, rest, n, hmantissa, hexponent, rfl⟩, rfl⟩
  · rintro ⟨y, ⟨ds, places, rest, n, hmantissa, hexponent, rfl⟩, rfl⟩
    exact ⟨ds, places, rest, hmantissa, n, hexponent, rfl⟩

theorem readFloat?_eq_some_iff {cs : List Char} {x : Float} : readFloat? cs = some x ↔ Floating cs x := by
  unfold readFloat?
  dsimp only
  split
  case h_1 ds =>
    refine (magnitude_eq_some_iff fun y => -y).trans ?_
    constructor
    · rintro ⟨y, unsigned, rfl⟩
      exact .minus unsigned
    · intro h
      cases h with
      | plain unsigned => exact absurd rfl unsigned.ne_minus
      | minus unsigned => exact ⟨_, unsigned, rfl⟩
  case h_2 other =>
    refine (magnitude_eq_some_iff fun y => y).trans ?_
    constructor
    · rintro ⟨y, unsigned, rfl⟩
      exact .plain unsigned
    · intro h
      cases h with
      | plain unsigned => exact ⟨_, unsigned, rfl⟩
      | minus unsigned => exact absurd rfl (other _)

end Decimal
end ReadingBench
