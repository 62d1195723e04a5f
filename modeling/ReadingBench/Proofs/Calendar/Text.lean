import ReadingBench.Proofs.Sql.Reader
import ReadingBench.Calendar.Text

namespace ReadingBench

open Text

namespace Decimal

theorem length_digits_le {width n : Nat} (hwidth : 0 < width) (hn : n < 10 ^ width) :
    (digits n).length ≤ width := by
  induction width generalizing n with
  | zero => omega
  | succ width ih =>
    rw [digits]
    split
    · simp
    · rename_i hlarge
      have hpos : 0 < width := by
        rcases Nat.eq_zero_or_pos width with rfl | hpos
        · omega
        · exact hpos
      have hrest : n / 10 < 10 ^ width := by
        rw [pow_succ] at hn
        omega
      have htail := ih hpos hrest
      simp only [List.length_append, List.length_singleton]
      omega

theorem length_padded {width n : Nat} (hwidth : 0 < width) (hn : n < 10 ^ width) :
    (padded width n).length = width := by
  have hdigits := length_digits_le hwidth hn
  simp only [padded, List.length_append, List.length_replicate]
  omega

theorem value_padded (width n : Nat) : value (padded width n) = n := by
  have hzeros : ∀ (k : Nat) (cs : List Char), value (List.replicate k '0' ++ cs) = value cs := by
    intro k cs
    induction k with
    | zero => rfl
    | succ k ih => exact ih
  rw [padded, hzeros, value_digits]

theorem isDigit_of_mem_padded {width n : Nat} {c : Char} (h : c ∈ padded width n) : isDigit c := by
  rcases List.mem_append.1 h with h | h
  · rw [List.eq_of_mem_replicate h]
    decide
  · exact isDigit_of_mem_digits h

theorem padded_ne_nil (width n : Nat) : padded width n ≠ [] := by
  intro h
  exact digits_ne_nil n (List.append_eq_nil_iff.1 h).2

/-- The first digit of a number, with what follows. -/
theorem padded_append_eq_cons (width n : Nat) (rest : List Char) :
    ∃ c tail, padded width n ++ rest = c :: tail ∧ isDigit c := by
  cases hcs : padded width n with
  | nil => exact absurd hcs (padded_ne_nil width n)
  | cons c tail =>
    have hc : c ∈ padded width n := hcs ▸ List.mem_cons_self
    exact ⟨c, tail ++ rest, rfl, isDigit_of_mem_padded hc⟩

theorem skipBlank_padded (width n : Nat) (rest : List Char) :
    skipBlank (padded width n ++ rest) = padded width n ++ rest := by
  obtain ⟨c, tail, hcs, hc⟩ := padded_append_eq_cons width n rest
  rw [hcs]
  exact Sql.Reader.skipBlank_cons (not_isBlank_of_isDigit hc) tail

end Decimal

open Decimal

namespace Calendar

/-- A run of digits is read whole if it is as long as may be, or if no digit follows. -/
theorem readDigits?_append {ds rest : List Char} (hne : ds ≠ []) (hds : ∀ c ∈ ds, isDigit c) {most : Nat}
    (hmost : ds.length = most ∨ ds.length ≤ most ∧ ¬rest.head?.any isDigit) :
    readDigits? most (ds ++ rest) = some (value ds, rest) := by
  have htaken : ((ds ++ rest).take most).takeWhile isDigit = ds := by
    rcases hmost with rfl | ⟨hle, hstop⟩
    · rw [List.take_left, List.takeWhile_eq_self_iff.2 hds]
    · rw [List.take_append, List.take_of_length_le hle, List.takeWhile_append_of_pos hds]
      have hnone : (rest.take (most - ds.length)).takeWhile isDigit = [] := by
        cases rest with
        | nil => simp
        | cons c rest =>
          have hc : ¬isDigit c := hstop
          cases most - ds.length <;> simp [hc]
      rw [hnone, List.append_nil]
  rw [readDigits?, htaken, List.drop_left]
  simp [hne]

theorem readPair?_padded {n : Nat} (hn : n < 100) (rest : List Char) :
    readPair? (padded 2 n ++ rest) = some (n, rest) := by
  have hlength : (padded 2 n).length = 2 := length_padded (by decide) hn
  rw [readPair?, skipBlank_padded,
    readDigits?_append (padded_ne_nil 2 n) (fun _ => isDigit_of_mem_padded) (.inl hlength), value_padded]

theorem readYear?_yearText (year : Int) {rest : List Char} (hrest : ¬rest.head?.any isDigit) :
    readYear? (yearText year ++ rest) = some (year, rest) := by
  have hdigits : ∀ n, readDigits? (padded 4 n ++ rest).length (padded 4 n ++ rest) = some (n, rest) := by
    intro n
    have hmost : (padded 4 n).length ≤ (padded 4 n ++ rest).length := by simp
    rw [readDigits?_append (padded_ne_nil 4 n) (fun _ => isDigit_of_mem_padded) (.inr ⟨hmost, hrest⟩),
      value_padded]
  unfold yearText
  by_cases hshort : 0 ≤ year ∧ year ≤ 9999
  · rw [if_pos hshort, readYear?, skipBlank_padded]
    have hlength : (padded 4 year.toNat).length = 4 := length_padded (by decide) (by omega)
    have hread : readDigits? 4 (padded 4 year.toNat ++ rest) = some (year.toNat, rest) := by
      rw [readDigits?_append (padded_ne_nil 4 _) (fun _ => isDigit_of_mem_padded) (.inl hlength),
        value_padded]
    obtain ⟨c, tail, hcs, hc⟩ := padded_append_eq_cons 4 year.toNat rest
    have hyear : (year.toNat : Int) = year := Int.toNat_of_nonneg hshort.1
    rw [hcs] at hread ⊢
    split
    · exact absurd hc (by simp_all [isDigit])
    · exact absurd hc (by simp_all [isDigit])
    · simp only [hread, Option.map_some, hyear]
  · rw [if_neg hshort]
    by_cases hneg : year < 0
    · have habs : -(year.natAbs : Int) = year := by omega
      have hminus : skipBlank ('-' :: padded 4 year.natAbs ++ rest) =
          '-' :: (padded 4 year.natAbs ++ rest) := Sql.Reader.skipBlank_cons (by decide) _
      rw [if_pos hneg, readYear?, hminus]
      simp only [hdigits, Option.map_some, habs]
    · have habs : (year.natAbs : Int) = year := by omega
      have hplus : skipBlank ('+' :: padded 4 year.natAbs ++ rest) =
          '+' :: (padded 4 year.natAbs ++ rest) := Sql.Reader.skipBlank_cons (by decide) _
      rw [if_neg hneg, readYear?, hplus]
      simp only [hdigits, Option.map_some, habs]

theorem mark?_tight (mark : Char) (rest : List Char) :
    Spacing.tight.mark? mark (mark :: rest) = some rest := by
  simp [Spacing.mark?]

end Calendar

open Calendar

theorem Date.ofParts?_self (d : Date) : Date.ofParts? d.year d.month d.day = some d :=
  dif_pos ⟨⟨d.year_ge, d.year_le⟩, ⟨d.month_pos, d.month_le⟩, d.day_pos, d.day_le⟩

/-- A date is read back whatever follows it. -/
theorem Date.read?_chars (d : Date) (rest : List Char) :
    Date.read? .tight (d.chars ++ rest) = some (d, rest) := by
  have hmonth : d.month < 100 := by
    have := d.month_le
    omega
  have hday : d.day < 100 := by
    have hle := d.day_le
    unfold daysInMonth at hle
    split at hle <;> split at hle <;> omega
  have hyear : readYear? (d.chars ++ rest) =
      some (d.year, '-' :: (padded 2 d.month ++ '-' :: (padded 2 d.day ++ rest))) := by
    rw [Date.chars]
    simp only [List.append_assoc, List.cons_append]
    exact readYear?_yearText d.year (by simp [isDigit])
  simp only [Date.read?, hyear, Option.bind_eq_bind, Option.bind_some, mark?_tight,
    readPair?_padded hmonth, readPair?_padded hday, Date.ofParts?_self]
  rfl

theorem Date.ofText?_text (d : Date) : Date.ofText? d.text = some d := by
  have hread := Date.read?_chars d []
  rw [List.append_nil] at hread
  simp only [Date.ofText?, Date.text, String.toList_ofList, hread, Option.bind_eq_bind, Option.bind_some]
  rfl

/-- A time stands behind the date. -/
theorem Date.ofText?_dateTime (t : DateTime) : Date.ofText? t.text = none := by
  simp only [Date.ofText?, DateTime.text, String.toList_ofList, DateTime.chars, Date.read?_chars,
    Option.bind_eq_bind, Option.bind_some]
  rfl

theorem DateTime.timeChars_eq (t : DateTime) : t.timeChars =
    padded 2 t.hour ++ ':' :: (padded 2 t.minute ++ ':' :: padded 2 t.shownSecond) :=
  List.append_assoc _ _ _

theorem DateTime.readTime?_timeChars (t : DateTime) :
    DateTime.readTime? .tight t.timeChars = some ((t.hour, t.minute, t.shownSecond), []) := by
  have hsecond := t.second_lt
  have hhour : t.hour < 100 := by
    unfold DateTime.hour
    omega
  have hminute : t.minute < 100 := by
    unfold DateTime.minute
    omega
  have hshown : t.shownSecond < 100 := by
    unfold DateTime.shownSecond DateTime.secondOfMinute
    split <;> omega
  have hlast := readPair?_padded hshown []
  rw [List.append_nil] at hlast
  simp only [DateTime.readTime?, DateTime.timeChars_eq, Option.bind_eq_bind, Option.bind_some, mark?_tight,
    readPair?_padded hhour, readPair?_padded hminute, hlast]
  rfl

/-- Second 60 stands for the leap second that it was written for. -/
theorem DateTime.ofShown?_self (t : DateTime) (h : t.nano % nanosPerSecond = 0) :
    DateTime.ofShown? t.date t.hour t.minute t.shownSecond 0 = some t := by
  obtain ⟨date, second, nano, hsecond, hnano⟩ := t
  have hsplit : 3600 * (second / 3600) + 60 * (second / 60 % 60) + second % 60 = second := by omega
  have hparts : ∀ {n : Nat}, n < nanosPerSecond ∨ n < 2 * nanosPerSecond ∧ second % 60 = 59 → n = nano →
      DateTime.ofParts? date (second / 3600) (second / 60 % 60) (second % 60) n =
        some ⟨date, second, nano, hsecond, hnano⟩ := by
    rintro n hn rfl
    have hclock : second / 3600 < 24 ∧ second / 60 % 60 < 60 ∧ second % 60 < 60 := by omega
    rw [DateTime.ofParts?, dif_pos ⟨hclock, hn⟩]
    simp only [hsplit]
  have hrest : nano % 1000000000 = 0 := h
  have hbound : nano < 1000000000 ∨ nano < 2 * 1000000000 ∧ second % 60 = 59 := hnano
  by_cases hleap : nanosPerSecond ≤ nano
  · have hlarge : 1000000000 ≤ nano := hleap
    have hlast : second % 60 = 59 := by omega
    have hwhole : nanosPerSecond + 0 = nano := by
      change 1000000000 + 0 = nano
      omega
    have hshown : DateTime.shownSecond ⟨date, second, nano, hsecond, hnano⟩ = 60 := by
      simp [DateTime.shownSecond, DateTime.isLeapSecond, DateTime.secondOfMinute, hleap, hlast]
    have hread := hparts (.inr ⟨by decide, hlast⟩) hwhole
    rw [hlast] at hread
    rw [DateTime.ofShown?, if_pos hshown]
    exact hread
  · have hsmall : ¬1000000000 ≤ nano := hleap
    have hzero : 0 = nano := by omega
    have hshown : DateTime.shownSecond ⟨date, second, nano, hsecond, hnano⟩ = second % 60 := by
      simp [DateTime.shownSecond, DateTime.isLeapSecond, DateTime.secondOfMinute, hleap]
    have hnot : ¬second % 60 = 60 := by omega
    rw [DateTime.ofShown?, hshown, if_neg hnot]
    exact hparts (.inl (by decide)) hzero

theorem DateTime.ofText?_text (t : DateTime) (h : t.nano % nanosPerSecond = 0) :
    DateTime.ofText? t.text = some t := by
  have htime : skipBlank (' ' :: t.timeChars) = t.timeChars := by
    have hspace : skipBlank (' ' :: t.timeChars) = skipBlank t.timeChars := rfl
    rw [hspace, DateTime.timeChars_eq]
    exact skipBlank_padded 2 t.hour _
  simp only [DateTime.ofText?, DateTime.text, String.toList_ofList, DateTime.chars, Date.read?_chars,
    Option.bind_eq_bind, Option.bind_some, htime, DateTime.readTime?_timeChars, List.isEmpty_nil,
    if_true, DateTime.ofShown?_self t h]

/-- A date alone is no time. -/
theorem DateTime.ofText?_date (d : Date) : DateTime.ofText? d.text = none := by
  have hread := Date.read?_chars d []
  rw [List.append_nil] at hread
  simp only [DateTime.ofText?, Date.text, String.toList_ofList, hread, Option.bind_eq_bind,
    Option.bind_some]
  rfl

end ReadingBench
