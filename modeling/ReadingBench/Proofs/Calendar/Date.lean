import Mathlib
import ReadingBench.Calendar.Date

namespace ReadingBench

namespace Calendar

def daysInYear (year : Int) : Nat := if isLeap year then 366 else 365

theorem daysBeforeYear_succ (year : Int) :
    daysBeforeYear (year + 1) = daysBeforeYear year + daysInYear year := by
  unfold daysInYear daysBeforeYear
  by_cases hleap : isLeap year = true
  · rw [if_pos hleap]
    simp only [isLeap, decide_eq_true_eq] at hleap
    push_cast
    omega
  · rw [if_neg hleap]
    simp only [isLeap, decide_eq_true_eq] at hleap
    push_cast
    omega

theorem daysBeforeYear_mono : Monotone daysBeforeYear := by
  refine monotone_int_of_le_succ fun year => ?_
  rw [daysBeforeYear_succ]
  omega

/-- A month is bounded by the one behind it, or by the year. -/
theorem daysBeforeMonth_succ {year : Int} {month : Nat} (pos : 1 ≤ month) :
    daysBeforeMonth year (month + 1) = daysBeforeMonth year month + daysInMonth year month := by
  obtain ⟨month, rfl⟩ : ∃ n, month = n + 1 := ⟨month - 1, by omega⟩
  rfl

theorem daysBeforeMonth_mono (year : Int) : Monotone (daysBeforeMonth year) := by
  refine monotone_nat_of_le_succ fun month => ?_
  rcases Nat.eq_zero_or_pos month with rfl | pos
  · exact le_rfl
  · rw [daysBeforeMonth_succ pos]
    omega

theorem daysBeforeMonth_thirteen (year : Int) : daysBeforeMonth year 13 = daysInYear year := by
  unfold daysInYear
  cases hleap : isLeap year <;> simp [daysBeforeMonth, daysInMonth, hleap]

theorem daysInMonth_pos (year : Int) (month : Nat) : 0 < daysInMonth year month := by
  unfold daysInMonth
  split <;> split <;> decide

end Calendar

open Calendar

namespace Date

theorem dayOfYear_bounds (d : Date) :
    daysBeforeMonth d.year d.month < d.dayOfYear ∧
      d.dayOfYear ≤ daysBeforeMonth d.year (d.month + 1) := by
  rw [daysBeforeMonth_succ d.month_pos, dayOfYear]
  have hday := d.day_pos
  have hlast := d.day_le
  omega

theorem dayOfYear_le (d : Date) : d.dayOfYear ≤ daysInYear d.year := by
  have hmonth := daysBeforeMonth_mono d.year (Nat.succ_le_succ d.month_le)
  rw [← daysBeforeMonth_thirteen]
  exact d.dayOfYear_bounds.2.trans hmonth

theorem dayNumber_eq (d : Date) :
    d.dayNumber = daysBeforeYear d.year + daysBeforeMonth d.year d.month + d.day - 1 := by
  have hday := d.day_pos
  unfold dayNumber dayOfYear
  push_cast [Nat.cast_sub (show 1 ≤ daysBeforeMonth d.year d.month + d.day by omega)]
  omega

theorem dayNumber_bounds (d : Date) :
    daysBeforeYear d.year ≤ d.dayNumber ∧ d.dayNumber < daysBeforeYear (d.year + 1) := by
  have hlow := d.dayOfYear_bounds.1
  have hhigh := d.dayOfYear_le
  rw [daysBeforeYear_succ, dayNumber]
  omega

/-- Day numbers follow the years. -/
theorem year_le_of_dayNumber_le {a b : Date} (h : a.dayNumber ≤ b.dayNumber) : a.year ≤ b.year := by
  by_contra hlater
  have hyears := daysBeforeYear_mono (show b.year + 1 ≤ a.year by omega)
  have ha := a.dayNumber_bounds.1
  have hb := b.dayNumber_bounds.2
  omega

/-- Within a year, day numbers follow the months. -/
theorem month_le_of_dayNumber_le {a b : Date} (hyear : a.year = b.year)
    (h : a.dayNumber ≤ b.dayNumber) : a.month ≤ b.month := by
  by_contra hlater
  have hmonths := daysBeforeMonth_mono a.year (show b.month + 1 ≤ a.month by omega)
  have ha := a.dayOfYear_bounds.1
  obtain ⟨hb, hb'⟩ := b.dayOfYear_bounds
  unfold dayNumber at h
  rw [hyear] at h hmonths ha
  omega

theorem dayNumber_injective : Function.Injective dayNumber := by
  intro a b h
  have hyear : a.year = b.year :=
    le_antisymm (year_le_of_dayNumber_le h.le) (year_le_of_dayNumber_le h.ge)
  have hmonth : a.month = b.month :=
    le_antisymm (month_le_of_dayNumber_le hyear h.le) (month_le_of_dayNumber_le hyear.symm h.ge)
  have hday : a.day = b.day := by
    rw [dayNumber_eq, dayNumber_eq, hyear, hmonth] at h
    omega
  obtain ⟨year, month, day, _, _, _, _, _, _⟩ := a
  obtain ⟨year', month', day', _, _, _, _, _, _⟩ := b
  obtain rfl : year = year' := hyear
  obtain rfl : month = month' := hmonth
  obtain rfl : day = day' := hday
  rfl

theorem dayNumber_inj {a b : Date} : a.dayNumber = b.dayNumber ↔ a = b := dayNumber_injective.eq_iff

/-- A year holds the day numbers from its first day to that of the next year. -/
theorem yearOf_bounds (n : Int) :
    daysBeforeYear (yearOf n) ≤ n ∧ n < daysBeforeYear (yearOf n + 1) := by
  have hguess : daysBeforeYear (n * 400 / 146097 + 1 - 1) ≤ n ∧
      n < daysBeforeYear (n * 400 / 146097 + 1 + 1 + 1) := by
    simp only [daysBeforeYear]
    omega
  unfold yearOf
  dsimp only
  split
  · rename_i hearly
    rw [sub_add_cancel]
    exact ⟨hguess.1, hearly⟩
  · rename_i hlate
    split
    · rename_i hnext
      exact ⟨hnext, hguess.2⟩
    · rename_i hnext
      exact ⟨not_lt.1 hlate, not_le.1 hnext⟩

/-- A month of the year holds its days up to those before the next month. -/
theorem monthOf_bounds {year : Int} {past : Nat} (h : past < daysInYear year) :
    (1 ≤ monthOf year past ∧ monthOf year past ≤ 12) ∧
      daysBeforeMonth year (monthOf year past) ≤ past ∧
        past < daysBeforeMonth year (monthOf year past + 1) := by
  -- The months counted are those up to the last that starts in time.
  have hcount : ∃ month, (1 ≤ month ∧ month ≤ 12) ∧ daysBeforeMonth year month ≤ past ∧
      past < daysBeforeMonth year (month + 1) := by
    have hfind : ∃ month, past < daysBeforeMonth year (month + 1) :=
      ⟨12, by rwa [daysBeforeMonth_thirteen]⟩
    have hpos : 1 ≤ Nat.find hfind := by
      by_contra hzero
      have hfirst := Nat.find_spec hfind
      rw [show Nat.find hfind = 0 by omega] at hfirst
      exact absurd hfirst (Nat.not_lt_zero _)
    refine ⟨Nat.find hfind, ⟨hpos, Nat.find_min' hfind ?_⟩, ?_, Nat.find_spec hfind⟩
    · rwa [daysBeforeMonth_thirteen]
    · have hbefore := Nat.find_min hfind (show Nat.find hfind - 1 < Nat.find hfind by omega)
      rw [Nat.sub_add_cancel hpos] at hbefore
      exact not_lt.1 hbefore
  obtain ⟨month, ⟨hpos, hle⟩, hstart, hend⟩ := hcount
  have hmonth : monthOf year past = month := by
    have hstarted : ∀ m, daysBeforeMonth year m ≤ past ↔ m ≤ month := by
      intro m
      constructor
      · intro hm
        by_contra hlater
        have hmono := daysBeforeMonth_mono year (show month + 1 ≤ m by omega)
        omega
      · intro hm
        exact (daysBeforeMonth_mono year hm).trans hstart
    unfold monthOf
    simp only [hstarted]
    interval_cases month <;> rfl
  rw [hmonth]
  exact ⟨⟨hpos, hle⟩, hstart, hend⟩

theorem ofParts?_eq_some {year : Int} {month day : Nat} {d : Date} :
    ofParts? year month day = some d ↔ d.year = year ∧ d.month = month ∧ d.day = day := by
  unfold ofParts?
  constructor
  · intro h
    split at h
    · obtain rfl := Option.some.inj h
      exact ⟨rfl, rfl, rfl⟩
    · cases h
  · rintro ⟨rfl, rfl, rfl⟩
    exact dif_pos ⟨⟨d.year_ge, d.year_le⟩, ⟨d.month_pos, d.month_le⟩, d.day_pos, d.day_le⟩

/-- The first and the last day of the calendar. -/
def first : Date := (ofParts? firstYear 1 1).get (by decide)

def last : Date := (ofParts? lastYear 12 31).get (by decide)

theorem first_le (d : Date) : first.dayNumber ≤ d.dayNumber := by
  have hstart : first.dayNumber = daysBeforeYear firstYear := by decide
  rw [hstart]
  exact (daysBeforeYear_mono d.year_ge).trans d.dayNumber_bounds.1

theorem le_last (d : Date) : d.dayNumber ≤ last.dayNumber := by
  have hend : last.dayNumber + 1 = daysBeforeYear (lastYear + 1) := by decide
  have hyear := daysBeforeYear_mono (Int.add_le_add_right d.year_le 1)
  have hday := d.dayNumber_bounds.2
  omega

theorem exists_dayNumber_eq {n : Int} (hfirst : first.dayNumber ≤ n) (hlast : n ≤ last.dayNumber) :
    ∃ d, ofDayNumber? n = some d ∧ d.dayNumber = n := by
  obtain ⟨hlow, hhigh⟩ := yearOf_bounds n
  have hpast : (n - daysBeforeYear (yearOf n)).toNat < daysInYear (yearOf n) := by
    rw [daysBeforeYear_succ] at hhigh
    omega
  obtain ⟨hmonth, hstart, hend⟩ := monthOf_bounds hpast
  rw [daysBeforeMonth_succ hmonth.1] at hend
  have hyear : firstYear ≤ yearOf n ∧ yearOf n ≤ lastYear := by
    have hstart : first.dayNumber = daysBeforeYear firstYear := by decide
    have hend : last.dayNumber + 1 = daysBeforeYear (lastYear + 1) := by decide
    constructor
    · by_contra hearly
      have hmono := daysBeforeYear_mono (show yearOf n + 1 ≤ firstYear by omega)
      omega
    · by_contra hlate
      have hmono := daysBeforeYear_mono (show lastYear + 1 ≤ yearOf n by omega)
      omega
  refine ⟨_, dif_pos ⟨hyear, hmonth, Nat.succ_pos _, by omega⟩, ?_⟩
  rw [dayNumber_eq]
  dsimp only
  push_cast [Nat.cast_sub hstart]
  omega

theorem ofDayNumber?_eq_some {n : Int} {d : Date} : ofDayNumber? n = some d ↔ d.dayNumber = n := by
  constructor
  · intro h
    obtain ⟨hyear, hmonth, hday⟩ := ofParts?_eq_some.1 h
    obtain ⟨hlow, hhigh⟩ := yearOf_bounds n
    have hpast : (n - daysBeforeYear (yearOf n)).toNat < daysInYear (yearOf n) := by
      rw [daysBeforeYear_succ] at hhigh
      omega
    have hstart := (monthOf_bounds hpast).2.1
    rw [dayNumber_eq, hmonth, hday, hyear]
    push_cast [Nat.cast_sub hstart]
    omega
  · rintro rfl
    obtain ⟨e, he, hnumber⟩ := exists_dayNumber_eq d.first_le d.le_last
    rw [he, dayNumber_inj.1 hnumber]

theorem addDays?_eq_some {d e : Date} {days : Int} :
    d.addDays? days = some e ↔ e.dayNumber = d.dayNumber + days := ofDayNumber?_eq_some

end Date
end ReadingBench
