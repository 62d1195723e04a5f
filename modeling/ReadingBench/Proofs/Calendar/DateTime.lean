import ReadingBench.Calendar.DateTime
import ReadingBench.Proofs.Calendar.Date

namespace ReadingBench.DateTime

/-- Seconds since midnight of 1 January of year 1. -/
def seconds (t : DateTime) : Int := 86400 * t.date.dayNumber + t.second

/-- Times are ordered by seconds and then by nanoseconds, so that a leap second comes last in its minute. -/
instance : LE DateTime := ⟨fun t u => t.seconds < u.seconds ∨ t.seconds = u.seconds ∧ t.nano ≤ u.nano⟩

instance : LT DateTime := ⟨fun t u => t.seconds < u.seconds ∨ t.seconds = u.seconds ∧ t.nano < u.nano⟩

instance (t u : DateTime) : Decidable (t ≤ u) :=
  inferInstanceAs (Decidable (t.seconds < u.seconds ∨ t.seconds = u.seconds ∧ t.nano ≤ u.nano))

instance (t u : DateTime) : Decidable (t < u) :=
  inferInstanceAs (Decidable (t.seconds < u.seconds ∨ t.seconds = u.seconds ∧ t.nano < u.nano))

theorem le_iff {t u : DateTime} : t ≤ u ↔ t.seconds < u.seconds ∨ t.seconds = u.seconds ∧ t.nano ≤ u.nano :=
  Iff.rfl

theorem lt_iff {t u : DateTime} : t < u ↔ t.seconds < u.seconds ∨ t.seconds = u.seconds ∧ t.nano < u.nano :=
  Iff.rfl

/-- From a first time on, and before the time so many days later. No time of the calendar comes after
those days where they reach beyond it. -/
structure Within (start : DateTime) (days : Int) (t : DateTime) : Prop where
  from_start : start ≤ t
  before : ∀ stop, start.addDays? days = some stop → t < stop

/-- So many seconds passed between two times. -/
structure Later (t : DateTime) (n : Int) (u : DateTime) : Prop where
  seconds : u.seconds = t.seconds + n
  nano : u.nano = if n = 0 then t.nano else t.nano % nanosPerSecond

namespace Later

variable {t u v : DateTime} {m n : Int}

theorem trans (h : t.Later m u) (h' : u.Later n v) (hm : 0 ≤ m) (hn : 0 ≤ n) : t.Later (m + n) v := by
  refine ⟨by rw [h'.seconds, h.seconds, add_assoc], ?_⟩
  rw [h'.nano, h.nano]
  by_cases hfirst : m = 0
  · rw [if_pos hfirst, hfirst, zero_add]
  · rw [if_neg hfirst, if_neg (by omega : ¬m + n = 0)]
    split
    · rfl
    · exact Nat.mod_mod _ _

theorem le (h : t.Later n u) (hn : 0 ≤ n) : t ≤ u := by
  rw [le_iff, h.seconds, h.nano]
  by_cases hzero : n = 0
  · rw [if_pos hzero]
    exact .inr ⟨by omega, le_rfl⟩
  · exact .inl (by omega)

/-- Fewer seconds lead to an earlier time. -/
theorem lt_iff_lt (h : t.Later m u) (h' : t.Later n v) (hn : 0 < n) : u < v ↔ m < n := by
  rw [lt_iff, h.seconds, h'.seconds, h.nano, h'.nano, if_neg hn.ne']
  constructor
  · rintro (hlt | ⟨heq, hlt⟩)
    · omega
    · rw [if_neg (by omega)] at hlt
      exact absurd hlt (lt_irrefl _)
  · intro hlt
    exact .inl (by omega)

end Later

variable {t u : DateTime} {n : Int}

theorem exists_addSeconds?_iff (hn : 0 < n) : (∃ u, t.addSeconds? n = some u) ↔
    ∃ date, t.date.addDays? ((t.second + n) / 86400) = some date := by
  have hne : ¬n = 0 := hn.ne'
  have hleap : ¬(t.isLeapSecond = true ∧ n < 0) := fun h => absurd h.2 (by omega)
  simp only [addSeconds?, hne, hleap, if_false, Option.map_eq_some_iff]
  constructor
  · rintro ⟨u, date, hdate, -⟩
    exact ⟨date, hdate⟩
  · rintro ⟨date, hdate⟩
    exact ⟨_, date, hdate, rfl⟩

theorem later_of_addSeconds? (hn : 0 ≤ n) (h : t.addSeconds? n = some u) : t.Later n u := by
  by_cases hzero : n = 0
  · rw [addSeconds?, if_pos hzero] at h
    obtain rfl := Option.some.inj h
    exact ⟨by omega, (if_pos hzero).symm⟩
  · have hleap : ¬(t.isLeapSecond = true ∧ n < 0) := fun h => absurd h.2 (by omega)
    simp only [addSeconds?, hzero, hleap, if_false, Option.map_eq_some_iff] at h
    obtain ⟨date, hdate, rfl⟩ := h
    have hnumber := Date.addDays?_eq_some.1 hdate
    refine ⟨?_, (if_neg hzero).symm⟩
    simp only [seconds]
    omega

/-- Where the calendar reaches a later time, it has those before. -/
theorem exists_addSeconds? {m : Int} (hm : 0 < m) (hn : m ≤ n) (h : t.addSeconds? n = some u) :
    ∃ v, t.addSeconds? m = some v := by
  obtain ⟨date, hdate⟩ := (exists_addSeconds?_iff (hm.trans_le hn)).1 ⟨u, h⟩
  have hnumber := Date.addDays?_eq_some.1 hdate
  have hfirst := t.date.first_le
  have hlast := date.le_last
  obtain ⟨earlier, hearlier, -⟩ := Date.exists_dayNumber_eq
    (n := t.date.dayNumber + (t.second + m) / 86400) (by omega) (by omega)
  exact (exists_addSeconds?_iff hm).2 ⟨earlier, hearlier⟩

/-- The calendar is not as long as that. -/
theorem days_lt (h : t.addDays? n = some u) : n < 2 ^ 28 := by
  by_contra hge
  have hlater := later_of_addSeconds? (by omega) h
  have hseconds := hlater.seconds
  have hfirst := t.date.first_le
  have hlast := u.date.le_last
  have hsecond := u.second_lt
  have hspan : Date.last.dayNumber - Date.first.dayNumber < 2 ^ 28 - 1 := by decide
  simp only [seconds] at hseconds
  omega

end ReadingBench.DateTime
