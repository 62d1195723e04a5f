import ReadingBench.Proofs.Population.Spread

namespace ReadingBench

open Decimal ReadingBench.Random Draw

/-- Rounding keeps the order. -/
theorem Decimal.Nearest.mono {x y x' y' : ℚ} (h : Nearest x y) (h' : Nearest x' y') (hlt : x < x') :
    y ≤ y' := by
  by_contra hgt
  have hfirst := sq_le_sq.2 (h.nearest y' h'.representable)
  have hsecond := sq_le_sq.2 (h'.nearest y h.representable)
  have hpos : 0 < y - y' := by linarith
  have hlow : y + y' ≤ 2 * x := by
    have hproduct : (y - y') * (y + y' - 2 * x) ≤ 0 := by linarith
    linarith [nonpos_of_mul_nonpos_right hproduct hpos]
  have hhigh : 2 * x' ≤ y + y' := by
    have hproduct : (y - y') * (2 * x' - (y + y')) ≤ 0 := by linarith
    linarith [nonpos_of_mul_nonpos_right hproduct hpos]
  linarith

namespace DateTime

variable {t u w : DateTime} {m n k : Int}

/-- Where the calendar reaches a time, it has those on the way to it. -/
theorem Later.exists_addSeconds? (h : t.Later m u) (hm : 0 ≤ m) (hk : 0 ≤ k) (hsum : m + k ≤ n)
    (hn : t.addSeconds? n = some w) : ∃ v, u.addSeconds? k = some v ∧ t.Later (m + k) v := by
  have hreach := (later_of_addSeconds? (by omega) hn).seconds
  have hpassed := h.seconds
  obtain ⟨v, hv⟩ : ∃ v, u.addSeconds? k = some v := by
    rcases hk.eq_or_lt with rfl | hpos
    · exact ⟨u, by rw [addSeconds?, if_pos rfl]⟩
    · have hfirst := u.date.first_le
      have hlast := w.date.le_last
      have hsecond := w.second_lt
      simp only [DateTime.seconds] at hreach hpassed
      obtain ⟨date, hdate, -⟩ := Date.exists_dayNumber_eq
        (n := u.date.dayNumber + (u.second + k) / 86400) (by omega) (by omega)
      exact (exists_addSeconds?_iff hpos).2 ⟨date, hdate⟩
  exact ⟨v, hv, h.trans (later_of_addSeconds? hk hv) hm hk⟩

end DateTime

variable {index total : Nat} {days : Int64}

/-- An index below the total falls on one of the days, or on the first after them where floats do not tell
it from the total. -/
theorem spreadOffset_le (fits : total < 2 ^ 64) (long : 1 ≤ days.toInt) (small : days.toInt ≤ 2 ^ 53)
    (h : index < total) : spreadOffset index total days ≤ days.toInt := by
  obtain ⟨i, n, d, part, day, hspreads⟩ := exists_spreads index (by omega) fits long
  have hindex := hspreads.reads_index.nearest
  have htotal := hspreads.reads_total.nearest
  rw [UInt64.toNat_ofNat_of_lt' (by rw [UInt64.size]; omega)] at hindex
  rw [UInt64.toNat_ofNat_of_lt' (by rw [UInt64.size]; omega)] at htotal
  have hn := hspreads.total_pos
  have hd := hspreads.days_pos
  have hle := hindex.mono htotal (by exact_mod_cast h)
  have hpart : part ≤ 1 := by
    have hquotient : i / n ≤ ((1 : Nat) : ℚ) := by
      rw [Nat.cast_one, div_le_one (by linarith)]
      exact hle
    exact_mod_cast hspreads.nearest_part.le_of_le (representable_nat (by omega)) hquotient
  have hexact : d = days.toInt.natAbs := by
    have hnearest := hspreads.reads_days.nearest
    rw [toNat_natAbs] at hnearest
    exact hnearest.eq_self (representable_nat (by omega))
  have hall : part * d ≤ d := mul_le_of_le_one_left (by linarith) hpart
  have hday := hspreads.nearest_day.le_of_le hspreads.reads_days.nearest.representable hall
  rw [hexact] at hday
  have hfloor := Nat.floor_le_of_le hday
  rw [hspreads.offset]
  omega

namespace ArticleSource

variable {source : ArticleSource} {stop : DateTime}

/-- Where the calendar reaches one day further than the article's day, it has the article's time. -/
theorem gives_drawTime (nonneg : 0 ≤ spreadOffset index source.total source.spreadDays)
    (reach : source.baseTime.addDays? (spreadOffset index source.total source.spreadDays + 1) = some stop) :
    Gives (fun drawn : Language × Option DateTime => ∃ time, drawn.2 = some time)
      (source.drawTime index) := by
  have hlimit := DateTime.days_lt reach
  have hstart : source.baseTime.Later 0 source.baseTime := ⟨by omega, (if_pos rfl).symm⟩
  unfold drawTime
  refine gives_bind fun language => ?_
  refine (gives_int64 (by omega : 23 < 2 ^ 63)).bind fun hours hhours => ?_
  refine (gives_int64 (by omega : 59 < 2 ^ 63)).bind fun minutes hminutes => gives_pure ?_
  obtain ⟨day, hday, hfirst⟩ := hstart.exists_addSeconds?
    (k := 86400 * spreadOffset index source.total source.spreadDays) le_rfl (by omega) (by omega) reach
  obtain ⟨hour, hhour, hsecond⟩ := hfirst.exists_addSeconds? (k := 3600 * hours.toInt) (by omega)
    (by omega) (by omega) reach
  obtain ⟨minute, hminute, -⟩ := hsecond.exists_addSeconds? (k := 60 * minutes.toInt) (by omega)
    (by omega) (by omega) reach
  refine ⟨minute, ?_⟩
  simp only [DateTime.addDays?, DateTime.addHours?, DateTime.addMinutes?]
  rw [hday, Option.bind_eq_bind, Option.bind_some, hhour, Option.bind_some, hminute]

theorem exists_accepted_of_day (nonneg : 0 ≤ spreadOffset index source.total source.spreadDays)
    (reach : source.baseTime.addDays? (spreadOffset index source.total source.spreadDays + 1) = some stop)
    (id : Nat) (state : Growing) :
    ∃ article next, source.offer index id state = .accepted article next := by
  obtain ⟨time, htime⟩ := source.gives_drawTime nonneg reach state.stream
  obtain ⟨hnone, -⟩ | ⟨language, timestamp, stream, article, later, -, -, hoffer⟩ :=
    source.offer_cases index id state
  · cases hnone.symm.trans htime
  · exact ⟨article, _, hoffer⟩

theorem exists_accepted (fits : source.total < 2 ^ 64) (long : 1 ≤ source.spreadDays.toInt)
    (reach : source.baseTime.addDays? (source.spreadDays.toInt + 1) = some stop)
    (h : index < source.total) (id : Nat) (state : Growing) :
    ∃ article next, source.offer index id state = .accepted article next := by
  have hlimit := DateTime.days_lt reach
  have hday := spreadOffset_le fits long (by omega) h
  have hnonneg := spreadOffset_nonneg index (by omega) fits long
  obtain ⟨next, hnext⟩ := DateTime.exists_addSeconds? (by omega)
    (by omega : 86400 * (spreadOffset index source.total source.spreadDays + 1) ≤ _) reach
  exact source.exists_accepted_of_day hnonneg hnext id state

end ArticleSource

end ReadingBench
