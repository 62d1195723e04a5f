import ReadingBench.Proofs.Calendar.DateTime
import ReadingBench.Proofs.Decimal.Arithmetic
import ReadingBench.Proofs.Population.Reading

namespace ReadingBench

open Decimal ReadingBench.Random Draw

/-- What a word is read as. -/
structure Reads (n : UInt64) (v : ℚ) : Prop where
  value : HasValue n.toFloat v
  nearest : Nearest n.toNat v
  low : v = 0 ∨ 1 ≤ v
  high : v ≤ 2 ^ 64

theorem exists_reads (n : UInt64) : ∃ v, Reads n v := by
  obtain ⟨v, hvalue, hnearest⟩ := hasValue_toFloat n
  refine ⟨v, hvalue, hnearest, ?_, ?_⟩
  · rcases Nat.eq_zero_or_pos n.toNat with hzero | hpos
    · rw [hzero] at hnearest
      exact .inl (by exact_mod_cast hnearest.eq_self (representable_nat (by omega)))
    · have hone : ((1 : Nat) : ℚ) ≤ n.toNat := by exact_mod_cast hpos
      exact .inr (by exact_mod_cast hnearest.ge_of_ge (representable_nat (by omega)) hone)
  · have hlast : (n.toNat : ℚ) ≤ 2 ^ (64 : Int) := by exact_mod_cast n.toNat_lt.le
    exact_mod_cast hnearest.le_of_le (representable_power 64) hlast

theorem Reads.one_le {n : UInt64} {v : ℚ} (h : Reads n v) (pos : 0 < n.toNat) : 1 ≤ v := by
  have hone : ((1 : Nat) : ℚ) ≤ n.toNat := by exact_mod_cast pos
  exact_mod_cast h.nearest.ge_of_ge (representable_nat (by omega)) hone

/-- Up to the number of digits that a float has, words are read as they are. -/
theorem toFloat_lt_iff {index total : Nat} (small : total ≤ 2 ^ 53) (fits : index < 2 ^ 64) :
    (UInt64.ofNat index).toFloat < (UInt64.ofNat total).toFloat ↔ index < total := by
  obtain ⟨i, hi⟩ := exists_reads (UInt64.ofNat index)
  obtain ⟨n, hn⟩ := exists_reads (UInt64.ofNat total)
  have hindex := hi.nearest
  have htotal := hn.nearest
  rw [UInt64.toNat_ofNat_of_lt' fits] at hindex
  rw [UInt64.toNat_ofNat_of_lt' (by rw [UInt64.size]; omega)] at htotal
  have hexact := htotal.eq_self (representable_nat small)
  rw [hi.value.lt_iff hn.value, hexact]
  constructor
  · intro hlt
    by_contra hge
    have hcast : (total : ℚ) ≤ index := by exact_mod_cast not_lt.1 hge
    exact hlt.not_ge (hindex.ge_of_ge (representable_nat small) hcast)
  · intro hlt
    rw [hindex.eq_self (representable_nat (by omega))]
    exact_mod_cast hlt

/-- The numbers that the day of a candidate is computed from: index, total and days as they are read, the
part of the total that the index is, and that part of the days. -/
structure Spreads (index total : Nat) (days : Int64) (i n d part day : ℚ) : Prop where
  reads_index : Reads (UInt64.ofNat index) i
  reads_total : Reads (UInt64.ofNat total) n
  reads_days : Reads (UInt64.ofNat days.toInt.natAbs) d
  total_pos : 1 ≤ n
  days_pos : 1 ≤ d
  nearest_part : Nearest (i / n) part
  nearest_day : Nearest (part * d) day
  day_nonneg : 0 ≤ day
  offset : spreadOffset index total days = min ⌊day⌋₊ (2 ^ 63 - 1)

variable {index total : Nat} {days : Int64}

theorem toNat_natAbs (days : Int64) : (UInt64.ofNat days.toInt.natAbs).toNat = days.toInt.natAbs := by
  have hlow := days.le_toInt
  have hhigh := days.toInt_lt
  exact UInt64.toNat_ofNat_of_lt' (by rw [UInt64.size]; omega)

theorem exists_spreads (index : Nat) (pos : 0 < total) (fits : total < 2 ^ 64) (long : 1 ≤ days.toInt) :
    ∃ i n d part day, Spreads index total days i n d part day := by
  obtain ⟨i, hi⟩ := exists_reads (UInt64.ofNat index)
  obtain ⟨n, hn⟩ := exists_reads (UInt64.ofNat total)
  obtain ⟨d, hd⟩ := exists_reads (UInt64.ofNat days.toInt.natAbs)
  have hn_pos := hn.one_le (by rw [UInt64.toNat_ofNat_of_lt' fits]; exact pos)
  have hd_pos := hd.one_le (by rw [toNat_natAbs]; omega)
  have hn_high := hn.high
  have hd_high := hd.high
  -- Where the index is not zero, nothing leaves the range of floats.
  have hpart_moderate : i = 0 ∨ (2 : ℚ) ^ (-64 : Int) ≤ i / n ∧ i / n ≤ 2 ^ (64 : Int) := by
    refine hi.low.imp_right fun hi_pos => ⟨?_, ?_⟩
    · rw [le_div_iff₀ (by linarith), zpow_neg, inv_mul_le_iff₀ (by positivity)]
      have hle : (2 : ℚ) ^ (64 : Int) ≤ 2 ^ (64 : Int) * i := le_mul_of_one_le_right (by positivity) hi_pos
      exact_mod_cast hn_high.trans (by exact_mod_cast hle)
    · rw [div_le_iff₀ (by linarith)]
      have hle : (2 : ℚ) ^ (64 : Int) ≤ 2 ^ (64 : Int) * n := le_mul_of_one_le_right (by positivity) hn_pos
      exact (by exact_mod_cast hi.high : i ≤ 2 ^ (64 : Int)).trans hle
  obtain ⟨part, hpart_value, hpart⟩ := hi.value.div hn.value (by linarith) (hpart_moderate.imp_right fun h =>
    ⟨le_trans (by norm_num) h.1, h.2.trans (by norm_num)⟩)
  have hday_moderate : part = 0 ∨ Moderate (part * d) := by
    rcases hpart_moderate with rfl | ⟨hlow, hhigh⟩
    · rw [zero_div] at hpart
      exact .inl (hpart.eq_self representable_zero)
    · have hpart_low := hpart.ge_of_ge (representable_power _) hlow
      have hpart_high := hpart.le_of_le (representable_power _) hhigh
      have hpart_pos : 0 < part := lt_of_lt_of_le (by positivity) hpart_low
      refine .inr ⟨?_, ?_⟩
      · calc (2 : ℚ) ^ (-200 : Int)
          _ ≤ 2 ^ (-64 : Int) := by norm_num
          _ ≤ part := hpart_low
          _ ≤ part * d := le_mul_of_one_le_right hpart_pos.le hd_pos
      · calc part * d
          _ ≤ 2 ^ (64 : Int) * 2 ^ 64 := mul_le_mul hpart_high hd_high (by linarith) (by positivity)
          _ ≤ 2 ^ (200 : Int) := by norm_num
  obtain ⟨day, hday_value, hday⟩ := hpart_value.mul hd.value (by linarith) hday_moderate
  refine ⟨i, n, d, part, day, hi, hn, hd, hn_pos, hd_pos, hpart, hday, hday_value.nonneg, ?_⟩
  rw [spreadOffset, if_neg pos.ne', floatOfInt, if_neg (by omega)]
  exact hday_value.wholePart_eq

theorem spreadOffset_nonneg (index : Nat) (pos : 0 < total) (fits : total < 2 ^ 64) (long : 1 ≤ days.toInt) :
    0 ≤ spreadOffset index total days := by
  obtain ⟨i, n, d, part, day, h⟩ := exists_spreads index pos fits long
  rw [h.offset]
  omega

/-- An index that reads as less than the total falls on one of the days. -/
theorem spreadOffset_lt (pos : 0 < total) (fits : total < 2 ^ 64) (long : 1 ≤ days.toInt)
    (small : days.toInt ≤ 2 ^ 53) (h : (UInt64.ofNat index).toFloat < (UInt64.ofNat total).toFloat) :
    spreadOffset index total days < days.toInt := by
  obtain ⟨i, n, d, part, day, hspreads⟩ := exists_spreads index pos fits long
  have hbelow := (hspreads.reads_index.value.lt_iff hspreads.reads_total.value).1 h
  have hrepresentable : Representable ((2 ^ 53 - 1) * 2 ^ (-53 : Int)) :=
    ⟨2 ^ 53 - 1, -53, by norm_num, by norm_num⟩
  have hpart := hspreads.nearest_part.le_of_le hrepresentable (hspreads.reads_index.value.div_le hspreads.reads_total.value hbelow)
  have hday := hspreads.reads_days.value.lt_of_nearest (by linarith [hspreads.days_pos]) hpart hspreads.nearest_day
  have hexact : d = days.toInt.natAbs := by
    have hnearest := hspreads.reads_days.nearest
    rw [toNat_natAbs] at hnearest
    exact hnearest.eq_self (representable_nat (by omega))
  rw [hexact] at hday
  have hfloor := (Nat.floor_lt hspreads.day_nonneg).2 hday
  rw [hspreads.offset]
  omega

/-- An index that does not read as less than the total falls on a day after them, as far as floats count
days one by one. -/
theorem le_spreadOffset (pos : 0 < total) (fits : total < 2 ^ 64) (long : 1 ≤ days.toInt)
    (h : ¬(UInt64.ofNat index).toFloat < (UInt64.ofNat total).toFloat) :
    min days.toInt (2 ^ 53) ≤ spreadOffset index total days := by
  obtain ⟨i, n, d, part, day, hspreads⟩ := exists_spreads index pos fits long
  rw [hspreads.reads_index.value.lt_iff hspreads.reads_total.value, not_lt] at h
  have hn := hspreads.total_pos
  have hd := hspreads.days_pos
  have hone : (1 : ℚ) ≤ part := by
    have hquotient : ((1 : Nat) : ℚ) ≤ i / n := by
      rw [Nat.cast_one, one_le_div (by linarith)]
      exact h
    exact_mod_cast hspreads.nearest_part.ge_of_ge (representable_nat (by omega)) hquotient
  have hall : d ≤ part * d := le_mul_of_one_le_left (by linarith) hone
  have hday := hspreads.nearest_day.ge_of_ge hspreads.reads_days.nearest.representable hall
  have hmin : ((min days.toInt.natAbs (2 ^ 53) : Nat) : ℚ) ≤ d := by
    have hnearest := hspreads.reads_days.nearest
    rw [toNat_natAbs] at hnearest
    exact hnearest.ge_of_ge (representable_nat (min_le_right _ _)) (by exact_mod_cast min_le_left _ _)
  have hfloor := Nat.le_floor (hmin.trans hday)
  rw [hspreads.offset]
  omega

namespace ReadSource

variable {source : ReadSource} {index : Nat}

/-- A read's time is on the day that its candidate falls on. -/
theorem gives_drawTime (source : ReadSource) (index : Nat) :
    Gives (fun drawn : Option DateTime => ∀ time, drawn = some time →
      ∃ day, source.baseTime.addDays? (spreadOffset index source.total source.spreadDays) = some day ∧
        ∃ n, (0 ≤ n ∧ n < 86400) ∧ day.Later n time)
      (source.drawTime index) := by
  unfold drawTime
  refine (gives_int64 (by omega : 23 < 2 ^ 63)).bind fun hours hhours => ?_
  refine (gives_int64 (by omega : 59 < 2 ^ 63)).bind fun minutes hminutes => ?_
  refine (gives_int64 (by omega : 59 < 2 ^ 63)).bind fun seconds hseconds => ?_
  refine gives_pure fun time htime => ?_
  obtain ⟨day, hday, htime⟩ := Option.bind_eq_some_iff.1 htime
  obtain ⟨hour, hhour, htime⟩ := Option.bind_eq_some_iff.1 htime
  obtain ⟨minute, hminute, htime⟩ := Option.bind_eq_some_iff.1 htime
  have hfirst := DateTime.later_of_addSeconds? (by omega) hhour
  have hsecond := DateTime.later_of_addSeconds? (by omega) hminute
  have hthird := DateTime.later_of_addSeconds? hseconds.1 htime
  refine ⟨day, hday, _, ⟨?_, ?_⟩, (hfirst.trans hsecond ?_ ?_).trans hthird ?_ ?_⟩ <;> omega

/-- An accepted candidate has its time from the base time on, and in the window of days if and only if
its index reads as less than the total. -/
theorem Accepts.within_iff {read : Read} {state next : Reading} (h : source.Accepts index read state next)
    (pos : 0 < source.total) (fits : source.total < 2 ^ 64) (long : 1 ≤ source.spreadDays.toInt) :
    source.baseTime ≤ read.timestamp ∧
      (source.baseTime.Within source.spreadDays.toInt read.timestamp ↔
        (UInt64.ofNat index).toFloat < (UInt64.ofNat source.total).toFloat) := by
  obtain ⟨stream, htime⟩ := h.time
  obtain ⟨day, hday, n, hn, hlater⟩ := source.gives_drawTime index stream _ htime
  have hnonneg := spreadOffset_nonneg index pos fits long
  have hlimit := DateTime.days_lt hday
  have hbase := (DateTime.later_of_addSeconds? (by omega) hday).trans hlater (by omega) hn.1
  have hstart := hbase.le (by omega)
  refine ⟨hstart, fun hwithin => ?_, fun hindex => ⟨hstart, fun stop hstop => ?_⟩⟩
  · by_contra hindex
    -- The days of the window are over by then, and they are days of the calendar.
    have hover := le_spreadOffset pos fits long hindex
    obtain ⟨stop, hstop⟩ := DateTime.exists_addSeconds? (by omega)
      (by omega : 86400 * source.spreadDays.toInt ≤ _) hday
    have hend := DateTime.later_of_addSeconds? (by omega) hstop
    have hbefore := (hbase.lt_iff_lt hend (by omega)).1 (hwithin.before stop hstop)
    omega
  · have hdays := DateTime.days_lt hstop
    have hoffset := spreadOffset_lt pos fits long (by omega) hindex
    have hend := DateTime.later_of_addSeconds? (by omega) hstop
    exact (hbase.lt_iff_lt hend (by omega)).2 (by omega)

end ReadSource
end ReadingBench
