import Mathlib
import ReadingBench.Decimal.Whole

namespace ReadingBench.Decimal

open Float.Model Float.Model.UnpackedFloat

/-- A number of at most 53 binary digits. -/
def Representable (v : ℚ) : Prop := ∃ m : Nat, ∃ e : Int, m < 2 ^ 53 ∧ v = m * 2 ^ e

/-- No number of 53 digits is nearer to the first than the second is. -/
structure Nearest (x y : ℚ) : Prop where
  representable : Representable y
  nearest : ∀ v, Representable v → |y - x| ≤ |v - x|

theorem representable_multiple {r : Nat} (small : r ≤ 2 ^ 53) (t : Int) : Representable (r * 2 ^ t) := by
  rcases small.lt_or_eq with hlt | rfl
  · exact ⟨r, t, hlt, rfl⟩
  · refine ⟨2 ^ 52, t + 1, by norm_num, ?_⟩
    rw [zpow_add_one₀ (by norm_num)]
    push_cast
    ring

theorem representable_nat {n : Nat} (h : n ≤ 2 ^ 53) : Representable n := by
  have hmultiple := representable_multiple h 0
  rwa [zpow_zero, mul_one] at hmultiple

namespace Nearest

variable {x y v : ℚ}

theorem le_of_le (h : Nearest x y) (hv : Representable v) (hle : x ≤ v) : y ≤ v := by
  by_contra hlt
  rw [not_le] at hlt
  have hnear := h.nearest v hv
  rw [abs_of_nonneg (by linarith), abs_of_nonneg (by linarith)] at hnear
  linarith

theorem ge_of_ge (h : Nearest x y) (hv : Representable v) (hle : v ≤ x) : v ≤ y := by
  by_contra hlt
  rw [not_le] at hlt
  have hnear := h.nearest v hv
  rw [abs_of_nonpos (by linarith), abs_of_nonpos (by linarith)] at hnear
  linarith

theorem eq_self (h : Nearest x y) (hx : Representable x) : y = x :=
  le_antisymm (h.le_of_le hx le_rfl) (h.ge_of_ge hx le_rfl)

end Nearest

/-- No multiple of a unit is nearer than one that is at most half a unit off. -/
theorem abs_multiple_sub_le {x : ℚ} {r : Nat} {t : Int} (half : |(r : ℚ) * 2 ^ t - x| ≤ 2 ^ t / 2) (k : Nat) :
    |(r : ℚ) * 2 ^ t - x| ≤ |(k : ℚ) * 2 ^ t - x| := by
  have hunit : (0 : ℚ) < 2 ^ t := zpow_pos (by norm_num) t
  rcases eq_or_ne k r with rfl | hne
  · exact le_rfl
  · have hapart : (1 : ℚ) ≤ |(k : ℚ) - r| := by
      have hint : (1 : ℤ) ≤ |(k : ℤ) - r| := Int.one_le_abs (sub_ne_zero.2 (by exact_mod_cast hne))
      exact_mod_cast hint
    have hfar : (2 : ℚ) ^ t ≤ |((k : ℚ) * 2 ^ t - x) - (r * 2 ^ t - x)| := by
      have heq : ((k : ℚ) * 2 ^ t - x) - (r * 2 ^ t - x) = ((k : ℚ) - r) * 2 ^ t := by ring
      rw [heq, abs_mul, abs_of_pos hunit]
      exact le_mul_of_one_le_left hunit.le hapart
    have htriangle := abs_sub ((k : ℚ) * 2 ^ t - x) (r * 2 ^ t - x)
    linarith

/-- A multiple of a unit that is at most half a unit off, where numbers of 53 digits are such multiples. -/
theorem nearest_of_half {x : ℚ} {r : Nat} {t : Int} (low : 2 ^ 52 * 2 ^ t ≤ x) (small : r ≤ 2 ^ 53)
    (half : |(r : ℚ) * 2 ^ t - x| ≤ 2 ^ t / 2) : Nearest x (r * 2 ^ t) := by
  refine ⟨representable_multiple small t, ?_⟩
  rintro v ⟨m, e, hm, rfl⟩
  by_cases he : t ≤ e
  · -- A number of at least this unit is a multiple of it.
    obtain ⟨k, rfl⟩ : ∃ k : Nat, e = t + k := ⟨(e - t).toNat, by omega⟩
    have hk := abs_multiple_sub_le half (m * 2 ^ k)
    have heq : ((m * 2 ^ k : Nat) : ℚ) * 2 ^ t = m * 2 ^ (t + k : Int) := by
      rw [zpow_add₀ (by norm_num), zpow_natCast]
      push_cast
      ring
    rwa [heq] at hk
  · -- One of a smaller unit lies below a multiple that is not above `x`.
    have hpower : (2 : ℚ) ^ e ≤ 2 ^ (t - 1) := zpow_le_zpow_right₀ (by norm_num) (by omega)
    have hdouble : (2 : ℚ) ^ (t - 1) * 2 = 2 ^ t := by
      rw [← zpow_add_one₀ (by norm_num), sub_add_cancel]
    have hm' : (m : ℚ) ≤ 2 ^ 53 := by exact_mod_cast hm.le
    have hbelow : (m : ℚ) * 2 ^ e ≤ 2 ^ 52 * 2 ^ t := by
      have hmul := mul_le_mul hm' hpower (zpow_nonneg (by norm_num) e) (by norm_num)
      linarith
    have hfloor : |(r : ℚ) * 2 ^ t - x| ≤ |2 ^ 52 * 2 ^ t - x| := by
      exact_mod_cast abs_multiple_sub_le half (2 ^ 52)
    rw [abs_of_nonpos (show (2 : ℚ) ^ 52 * 2 ^ t - x ≤ 0 by linarith)] at hfloor
    rw [abs_of_nonpos (show (m : ℚ) * 2 ^ e - x ≤ 0 by linarith)]
    linarith

/-- What a mantissa and its residual bits tell of the number that was cut off to it. -/
def Represents (em : ExtendedMantissa) (x : ℚ) : Prop :=
  match em.roundBit, em.stickyBit with
  | false, false => x = em.mantissa
  | false, true => (em.mantissa : ℚ) < x ∧ x < em.mantissa + 1 / 2
  | true, false => x = em.mantissa + 1 / 2
  | true, true => (em.mantissa : ℚ) + 1 / 2 < x ∧ x < em.mantissa + 1

namespace Represents

variable {em : ExtendedMantissa} {x : ℚ}

theorem bounds (h : Represents em x) : (em.mantissa : ℚ) ≤ x ∧ x < em.mantissa + 1 := by
  obtain ⟨m, round, sticky⟩ := em
  cases round <;> cases sticky <;> simp only [Represents] at h <;> constructor <;> linarith

theorem half (h : Represents em x) : |(em.roundedMantissa : ℚ) - x| ≤ 1 / 2 := by
  obtain ⟨m, round, sticky⟩ := em
  rw [abs_le]
  cases round with
  | false =>
    cases sticky with
    | false =>
      simp only [Represents] at h
      subst h
      change -(1 / 2) ≤ (m : ℚ) - m ∧ (m : ℚ) - m ≤ 1 / 2
      constructor <;> linarith
    | true =>
      simp only [Represents] at h
      change -(1 / 2) ≤ (m : ℚ) - x ∧ (m : ℚ) - x ≤ 1 / 2
      constructor <;> linarith
  | true =>
    cases sticky with
    | false =>
      simp only [Represents] at h
      change -(1 / 2) ≤ ((m + m % 2 : Nat) : ℚ) - x ∧ ((m + m % 2 : Nat) : ℚ) - x ≤ 1 / 2
      have hmod : ((m % 2 : Nat) : ℚ) ≤ 1 := by exact_mod_cast (by omega : m % 2 ≤ 1)
      have hnonneg : (0 : ℚ) ≤ ((m % 2 : Nat) : ℚ) := Nat.cast_nonneg _
      rw [Nat.cast_add]
      constructor <;> linarith
    | true =>
      simp only [Represents] at h
      change -(1 / 2) ≤ ((m + 1 : Nat) : ℚ) - x ∧ ((m + 1 : Nat) : ℚ) - x ≤ 1 / 2
      rw [Nat.cast_add, Nat.cast_one]
      constructor <;> linarith

theorem shiftRightOne (h : Represents em x) : Represents em.shiftRightOne (x / 2) := by
  obtain ⟨m, round, sticky⟩ := em
  have hsplit : (m : ℚ) = 2 * (m / 2 : Nat) + (m % 2 : Nat) := by
    exact_mod_cast (by omega : m = 2 * (m / 2) + m % 2)
  rcases Nat.mod_two_eq_zero_or_one m with hbit | hbit
  all_goals
    rw [hbit] at hsplit
    push_cast at hsplit
    cases round <;> cases sticky <;>
      simp only [Represents, ExtendedMantissa.shiftRightOne, hbit] at h ⊢ <;>
      simp <;> (try constructor) <;> linarith

theorem shiftRight (h : Represents em x) (n : Nat) : Represents (em >>> n) (x / 2 ^ n) := by
  change Represents (n.repeat ExtendedMantissa.shiftRightOne em) _
  induction n with
  | zero => simpa [Nat.repeat] using h
  | succ n ih =>
    rw [Nat.repeat, pow_succ, ← div_div]
    exact ih.shiftRightOne

end Represents

/-- A mantissa with all its digits. -/
def Full (m : Nat) : Prop := 2 ^ 52 ≤ m ∧ m < 2 ^ 53

theorem full_iff {m : Nat} : Full m ↔ m ≠ 0 ∧ m.log2 = 52 := by
  unfold Full
  constructor
  · intro h
    have hpos : m ≠ 0 := by
      rintro rfl
      exact absurd h.1 (by norm_num)
    exact ⟨hpos, (Nat.log2_eq_iff hpos).2 h⟩
  · rintro ⟨hpos, hlog⟩
    exact (Nat.log2_eq_iff hpos).1 hlog

theorem targetExponent_eq (m : Nat) (e : Int) :
    Format.binary64.targetExponent (totalExponent m e) = max (m.log2 + e - 52) (-1074) := by
  simp only [Format.targetExponent, totalExponent, Format.mantissaBits, Format.minExponent]
  norm_num
  omega

theorem shiftToTargetExponent_eq {m : Nat} {e : Int} {k : Nat} (acc : Accuracy)
    (h : Format.binary64.targetExponent (totalExponent m e) = e + k) :
    shiftToTargetExponent Format.binary64 m e acc =
      (ExtendedMantissa.ofMantissaAndAccuracy m acc >>> k, e + k) := by
  have hshift : (e + (k : Int) - e).toNat = k := by omega
  unfold shiftToTargetExponent shiftToExponent
  rw [h]
  dsimp only
  rw [hshift]

theorem mantissa_ofMantissaAndAccuracy (m : Nat) (acc : Accuracy) :
    (ExtendedMantissa.ofMantissaAndAccuracy m acc).mantissa = m := by
  rcases acc with _ | _ | _ | _ <;> rfl

/-- What is rounded to 53 digits has them, or has one more that is 0. -/
theorem rounded_bounds {r : Nat} {x : ℚ} (half : |(r : ℚ) - x| ≤ 1 / 2) (low : 2 ^ 52 ≤ x)
    (high : x < 2 ^ 53) : 2 ^ 52 ≤ r ∧ r ≤ 2 ^ 53 := by
  obtain ⟨hbelow, habove⟩ := abs_le.1 half
  constructor
  · by_contra hlt
    have hr : (r : ℚ) + 1 ≤ 2 ^ 52 := by exact_mod_cast (by omega : r + 1 ≤ 2 ^ 52)
    linarith
  · by_contra hlt
    have hr : (2 : ℚ) ^ 53 + 1 ≤ r := by exact_mod_cast (by omega : 2 ^ 53 + 1 ≤ r)
    linarith

/-- Cutting off all digits but 53. -/
theorem Represents.shifted_bounds {m k : Nat} {acc : Accuracy} {x : ℚ}
    (h : Represents (ExtendedMantissa.ofMantissaAndAccuracy m acc) x) (hpos : m ≠ 0) (digits : m.log2 = 52 + k) :
    (2 : ℚ) ^ 52 ≤ x / 2 ^ k ∧ x / 2 ^ k < 2 ^ 53 := by
  obtain ⟨hlow, hhigh⟩ := h.bounds
  rw [mantissa_ofMantissaAndAccuracy] at hlow hhigh
  obtain ⟨hm, hm'⟩ := (Nat.log2_eq_iff hpos).1 digits
  have hfirst : (2 : ℚ) ^ 52 * 2 ^ k ≤ m := by
    rw [← pow_add]
    exact_mod_cast hm
  have hlast : (m : ℚ) + 1 ≤ 2 ^ 53 * 2 ^ k := by
    rw [← pow_add]
    rw [show 52 + k + 1 = 53 + k by omega] at hm'
    exact_mod_cast Nat.succ_le_of_lt hm'
  constructor
  · rw [le_div_iff₀ (by positivity)]
    linarith
  · rw [div_lt_iff₀ (by positivity)]
    linarith

/-- After rounding nothing more is lost, also where rounding up to a power of two left a digit too many. -/
theorem shiftToTargetExponent_rounded {r : Nat} {e : Int} (low : 2 ^ 52 ≤ r) (high : r ≤ 2 ^ 53)
    (normal : -1074 ≤ e) : ∃ m e', shiftToTargetExponent Format.binary64 r e .exact = (⟨m, false, false⟩, e') ∧
      Full m ∧ (m : ℚ) * 2 ^ e' = r * 2 ^ e := by
  rcases high.lt_or_eq with hlt | rfl
  · have hsame : Format.binary64.targetExponent (totalExponent r e) = e + (0 : Nat) := by
      rw [targetExponent_eq, (full_iff.1 ⟨low, hlt⟩).2]
      push_cast
      omega
    refine ⟨r, e, ?_, ⟨low, hlt⟩, rfl⟩
    rw [shiftToTargetExponent_eq .exact hsame, Nat.cast_zero, add_zero]
    rfl
  · have hnext : Format.binary64.targetExponent (totalExponent (2 ^ 53) e) = e + (1 : Nat) := by
      rw [targetExponent_eq, Nat.log2_two_pow]
      push_cast
      omega
    refine ⟨2 ^ 52, e + 1, ?_, ⟨le_rfl, by norm_num⟩, ?_⟩
    · rw [shiftToTargetExponent_eq .exact hnext]
      rfl
    · rw [zpow_add_one₀ (by norm_num)]
      push_cast
      ring

/-- A mantissa of 53 digits or more is rounded to 53 digits, and to a nearest number. -/
theorem roundWithAccuracy_eq {m : Nat} {e : Int} {acc : Accuracy} {x : ℚ} {k : Nat}
    (h : Represents (ExtendedMantissa.ofMantissaAndAccuracy m acc) (x / 2 ^ e))
    (digits : m.log2 = 52 + k) (low : -1074 ≤ e) :
    ∃ m' e', ∃ pos : 0 < m', roundWithAccuracy Format.binary64 .positive m e acc = .finite .positive m' e' pos ∧
      Full m' ∧ Nearest x (m' * 2 ^ e') := by
  have hpos : m ≠ 0 := by
    rintro rfl
    have hzero : Nat.log2 0 = 0 := by simp
    omega
  have htarget : Format.binary64.targetExponent (totalExponent m e) = e + k := by
    rw [targetExponent_eq, digits]
    push_cast
    omega
  have hunit : (0 : ℚ) < 2 ^ (e + k : Int) := zpow_pos (by norm_num) _
  have hscaled : x / 2 ^ e / 2 ^ k = x / 2 ^ (e + k : Int) := by
    rw [div_div, zpow_add₀ (by norm_num), zpow_natCast]
  obtain ⟨hlow, hhigh⟩ := h.shifted_bounds hpos digits
  have hhalf := (h.shiftRight k).half
  rw [hscaled] at hlow hhigh hhalf
  obtain ⟨r, hr⟩ : ∃ r, (ExtendedMantissa.ofMantissaAndAccuracy m acc >>> k).roundedMantissa = r := ⟨_, rfl⟩
  rw [hr] at hhalf
  obtain ⟨hrlow, hrhigh⟩ := rounded_bounds hhalf hlow hhigh
  have hnearest : Nearest x (r * 2 ^ (e + k : Int)) := by
    refine nearest_of_half ((le_div_iff₀ hunit).1 hlow) hrhigh ?_
    have heq : (r : ℚ) * 2 ^ (e + k : Int) - x = (r - x / 2 ^ (e + k : Int)) * 2 ^ (e + k : Int) := by
      field_simp
    rw [heq, abs_mul, abs_of_pos hunit]
    linarith [mul_le_mul_of_nonneg_right hhalf hunit.le]
  obtain ⟨m', e', hshift, hfull, hvalue⟩ := shiftToTargetExponent_rounded hrlow hrhigh (by omega : -1074 ≤ e + k)
  have hne := (full_iff.1 hfull).1
  refine ⟨m', e', Nat.pos_of_ne_zero hne, ?_, hfull, hvalue ▸ hnearest⟩
  unfold roundWithAccuracy
  rw [shiftToTargetExponent_eq acc htarget]
  dsimp only
  rw [hr, hshift]
  exact dif_neg hne

theorem unpackSign_packComponents {spec : Format} {s : Sign} {e : BitVec spec.exponentBits}
    {m : BitVec spec.mantissaBitsWithoutImplicit} :
    unpackSign (packComponents spec s e m) = s.toBitVec := by
  ext i hi
  obtain rfl : i = 0 := by omega
  simp [unpackSign, packComponents, BitVec.getLsbD_append, BitVec.getElem_append]

/-- What is rounded is stored without loss, unless its exponent is too large. -/
theorem unpack_pack {m : Nat} {e : Int} (full : Full m) (pos : 0 < m) (low : -1074 ≤ e) (high : e ≤ 971) :
    (Float.Model.pack (.finite .positive m e pos)).unpack = .finite .positive m e pos := by
  obtain ⟨hlow, hhigh⟩ := full
  have hlog := (full_iff.1 ⟨hlow, hhigh⟩).2
  obtain ⟨biased, hbiased⟩ : ∃ n : Nat, e + 1023 + 52 = n := ⟨(e + 1023 + 52).toNat, by omega⟩
  change UnpackedFloat.unpack Format.binary64 (UnpackedFloat.pack Format.binary64 (.finite .positive m e pos)) = _
  have hpack : UnpackedFloat.pack Format.binary64 (.finite .positive m e pos) =
      packComponents Format.binary64 .positive (BitVec.ofNat 11 biased) (BitVec.ofNat 52 m) := by
    have hsmall : ¬2 ^ 11 ≤ (e + 1023 + 52).toNat + 1 := by omega
    have hnormal : m.log2 + 1 = 53 := by omega
    have htoNat : (e + 1023 + 52).toNat = biased := by omega
    unfold UnpackedFloat.pack
    change (if 2 ^ 11 ≤ (e + 1023 + 52).toNat + 1 then _ else if m.log2 + 1 = 53 then _ else _) = _
    rw [if_neg hsmall, if_pos hnormal]
    exact congrArg (fun n => packComponents Format.binary64 .positive (BitVec.ofNat 11 n) (BitVec.ofNat 52 m)) htoNat
  have hexponent : (BitVec.ofNat 11 biased).toNat = biased := by
    rw [BitVec.toNat_ofNat, Nat.mod_eq_of_lt (by omega)]
  have hinfinite : BitVec.ofNat 11 biased ≠ -1#11 := by
    intro h
    have hnat := congrArg BitVec.toNat h
    rw [hexponent] at hnat
    change biased = 2047 at hnat
    omega
  have hsubnormal : BitVec.ofNat 11 biased ≠ 0#11 := by
    intro h
    have hnat := congrArg BitVec.toNat h
    rw [hexponent] at hnat
    change biased = 0 at hnat
    omega
  have hmantissa : (1#1 ++ BitVec.ofNat 52 m).toNat = m := by
    rw [BitVec.toNat_append, ← Nat.shiftLeft_add_eq_or_of_lt (BitVec.ofNat 52 m).isLt, Nat.shiftLeft_eq,
      BitVec.toNat_ofNat]
    change 1 * 2 ^ 52 + m % 2 ^ 52 = m
    omega
  rw [hpack]
  unfold UnpackedFloat.unpack
  simp only [unpackMantissa_packComponents, unpackExponent_packComponents, unpackSign_packComponents,
    hinfinite, if_false, hsubnormal, hmantissa, hexponent]
  congr 1
  simp only [Format.exponentBias]
  push_cast
  omega

/-- The float stands for this number. -/
inductive HasValue (x : Float) : ℚ → Prop where
  | zero (unpacked : x.toModel.unpack = .zero .positive) : HasValue x 0
  | number {m : Nat} {e : Int} {pos : 0 < m} (unpacked : x.toModel.unpack = .finite .positive m e pos)
      (full : Full m) : HasValue x (m * 2 ^ e)

/-- Far from where numbers become too small or too large for floats. -/
def Moderate (x : ℚ) : Prop := 2 ^ (-200 : Int) ≤ x ∧ x ≤ 2 ^ (200 : Int)

theorem representable_zero : Representable 0 := ⟨0, 0, by norm_num, by simp⟩

theorem representable_power (e : Int) : Representable (2 ^ e) := ⟨1, e, by norm_num, by simp⟩

theorem nearest_zero : Nearest 0 0 :=
  ⟨representable_zero, fun v _ => by rw [sub_self, abs_zero]; exact abs_nonneg _⟩

/-- A number between powers of two has its exponent between theirs. -/
theorem exponent_bounds {m digits : Nat} {e low high : Int} (hlow : 2 ^ low ≤ (m : ℚ) * 2 ^ e)
    (hhigh : (m : ℚ) * 2 ^ e ≤ 2 ^ high) (hdigits : m < 2 ^ digits) (hpos : 0 < m) :
    low < digits + e ∧ e ≤ high := by
  have hunit : (0 : ℚ) < 2 ^ e := zpow_pos (by norm_num) e
  constructor
  · have hm : (m : ℚ) < 2 ^ digits := by exact_mod_cast hdigits
    have hlt : (2 : ℚ) ^ low < 2 ^ (digits + e : Int) := by
      rw [zpow_add₀ (by norm_num), zpow_natCast]
      exact hlow.trans_lt (mul_lt_mul_of_pos_right hm hunit)
    exact (zpow_lt_zpow_iff_right₀ (by norm_num)).1 hlt
  · have hm : (1 : ℚ) ≤ m := by exact_mod_cast hpos
    have hle : (2 : ℚ) ^ e ≤ 2 ^ high := (le_mul_of_one_le_left hunit.le hm).trans hhigh
    exact (zpow_le_zpow_iff_right₀ (by norm_num)).1 hle

theorem hasValue_pack {f : UnpackedFloat} {x : ℚ} (moderate : Moderate x)
    (h : ∃ m e, ∃ pos : 0 < m, f = .finite .positive m e pos ∧ Full m ∧ Nearest x (m * 2 ^ e)) :
    ∃ v, HasValue (.ofModel (Float.Model.pack f)) v ∧ Nearest x v := by
  obtain ⟨m, e, pos, rfl, full, hnearest⟩ := h
  have hlow := hnearest.ge_of_ge (representable_power _) moderate.1
  have hhigh := hnearest.le_of_le (representable_power _) moderate.2
  obtain ⟨hfirst, hlast⟩ := exponent_bounds hlow hhigh full.2 pos
  exact ⟨_, .number (unpack_pack full pos (by omega) (by omega)) full, hnearest⟩

end ReadingBench.Decimal
