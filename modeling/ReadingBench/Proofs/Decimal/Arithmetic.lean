import Mathlib
import ReadingBench.Proofs.Decimal.Rounding

namespace ReadingBench.Decimal

open Float.Model Float.Model.UnpackedFloat

theorem log2_shiftLeft {m : Nat} (hm : m ≠ 0) (s : Nat) : (m <<< s).log2 = m.log2 + s := by
  obtain ⟨hlow, hhigh⟩ := (Nat.log2_eq_iff hm).1 rfl
  rw [Nat.shiftLeft_eq]
  have hne : m * 2 ^ s ≠ 0 := Nat.mul_ne_zero hm (by positivity)
  refine (Nat.log2_eq_iff hne).2 ⟨?_, ?_⟩
  · rw [pow_add]
    exact Nat.mul_le_mul_right _ hlow
  · rw [show m.log2 + s + 1 = m.log2 + 1 + s by omega, pow_add]
    exact Nat.mul_lt_mul_of_pos_right hhigh (by positivity)

/-- A word is read as a nearest number. -/
theorem hasValue_toFloat (n : UInt64) : ∃ v, HasValue n.toFloat v ∧ Nearest n.toNat v := by
  obtain ⟨k, hk⟩ : ∃ k, n.toNat = k := ⟨_, rfl⟩
  have hbound := n.toNat_lt
  have hmodel : n.toFloat = .ofModel (Float.Model.pack (normalize Format.binary64 k 0 .positive)) := by
    rw [← hk]
    rfl
  rw [hmodel, hk]
  rw [hk] at hbound
  rcases Nat.eq_zero_or_pos k with rfl | hpos
  · refine ⟨0, .zero rfl, ?_⟩
    exact_mod_cast nearest_zero
  · have hcompare : compare (k : Int) 0 = .gt := Int.compare_eq_gt.2 (by omega)
    have hlog : k.log2 < 64 := (Nat.log2_lt (by omega)).2 hbound
    have htarget : Format.binary64.targetExponent (totalExponent k 0) = k.log2 - 52 := by
      rw [targetExponent_eq]
      omega
    obtain ⟨s, hs⟩ : ∃ s : Nat, (0 - ((k.log2 : Int) - 52)).toNat = s := ⟨_, rfl⟩
    have hround : normalize Format.binary64 k 0 .positive =
        roundWithAccuracy Format.binary64 .positive (k <<< s) (0 - s) .exact := by
      unfold UnpackedFloat.normalize
      rw [hcompare]
      dsimp only
      unfold UnpackedFloat.round decreaseExponent
      rw [Int.toNat_natCast, htarget]
      dsimp only
      rw [hs]
    rw [hround]
    refine hasValue_pack ⟨?_, ?_⟩ (roundWithAccuracy_eq (k := k.log2 + s - 52) ?_ ?_ ?_)
    · have hone : (1 : ℚ) ≤ k := by exact_mod_cast hpos
      refine le_trans ?_ hone
      norm_num
    · have hlast : (k : ℚ) ≤ 2 ^ 64 := by exact_mod_cast hbound.le
      refine hlast.trans ?_
      norm_num
    · change (k : ℚ) / 2 ^ (0 - s : Int) = ((k <<< s : Nat) : ℚ)
      rw [Nat.shiftLeft_eq, zero_sub, zpow_neg, zpow_natCast, div_inv_eq_mul]
      push_cast
      ring
    · rw [log2_shiftLeft (by omega)]
      omega
    · omega

theorem represents_div {m d : Nat} (hd : 0 < d) :
    Represents (ExtendedMantissa.ofMantissaAndAccuracy (m / d) (accuracyOfFraction (m % d) d)) ((m : ℚ) / d) := by
  have hdenominator : (0 : ℚ) < d := by exact_mod_cast hd
  have hsplit : (m : ℚ) = d * (m / d : Nat) + (m % d : Nat) := by exact_mod_cast (Nat.div_add_mod m d).symm
  have hrest : ((m % d : Nat) : ℚ) < d := by exact_mod_cast Nat.mod_lt m hd
  have hquotient : (m : ℚ) / d = (m / d : Nat) + (m % d : Nat) / d := by
    rw [div_eq_iff hdenominator.ne', add_mul, div_mul_cancel₀ _ hdenominator.ne']
    linarith
  rw [hquotient]
  unfold accuracyOfFraction
  by_cases hzero : m % d = 0
  · rw [if_pos hzero, hzero]
    simp [Represents, ExtendedMantissa.ofMantissaAndAccuracy]
  · rw [if_neg hzero]
    have hpos : (0 : ℚ) < (m % d : Nat) / d := by
      have hrest' : (0 : ℚ) < (m % d : Nat) := by exact_mod_cast Nat.pos_of_ne_zero hzero
      positivity
    have hone : ((m % d : Nat) : ℚ) / d < 1 := (div_lt_one hdenominator).2 hrest
    rcases lt_trichotomy (2 * (m % d)) d with hlt | heq | hgt
    · have hhalf : ((m % d : Nat) : ℚ) / d < 1 / 2 := by
        rw [div_lt_iff₀ hdenominator]
        have hcast : (2 : ℚ) * (m % d : Nat) < d := by exact_mod_cast hlt
        linarith
      rw [Nat.compare_eq_lt.2 hlt]
      change _ < _ ∧ _ < _
      constructor <;> simp only [ExtendedMantissa.ofMantissaAndAccuracy] <;> linarith
    · have hhalf : ((m % d : Nat) : ℚ) / d = 1 / 2 := by
        rw [div_eq_iff hdenominator.ne']
        have hcast : (2 : ℚ) * (m % d : Nat) = d := by exact_mod_cast heq
        linarith
      rw [Nat.compare_eq_eq.2 heq]
      change _ = _
      simp only [ExtendedMantissa.ofMantissaAndAccuracy]
      linarith
    · have hhalf : 1 / 2 < ((m % d : Nat) : ℚ) / d := by
        rw [lt_div_iff₀ hdenominator]
        have hcast : (d : ℚ) < 2 * (m % d : Nat) := by exact_mod_cast hgt
        linarith
      rw [Nat.compare_eq_gt.2 hgt]
      change _ < _ ∧ _ < _
      constructor <;> simp only [ExtendedMantissa.ofMantissaAndAccuracy] <;> linarith

section Operations

variable {x y : Float} {a b : ℚ}

theorem HasValue.nonneg (hx : HasValue x a) : 0 ≤ a := by
  cases hx with
  | zero _ => exact le_rfl
  | number _ _ => positivity

/-- With all digits there, the greater exponent belongs to the greater number. -/
theorem lt_of_exponent_lt {m₁ m₂ : Nat} {e₁ e₂ : Int} (full₁ : Full m₁) (full₂ : Full m₂) (h : e₁ < e₂) :
    (m₁ : ℚ) * 2 ^ e₁ < m₂ * 2 ^ e₂ := by
  have hunit : (0 : ℚ) < 2 ^ e₁ := zpow_pos (by norm_num) _
  have hm₁ : (m₁ : ℚ) < 2 ^ 53 := by exact_mod_cast full₁.2
  have hm₂ : (2 : ℚ) ^ 52 ≤ m₂ := by exact_mod_cast full₂.1
  have hpower : (2 : ℚ) ^ (e₁ + 1) ≤ 2 ^ e₂ := zpow_le_zpow_right₀ (by norm_num) (by omega)
  rw [zpow_add_one₀ (by norm_num)] at hpower
  calc (m₁ : ℚ) * 2 ^ e₁
    _ < 2 ^ 53 * 2 ^ e₁ := mul_lt_mul_of_pos_right hm₁ hunit
    _ = 2 ^ 52 * (2 ^ e₁ * 2) := by ring
    _ ≤ m₂ * 2 ^ e₂ := mul_le_mul hm₂ hpower (by positivity) (by positivity)

theorem div_finite {m₁ m₂ : Nat} {e₁ e₂ : Int} (pos₁ : 0 < m₁) (pos₂ : 0 < m₂) (spec : Format) :
    UnpackedFloat.div spec (.finite .positive m₁ e₁ pos₁) (.finite .positive m₂ e₂ pos₂) =
      roundWithAccuracy spec .positive (divCore spec m₁ e₁ m₂ e₂).1 (divCore spec m₁ e₁ m₂ e₂).2.1
        (divCore spec m₁ e₁ m₂ e₂).2.2 := rfl

theorem quotient_scaled (m₁ m₂ : Nat) (e₁ e₂ : Int) :
    (m₁ : ℚ) * 2 ^ e₁ / (m₂ * 2 ^ e₂) = m₁ / m₂ * 2 ^ (e₁ - e₂) := by
  rw [zpow_sub₀ (by norm_num)]
  field_simp

/-- A quotient of mantissas is at most two. -/
theorem le_exponent_sub {m₁ m₂ : Nat} {e₁ e₂ low : Int} (full₁ : Full m₁) (full₂ : Full m₂)
    (h : (2 : ℚ) ^ low ≤ m₁ * 2 ^ e₁ / (m₂ * 2 ^ e₂)) : low ≤ e₁ - e₂ + 1 := by
  have hhigh : (m₁ : ℚ) ≤ 2 ^ 53 := by exact_mod_cast full₁.2.le
  have hlow : (2 : ℚ) ^ 52 ≤ m₂ := by exact_mod_cast full₂.1
  have htwo : (m₁ : ℚ) / m₂ ≤ 2 := by
    rw [div_le_iff₀ (by linarith)]
    linarith
  have hpower : (2 : ℚ) ^ low ≤ 2 ^ (e₁ - e₂ + 1) := by
    rw [zpow_add_one₀ (by norm_num), mul_comm]
    rw [quotient_scaled] at h
    exact h.trans (mul_le_mul_of_nonneg_right htwo (by positivity))
  exact (zpow_le_zpow_iff_right₀ (by norm_num)).1 hpower

/-- A quotient is computed with 53 digits more than the dividend has. -/
theorem divCore_eq {m₁ m₂ : Nat} {e₁ e₂ : Int} (full₁ : Full m₁) (full₂ : Full m₂)
    (normal : -1021 ≤ e₁ - e₂) : divCore Format.binary64 m₁ e₁ m₂ e₂ =
      (m₁ * 2 ^ 53 / m₂, e₁ - e₂ - 53, accuracyOfFraction (m₁ * 2 ^ 53 % m₂) m₂) := by
  have htotal : totalExponent m₁ e₁ - totalExponent m₂ e₂ = e₁ - e₂ := by
    unfold totalExponent
    rw [(full_iff.1 full₁).2, (full_iff.1 full₂).2]
    omega
  have htarget : min (e₁ - e₂) (Format.binary64.targetExponent (e₁ - e₂)) = e₁ - e₂ - 53 := by
    simp only [Format.targetExponent, Format.mantissaBits, Format.minExponent]
    norm_num
    omega
  have hshift : (e₁ - e₂ - (e₁ - e₂ - 53)).toNat = 53 := by omega
  unfold divCore
  rw [htotal, htarget]
  dsimp only
  rw [hshift, Nat.shiftLeft_eq]

/-- A quotient is a nearest number. -/
theorem HasValue.div (hx : HasValue x a) (hy : HasValue y b) (hb : 0 < b)
    (h : a = 0 ∨ Moderate (a / b)) : ∃ v, HasValue (x / y) v ∧ Nearest (a / b) v := by
  have hmodel : x / y = .ofModel (Float.Model.pack
      (UnpackedFloat.div Format.binary64 x.toModel.unpack y.toModel.unpack)) := rfl
  rw [hmodel]
  cases hy with
  | zero _ => exact absurd hb (lt_irrefl _)
  | @number m₂ e₂ pos₂ hunpacked₂ hfull₂ =>
    rw [hunpacked₂]
    cases hx with
    | zero hunpacked =>
      have hzero : UnpackedFloat.div Format.binary64 (.zero .positive) (.finite .positive m₂ e₂ pos₂) =
          .zero .positive := rfl
      rw [hunpacked, hzero, zero_div]
      exact ⟨0, .zero rfl, nearest_zero⟩
    | @number m₁ e₁ pos₁ hunpacked₁ hfull₁ =>
      rw [hunpacked₁]
      have hunit : (0 : ℚ) < 2 ^ e₁ := zpow_pos (by norm_num) _
      have hm₁ : (0 : ℚ) < m₁ := by exact_mod_cast pos₁
      have moderate := h.resolve_left (by positivity)
      have hexponent := le_exponent_sub hfull₁ hfull₂ moderate.1
      obtain ⟨n, hn⟩ : ∃ n, n = m₁ * 2 ^ 53 := ⟨_, rfl⟩
      have hquotient : 2 ^ 52 ≤ n / m₂ := by
        have hlow := hfull₁.1
        have hhigh := hfull₂.2
        rw [Nat.le_div_iff_mul_le pos₂]
        omega
      have hdigits := (Nat.le_log2 (by omega)).2 hquotient
      have hsame : (m₁ : ℚ) * 2 ^ e₁ / (m₂ * 2 ^ e₂) / 2 ^ (e₁ - e₂ - 53) = (n : ℚ) / m₂ := by
        rw [quotient_scaled, hn, zpow_sub₀ (by norm_num) (e₁ - e₂) 53]
        push_cast
        field_simp
      have hrepresents := represents_div (m := n) pos₂
      rw [← hsame] at hrepresents
      rw [div_finite, divCore_eq hfull₁ hfull₂ (by omega), ← hn]
      exact hasValue_pack moderate
        (roundWithAccuracy_eq (k := (n / m₂).log2 - 52) hrepresents (by dsimp only; omega) (by dsimp only; omega))

theorem mul_finite {m₁ m₂ : Nat} {e₁ e₂ : Int} (pos₁ : 0 < m₁) (pos₂ : 0 < m₂) (spec : Format) :
    UnpackedFloat.mul spec (.finite .positive m₁ e₁ pos₁) (.finite .positive m₂ e₂ pos₂) =
      roundWithAccuracy spec .positive (m₁ * m₂) (e₁ + e₂) .exact := rfl

/-- A product is a nearest number. -/
theorem HasValue.mul (hx : HasValue x a) (hy : HasValue y b) (hb : 0 < b)
    (h : a = 0 ∨ Moderate (a * b)) : ∃ v, HasValue (x * y) v ∧ Nearest (a * b) v := by
  have hmodel : x * y = .ofModel (Float.Model.pack
      (UnpackedFloat.mul Format.binary64 x.toModel.unpack y.toModel.unpack)) := rfl
  rw [hmodel]
  cases hy with
  | zero _ => exact absurd hb (lt_irrefl _)
  | @number m₂ e₂ pos₂ hunpacked₂ hfull₂ =>
    rw [hunpacked₂]
    cases hx with
    | zero hunpacked =>
      have hzero : UnpackedFloat.mul Format.binary64 (.zero .positive) (.finite .positive m₂ e₂ pos₂) =
          .zero .positive := rfl
      rw [hunpacked, hzero, zero_mul]
      exact ⟨0, .zero rfl, nearest_zero⟩
    | @number m₁ e₁ pos₁ hunpacked₁ hfull₁ =>
      rw [hunpacked₁]
      have hunit : (0 : ℚ) < 2 ^ e₁ := zpow_pos (by norm_num) _
      have hm₁ : (0 : ℚ) < m₁ := by exact_mod_cast pos₁
      have moderate := h.resolve_left (by positivity)
      have hscaled : (m₁ : ℚ) * 2 ^ e₁ * (m₂ * 2 ^ e₂) = (m₁ * m₂ : Nat) * 2 ^ (e₁ + e₂) := by
        rw [zpow_add₀ (by norm_num)]
        push_cast
        ring
      have hlow : 2 ^ 104 ≤ m₁ * m₂ := (Nat.mul_le_mul hfull₁.1 hfull₂.1 : 2 ^ 52 * 2 ^ 52 ≤ m₁ * m₂)
      have hhigh : m₁ * m₂ < 2 ^ 106 :=
        (Nat.mul_lt_mul'' hfull₁.2 hfull₂.2 : m₁ * m₂ < 2 ^ 53 * 2 ^ 53)
      have hexponent := (exponent_bounds (hscaled ▸ moderate.1) (hscaled ▸ moderate.2) hhigh
        (Nat.mul_pos pos₁ pos₂)).1
      have hdigits := (Nat.le_log2 (by omega)).2 hlow
      have hexact : Represents (ExtendedMantissa.ofMantissaAndAccuracy (m₁ * m₂) .exact)
          ((m₁ : ℚ) * 2 ^ e₁ * (m₂ * 2 ^ e₂) / 2 ^ (e₁ + e₂)) := by
        rw [hscaled, mul_div_cancel_right₀ _ (zpow_ne_zero _ (by norm_num))]
        rfl
      rw [mul_finite]
      exact hasValue_pack moderate
        (roundWithAccuracy_eq (k := (m₁ * m₂).log2 - 52) hexact (by omega) (by omega))

/-- Floats compare as their numbers do. -/
theorem HasValue.lt_iff (hx : HasValue x a) (hy : HasValue y b) : x < y ↔ a < b := by
  have hmodel : x < y ↔ x.toModel.unpack.compare y.toModel.unpack = some .lt := by
    change decide ((x.toModel.unpack.compare y.toModel.unpack == some .lt) = true) = true ↔ _
    rw [decide_eq_true_iff, beq_iff_eq]
  rw [hmodel]
  cases hx with
  | zero hunpacked₁ =>
    rw [hunpacked₁]
    cases hy with
    | zero hunpacked₂ =>
      rw [hunpacked₂]
      simp [UnpackedFloat.compare]
    | @number m₂ e₂ pos₂ hunpacked₂ hfull₂ =>
      rw [hunpacked₂]
      have hm₂ : (0 : ℚ) < m₂ := by exact_mod_cast pos₂
      have hpos : (0 : ℚ) < m₂ * 2 ^ e₂ := by positivity
      simp [UnpackedFloat.compare, hpos]
  | @number m₁ e₁ pos₁ hunpacked₁ hfull₁ =>
    rw [hunpacked₁]
    have hnonneg : (0 : ℚ) ≤ m₁ * 2 ^ e₁ := by positivity
    cases hy with
    | zero hunpacked₂ =>
      rw [hunpacked₂]
      simp [UnpackedFloat.compare, hnonneg]
    | @number m₂ e₂ pos₂ hunpacked₂ hfull₂ =>
      rw [hunpacked₂]
      have hcompare : UnpackedFloat.compare (.finite .positive m₁ e₁ pos₁) (.finite .positive m₂ e₂ pos₂) =
          some ((compare e₁ e₂).then (compare m₁ m₂)) := rfl
      rw [hcompare, Option.some_inj]
      rcases lt_trichotomy e₁ e₂ with hlt | rfl | hgt
      · rw [Int.compare_eq_lt.2 hlt]
        exact iff_of_true rfl (lt_of_exponent_lt hfull₁ hfull₂ hlt)
      · rw [Int.compare_eq_eq.2 rfl, mul_lt_mul_iff_left₀ (zpow_pos (by norm_num) _), Nat.cast_lt]
        exact Nat.compare_eq_lt
      · rw [Int.compare_eq_gt.2 hgt]
        exact iff_of_false nofun (lt_of_exponent_lt hfull₂ hfull₁ hgt).not_gt

theorem hasValue_zero : HasValue 0 0 := .zero rfl

theorem floor_eq {em : ExtendedMantissa} {r : ℚ} (h : Represents em r) : em.mantissa = ⌊r⌋₊ := by
  obtain ⟨hlow, hhigh⟩ := h.bounds
  exact ((Nat.floor_eq_iff ((Nat.cast_nonneg _).trans hlow)).2 ⟨hlow, hhigh⟩).symm

theorem roundToInt_eq (m : Nat) (e : Int) : roundToInt .positive m e = ⌊(m : ℚ) * 2 ^ e⌋₊ := by
  have hround : roundToInt .positive m e =
      (ExtendedMantissa.ofMantissaAndAccuracy (m <<< e.toNat) .exact >>> (-e).toNat).mantissa := by
    have hleft : (e - 0).toNat = e.toNat := by omega
    have hright : (0 - (e - e.toNat)).toNat = (-e).toNat := by omega
    unfold roundToInt decreaseExponent shiftToExponent
    rw [hleft]
    dsimp only
    rw [hright]
    rfl
  have hexact : Represents (ExtendedMantissa.ofMantissaAndAccuracy (m <<< e.toNat) .exact)
      ((m <<< e.toNat : Nat) : ℚ) := rfl
  have hvalue : ((m <<< e.toNat : Nat) : ℚ) / 2 ^ (-e).toNat = m * 2 ^ e := by
    rw [Nat.shiftLeft_eq, Nat.cast_mul, mul_div_assoc]
    congr 1
    rcases le_total 0 e with hnonneg | hneg
    · obtain ⟨n, rfl⟩ := Int.eq_ofNat_of_zero_le hnonneg
      simp
    · obtain ⟨n, hn⟩ := Int.eq_ofNat_of_zero_le (Int.neg_nonneg.2 hneg)
      obtain rfl : e = -n := by omega
      simp
  rw [hround, floor_eq (hexact.shiftRight _), hvalue]

/-- A float as a word is its floor, or the last word. -/
theorem HasValue.toNat_toUInt64 (hx : HasValue x a) : x.toUInt64.toNat = min ⌊a⌋₊ (2 ^ 64 - 1) := by
  have hclamp : ∀ n : Nat, (UInt64.ofNatClamp n).toNat = min n (2 ^ 64 - 1) := by
    intro n
    unfold UInt64.ofNatClamp
    split
    · next h =>
      change n = min n (2 ^ 64 - 1)
      have hlt : n < 2 ^ 64 := h
      omega
    · next h =>
      have hge : 2 ^ 64 ≤ n := not_lt.1 h
      change 2 ^ 64 - 1 = _
      omega
  have hmodel : x.toUInt64 = UInt64.ofNatClamp (x.toModel.unpack.toInt 0 (UInt64.size - 1)).toNat := rfl
  rw [hmodel, hclamp]
  cases hx with
  | zero hunpacked =>
    rw [hunpacked]
    simp [UnpackedFloat.toInt]
  | @number m e pos hunpacked hfull =>
    have hround : UnpackedFloat.toInt 0 (UInt64.size - 1) (.finite .positive m e pos) = roundToInt .positive m e :=
      rfl
    rw [hunpacked, hround, roundToInt_eq, Int.toNat_natCast]

theorem HasValue.wholePart_eq (hx : HasValue x a) : wholePart x = min ⌊a⌋₊ (2 ^ 63 - 1) := by
  have hnegative : ¬x < 0 := by
    rw [hx.lt_iff hasValue_zero]
    exact hx.nonneg.not_gt
  have hmax : Int64.maxValue.toInt = 2 ^ 63 - 1 := rfl
  rw [wholePart, if_neg hnegative, hx.toNat_toUInt64, hmax]
  omega

/-- Floats leave a gap below one. -/
theorem HasValue.div_le (hx : HasValue x a) (hy : HasValue y b) (h : a < b) :
    a / b ≤ (2 ^ 53 - 1) * 2 ^ (-53 : Int) := by
  have hb : 0 < b := hx.nonneg.trans_lt h
  cases hy with
  | zero _ => exact absurd hb (lt_irrefl _)
  | @number m₂ e₂ pos₂ hunpacked₂ hfull₂ =>
    cases hx with
    | zero _ =>
      rw [zero_div]
      positivity
    | @number m₁ e₁ pos₁ hunpacked₁ hfull₁ =>
      have hlow : (2 : ℚ) ^ 52 ≤ m₂ := by exact_mod_cast hfull₂.1
      have hhigh : (m₂ : ℚ) ≤ 2 ^ 53 := by exact_mod_cast hfull₂.2.le
      have hscale : ((2 : ℚ) ^ 53 - 1) * 2 ^ (-53 : Int) = 1 - 1 / 2 ^ 53 := by norm_num
      rw [div_le_iff₀ hb, hscale]
      have hexponent : e₁ ≤ e₂ := not_lt.1 fun hgt => (lt_of_exponent_lt hfull₂ hfull₁ hgt).not_gt h
      rcases hexponent.lt_or_eq with hlt | rfl
      · have hpower : (2 : ℚ) ^ (e₁ + 1) ≤ 2 ^ e₂ := zpow_le_zpow_right₀ (by norm_num) (by omega)
        rw [zpow_add_one₀ (by norm_num)] at hpower
        have hm₁ : (m₁ : ℚ) ≤ 2 ^ 53 - 1 := by
          rw [le_sub_iff_add_le]
          exact_mod_cast hfull₁.2
        calc (m₁ : ℚ) * 2 ^ e₁
          _ ≤ (2 ^ 53 - 1) * 2 ^ e₁ := mul_le_mul_of_nonneg_right hm₁ (by positivity)
          _ = (1 - 1 / 2 ^ 53) * (2 ^ 52 * (2 ^ e₁ * 2)) := by ring
          _ ≤ (1 - 1 / 2 ^ 53) * (m₂ * 2 ^ e₂) :=
            mul_le_mul_of_nonneg_left (mul_le_mul hlow hpower (by positivity) (by positivity)) (by norm_num)
      · have hunit : (0 : ℚ) < 2 ^ e₁ := zpow_pos (by norm_num) _
        have hm₁ : (m₁ : ℚ) ≤ m₂ - 1 := by
          have hlt := lt_of_mul_lt_mul_right h hunit.le
          rw [le_sub_iff_add_le]
          exact_mod_cast hlt
        have hm : (m₁ : ℚ) ≤ (1 - 1 / 2 ^ 53) * m₂ := by linarith
        rw [← mul_assoc]
        exact mul_le_mul_of_nonneg_right hm hunit.le

/-- A number that was scaled down stays below itself when it is rounded. -/
theorem HasValue.lt_of_nearest {q v : ℚ} (hy : HasValue y b) (hb : 0 < b)
    (hq : q ≤ (2 ^ 53 - 1) * 2 ^ (-53 : Int)) (h : Nearest (q * b) v) : v < b := by
  cases hy with
  | zero _ => exact absurd hb (lt_irrefl _)
  | @number m e pos hunpacked hfull =>
    have hunit : (0 : ℚ) < 2 ^ e := zpow_pos (by norm_num) _
    have hm : (m : ℚ) < 2 ^ 53 := by exact_mod_cast hfull.2
    have hscale : ((2 : ℚ) ^ 53 - 1) * 2 ^ (-53 : Int) = 1 - 1 / 2 ^ 53 := by norm_num
    rw [hscale] at hq
    have hscaled : q * (m * 2 ^ e) ≤ (1 - 1 / 2 ^ 53) * m * 2 ^ e := by
      rw [mul_assoc]
      exact mul_le_mul_of_nonneg_right hq hb.le
    rcases hfull.1.eq_or_lt with rfl | hlt
    · -- Below a power of two the digits are half as wide.
      have hrepresentable : Representable ((2 ^ 53 - 1) * 2 ^ (e - 1)) :=
        ⟨2 ^ 53 - 1, e - 1, by norm_num, by push_cast; norm_num⟩
      have hhalf : (2 : ℚ) ^ (e - 1) * 2 = 2 ^ e := by
        rw [← zpow_add_one₀ (by norm_num), sub_add_cancel]
      have hcast : ((2 ^ 52 : Nat) : ℚ) = 2 ^ 52 := by norm_num
      rw [hcast] at hscaled h ⊢
      have hle := h.le_of_le hrepresentable (by linarith)
      linarith
    · have hrepresentable : Representable (((m - 1 : Nat) : ℚ) * 2 ^ e) :=
        ⟨m - 1, e, lt_of_le_of_lt (Nat.sub_le _ _) hfull.2, rfl⟩
      have hprevious : ((m - 1 : Nat) : ℚ) = m - 1 := by
        rw [Nat.cast_sub pos, Nat.cast_one]
      rw [hprevious] at hrepresentable
      by_contra hge
      rw [not_lt] at hge
      have hm' : (2 : ℚ) ^ 52 + 1 ≤ m := by exact_mod_cast hlt
      -- What was scaled down is nearer to the number before this one.
      have hbelow : q * (m * 2 ^ e) < (m - 1 / 2) * 2 ^ e := by
        refine hscaled.trans_lt (mul_lt_mul_of_pos_right ?_ hunit)
        linarith
      have hnear := h.nearest _ hrepresentable
      rw [abs_of_nonneg (by linarith)] at hnear
      rcases le_total (q * (m * 2 ^ e)) ((m - 1) * 2 ^ e) with hle | hle
      · have hless := h.le_of_le hrepresentable hle
        linarith
      · rw [abs_of_nonpos (by linarith)] at hnear
        linarith

end Operations

end ReadingBench.Decimal
