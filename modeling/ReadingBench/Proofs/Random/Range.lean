import Mathlib
import ReadingBench.Random.Range

namespace ReadingBench.Random.Draw

variable {α β : Type}

/-- What holds of whatever is drawn. -/
def Gives (P : α → Prop) (draw : Draw α) : Prop := ∀ stream, P (draw stream).1

theorem gives_pure {P : α → Prop} {a : α} (h : P a) : Gives P (pure a) := fun _ => h

theorem gives_bind {P : β → Prop} {draw : Draw α} {f : α → Draw β} (h : ∀ a, Gives P (f a)) :
    Gives P (draw >>= f) := fun stream => h (draw stream).1 (draw stream).2

theorem Gives.bind {P : α → Prop} {Q : β → Prop} {draw : Draw α} {f : α → Draw β} (h : Gives P draw)
    (hf : ∀ a, P a → Gives Q (f a)) : Gives Q (draw >>= f) :=
  fun stream => hf _ (h stream) (draw stream).2

theorem Gives.map {P : α → Prop} {Q : β → Prop} {draw : Draw α} {f : α → β} (h : Gives P draw)
    (hf : ∀ a, P a → Q (f a)) : Gives Q (f <$> draw) := fun stream => hf _ (h stream)

theorem gives_trivial (draw : Draw α) : Gives (fun _ => True) draw := fun _ => trivial

theorem Gives.untilAccepted {P : α → Prop} {draw : Draw α} (h : Gives P draw) (accepted : α → Bool)
    (tries : Nat) : Gives P (untilAccepted draw accepted tries) := by
  induction tries with
  | zero => exact h
  | succ tries ih =>
    unfold Draw.untilAccepted
    refine h.bind fun a ha => ?_
    split
    · exact gives_pure ha
    · exact ih

/-- The high half of a product is below each factor that is not 0. -/
theorem halves64_lt {span : UInt64} (hspan : span ≠ 0) (v : UInt64) :
    (halves64 span v).1.toNat < span.toNat := by
  have hpos : 0 < span.toNat := by
    rw [Nat.pos_iff_ne_zero]
    intro hzero
    exact hspan (UInt64.toNat_inj.1 hzero)
  have hhigh : v.toNat * span.toNat / UInt64.size < span.toNat := by
    rw [Nat.div_lt_iff_lt_mul (by decide), Nat.mul_comm]
    exact Nat.mul_lt_mul_of_pos_left v.toNat_lt hpos
  change (UInt64.ofNat (v.toNat * span.toNat / UInt64.size)).toNat < _
  rwa [UInt64.toNat_ofNat_of_lt' (hhigh.trans span.toNat_lt)]

theorem gives_below64 {span : UInt64} (hspan : span ≠ 0) :
    Gives (fun v => v.toNat < span.toNat) (below64 span) := by
  unfold below64
  rw [if_neg hspan]
  have hhalves : Gives (fun pair : UInt64 × UInt64 => pair.1.toNat < span.toNat)
      (halves64 span <$> longWord) :=
    (gives_trivial longWord).map fun v _ => halves64_lt hspan v
  refine (hhalves.untilAccepted _ maxTries).bind ?_
  rintro ⟨offset, low⟩ hoffset
  exact gives_pure hoffset

theorem gives_uint64 {low high : UInt64} (h : low ≤ high) :
    Gives (fun v => low ≤ v ∧ v ≤ high) (uint64 low high) := by
  have hle := UInt64.le_iff_toNat_le.1 h
  have hhigh := high.toNat_lt
  simp only [UInt64.le_iff_toNat_le]
  have hspan : (high - low + 1).toNat = (high.toNat - low.toNat + 1) % 2 ^ 64 := by
    rw [UInt64.toNat_add, UInt64.toNat_sub_of_le _ _ h]
    rfl
  unfold uint64
  by_cases hzero : high - low + 1 = 0
  · -- The range of all words: its length does not fit a word.
    refine (gives_trivial _).bind fun offset _ => ?_
    rw [if_pos hzero]
    rw [hzero] at hspan
    have hoffset := offset.toNat_lt
    have hnone : (0 : UInt64).toNat = 0 := rfl
    refine gives_pure ⟨?_, ?_⟩ <;> omega
  · refine (gives_below64 hzero).bind fun offset hoffset => ?_
    rw [if_neg hzero]
    refine gives_pure ?_
    rw [UInt64.toNat_add]
    omega

/-- A position in a list of so many elements. -/
theorem gives_position {length : Nat} (pos : 0 < length) (fits : length < 2 ^ 64) :
    Gives (fun v => v.toNat < length) (position (UInt64.ofNat length)) := by
  have hlength : (UInt64.ofNat length).toNat = length := UInt64.toNat_ofNat_of_lt' fits
  have hone : (1 : UInt64) ≤ UInt64.ofNat length := by
    rw [UInt64.le_iff_toNat_le, hlength]
    exact pos
  have hlow : (0 : UInt64) ≤ UInt64.ofNat length - 1 := UInt64.le_iff_toNat_le.2 (Nat.zero_le _)
  intro stream
  have hdrawn := (gives_uint64 hlow stream).2
  rw [UInt64.le_iff_toNat_le, UInt64.toNat_sub_of_le _ _ hone, hlength] at hdrawn
  have hunit : (1 : UInt64).toNat = 1 := rfl
  have hposition : (position (UInt64.ofNat length) stream).1.toNat ≤ length - 1 := by
    rw [← hunit]
    exact hdrawn
  omega

/-- A number from 0 to a bound that is small enough to be signed. -/
theorem gives_int64 {high : Nat} (small : high < 2 ^ 63) :
    Gives (fun v : Int64 => 0 ≤ v.toInt ∧ v.toInt ≤ (high : Int)) (int64 0 (Int64.ofNat high)) := by
  have hhigh : (Int64.ofNat high).toUInt64.toNat = high := by
    change (UInt64.ofNat high).toNat = high
    exact UInt64.toNat_ofNat_of_lt' (by rw [UInt64.size]; omega)
  have hlow : (0 : Int64).toUInt64 ≤ (Int64.ofNat high).toUInt64 :=
    UInt64.le_iff_toNat_le.2 (Nat.zero_le _)
  refine (gives_uint64 hlow).map ?_
  rintro v ⟨-, hv⟩
  rw [UInt64.le_iff_toNat_le, hhigh] at hv
  have hsigned : (Int64.ofUInt64 v).toInt = v.toNat := by
    have hbits : (Int64.ofUInt64 v).toInt = v.toBitVec.toInt := rfl
    have hword : v.toBitVec.toNat = v.toNat := rfl
    rw [hbits, BitVec.toInt_eq_toNat_of_lt (by omega), hword]
  rw [hsigned]
  omega

end ReadingBench.Random.Draw
