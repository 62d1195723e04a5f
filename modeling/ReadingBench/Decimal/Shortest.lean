import ReadingBench.Decimal.Digits

namespace ReadingBench
namespace Decimal

/-- A positive finite float as `mantissa * 2 ^ exponent`. `halfStepBelow` says that the next float
below is only half as far away as the next above. -/
structure Binary where
  mantissa : Nat
  exponent : Int
  halfStepBelow : Bool

/-- Decodes the magnitude of a finite float that is not zero. -/
def Binary.ofBits (bits : UInt64) : Binary :=
  let biased := (bits >>> 52 &&& 0x7FF).toNat
  let fraction := (bits &&& 0xFFFFFFFFFFFFF).toNat
  if biased = 0 then ⟨fraction, -1074, false⟩
  else ⟨0x10000000000000 + fraction, biased - 1075, fraction = 0 ∧ biased > 1⟩

/-- An interval of rationals over one denominator: the numbers that read as a float whose value is
`center / den`. The ends belong to it when `closed`. -/
structure Neighbourhood where
  low : Nat
  center : Nat
  high : Nat
  den : Nat
  closed : Bool

/-- Numbers halfway between two floats read as the one with the even mantissa. -/
def Binary.neighbourhood (b : Binary) : Neighbourhood :=
  let up := 1 <<< b.exponent.toNat
  let down := 1 <<< (-b.exponent).toNat
  { low := (4 * b.mantissa - if b.halfStepBelow then 1 else 2) * up
    center := 4 * b.mantissa * up
    high := (4 * b.mantissa + 2) * up
    den := 4 * down
    closed := b.mantissa % 2 = 0 }

def Neighbourhood.holds (r : Neighbourhood) (num den : Nat) : Bool :=
  if r.closed then r.low * den ≤ num * r.den ∧ num * r.den ≤ r.high * den
  else r.low * den < num * r.den ∧ num * r.den < r.high * den

/-- The `k` with `10 ^ (k - 1) ≤ num / den < 10 ^ k`, for a positive quotient. -/
def pointPosition (num den : Nat) : Int :=
  if den ≤ num then (digits (num / den)).length else 1 - ((digits ((den - 1) / num)).length : Int)

/-- The number `coefficient * 10 ^ exponent`. -/
structure Scientific where
  coefficient : Nat
  exponent : Int

/-- The neighbours of the centre among the multiples of `10 ^ exponent` that read as the float; the
nearer of two, and the upper one when both are equally near. -/
def Neighbourhood.onGrid? (r : Neighbourhood) (exponent : Int) : Option Scientific :=
  let up := Nat.pow 10 exponent.toNat
  let down := Nat.pow 10 (-exponent).toNat
  let below := r.center * down / (r.den * up)
  let belowHolds := r.holds (below * up) down
  let aboveHolds := r.holds ((below + 1) * up) down
  let belowNearer := 2 * r.center * down < (2 * below + 1) * r.den * up
  if belowHolds ∧ (belowNearer ∨ ¬aboveHolds) then some ⟨below, exponent⟩
  else if aboveHolds then some ⟨below + 1, exponent⟩
  else none

/-- Seventeen digits suffice for every float. -/
def Neighbourhood.shortest (r : Neighbourhood) : Scientific :=
  let point := pointPosition r.center r.den
  ((List.range' 1 17).findSome? fun (count : Nat) => r.onGrid? (point - count)).getD ⟨0, 0⟩

/-- Positional text without zeros at the end of the fraction, and without a point when there is
none. -/
def Scientific.positional (s : Scientific) : List Char :=
  if 0 ≤ s.exponent then digits s.coefficient ++ List.replicate s.exponent.toNat '0'
  else
    let places := (-s.exponent).toNat
    let ds := padded (places + 1) s.coefficient
    let fraction := ((ds.drop (ds.length - places)).reverse.dropWhile (· = '0')).reverse
    ds.take (ds.length - places) ++ if fraction.isEmpty then [] else '.' :: fraction

end Decimal

open Decimal in
/-- Zero keeps its sign. -/
def floatChars (x : Float) : List Char :=
  if x.isNaN then ['N', 'a', 'N']
  else
    let magnitude :=
      if x.isInf then ['i', 'n', 'f']
      else if x == 0 then ['0']
      else (Binary.ofBits x.toBits).neighbourhood.shortest.positional
    if x.toBits >>> 63 = 1 then '-' :: magnitude else magnitude

end ReadingBench
