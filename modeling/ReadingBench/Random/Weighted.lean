import ReadingBench.Random.Range

namespace ReadingBench.Random

/-- Why weights make no distribution. -/
inductive WeightError where
  | noItem
  | invalidWeight
  | allWeightsZero
  deriving DecidableEq

def WeightError.message : WeightError → String
  | noItem => "No weights provided in distribution"
  | invalidWeight => "A weight is invalid in distribution"
  | allWeightsZero => "All weights are zero in distribution"

/-- Choices in order, with weights that need not add up to one. A choice other than the first is kept with
the sum of the weights before it, and `scale` stretches a unit draw to the sum of all weights. -/
structure Weighted (α : Type) where
  first : α
  others : List (Float × α)
  scale : Float

namespace Weighted

/-- The outcome of building a distribution. -/
inductive Built (α : Type) where
  | ok (dist : Weighted α)
  | error (cause : WeightError)
  /-- The sum of the weights is no finite number. -/
  | unbounded

/-- The float of these bits, lowered until the largest draw, which is 1 - 2^-52, stays below `total`. One bit
pattern less is the next float below, and at 0 every draw is below a total that is not 0. -/
def scaleFor (total : Float) : Nat → Float
  | 0 => 0
  | bits + 1 =>
    let scale := Float.ofBits (UInt64.ofNat (bits + 1))
    if scale * (1 - 1 / 4503599627370496) < total then scale else scaleFor total bits

/-- Adds up the weights from the left; each choice gets the sum before it. -/
def accumulate {α : Type} : Float → List (α × Float) → List (Float × α) × Float
  | sum, [] => ([], sum)
  | sum, (choice, weight) :: rest =>
    let (others, total) := accumulate (sum + weight) rest
    ((sum, choice) :: others, total)

def ofList {α : Type} : List (α × Float) → Built α
  | [] => .error .noItem
  | (first, weight) :: rest =>
    if ((first, weight) :: rest).any fun (_, w) => ¬(0 ≤ w) then .error .invalidWeight
    else
      let (others, total) := accumulate weight rest
      if total == 0 then .error .allWeightsZero
      else if ¬total.isFinite then .unbounded
      else .ok ⟨first, others, scaleFor total total.toBits.toNat⟩

/-- The last choice whose weights before it do not exceed `x`. -/
def pick {α : Type} (dist : Weighted α) (x : Float) : α :=
  ((dist.others.takeWhile (·.1 ≤ x)).getLast?.map (·.2)).getD dist.first

def draw {α : Type} (dist : Weighted α) : Draw α := do
  let w ← Draw.longWord
  return dist.pick ((w >>> 12).toFloat / 4503599627370496 * dist.scale)

end Weighted
end ReadingBench.Random
