namespace ReadingBench.Decimal

/-- The float nearest to an integer of at most 64 bits. -/
def floatOfInt (n : Int) : Float :=
  if n < 0 then -(UInt64.ofNat n.natAbs).toFloat else (UInt64.ofNat n.natAbs).toFloat

/-- A float without its fraction; beyond the signed words it counts as the last of them. -/
def wholePart (x : Float) : Int :=
  if x < 0 then max Int64.minValue.toInt (-(-x).toUInt64.toNat)
  else min Int64.maxValue.toInt x.toUInt64.toNat

end ReadingBench.Decimal
