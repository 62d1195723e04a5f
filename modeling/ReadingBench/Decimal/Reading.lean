import ReadingBench.Decimal.Digits

namespace ReadingBench.Decimal

/-- A minus sign or none, then digits only; the value must fit into 64 bits. -/
def readInt64? (cs : List Char) : Option Int64 :=
  let (negative, ds) := match cs with
    | '-' :: rest => (true, rest)
    | rest => (false, rest)
  if ds.isEmpty ∨ ¬ds.all isDigit then none
  else
    let n : Int := if negative then -(value ds : Int) else value ds
    if Int64.minValue.toInt ≤ n ∧ n ≤ Int64.maxValue.toInt then some (Int64.ofInt n) else none

/-- Digits with an optional point; either side of it may be empty, but not both. Gives the digits
without the point, the number of places after it, and the rest. -/
def readMantissa? (cs : List Char) : Option (List Char × Nat × List Char) :=
  let (whole, rest) := cs.span isDigit
  let (fraction, rest) := match rest with
    | '.' :: rest => rest.span isDigit
    | rest => ([], rest)
  if whole.isEmpty ∧ fraction.isEmpty then none
  else some (whole ++ fraction, fraction.length, rest)

/-- Nothing, or `e` with an integer up to the end. -/
def readExponent? (cs : List Char) : Option Int :=
  match cs with
  | [] => some 0
  | mark :: rest =>
    if mark = 'e' ∨ mark = 'E' then
      let (negative, ds) := match rest with
        | '-' :: ds => (true, ds)
        | '+' :: ds => (false, ds)
        | ds => (false, ds)
      if ds.isEmpty ∨ ¬ds.all isDigit then none
      else some (if negative then -(value ds : Int) else value ds)
    else none

/-- The float nearest to `coefficient * 10 ^ exponent`. Beyond 10^400 every float is infinite and below
10^-400 zero, so the power is only formed in between. -/
def nearestFloat (coefficient : Nat) (exponent : Int) : Float :=
  let magnitude := exponent + (digits coefficient).length
  if coefficient = 0 ∨ magnitude < -400 then 0
  else if 400 < magnitude then 1 / 0
  else Float.ofScientific coefficient (exponent < 0) exponent.natAbs

/-- A minus sign or none, digits with an optional point, and an optional exponent. -/
def readFloat? (cs : List Char) : Option Float := do
  let (negative, cs) := match cs with
    | '-' :: rest => (true, rest)
    | rest => (false, rest)
  let (ds, places, rest) ← readMantissa? cs
  let exponent ← readExponent? rest
  let magnitude := nearestFloat (value ds) (exponent - places)
  return if negative then -magnitude else magnitude

end ReadingBench.Decimal
