import ReadingBench.Random.Stream

namespace ReadingBench.Random.Draw

/-- More tries than a stream has words before it repeats itself. -/
def maxTries : Nat := UInt64.size * 32

/-- A draw repeated until it is accepted. The last try counts as it comes. -/
def untilAccepted {α : Type} (draw : Draw α) (accepted : α → Bool) : Nat → Draw α
  | 0 => draw
  | tries + 1 => do
    let a ← draw
    if accepted a then return a else untilAccepted draw accepted tries

/-- The high and the low half of `v * span`. The high half is an offset into a range of length `span`, and
a low half beyond the largest multiple of the length rejects the word. -/
def halves32 (span v : UInt32) : UInt32 × UInt32 :=
  let product := v.toUInt64 * span.toUInt64
  ((product >>> 32).toUInt32, product.toUInt32)

def halves64 (span v : UInt64) : UInt64 × UInt64 :=
  let product := v.toNat * span.toNat
  (UInt64.ofNat (product / UInt64.size), UInt64.ofNat product)

/-- A number below `span`, from words of 32 bits; any word when `span` is 0. -/
def below32 (span : UInt32) : Draw UInt32 := do
  if span = 0 then word
  else
    let zone := (span <<< (31 - span.log2)) - 1
    let (offset, _) ← untilAccepted (halves32 span <$> word) (·.2 ≤ zone) maxTries
    return offset

/-- A number below `span`, from words of 64 bits; any word when `span` is 0. -/
def below64 (span : UInt64) : Draw UInt64 := do
  if span = 0 then longWord
  else
    let zone := (span <<< (63 - span.log2)) - 1
    let (offset, _) ← untilAccepted (halves64 span <$> longWord) (·.2 ≤ zone) maxTries
    return offset

/-- A number from `low` to `high`, both included, for `low ≤ high`. The whole range of a word is drawn
as it comes. -/
def uint32 (low high : UInt32) : Draw UInt32 := do
  let span := high - low + 1
  let offset ← below32 span
  return if span = 0 then offset else low + offset

def uint64 (low high : UInt64) : Draw UInt64 := do
  let span := high - low + 1
  let offset ← below64 span
  return if span = 0 then offset else low + offset

/-- Signed words are drawn as the unsigned words of the same bits. -/
def int32 (low high : Int32) : Draw Int32 := Int32.ofUInt32 <$> uint32 low.toUInt32 high.toUInt32

def int64 (low high : Int64) : Draw Int64 := Int64.ofUInt64 <$> uint64 low.toUInt64 high.toUInt64

/-- Draws from a range that may turn out to be empty, which gives no draw. -/
def uint32? (low high : UInt32) : Option (Draw UInt32) :=
  if high < low then none else some (uint32 low high)

def uint64? (low high : UInt64) : Option (Draw UInt64) :=
  if high < low then none else some (uint64 low high)

def int32? (low high : Int32) : Option (Draw Int32) :=
  if high < low then none else some (int32 low high)

def int64? (low high : Int64) : Option (Draw Int64) :=
  if high < low then none else some (int64 low high)

/-- A number from `low` up to but not including `bound`. -/
def uint64Below? (low bound : UInt64) : Option (Draw UInt64) :=
  if bound ≤ low then none else some (uint64 low (bound - 1))

/-- A position in a list of `length` elements, for a length other than 0. -/
def position (length : UInt64) : Draw UInt64 := uint64 0 (length - 1)

end ReadingBench.Random.Draw
