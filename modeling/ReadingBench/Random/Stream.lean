import ReadingBench.Random.ChaCha

namespace ReadingBench.Random

structure Stream where
  key : Key
  /-- The next block to compute. -/
  counter : UInt64
  /-- Words of the last block that are still to be drawn. -/
  pending : List UInt32
  deriving DecidableEq

/-- A record's draws are read off in the order in which they are made. -/
abbrev Draw (α : Type) := StateM Stream α

namespace Stream

/-- One step of the generator that expands a seed into a key. -/
def expand (state : UInt64) : UInt64 := state * 6364136223846793005 + 11634580027462260723

/-- The word that a state of that generator gives: its mixed high bits, rotated to the right. -/
def keyWord (state : UInt64) : UInt32 :=
  let mixed := (((state >>> 18) ^^^ state) >>> 27).toUInt32
  let turn := (state >>> 59).toUInt32
  mixed >>> turn ||| mixed <<< ((32 - turn) % 32)

/-- Four words of the key and the state after them. -/
def keyLane (state : UInt64) : Lane × UInt64 :=
  let s1 := expand state
  let s2 := expand s1
  let s3 := expand s2
  let s4 := expand s3
  (⟨keyWord s1, keyWord s2, keyWord s3, keyWord s4⟩, s4)

def ofSeed (seed : UInt64) : Stream :=
  let (low, state) := keyLane seed
  ⟨⟨low, (keyLane state).1⟩, 0, []⟩

/-- Streams of one seed are set apart by their number, so that no two share a sequence. -/
def ofSeedAndNumber (seed number : UInt64) : Stream := ofSeed (seed + number * 0x9E3779B97F4A7C15)

end Stream

/-- Streams that no seed is known for, one for each number. They can be in any state. -/
structure Entropy where
  stream : UInt64 → Stream

namespace Entropy

def ofSeed (seed : UInt64) : Entropy := ⟨Stream.ofSeedAndNumber seed⟩

instance (n : Nat) : OfNat Entropy n := ⟨ofSeed (UInt64.ofNat n)⟩

end Entropy

namespace Draw

def word : Draw UInt32 := fun s =>
  match s.pending with
  | w :: rest => (w, { s with pending := rest })
  | [] =>
    match s.key.words s.counter with
    | w :: rest => (w, { s with counter := s.counter + 1, pending := rest })
    | [] => (0, s)

/-- Two words, the low one first. -/
def longWord : Draw UInt64 := do
  let low ← word
  let high ← word
  return high.toUInt64 <<< 32 ||| low.toUInt64

/-- A multiple of 2^-53 in [0, 1). -/
def unit : Draw Float := do
  let w ← longWord
  return (w >>> 11).toFloat / 9007199254740992

/-- Repeats a draw and collects its results in order. -/
def times {α : Type} (draw : Draw α) : Nat → Draw (List α)
  | 0 => return []
  | n + 1 => return (← draw) :: (← times draw n)

end Draw
end ReadingBench.Random
