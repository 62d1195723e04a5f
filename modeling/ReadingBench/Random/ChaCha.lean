namespace ReadingBench.Random

/-- Four words of the state. -/
structure Lane where
  a : UInt32
  b : UInt32
  c : UInt32
  d : UInt32
  deriving DecidableEq, Inhabited

namespace Lane

def map2 (f : UInt32 → UInt32 → UInt32) (x y : Lane) : Lane :=
  ⟨f x.a y.a, f x.b y.b, f x.c y.c, f x.d y.d⟩

def add (x y : Lane) : Lane := map2 (· + ·) x y

/-- Exclusive or, then a rotation of each word to the left. -/
def mix (bits : UInt32) (x y : Lane) : Lane :=
  map2 (fun u v => (u ^^^ v) <<< bits ||| (u ^^^ v) >>> (32 - bits)) x y

/-- The words moved one place to the left. -/
def turn (x : Lane) : Lane := ⟨x.b, x.c, x.d, x.a⟩

def toList (x : Lane) : List UInt32 := [x.a, x.b, x.c, x.d]

end Lane

/-- The state of the ChaCha block function with twelve rounds, a 64-bit block counter and no nonce. A quarter
round works on all four columns at once. -/
structure Block where
  top : Lane
  upper : Lane
  lower : Lane
  bottom : Lane
  deriving DecidableEq

namespace Block

def quarterRound (s : Block) : Block :=
  let top := s.top.add s.upper
  let bottom := s.bottom.mix 16 top
  let lower := s.lower.add bottom
  let upper := s.upper.mix 12 lower
  let top := top.add upper
  let bottom := bottom.mix 8 top
  let lower := lower.add bottom
  ⟨top, upper.mix 7 lower, lower, bottom⟩

/-- A round on the columns and one on the diagonals. -/
def doubleRound (s : Block) : Block :=
  let s := s.quarterRound
  let s := quarterRound ⟨s.top, s.upper.turn, s.lower.turn.turn, s.bottom.turn.turn.turn⟩
  ⟨s.top, s.upper.turn.turn.turn, s.lower.turn.turn, s.bottom.turn⟩

def doubleRounds : Nat → Block → Block
  | 0, s => s
  | n + 1, s => doubleRounds n s.doubleRound

end Block

/-- The eight words of a key. -/
structure Key where
  low : Lane
  high : Lane
  deriving DecidableEq

/-- The sixteen words of block `counter`, in order. -/
def Key.words (key : Key) (counter : UInt64) : List UInt32 :=
  let start : Block :=
    { top := ⟨0x61707865, 0x3320646e, 0x79622d32, 0x6b206574⟩
      upper := key.low
      lower := key.high
      bottom := ⟨counter.toUInt32, (counter >>> 32).toUInt32, 0, 0⟩ }
  let s := start.doubleRounds 6
  (s.top.add start.top).toList ++ (s.upper.add start.upper).toList ++
    (s.lower.add start.lower).toList ++ (s.bottom.add start.bottom).toList

end ReadingBench.Random
