import ReadingBench.Population.Source

namespace ReadingBench

/-- The index of a candidate grows with every candidate, its id only with the accepted ones, so ids run from 1
without gaps. -/
structure Batches (σ : Type) where
  state : σ
  /-- Records to accept in all. -/
  target : Nat
  /-- Records of a full batch; 0 counts as 1. -/
  size : Nat
  /-- The bytes that a record takes in a batch. -/
  width : Nat
  candidates : Nat
  accepted : Nat

/-- What asking for a batch gives. -/
inductive Pull (σ ρ : Type) where
  /-- The target has been reached. -/
  | finished
  | batch (records : List ρ) (rest : Batches σ)
  | outOfRange
  /-- The budget of candidates is used up. -/
  | unfinished

namespace Batches

variable {σ ρ : Type}

def start (state : σ) (target size width : Nat) : Batches σ := ⟨state, target, size, width, 0, 0⟩

/-- The most bytes that a batch can take. -/
def maxRoom : Nat := UInt64.size / 2 - 1

/-- Tries candidates until `room` records have been added to those in `done`, the latest first. -/
def fill (source : Source σ ρ) : Nat → Nat → List ρ → Batches σ → Pull σ ρ
  | _, 0, done, b => .batch done.reverse b
  | 0, _ + 1, _, _ => .unfinished
  | budget + 1, room + 1, done, b =>
    match source b.candidates (b.accepted + 1) b.state with
    | .outOfRange => .outOfRange
    | .rejected state =>
      fill source budget (room + 1) done { b with state, candidates := b.candidates + 1 }
    | .accepted record state =>
      fill source budget room (record :: done)
        { b with state, candidates := b.candidates + 1, accepted := b.accepted + 1 }

/-- Records of the next batch: a full one, or as many as are still to be accepted. -/
def nextSize (b : Batches σ) : Nat := min (max b.size 1) (b.target - b.accepted)

/-- The next batch, with at most `budget` candidates tried for it. Room for all of it is set aside
first. -/
def pull (source : Source σ ρ) (budget : Nat) (b : Batches σ) : Pull σ ρ :=
  if b.target ≤ b.accepted then .finished
  else if maxRoom < b.nextSize * b.width then .outOfRange
  else fill source budget b.nextSize [] b

/-- Hands on at most `most` batches one by one, and counts them. -/
@[specialize] def forEach {m : Type → Type} [Monad m] [MonadExceptOf Halt m] (source : Source σ ρ)
    (budget : Nat) (use : List ρ → m Unit) : Nat → Nat → Batches σ → m (Nat × Batches σ)
  | 0, count, b => return (count, b)
  | most + 1, count, b =>
    match b.pull source budget with
    | .finished => return (count, b)
    | .outOfRange => throw .outOfRange
    | .unfinished => throw .unfinished
    | .batch records rest => do
      use records
      forEach source budget use most (count + 1) rest

/-- Hands on all batches. There are no more of them than records. -/
@[inline] def run {m : Type → Type} [Monad m] [MonadExceptOf Halt m] (source : Source σ ρ)
    (budget : Nat) (use : List ρ → m Unit) (b : Batches σ) : m (Nat × Batches σ) :=
  forEach source budget use b.target 0 b

end Batches
end ReadingBench
