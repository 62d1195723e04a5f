import ReadingBench.Population.Attribute

namespace ReadingBench

open ReadingBench.Random

/-- A distribution over `choices`, one weight for each. -/
def Random.Weighted.ofLists {α : Type} (choices : List α) (weights : List Float) :
    Except Halt (Weighted α) :=
  if choices.length ≠ weights.length then
    .error (.failed (.config (.weightCount choices.length weights.length)))
  else
    match ofList (choices.zip weights) with
    | .ok dist => .ok dist
    | .error cause => .error (.failed (.distribution cause))
    | .unbounded => .error .outOfRange

structure Distributions where
  region : Weighted Region
  userLanguage : Weighted Language
  articleLanguage : Weighted Language
  gender : Weighted Gender

namespace Distributions

def standard : Except Halt Distributions := do
  return {
    region := ← Weighted.ofLists [.beijing, .hongKong] [0.6, 0.4]
    userLanguage := ← Weighted.ofLists [.en, .zh] [0.2, 0.8]
    articleLanguage := ← Weighted.ofLists [.en, .zh] [0.5, 0.5]
    gender := ← Weighted.ofLists [.male, .female, .other] [0.5, 0.33, 0.17] }

end Distributions

/-- How likely a user is to read an article, and to react to one that is read. -/
structure ReadProbabilities where
  read : Float
  agree : Float
  comment : Float
  share : Float

namespace ReadProbabilities

/-- Users prefer articles in the language of their region. -/
def ofPair : Region → Language → ReadProbabilities
  | .beijing, .en => ⟨0.6, 0.2, 0.2, 0.1⟩
  | .beijing, .zh => ⟨1, 0.3, 0.3, 0.2⟩
  | .hongKong, .en => ⟨1, 0.3, 0.3, 0.2⟩
  | .hongKong, .zh => ⟨0.8, 0.2, 0.2, 0.1⟩

end ReadProbabilities
end ReadingBench
