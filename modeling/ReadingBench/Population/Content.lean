import ReadingBench.Population.Attribute
import ReadingBench.Random.Range

namespace ReadingBench

/-- A label with a number behind it. -/
def numbered (label : String) (n : Nat) : String := label ++ String.ofList (Decimal.digits n)

def uidOf (index : Nat) : String := numbered "u" index

def aidOf (index : Nat) : String := numbered "a" index

/-- Of a hundred articles in a row 45 are on science. -/
def categoryOf (index : UInt64) : Category :=
  if (index * 31 + 17) % 100 < 45 then .science else .technology

/-- Science is written in the words of the tech corpus, technology in those of the other three. -/
def topicOf (index : UInt64) : TextTopic :=
  match categoryOf index with
  | .science => .tech
  | .technology =>
    let rest := (index * 37 + 13) % 3
    if rest = 0 then .business else if rest = 1 then .entertainment else .sport

namespace Random.Draw

def alphabet : List Char := "abcdefghijklmnopqrstuvwxyz0123456789".toList

def letter : Draw Char := do
  return alphabet.getD (← position 36).toNat 'a'

def letters (length : Nat) : Draw String := do
  return String.ofList (← times letter length)

/-- A label with a number from 1 to `most`. -/
def numberedUpTo (label : String) (most : Int32) : Draw String := do
  return numbered label (← int32 1 most).toInt.toNat

def tags (count : Nat) : Draw (List String) := times (numberedUpTo "tag" 50) count

/-- One to three authors. -/
def authors : Draw (List String) := do
  times (numberedUpTo "author" 2000) (← int32 1 3).toInt.toNat

end Random.Draw
end ReadingBench
