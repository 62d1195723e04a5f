import ReadingBench.Rollup
import ReadingBench.Seeding.Seed

namespace ReadingBench.Cli

/-- A line per figure. -/
abbrev Summary := List (String × String)

namespace Summary

def nat (n : Nat) : String := String.ofList (Decimal.digits n)

def inBatches (records batches : Nat) : String := nat records ++ " in " ++ nat batches ++ " batches"

def ofSeed (r : SeedReport) : Summary :=
  [("users", inBatches r.users r.userBatches),
    ("articles", inBatches r.articles r.articleBatches),
    ("reads", inBatches r.reads r.readBatches),
    ("read candidates", nat r.readCandidates),
    ("reads affected", nat r.readsAffected),
    ("rows truncated", nat r.truncated),
    ("referential fallbacks", nat r.referentialFallbacks)]

def ofRollup (r : RollupReport) : Summary :=
  [("beread articles", nat r.articles), ("beread reads", nat r.reads),
    ("beread batches", nat r.batches)]

def ofRanking (rows : Nat) : Summary := [("popular_rank rows", nat rows)]

/-- A JSON object over several lines, its members in the order of their names. -/
def json (s : Summary) : String :=
  if s.isEmpty then "\x7b\x7d\n"
  else
    let sorted := s.mergeSort fun a b => a.1 ≤ b.1
    let quoted (t : String) : String := String.ofList (Text.jsonString t)
    let members := sorted.map fun (name, value) => "  " ++ quoted name ++ ": " ++ quoted value
    "\x7b\n" ++ ",\n".intercalate members ++ "\n\x7d\n"

def repeated (width : Nat) (c : Char) : String := String.ofList (List.replicate width c)

def cell (width : Nat) (s : String) : String := " " ++ s ++ repeated (width - s.length) ' ' ++ " "

/-- A table with borders; columns are as wide as their longest cell. -/
def table (s : Summary) : String :=
  let rows := ("phase", "result") :: s
  let left := (rows.map (·.1.length)).foldl max 0
  let right := (rows.map (·.2.length)).foldl max 0
  let line (a b : String) : String := "|" ++ cell left a ++ "|" ++ cell right b ++ "|\n"
  let dashes (side : String) : String :=
    side ++ repeated (left + 2) '-' ++ "+" ++ repeated (right + 2) '-' ++ side ++ "\n"
  dashes "+" ++ line "phase" "result" ++ "+" ++ repeated (left + right + 5) '=' ++ "+\n" ++
    (dashes "|").intercalate (s.map fun (a, b) => line a b) ++ dashes "+"

end Summary
end ReadingBench.Cli
