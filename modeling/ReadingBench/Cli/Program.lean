import ReadingBench.Cli.Help
import ReadingBench.Config.Document
import ReadingBench.Ranking

namespace ReadingBench.Cli

open Store

/-- What the program needs of the world around it. -/
structure World where
  /-- The variables that are set. -/
  environment : String → Option String := fun _ => none
  /-- The text of a file, if it can be read. -/
  fileText : String → Option String
  clock : Nat → DateTime
  today : Date
  /-- The random numbers of runs that are given no seed. -/
  entropy : Random.Entropy
  /-- The most candidates that are tried for one batch. -/
  budget : Nat

/-- What the program leaves behind. -/
structure Outcome where
  code : UInt32
  output : String := ""
  complaint : Option String := none

namespace Outcome

def refused : Outcome := { code := 2 }

def failed (message : String) : Outcome := { code := 1, complaint := some ("Error: " ++ message) }

/-- How a run that stopped in a phase ends the program. An error is followed by its cause. -/
def halted (phase : String) : Halt → Outcome
  | .failed (.sql e) => failed s!"{phase}: {(RunError.sql e).message}: {e.message}"
  | .failed (.distribution e) => failed s!"{phase}: {(RunError.distribution e).message}: {e.message}"
  | .failed e => failed s!"{phase}: {e.message}"
  | .outOfRange => { code := 101 }
  | .unfinished => failed s!"{phase}: too few candidates are accepted"

end Outcome

/-- The configuration of a file, if the file can be read and holds one. -/
def loadConfig? (world : World) (path : String) : Option Config :=
  world.fileText path >>= Config.ofYaml?

/-- Runs a phase and adds its figures to the summary. -/
def phase (wanted : Bool) (name : String) (run : Run Summary) (summary : Summary) :
    ExceptT Outcome (StateM Server) Summary := fun server =>
  if wanted then
    match run server with
    | (.ok more, server) => (.ok (summary ++ more), server)
    | (.error halt, server) => (.error (.halted name halt), server)
  else (.ok summary, server)

/-- The phases of a command. A dry run has no rows to roll up or rank. -/
def phases (world : World) (command : Command) (c : Config) :
    ExceptT Outcome (StateM Server) Summary := do
  let seeding : Seeding := ⟨c.seed, c.retry, world.entropy, world.budget⟩
  let stores := !c.seed.dryRun
  let summary ← phase command.seeds "seeding failed" (Summary.ofSeed <$> seeding.run) []
  let summary ← phase (command.rollsUp && stores) "BeRead aggregation failed"
    (Summary.ofRollup <$> Rollup.run c.rollup) summary
  phase (command.ranks && stores) "PopularRank rebuild failed"
    (Summary.ofRanking <$> Ranking.run c.rank world.today) summary

/-- Runs a command that was understood. -/
def execute (world : World) (command : Command) (o : Options) : Outcome :=
  let loaded : Except Outcome Config :=
    match o.config with
    | none => .ok {}
    | some path =>
      match loadConfig? world path with
      | some c => .ok c
      | none => .error (.failed s!"loading {path}")
  match loaded with
  | .error outcome => outcome
  | .ok base =>
    let c := o.apply base
    match c.validate with
    | .error e => .failed e.message
    | .ok () =>
      if !o.embedded then .failed "no server can be reached; use --embedded"
      else
        match (phases world command c (Server.ofSpecs world.clock standardSpecs)).1 with
        | .error outcome => outcome
        | .ok summary =>
          { code := 0
            output := match o.format with
              | .json => summary.json
              | .table => summary.table }

def run (world : World) (words : List String) : Outcome :=
  match readArguments world.environment words with
  | .run command o => execute world command o
  | .help topic => { code := 0, output := topic.text }
  | .version => { code := 0, output := "helvetia 0.3.0\n" }
  | .refused => .refused

end ReadingBench.Cli
