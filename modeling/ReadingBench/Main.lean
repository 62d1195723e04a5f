import ReadingBench.Cli.Program
import Std.Time.DateTime.Timestamp

namespace ReadingBench.Cli

/-- The file that a command line names, if it names one. -/
def configFile? (environment : String → Option String) (words : List String) : Option String :=
  match readArguments environment words with
  | .run _ o => o.config
  | _ => none

/-- The time so many seconds after the start of 1970, or the default base time outside the calendar. -/
def timeSince1970 (seconds : Int) : DateTime :=
  ((Date.ofDayNumber? 719162).bind fun day => (DateTime.midnight day).addSeconds? seconds).getD
    defaultBaseTime

end ReadingBench.Cli

open ReadingBench

def main (words : List String) : IO UInt32 := do
  let held ← Cli.variableNames.filterMapM fun name => do
    return (← IO.getEnv name).map (name, ·)
  let environment := fun name => List.lookup name held
  let text ← match Cli.configFile? environment words with
    | some path => (some <$> IO.FS.readFile path) <|> pure none
    | none => pure none
  let now := Cli.timeSince1970 (← Std.Time.Timestamp.now).toSecondsSinceUnixEpoch.val
  let entropy ← IO.getRandomBytes 8
  let outcome := Cli.run
    { environment := environment
      fileText := fun _ => text
      clock := fun _ => now
      today := now.date
      entropy := .ofSeed (entropy.toList.foldl (fun n b => n * 256 + b.toUInt64) 0)
      budget := UInt64.size } words
  IO.print outcome.output
  if let some complaint := outcome.complaint then IO.eprintln complaint
  return outcome.code
