import ReadingBench.Cli.Options
import ReadingBench.Cli.Summary

namespace ReadingBench.Cli

/-- What may be written, and a note on it. -/
structure Entry where
  usage : String
  note : String

namespace Entry

def ofFlag (f : Flag) : Entry := ⟨"    " ++ f.usage, f.note⟩

def ofCommand (c : Command) : Entry := ⟨c.word, c.note⟩

/-- An entry on a line, its note in a column behind the widest entry. -/
def beside (width : Nat) (e : Entry) : String :=
  "  " ++ e.usage ++ Summary.repeated (width + 2 - e.usage.length) ' ' ++ e.note ++ "\n"

/-- An entry with its note on a line of its own, which is there also if the note is empty. -/
def above (e : Entry) : String :=
  "  " ++ e.usage ++ "\n" ++ Summary.repeated 10 ' ' ++ e.note ++ "\n"

/-- A list under a title. On lines of 100 characters, all notes move below their entries where these
take more than 40 with their margins and leave too little for one of the notes. -/
def list (title : String) (entries : List Entry) : String :=
  let width := (entries.map (·.usage.length)).foldl max 0
  let taken := width + 8
  let line := if 40 < taken ∧ entries.any (100 < taken + ·.note.length) then above else beside width
  title ++ ":\n" ++ String.join (entries.map line)

end Entry

/-- The flags that a command takes: of its own and of every command, in the order of their places in the
two lists; at one place the name decides. -/
def Command.allFlags (c : Command) : List Flag :=
  let placed := globalFlags.zipIdx ++ c.flags.zipIdx
  let before (a b : Flag × Nat) : Bool := a.2 < b.2 || a.2 = b.2 && a.1.name ≤ b.1.name
  (placed.mergeSort before).map (·.1)

namespace Topic

def helpNote : String := "Print this message or the help of the given subcommand(s)"

def about : Topic → String
  | program => "Helvetia benchmark seeder"
  | command c => c.note
  | help => helpNote

def usage : Topic → String
  | program => "helvetia [OPTIONS] <COMMAND>"
  | command c => s!"helvetia {c.word} [OPTIONS]"
  | help => "helvetia help [COMMAND]..."

def lists : Topic → List String
  | program =>
    [Entry.list "Commands" (Command.list.map .ofCommand ++ [⟨"help", helpNote⟩]),
      Entry.list "Options"
        (globalFlags.map .ofFlag ++ [⟨"-h, --help", "Print help"⟩, ⟨"-V, --version", "Print version"⟩])]
  | command c => [Entry.list "Options" (c.allFlags.map .ofFlag ++ [⟨"-h, --help", "Print help"⟩])]
  | help => [Entry.list "Arguments" [⟨"[COMMAND]...", "Print help for the subcommand(s)"⟩]]

def text (t : Topic) : String :=
  t.about ++ "\n\nUsage: " ++ t.usage ++ "\n" ++ String.join (t.lists.map ("\n" ++ ·))

end Topic
end ReadingBench.Cli
