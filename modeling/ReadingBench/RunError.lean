import ReadingBench.Random.Weighted
import ReadingBench.Sql.Error

namespace ReadingBench

/-- Why a configuration, or what it asks of a run, is refused. -/
inductive ConfigFault where
  | batchSize
  | rollupBatchSize
  | readsWithoutPopulation
  | spreadWindow
  | retryAttempts
  /-- The numbers of choices and of weights differ. -/
  | weightCount (choices weights : Nat)
  | nobodyToRead (reads users articles : Nat)
  /-- Only a store knows the users and articles that a reads-only run draws from. -/
  | dryReadsOnly
  /-- The document is no configuration. -/
  | unreadable
  deriving DecidableEq

def ConfigFault.message : ConfigFault → String
  | batchSize => "batch sizes must be positive"
  | rollupBatchSize => "beread batch size must be positive"
  | readsWithoutPopulation => "reads need at least one user and one article"
  | spreadWindow => "spread window must be at least one day"
  | retryAttempts => "retry policy needs at least one attempt"
  | weightCount choices weights => s!"{choices} choices but {weights} weights"
  | nobodyToRead reads users articles =>
    s!"{reads} reads requested but only {users} users and {articles} articles are available"
  | dryReadsOnly => "a reads-only run needs the store to rebuild the referential index"
  | unreadable => "unreadable configuration"

inductive RunError where
  | sql (e : Sql.Error)
  | distribution (e : Random.WeightError)
  /-- A stored value is no member of the enumeration it should belong to. -/
  | unknownValue (kind value : String)
  /-- A fetched row has no text in a column that needs one. -/
  | missingColumn (table column : String)
  | config (fault : ConfigFault)
  /-- The worker that generates reads left the calendar. -/
  | task
  deriving DecidableEq

def RunError.message : RunError → String
  | sql e => s!"SQL error: {e.message}"
  | distribution e => s!"Invalid distribution: {e.message}"
  | unknownValue kind value => s!"Unknown {kind} value: {value}"
  | missingColumn table column => s!"Missing column {column} in {table}"
  | config fault => s!"Configuration error: {fault.message}"
  | task => "Generation task failed"

/-- Why a run stops. -/
inductive Halt where
  | failed (e : RunError)
  /-- A value left its range: a date the calendar, a sum of weights the finite numbers, a queue the
  depth it can have, a batch the room. -/
  | outOfRange
  /-- The budget of candidates was used up before enough of them were accepted. -/
  | unfinished
  deriving DecidableEq

end ReadingBench
