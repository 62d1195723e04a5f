import ReadingBench.Calendar.DateTime
import ReadingBench.RunError

namespace ReadingBench

/-- How a session reaches its server. -/
structure Connection where
  host : String := "127.0.0.1"
  port : UInt16 := 15306
  user : String := "root"
  password : String := ""
  /-- The keyspace of the session; none for sessions across keyspaces. -/
  database : Option String := none
  autocommit : Bool := true
  deriving DecidableEq

/-- The same server for another keyspace. -/
def Connection.forKeyspace (c : Connection) (keyspace : String) : Connection :=
  { c with database := some keyspace }

def Connection.withAutocommit (c : Connection) (autocommit : Bool) : Connection := { c with autocommit }

/-- 25 September 2017, the default of all generated times. -/
def defaultBaseTime : DateTime :=
  .midnight ⟨2017, 9, 25, by decide, by decide, by decide, by decide, by decide, by decide⟩

/-- How users, articles and reads are generated and loaded. -/
structure SeedConfig where
  users : UInt64 := 10000
  articles : UInt64 := 10000
  /-- Accepted reads; rejected candidates do not count. -/
  reads : UInt64 := 100000
  userBatchSize : UInt64 := 2000
  articleBatchSize : UInt64 := 1000
  readBatchSize : UInt64 := 2000
  /-- The time from which all generated times are counted. -/
  baseTime : DateTime := defaultBaseTime
  /-- The days over which articles and reads are spread. -/
  spreadDays : Int64 := 365
  /-- How many articles have a video. -/
  articlesWithVideo : UInt64 := 50
  rngSeed : Option UInt64 := none
  /-- Batches of reads between generation and insertion; 0 generates without a worker. -/
  readQueueDepth : UInt64 := 4
  truncate : Bool := false
  /-- Generate all records and store none. -/
  dryRun : Bool := false
  /-- Generate reads only, of users and articles that are stored. -/
  readsOnly : Bool := false
  deriving DecidableEq

structure RollupConfig where
  /-- Rows of one upsert. -/
  batchSize : UInt64 := 500
  deriving DecidableEq

structure RankConfig where
  /-- Articles of one bucket. -/
  topN : UInt64 := 5
  deriving DecidableEq

/-- How often a statement is tried that fails with a transient error. -/
structure RetryPolicy where
  maxAttempts : UInt32 := 20
  initialBackoffMs : UInt64 := 500
  maxBackoffMs : UInt64 := 5000
  deriving DecidableEq

namespace RetryPolicy

/-- Milliseconds before retry number `attempt`, counted from 1: doubled with each retry up to the
sixteenth doubling, and bounded. -/
def backoff (policy : RetryPolicy) (attempt : UInt32) : Nat :=
  min (policy.initialBackoffMs.toNat <<< min (attempt.toNat - 1) 16) policy.maxBackoffMs.toNat

/-- Retries without a pause. -/
def immediate (maxAttempts : UInt32) : RetryPolicy := ⟨maxAttempts, 0, 0⟩

end RetryPolicy

structure Config where
  connection : Connection := {}
  seed : SeedConfig := {}
  rollup : RollupConfig := {}
  rank : RankConfig := {}
  retry : RetryPolicy := {}
  deriving DecidableEq

namespace Config

/-- The first reason, if any, why runs cannot work with a configuration. -/
def fault? (c : Config) : Option ConfigFault :=
  if c.seed.userBatchSize = 0 ∨ c.seed.articleBatchSize = 0 ∨ c.seed.readBatchSize = 0 then
    some .batchSize
  else if c.rollup.batchSize = 0 then some .rollupBatchSize
  else if 0 < c.seed.reads ∧ (c.seed.users = 0 ∨ c.seed.articles = 0) then
    some .readsWithoutPopulation
  else if c.seed.spreadDays ≤ 0 then some .spreadWindow
  else if c.retry.maxAttempts = 0 then some .retryAttempts
  else none

def validate (c : Config) : Except RunError Unit :=
  match c.fault? with
  | some fault => .error (.config fault)
  | none => .ok ()

end Config
end ReadingBench
