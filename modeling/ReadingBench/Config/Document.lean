import ReadingBench.Config.Basic
import ReadingBench.Document.Yaml

namespace ReadingBench

namespace Connection

def members : List String := ["host", "port", "user", "password", "database", "autocommit"]

def ofNode? (node : Node) : Option Connection := do
  let get ← node.members? members
  let base : Connection := {}
  return {
    host := ← get.defaulted "host" Node.text? base.host
    port := ← get.defaulted "port" Node.uint16? base.port
    user := ← get.defaulted "user" Node.text? base.user
    password := ← get.defaulted "password" Node.text? base.password
    database := ← get.optional "database" Node.text?
    autocommit := ← get.defaulted "autocommit" Node.bool? base.autocommit }

def toNode (c : Connection) : Node :=
  .map (members.zip
    [.text c.host, .int c.port.toNat, .text c.user, .text c.password, .ofText? c.database,
      .bool c.autocommit])

end Connection

namespace SeedConfig

def members : List String :=
  ["users", "articles", "reads", "user_batch_size", "article_batch_size", "read_batch_size",
    "base_time", "spread_days", "articles_with_video", "rng_seed", "read_queue_depth", "truncate",
    "dry_run", "reads_only"]

def ofNode? (node : Node) : Option SeedConfig := do
  let get ← node.members? members
  let base : SeedConfig := {}
  return {
    users := ← get.defaulted "users" Node.uint64? base.users
    articles := ← get.defaulted "articles" Node.uint64? base.articles
    reads := ← get.defaulted "reads" Node.uint64? base.reads
    userBatchSize := ← get.defaulted "user_batch_size" Node.uint64? base.userBatchSize
    articleBatchSize := ← get.defaulted "article_batch_size" Node.uint64? base.articleBatchSize
    readBatchSize := ← get.defaulted "read_batch_size" Node.uint64? base.readBatchSize
    baseTime := ← get.defaulted "base_time" Node.dateTime? base.baseTime
    spreadDays := ← get.defaulted "spread_days" Node.int64? base.spreadDays
    articlesWithVideo := ← get.defaulted "articles_with_video" Node.uint64? base.articlesWithVideo
    rngSeed := ← get.optional "rng_seed" Node.uint64?
    readQueueDepth := ← get.defaulted "read_queue_depth" Node.uint64? base.readQueueDepth
    truncate := ← get.defaulted "truncate" Node.bool? base.truncate
    dryRun := ← get.defaulted "dry_run" Node.bool? base.dryRun
    readsOnly := ← get.defaulted "reads_only" Node.bool? base.readsOnly }

def seedNode : Option UInt64 → Node
  | some seed => .int seed.toNat
  | none => .null

def toNode (c : SeedConfig) : Node :=
  .map (members.zip
    [.int c.users.toNat, .int c.articles.toNat, .int c.reads.toNat, .int c.userBatchSize.toNat,
      .int c.articleBatchSize.toNat, .int c.readBatchSize.toNat, .text c.baseTime.recordText,
      .int c.spreadDays.toInt, .int c.articlesWithVideo.toNat, seedNode c.rngSeed,
      .int c.readQueueDepth.toNat, .bool c.truncate, .bool c.dryRun, .bool c.readsOnly])

end SeedConfig

namespace RollupConfig

def ofNode? (node : Node) : Option RollupConfig := do
  let get ← node.members? ["batch_size"]
  return { batchSize := ← get.defaulted "batch_size" Node.uint64? ({} : RollupConfig).batchSize }

def toNode (c : RollupConfig) : Node := .map [("batch_size", .int c.batchSize.toNat)]

end RollupConfig

namespace RankConfig

def ofNode? (node : Node) : Option RankConfig := do
  let get ← node.members? ["top_n"]
  return { topN := ← get.defaulted "top_n" Node.uint64? ({} : RankConfig).topN }

def toNode (c : RankConfig) : Node := .map [("top_n", .int c.topN.toNat)]

end RankConfig

namespace RetryPolicy

def members : List String := ["max_attempts", "initial_backoff_ms", "max_backoff_ms"]

def ofNode? (node : Node) : Option RetryPolicy := do
  let get ← node.members? members
  let base : RetryPolicy := {}
  return {
    maxAttempts := ← get.defaulted "max_attempts" Node.uint32? base.maxAttempts
    initialBackoffMs := ← get.defaulted "initial_backoff_ms" Node.uint64? base.initialBackoffMs
    maxBackoffMs := ← get.defaulted "max_backoff_ms" Node.uint64? base.maxBackoffMs }

def toNode (p : RetryPolicy) : Node :=
  .map (members.zip
    [.int p.maxAttempts.toNat, .int p.initialBackoffMs.toNat, .int p.maxBackoffMs.toNat])

end RetryPolicy

namespace Config

def members : List String := ["connection", "seed", "beread", "rank", "retry"]

/-- Members that are missing take their defaults and unknown ones are passed over. Only the seed and the
database may be null. -/
def ofNode? (node : Node) : Option Config := do
  let get ← node.members? members
  return {
    connection := ← get.defaulted "connection" Connection.ofNode? {}
    seed := ← get.defaulted "seed" SeedConfig.ofNode? {}
    rollup := ← get.defaulted "beread" RollupConfig.ofNode? {}
    rank := ← get.defaulted "rank" RankConfig.ofNode? {}
    retry := ← get.defaulted "retry" RetryPolicy.ofNode? {} }

/-- Reads the text of a YAML document. Members of members are as deep as a configuration goes. -/
def ofYaml? (text : String) : Option Config := Yaml.read? 2 text >>= ofNode?

def toNode (c : Config) : Node :=
  .map (members.zip
    [c.connection.toNode, c.seed.toNode, c.rollup.toNode, c.rank.toNode, c.retry.toNode])

end Config
end ReadingBench
