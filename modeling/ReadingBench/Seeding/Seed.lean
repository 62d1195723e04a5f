import ReadingBench.Seeding.Load

namespace ReadingBench

open ReadingBench.Random Sql Store

/-- What a seed run came to. -/
structure SeedReport where
  users : Nat := 0
  articles : Nat := 0
  reads : Nat := 0
  userBatches : Nat := 0
  articleBatches : Nat := 0
  readBatches : Nat := 0
  /-- Candidates for reads, accepted or not. -/
  readCandidates : Nat := 0
  /-- Less than `reads` where pairs were dropped. -/
  readsAffected : Nat := 0
  /-- Rows removed from all tables. -/
  truncated : Nat := 0
  /-- Candidates whose user or article was not in the index. -/
  referentialFallbacks : Nat := 0
  deriving DecidableEq

namespace SeedReport

def toNode (r : SeedReport) : Node :=
  .map
    [("users", .int r.users), ("articles", .int r.articles), ("reads", .int r.reads),
      ("user_batches", .int r.userBatches), ("article_batches", .int r.articleBatches),
      ("read_batches", .int r.readBatches), ("read_candidates", .int r.readCandidates),
      ("reads_affected", .int r.readsAffected), ("truncated", .int r.truncated),
      ("referential_fallbacks", .int r.referentialFallbacks)]

end SeedReport

/-- A seed run: its configuration, and where its random numbers come from. -/
structure Seeding where
  config : SeedConfig
  retry : RetryPolicy
  /-- The random numbers of runs whose configuration has no seed. -/
  entropy : Entropy
  /-- How many candidates are tried for one batch before the run gives up. -/
  budget : Nat

namespace Seeding

def stream (s : Seeding) (number : UInt64) : Stream :=
  match s.config.rngSeed with
  | some seed => .ofSeedAndNumber seed number
  | none => s.entropy.stream number

def userSource (s : Seeding) (dists : Distributions) : UserSource := ⟨dists, s.config.baseTime⟩

def userBatches (s : Seeding) : Batches Growing :=
  .start ⟨s.stream 0, .empty⟩ s.config.users.toNat s.config.userBatchSize.toNat User.width

def articleSource (s : Seeding) (dists : Distributions) : ArticleSource :=
  ⟨dists, s.config.baseTime, s.config.articles.toNat, s.config.spreadDays,
    s.config.articlesWithVideo.toNat⟩

def articleBatches (s : Seeding) (index : ReferentialIndex) : Batches Growing :=
  .start ⟨s.stream 1, index⟩ s.config.articles.toNat s.config.articleBatchSize.toNat Article.width

/-- The source of reads. Reads need a user and an article. -/
def readSource (s : Seeding) (index : ReferentialIndex) : Except Halt ReadSource :=
  let (users, articles) :=
    if s.config.readsOnly then (index.userCount, index.articleCount)
    else (s.config.users.toNat, s.config.articles.toNat)
  if 0 < s.config.reads ∧ (users = 0 ∨ articles = 0) then
    .error (.failed (.config (.nobodyToRead s.config.reads.toNat users articles)))
  else .ok ⟨s.config.baseTime, users, articles, s.config.reads.toNat, s.config.spreadDays, index⟩

def readBatches (s : Seeding) : Batches Reading :=
  .start ⟨s.stream 2, 0⟩ s.config.reads.toNat s.config.readBatchSize.toNat Read.width

/-- What the phase of reads came to. -/
structure ReadOutcome where
  batches : Nat
  affected : Nat
  source : Batches Reading

/-- Inserts batch after batch as they are made. -/
def loadInline (s : Seeding) (session : Session) (source : ReadSource) : Run ReadOutcome := do
  let load : StateT Nat Run (Nat × Batches Reading) :=
    s.readBatches.run source.offer s.budget fun batch => do
      let affected ← flush insertReads session batch
      modify (· + affected)
  let ((batches, rest), affected) ← load.run 0
  return ⟨batches, affected, rest⟩

/-- The most batches that can wait between a worker and the inserter. -/
def maxQueueDepth : Nat := UInt64.size / 8 - 1

/-- Batches come from a worker, in order, and are inserted as they come. A worker that fails ends the
run after the batches that it had made. -/
def loadQueued (s : Seeding) (session : Session) (source : ReadSource) : Run ReadOutcome := fun server =>
  if maxQueueDepth < s.config.readQueueDepth.toNat then (.error .outOfRange, server)
  else
    match s.loadInline session source server with
    | (.error .outOfRange, server) => (.error (.failed .task), server)
    | result => result

def loadReads (s : Seeding) (session : Session) (index : ReferentialIndex) : Run ReadOutcome := do
  let source ← (s.readSource index : Except Halt ReadSource)
  if s.config.readQueueDepth = 0 then s.loadInline session source
  else s.loadQueued session source

/-- Loads users and articles, each in a session that is closed once they are stored. -/
def populate (s : Seeding) : Opening (SeedReport × ReferentialIndex) := do
  let dists ← Distributions.standard
  let session ← Opening.session .user
  let users ← Opening.ofRun <|
    loadTable session Keyspace.user.table s.config.truncate s.retry (s.userSource dists).offer
      insertUsers s.budget s.userBatches
  Opening.close .user
  let session ← Opening.session .article
  let articles ← Opening.ofRun <|
    loadTable session Keyspace.article.table s.config.truncate s.retry
      (s.articleSource dists).offer insertArticles s.budget (s.articleBatches users.source.state.index)
  Opening.close .article
  let report : SeedReport :=
    { users := users.source.accepted, userBatches := users.batches
      articles := articles.source.accepted, articleBatches := articles.batches
      truncated := users.truncated + articles.truncated }
  return (report, articles.source.state.index)

/-- The index of what is stored already, or of users and articles that are made and stored first. -/
def prepareIndex (s : Seeding) (session : Session) : Opening (SeedReport × ReferentialIndex) :=
  if s.config.readsOnly then do
    let index ← Opening.ofRun (ReferentialIndex.load session)
    return ({}, index)
  else s.populate

/-- All phases. The session of the reads is the first to be opened, and stays open. -/
def perform (s : Seeding) : Opening SeedReport := do
  let session ← Opening.session .read
  optimize session true
  let truncated ← Opening.ofRun <|
    if s.config.truncate then truncate session Keyspace.read.table s.retry else pure 0
  let (report, index) ← s.prepareIndex session
  let outcome ← Opening.ofRun (s.loadReads session index)
  restore session
  return { report with
    truncated := truncated + report.truncated
    reads := outcome.source.accepted
    readBatches := outcome.batches
    readCandidates := outcome.source.candidates
    readsAffected := outcome.affected
    referentialFallbacks := outcome.source.state.fallbacks }

/-- Generates all batches and stores none. -/
def dryRun (s : Seeding) : Except Halt SeedReport := do
  if s.config.readsOnly then throw (.failed (.config .dryReadsOnly))
  let dists ← Distributions.standard
  let (userBatches, users) ← s.userBatches.run (s.userSource dists).offer s.budget fun _ => pure ()
  let (articleBatches, articles) ← (s.articleBatches users.state.index).run
    (s.articleSource dists).offer s.budget fun _ => pure ()
  let source ← s.readSource articles.state.index
  let (readBatches, reads) ← s.readBatches.run source.offer s.budget fun _ => pure ()
  return {
    users := users.accepted, articles := articles.accepted, reads := reads.accepted
    userBatches, articleBatches, readBatches, readCandidates := reads.candidates
    referentialFallbacks := reads.state.fallbacks }

/-- A dry run opens no session. -/
def run (s : Seeding) : Run SeedReport :=
  if s.config.dryRun then liftM s.dryRun else Run.withSessions s.perform

end Seeding
end ReadingBench
