import ReadingBench.Proofs.Seeding.Emptied
import ReadingBench.Proofs.Seeding.Population
import ReadingBench.Proofs.Seeding.Queue
import ReadingBench.Proofs.Store.Opening

namespace ReadingBench.Seeding

open ReadingBench.Random Sql Store Outcome

variable {server next : Server} {session : Session}

section Load

variable {σ ρ : Type} {source : Source σ ρ} {budget count : Nat} {b last : Batches σ}

theorem records_of_made (h : (b.all source budget).2 = .ok last) :
    b.records source budget = .ok ((b.all source budget).1.flatten, last) := by
  rw [Batches.records, h]
  rfl

/-- Batches that are made and dropped. -/
theorem records_of_run (fresh : b.accepted = 0)
    (h : (b.run source budget fun _ => pure () : Except Halt (Nat × Batches σ)) = .ok (count, last)) :
    ∃ records, b.records source budget = .ok (records, last) :=
  ⟨_, records_of_made (Batches.all_of_run fresh h)⟩

theorem loadTable_eq (session : Session) (ref : TableRef) (clear : Bool) (policy : RetryPolicy)
    (insert : Session → List ρ → Run Nat) :
    loadTable session ref clear policy source insert budget b = (do
      let truncated ← clearing clear session ref policy
      optimize session false
      let (batches, last) ← b.run source budget fun batch => do
        let _ ← flush insert session batch
      restore session
      return { batches, truncated, source := last }) := by
  cases clear <;> rfl

theorem loadTable_parts {ref : TableRef} {clear : Bool} {policy : RetryPolicy}
    {insert : Session → List ρ → Run Nat} {loaded : Loaded σ} (fresh : b.accepted = 0)
    (h : loadTable session ref clear policy source insert budget b server = (.ok loaded, next)) :
    ∃ cleared filled, clearing clear session ref policy server = (.ok loaded.truncated, cleared) ∧
      (forM (b.all source budget).1 fun batch => do let _ ← flush insert session batch : Run Unit)
        (optimize session false cleared).2 = (.ok ⟨⟩, filled) ∧
      (b.all source budget).2 = .ok loaded.source ∧
      loaded.batches = (b.all source budget).1.length ∧ next = (restore session filled).2 := by
  rw [loadTable_eq] at h
  obtain ⟨truncated, cleared, hcleared, h⟩ := bind_apply_eq_ok.1 h
  obtain ⟨_, prepared, hprepare, h⟩ := bind_apply_eq_ok.1 h
  obtain ⟨-, rfl⟩ := Prod.mk.inj ((Run.liftState_apply _ _).symm.trans hprepare)
  rw [Batches.run_eq _ fresh] at h
  obtain ⟨⟨batches, last⟩, filled, hrun, h⟩ := bind_apply_eq_ok.1 h
  obtain ⟨_, restored, hrestore, h⟩ := bind_apply_eq_ok.1 h
  obtain ⟨rfl, rfl⟩ := pure_apply_eq_ok.1 h
  obtain ⟨-, rfl⟩ := Prod.mk.inj ((Run.liftState_apply _ _).symm.trans hrestore)
  obtain ⟨_, stored, hforM, hrun⟩ := bind_apply_eq_ok.1 hrun
  cases hmade : (b.all source budget).2 with
  | error halt =>
    rw [hmade] at hrun
    cases (Prod.mk.inj hrun).1
  | ok made =>
    rw [hmade] at hrun
    obtain ⟨hpair, rfl⟩ := pure_apply_eq_ok.1 hrun
    obtain ⟨rfl, rfl⟩ := Prod.mk.inj hpair
    exact ⟨cleared, stored, hcleared, hforM, rfl, rfl, rfl⟩

theorem records_of_loadTable {ref : TableRef} {clear : Bool} {policy : RetryPolicy}
    {insert : Session → List ρ → Run Nat} {loaded : Loaded σ} (fresh : b.accepted = 0)
    (h : loadTable session ref clear policy source insert budget b server = (.ok loaded, next)) :
    ∃ records, b.records source budget = .ok (records, loaded.source) := by
  obtain ⟨cleared, filled, -, -, hmade, -⟩ := loadTable_parts fresh h
  exact ⟨_, records_of_made hmade⟩

end Load

variable {s : Seeding} {index : ReferentialIndex} {report : SeedReport} {outcome : ReadOutcome}

/-- The phase of users, in a session of its own. -/
def userPhase (s : Seeding) (dists : Distributions) : Run (Loaded Growing) :=
  Run.withSession fun session => loadTable session Keyspace.user.table s.config.truncate s.retry
    (s.userSource dists).offer insertUsers s.budget s.userBatches

/-- The phase of articles, which goes on with the index that the users have left. -/
def articlePhase (s : Seeding) (dists : Distributions) (index : ReferentialIndex) : Run (Loaded Growing) :=
  Run.withSession fun session => loadTable session Keyspace.article.table s.config.truncate s.retry
    (s.articleSource dists).offer insertArticles s.budget (s.articleBatches index)

/-- What users and articles came to. -/
def populationReport (users articles : Loaded Growing) : SeedReport where
  users := users.source.accepted
  userBatches := users.batches
  articles := articles.source.accepted
  articleBatches := articles.batches
  truncated := users.truncated + articles.truncated

/-- Users and articles, and the index of both. -/
def loadPopulation (s : Seeding) : Run (SeedReport × ReferentialIndex) := do
  let dists ← Distributions.standard
  let users ← s.userPhase dists
  let articles ← s.articlePhase dists users.source.state.index
  return (populationReport users articles, articles.source.state.index)

open Opening in
theorem closes_populate {sessions : OpenSessions} (s : Seeding)
    (new : ∀ entry ∈ sessions, entry.1 ≠ .user ∧ entry.1 ≠ .article) :
    Closes sessions s.populate s.loadPopulation := by
  have husers : ∀ entry ∈ sessions, entry.1 ≠ .user := fun entry hentry => (new entry hentry).1
  have harticles : ∀ entry ∈ sessions, entry.1 ≠ .article := fun entry hentry => (new entry hentry).2
  have hparts : s.populate = (do
      let dists ← Distributions.standard
      let users ← (do
        let session ← session .user
        let users ← ofRun <| loadTable session Keyspace.user.table s.config.truncate s.retry
          (s.userSource dists).offer insertUsers s.budget s.userBatches
        close .user
        return users)
      let articles ← (do
        let session ← session .article
        let articles ← ofRun <| loadTable session Keyspace.article.table s.config.truncate s.retry
          (s.articleSource dists).offer insertArticles s.budget (s.articleBatches users.source.state.index)
        close .article
        return articles)
      return (populationReport users articles, articles.source.state.index)) := by
    simp only [bind_assoc, pure_bind]
    rfl
  rw [hparts]
  refine (closes_lift _).bind fun dists => (closes_early husers _).bind fun users => ?_
  exact (closes_early harticles _).bind fun articles => closes_pure _

theorem loadPopulation_parts (h : s.loadPopulation server = (.ok (report, index), next)) :
    ∃ dists users articles mid, Distributions.standard = .ok dists ∧
      s.userPhase dists server = (.ok users, mid) ∧
      s.articlePhase dists users.source.state.index mid = (.ok articles, next) ∧
      index = articles.source.state.index ∧ report = populationReport users articles := by
  rw [loadPopulation] at h
  obtain ⟨dists, same, hdists, h⟩ := bind_apply_eq_ok.1 h
  rw [lift_apply] at hdists
  obtain ⟨hstandard, rfl⟩ := Prod.mk.inj hdists
  obtain ⟨users, mid, husers, h⟩ := bind_apply_eq_ok.1 h
  obtain ⟨articles, last, harticles, h⟩ := bind_apply_eq_ok.1 h
  obtain ⟨hresult, rfl⟩ := pure_apply_eq_ok.1 h
  obtain ⟨rfl, rfl⟩ := Prod.mk.inj hresult
  exact ⟨dists, users, articles, mid, hstandard, husers, harticles, rfl, rfl⟩

/-- The index of a run is that of the users and articles it makes, or is loaded. -/
def indexPhase (s : Seeding) (session : Session) : Run (SeedReport × ReferentialIndex) :=
  if s.config.readsOnly then do return (({} : SeedReport), ← ReferentialIndex.load session)
  else s.loadPopulation

/-- Reads that were loaded, in a queue or not, were loaded one batch after the other. -/
theorem loadReads_eq_ok (h : s.loadReads session index server = (.ok outcome, next)) : ∃ source,
    s.readSource index = .ok source ∧ s.loadInline session source server = (.ok outcome, next) := by
  obtain ⟨source, same, hsource, h⟩ := bind_apply_eq_ok.1 h
  rw [lift_apply] at hsource
  obtain ⟨hok, rfl⟩ := Prod.mk.inj hsource
  refine ⟨source, hok, ?_⟩
  split at h
  · exact h
  · rw [loadQueued] at h
    split at h
    · cases (Prod.mk.inj h).1
    rcases hinline : s.loadInline session source server with ⟨halt | done, last⟩
    · rw [hinline] at h
      cases halt <;> cases (Prod.mk.inj h).1
    · rw [hinline] at h
      exact h

theorem loadReads_parts (h : s.loadReads session index server = (.ok outcome, next)) :
    ∃ source tally, s.readSource index = .ok source ∧
      Queue.insertAll session (s.readBatches.all source.offer s.budget).1 {} server = (.ok tally, next) ∧
      (s.readBatches.all source.offer s.budget).2 = .ok outcome.source ∧
      outcome.batches = (s.readBatches.all source.offer s.budget).1.length ∧
      outcome.affected = tally.affected := by
  obtain ⟨source, hsource, h⟩ := loadReads_eq_ok h
  rw [Queue.loadInline_eq] at h
  obtain ⟨tally, filled, hinsert, h⟩ := bind_apply_eq_ok.1 h
  obtain ⟨last, same, hlast, h⟩ := bind_apply_eq_ok.1 h
  obtain ⟨rfl, rfl⟩ := pure_apply_eq_ok.1 h
  rw [lift_apply] at hlast
  obtain ⟨hmade, rfl⟩ := Prod.mk.inj hlast
  exact ⟨source, tally, hsource, hinsert, hmade,
    (Queue.insertAll_eq_ok hinsert).1.trans (Nat.zero_add _), rfl⟩

/-- All phases, in the session of the reads. -/
def runPhases (s : Seeding) (session : Session) : Run SeedReport := do
  optimize session true
  let truncated ← clearing s.config.truncate session Keyspace.read.table s.retry
  let (report, index) ← s.indexPhase session
  let outcome ← s.loadReads session index
  restore session
  return { report with
    truncated := truncated + report.truncated
    reads := outcome.source.accepted
    readBatches := outcome.batches
    readCandidates := outcome.source.candidates
    readsAffected := outcome.affected
    referentialFallbacks := outcome.source.state.fallbacks }

open Opening in
theorem brackets_perform (s : Seeding) : Brackets [] s.perform (Run.withSession s.runPhases) := by
  have hindex : ∀ session, Closes [(.read, session)] (s.prepareIndex session) (s.indexPhase session) := by
    intro session
    unfold prepareIndex indexPhase
    split
    · exact (closes_ofRun _).bind fun index => closes_pure _
    · exact closes_populate s (by simp)
  refine Brackets.session fun session => Closes.brackets ?_
  refine (closes_liftState _).bind fun _ => ?_
  refine (closes_ofRun _).bind fun truncated => (hindex session).bind fun counted => ?_
  refine (closes_ofRun _).bind fun outcome => ?_
  exact (closes_liftState _).bind fun _ => closes_pure _

/-- A run that is no dry one is its phases in a session of their own, and in it users and articles in sessions
of theirs. -/
theorem run_eq_withSession (s : Seeding) : s.run =
    if s.config.dryRun then liftM s.dryRun else Run.withSession s.runPhases := by
  rw [run, s.brackets_perform.withSessions_eq]

theorem runPhases_parts (h : s.runPhases session server = (.ok report, next)) :
    ∃ truncated cleared, ∃ counted : SeedReport, ∃ index populated outcome loaded,
      clearing s.config.truncate session Keyspace.read.table s.retry (optimize session true server).2 =
        (.ok truncated, cleared) ∧
      s.indexPhase session cleared = (.ok (counted, index), populated) ∧
      s.loadReads session index populated = (.ok outcome, loaded) ∧
      next = (restore session loaded).2 ∧ report = { counted with
        truncated := truncated + counted.truncated
        reads := outcome.source.accepted
        readBatches := outcome.batches
        readCandidates := outcome.source.candidates
        readsAffected := outcome.affected
        referentialFallbacks := outcome.source.state.fallbacks } := by
  rw [runPhases] at h
  obtain ⟨_, prepared, hprepare, h⟩ := bind_apply_eq_ok.1 h
  obtain ⟨-, rfl⟩ := Prod.mk.inj ((Run.liftState_apply _ _).symm.trans hprepare)
  obtain ⟨truncated, cleared, hcleared, h⟩ := bind_apply_eq_ok.1 h
  obtain ⟨⟨counted, index⟩, populated, hpopulated, h⟩ := bind_apply_eq_ok.1 h
  obtain ⟨outcome, loaded, hreads, h⟩ := bind_apply_eq_ok.1 h
  obtain ⟨_, restored, hrestore, h⟩ := bind_apply_eq_ok.1 h
  obtain ⟨rfl, rfl⟩ := pure_apply_eq_ok.1 h
  obtain ⟨-, rfl⟩ := Prod.mk.inj ((Run.liftState_apply _ _).symm.trans hrestore)
  exact ⟨truncated, cleared, counted, index, populated, outcome, loaded, hcleared, hpopulated, hreads, rfl,
    rfl⟩

end ReadingBench.Seeding
