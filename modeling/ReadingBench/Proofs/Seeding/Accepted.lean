import ReadingBench.Proofs.Population.Index
import ReadingBench.Proofs.Population.Reading
import ReadingBench.Proofs.Seeding.Stored

namespace ReadingBench

open ReadingBench.Random Sql Store Outcome Server ReferentialIndex

namespace Batches.Offered

variable {b last : Batches Growing}

theorem index_of_users {source : UserSource} {users : List User}
    (h : Offered source.offer b users last) :
    last.state.index = b.state.index.addUsers (users.map fun user => (user.uid, user.region)) := by
  induction h with
  | nil b => rfl
  | rejected offer _ _ => exact absurd offer UserSource.offer_ne_rejected
  | accepted offer _ ih =>
    rw [ih]
    dsimp only
    rw [UserSource.index_of_accepted offer]
    rfl

theorem index_of_articles {source : ArticleSource} {articles : List Article}
    (h : Offered source.offer b articles last) :
    last.state.index =
      b.state.index.addArticles (articles.map fun article => (article.aid, article.language)) := by
  induction h with
  | nil b => rfl
  | rejected offer _ _ => exact absurd offer ArticleSource.offer_ne_rejected
  | accepted offer _ ih =>
    rw [ih]
    dsimp only
    rw [ArticleSource.index_of_accepted offer]
    rfl

end Batches.Offered

namespace Seeding

/-- Users, articles and the index of both. -/
def population (s : Seeding) : Except Halt (List User × List Article × ReferentialIndex) := do
  let dists ← Distributions.standard
  let (users, growing) ← s.userBatches.records (s.userSource dists).offer s.budget
  let (articles, growing) ←
    (s.articleBatches growing.state.index).records (s.articleSource dists).offer s.budget
  return (users, articles, growing.state.index)

/-- The reads that are accepted with an index, and what is left of their source. -/
def accepted (s : Seeding) (index : ReferentialIndex) : Except Halt (List Read × Batches Reading) := do
  let source ← s.readSource index
  s.readBatches.records source.offer s.budget

variable {s : Seeding} {users : List User} {articles : List Article} {index : ReferentialIndex}

theorem population_eq_ok : s.population = .ok (users, articles, index) ↔ ∃ dists grown grown',
    Distributions.standard = .ok dists ∧
      s.userBatches.records (s.userSource dists).offer s.budget = .ok (users, grown) ∧
      (s.articleBatches grown.state.index).records (s.articleSource dists).offer s.budget =
        .ok (articles, grown') ∧
      index = grown'.state.index := by
  constructor
  · intro h
    obtain ⟨dists, hstandard, h⟩ := bind_eq_ok.1 h
    obtain ⟨⟨users', grown⟩, husers, h⟩ := bind_eq_ok.1 h
    obtain ⟨⟨articles', grown'⟩, harticles, h⟩ := bind_eq_ok.1 h
    obtain ⟨rfl, hrest⟩ := Prod.mk.inj (pure_eq_ok.1 h)
    obtain ⟨rfl, rfl⟩ := Prod.mk.inj hrest
    exact ⟨dists, grown, grown', hstandard, husers, harticles, rfl⟩
  · rintro ⟨dists, grown, grown', hstandard, husers, harticles, rfl⟩
    simp only [population, hstandard, husers, harticles, ok_bind]
    rfl

theorem generated_of_accepted {reads : List Read} {last : Batches Reading}
    (hpopulation : s.population = .ok (users, articles, index))
    (haccepted : s.accepted index = .ok (reads, last)) : s.generated = .ok ⟨users, articles, reads⟩ := by
  obtain ⟨dists, grown, grown', hstandard, husers, harticles, rfl⟩ := population_eq_ok.1 hpopulation
  obtain ⟨source, hsource, hreads⟩ := bind_eq_ok.1 haccepted
  exact generated_eq_ok.2
    ⟨dists, grown, grown', source, last, hstandard, husers, harticles, hsource, hreads⟩

theorem index_of_population (h : s.population = .ok (users, articles, index)) :
    index = ofEntries (users.map fun user => (user.uid, user.region))
      (articles.map fun article => (article.aid, article.language)) := by
  obtain ⟨dists, grown, grown', -, husers, harticles, rfl⟩ := population_eq_ok.1 h
  rw [(Batches.offered_of_records harticles).1.index_of_articles]
  change (ReferentialIndex.addArticles grown.state.index _) = _
  rw [(Batches.offered_of_records husers).1.index_of_users]
  rfl

/-- The source of reads has what the configuration says, and the index. -/
theorem readSource_eq_ok {source : ReadSource} (h : s.readSource index = .ok source) :
    (source.baseTime = s.config.baseTime ∧ source.total = s.config.reads.toNat ∧
      source.spreadDays = s.config.spreadDays ∧ source.index = index) ∧
      (s.config.readsOnly = false →
        source.users = s.config.users.toNat ∧ source.articles = s.config.articles.toNat) := by
  unfold readSource at h
  cases hstored : s.config.readsOnly with
  | true =>
    simp only [hstored, if_true] at h
    split at h
    · cases h
    · obtain rfl := Except.ok.inj h
      exact ⟨⟨rfl, rfl, rfl, rfl⟩, fun hfull => by cases hfull⟩
  | false =>
    simp only [hstored, Bool.false_eq_true, if_false] at h
    split at h
    · cases h
    · obtain rfl := Except.ok.inj h
      exact ⟨⟨rfl, rfl, rfl, rfl⟩, fun _ => ⟨rfl, rfl⟩⟩

/-- What a report says of the reads. -/
structure Counts (report : SeedReport) (reads : List Read) (last : Batches Reading) : Prop where
  reads : report.reads = reads.length
  candidates : report.readCandidates = last.candidates
  fallbacks : report.referentialFallbacks = last.state.fallbacks

variable {session : Session} {server next : Server} {report : SeedReport}

theorem population_of_loadPopulation (h : s.loadPopulation server = (.ok (report, index), next)) :
    ∃ users articles, s.population = .ok (users, articles, index) := by
  obtain ⟨dists, loaded, loaded', mid, hstandard, husers, harticles, rfl, -⟩ := loadPopulation_parts h
  obtain ⟨opened, closed, -, -, husers⟩ := Run.withSession_eq_ok husers
  obtain ⟨opened', closed', -, -, harticles⟩ := Run.withSession_eq_ok harticles
  obtain ⟨users, husers⟩ := records_of_loadTable rfl husers
  obtain ⟨articles, harticles⟩ := records_of_loadTable rfl harticles
  exact ⟨users, articles, population_eq_ok.2 ⟨dists, _, _, hstandard, husers, harticles, rfl⟩⟩

theorem accepted_of_loadReads {outcome : ReadOutcome}
    (h : s.loadReads session index server = (.ok outcome, next)) :
    ∃ reads, s.accepted index = .ok (reads, outcome.source) := by
  obtain ⟨source, tally, hsource, -, hmade, -⟩ := loadReads_parts h
  refine ⟨(s.readBatches.all source.offer s.budget).1.flatten, ?_⟩
  rw [accepted, hsource, ok_bind]
  exact records_of_made hmade

/-- The phases of a run that succeeded. -/
structure Phases (s : Seeding) (session : Session) (server next : Server) (report : SeedReport)
    (index : ReferentialIndex) (cleared populated : Server) : Prop where
  clears : ∃ count, clearing s.config.truncate session Keyspace.read.table s.retry
    (optimize session true server).2 = (.ok count, cleared)
  populates : ∃ counted, s.indexPhase session cleared = (.ok (counted, index), populated)
  reads : ∃ outcome loaded, s.loadReads session index populated = (.ok outcome, loaded) ∧
    next = (restore session loaded).2 ∧ report.reads = outcome.source.accepted ∧
      report.readCandidates = outcome.source.candidates ∧
        report.referentialFallbacks = outcome.source.state.fallbacks

theorem phases_of_runPhases (h : s.runPhases session server = (.ok report, next)) :
    ∃ index cleared populated, s.Phases session server next report index cleared populated := by
  obtain ⟨truncated, cleared, counted, index, populated, outcome, loaded, hcleared, hpopulated, hreads, rfl,
    rfl⟩ := runPhases_parts h
  exact ⟨index, cleared, populated, ⟨_, hcleared⟩, ⟨_, hpopulated⟩, outcome, loaded, hreads, rfl, rfl,
    rfl, rfl⟩

theorem counts_of_accepted {reads : List Read} {last : Batches Reading}
    (h : s.accepted index = .ok (reads, last)) (hreads : report.reads = last.accepted)
    (hcandidates : report.readCandidates = last.candidates)
    (hfallbacks : report.referentialFallbacks = last.state.fallbacks) :
    Counts report reads last := by
  obtain ⟨source, -, hmade⟩ := bind_eq_ok.1 h
  have haccepted := (Batches.offered_of_records hmade).1.accepted_eq
  exact ⟨hreads.trans (haccepted.trans (Nat.zero_add _)), hcandidates, hfallbacks⟩

theorem Phases.counts {cleared populated : Server}
    (h : s.Phases session server next report index cleared populated) :
    ∃ reads last, s.accepted index = .ok (reads, last) ∧ Counts report reads last := by
  obtain ⟨outcome, loaded, hloaded, -, hreads, hcandidates, hfallbacks⟩ := h.reads
  obtain ⟨reads, haccepted⟩ := accepted_of_loadReads hloaded
  exact ⟨reads, _, haccepted, counts_of_accepted haccepted hreads hcandidates hfallbacks⟩

theorem Phases.population {cleared populated : Server}
    (h : s.Phases session server next report index cleared populated)
    (full : s.config.readsOnly = false) : ∃ users articles, s.population = .ok (users, articles, index) := by
  obtain ⟨counted, hpopulated⟩ := h.populates
  rw [indexPhase, full, if_neg Bool.false_ne_true] at hpopulated
  exact population_of_loadPopulation hpopulated

theorem counts_of_dryRun (h : s.dryRun = .ok report) : s.config.readsOnly = false ∧
    ∃ users articles index reads last, s.population = .ok (users, articles, index) ∧
      s.accepted index = .ok (reads, last) ∧ Counts report reads last := by
  unfold dryRun at h
  cases hfull : s.config.readsOnly with
  | true =>
    rw [hfull] at h
    cases h
  | false =>
    simp only [hfull, Bool.false_eq_true, if_false] at h
    obtain ⟨dists, hstandard, h⟩ := bind_eq_ok.1 h
    obtain ⟨⟨userBatches, grown⟩, husers, h⟩ := bind_eq_ok.1 h
    obtain ⟨⟨articleBatches, grown'⟩, harticles, h⟩ := bind_eq_ok.1 h
    obtain ⟨source, hsource, h⟩ := bind_eq_ok.1 h
    obtain ⟨⟨readBatches, last⟩, hreads, h⟩ := bind_eq_ok.1 h
    obtain rfl := pure_eq_ok.1 h
    obtain ⟨users, husers⟩ := records_of_run rfl husers
    obtain ⟨articles, harticles⟩ := records_of_run rfl harticles
    obtain ⟨reads, hreads⟩ := records_of_run rfl hreads
    have haccepted : s.accepted grown'.state.index = .ok (reads, last) := by
      rw [accepted, hsource, ok_bind]
      exact hreads
    exact ⟨rfl, users, articles, grown'.state.index, reads, last,
      population_eq_ok.2 ⟨dists, grown, grown', hstandard, husers, harticles, rfl⟩, haccepted,
      counts_of_accepted haccepted rfl rfl rfl⟩

end Seeding
end ReadingBench
