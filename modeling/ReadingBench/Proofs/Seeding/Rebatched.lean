import ReadingBench.Proofs.Population.Reach
import ReadingBench.Proofs.Seeding.Predicted
import ReadingBench.Proofs.Seeding.Recut
import ReadingBench.Proofs.Store.Follow

namespace ReadingBench

open Sql Store Outcome Server

/-- The sizes of batches, as a configuration has them. -/
structure BatchSizes where
  users : UInt64
  articles : UInt64
  reads : UInt64

/-- A report without its numbers of batches. -/
def SeedReport.unbatched (r : SeedReport) : SeedReport :=
  { r with userBatches := 0, articleBatches := 0, readBatches := 0 }

/-- The numbers of batches that the configuration gives. -/
structure SeedReport.Batched (config : SeedConfig) (r : SeedReport) : Prop where
  users : r.userBatches =
    if config.readsOnly then 0 else config.users.toNat ⌈/⌉ max config.userBatchSize.toNat 1
  articles : r.articleBatches =
    if config.readsOnly then 0 else config.articles.toNat ⌈/⌉ max config.articleBatchSize.toNat 1
  reads : r.readBatches = config.reads.toNat ⌈/⌉ max config.readBatchSize.toNat 1

/-- Room for the largest batch of every kind can be had. -/
structure SeedConfig.Fits (config : SeedConfig) : Prop where
  users : config.readsOnly = false →
    min (max config.userBatchSize.toNat 1) config.users.toNat * User.width ≤ Batches.maxRoom
  articles : config.readsOnly = false →
    min (max config.articleBatchSize.toNat 1) config.articles.toNat * Article.width ≤ Batches.maxRoom
  reads : min (max config.readBatchSize.toNat 1) config.reads.toNat * Read.width ≤ Batches.maxRoom

namespace Seeding

/-- The same run with batches of other sizes, with random numbers from elsewhere if it has no seed, and with
other patience. -/
def rebatched (s : Seeding) (sizes : BatchSizes) (entropy : Random.Entropy) (budget : Nat) : Seeding :=
  { s with
    config := { s.config with
      userBatchSize := sizes.users, articleBatchSize := sizes.articles, readBatchSize := sizes.reads }
    entropy, budget }

section Sized

variable {σ ρ : Type} {source : Source σ ρ} {budget : Nat} {b : Batches σ} {server next : Server}
  {s : Seeding} {session : Session} {index : ReferentialIndex} {report : SeedReport}

theorem sized_of_loadTable {ref : TableRef} {clear : Bool} {policy : RetryPolicy}
    {insert : Session → List ρ → Run Nat} {loaded : Loaded σ} (fresh : b.accepted = 0)
    (h : Run.withSession (fun session =>
      loadTable session ref clear policy source insert budget b) server = (.ok loaded, next)) :
    loaded.batches = b.remaining ⌈/⌉ max b.size 1 ∧ b.Fits := by
  obtain ⟨opened, closed, -, -, h⟩ := Run.withSession_eq_ok h
  obtain ⟨cleared, filled, -, -, hmade, hbatches, -⟩ := loadTable_parts fresh h
  exact ⟨hbatches.trans (Batches.length_all hmade), Batches.fits_of_all hmade⟩

theorem sized_of_loadPopulation (h : s.loadPopulation server = (.ok (report, index), next)) :
    (report.userBatches = s.config.users.toNat ⌈/⌉ max s.config.userBatchSize.toNat 1 ∧
      s.userBatches.Fits) ∧
    report.articleBatches = s.config.articles.toNat ⌈/⌉ max s.config.articleBatchSize.toNat 1 ∧
      (s.articleBatches index).Fits := by
  obtain ⟨dists, users, articles, mid, -, husers, harticles, rfl, rfl⟩ := loadPopulation_parts h
  exact ⟨sized_of_loadTable rfl husers, sized_of_loadTable rfl harticles⟩

theorem sized_of_loadReads {outcome : ReadOutcome}
    (h : s.loadReads session index server = (.ok outcome, next)) :
    outcome.batches = s.config.reads.toNat ⌈/⌉ max s.config.readBatchSize.toNat 1 ∧
      s.readBatches.Fits := by
  obtain ⟨source, tally, -, -, hmade, hbatches, -⟩ := loadReads_parts h
  exact ⟨hbatches.trans (Batches.length_all hmade), Batches.fits_of_all hmade⟩

theorem sized_of_run (wet : s.config.dryRun = false) (h : s.run server = (.ok report, next)) :
    report.Batched s.config ∧ s.config.Fits := by
  rw [run_eq_withSession, wet, if_neg Bool.false_ne_true] at h
  obtain ⟨opened, closed, -, -, h⟩ := Run.withSession_eq_ok h
  obtain ⟨truncated, cleared, counted, index, populated, outcome, loaded, -, hpopulated, hreads, -, rfl⟩ :=
    runPhases_parts h
  obtain ⟨hcount, hfits⟩ := sized_of_loadReads hreads
  cases hfull : s.config.readsOnly with
  | true =>
    rw [indexPhase, if_pos hfull] at hpopulated
    obtain ⟨loadedIndex, mid, -, hpopulated⟩ := bind_apply_eq_ok.1 hpopulated
    obtain ⟨hcounted, -⟩ := pure_apply_eq_ok.1 hpopulated
    obtain ⟨rfl, -⟩ := Prod.mk.inj hcounted
    refine ⟨⟨?_, ?_, hcount⟩, ⟨fun hnot => ?_, fun hnot => ?_, hfits⟩⟩
    · rw [hfull, if_pos rfl]
    · rw [hfull, if_pos rfl]
    · cases hfull.symm.trans hnot
    · cases hfull.symm.trans hnot
  | false =>
    rw [indexPhase, hfull, if_neg Bool.false_ne_true] at hpopulated
    obtain ⟨⟨husers, hfits_users⟩, harticles, hfits_articles⟩ := sized_of_loadPopulation hpopulated
    refine ⟨⟨?_, ?_, hcount⟩, ⟨fun _ => hfits_users, fun _ => hfits_articles, hfits⟩⟩
    · rw [hfull, if_neg Bool.false_ne_true]
      exact husers
    · rw [hfull, if_neg Bool.false_ne_true]
      exact harticles

end Sized

section Agree

variable {session session' : Session}

theorem agree_optimize (rawText : Bool) :
    Agree session session' (liftM (optimize session rawText) : Run Unit)
      (liftM (optimize session' rawText) : Run Unit) := fun server other paired =>
  ⟨rfl, (respects_optimize session rawText).keepsCalm server paired.left,
    (respects_optimize session' rawText).keepsCalm other paired.right,
    paired.alike.of_tables (optimize_tables session rawText server) (optimize_tables session' rawText other)⟩

theorem agree_restore :
    Agree session session' (liftM (restore session) : Run Unit) (liftM (restore session') : Run Unit) :=
  fun server other paired => ⟨rfl, (respects_restore session).keepsCalm server paired.left,
    (respects_restore session').keepsCalm other paired.right,
    paired.alike.of_tables (restore_tables session server) (restore_tables session' other)⟩

theorem agree_retrying {α : Type} {action action' : Action α} (h : Agree session session' action action')
    (more : Nat) : Agree session session' (retrying action more) (retrying action' more) := by
  induction more with
  | zero => exact h
  | succ more ih =>
    refine h.tryCatch fun e => ?_
    split
    · exact ih
    · exact agree_throw e

theorem agree_deleteChunks (ref : TableRef) (policy : RetryPolicy) (most : Nat) :
    Agree session session' (deleteChunks session ref policy most) (deleteChunks session' ref policy most) := by
  induction most with
  | zero => exact agree_pure 0
  | succ most ih =>
    have hchunk : Agree session session' (deleteChunk session ref) (deleteChunk session' ref) :=
      (agree_delete _).bind fun count => agree_commit.bind fun _ => agree_pure count
    refine (agree_retrying hchunk _).bind fun count => ?_
    split
    · exact agree_pure 0
    · exact ih.bind fun rest => agree_pure _

theorem agree_clearing (clear : Bool) (ref : TableRef) (policy : RetryPolicy) :
    Agree session session' (clearing clear session ref policy) (clearing clear session' ref policy) := by
  cases clear with
  | false => exact agree_pure 0
  | true =>
    intro server other paired
    have hcount : server.rowCount ref = other.rowCount ref := by
      rw [Server.rowCount, Server.rowCount, paired.alike.table? ref]
    simp only [clearing, if_true, truncate, bind_apply, get_apply, hcount]
    exact (agree_deleteChunks ref policy _).ofAction server other paired

theorem agree_load :
    Agree session session' (ReferentialIndex.load session) (ReferentialIndex.load session') := by
  refine (agree_select _).ofAction.bind fun users => (agree_ofExcept _).bind fun index => ?_
  exact (agree_select _).ofAction.bind fun articles => agree_ofExcept _

end Agree

section Follows

variable {σ ρ : Type} {session session' : Session} {source : Source σ ρ} {budget size : Nat} {b : Batches σ}

theorem follows_insertMade {ref : TableRef} {columns : List String} {onConflict : OnConflict}
    {toRow : ρ → Tuple} {insert : Session → List ρ → Run Nat}
    (inserts : ∀ session, Inserts session ref columns onConflict toRow (flush insert session))
    (fits : (b.resized size).Fits) :
    Follows session session' (fun done done' => done'.1 = done.1 ∧ done'.2.2 = done.2.2.resized size)
      (insertMade session insert source budget b)
      fun enough => insertMade session' insert source enough (b.resized size) := by
  intro server other next done paired hdone
  obtain ⟨counts, mid, hmapM, hdone⟩ := bind_apply_eq_ok.1 hdone
  obtain ⟨⟨batches, last⟩, mid', hlift, hdone⟩ := bind_apply_eq_ok.1 hdone
  obtain ⟨rfl, rfl⟩ := pure_apply_eq_ok.1 hdone
  rw [lift_apply] at hlift
  obtain ⟨hmade, rfl⟩ := Prod.mk.inj hlift
  obtain ⟨hlast, rfl⟩ := Batches.made_eq_ok hmade
  have hall : ∀ enough, last.candidates ≤ enough → (b.resized size).all source enough =
      (chunks size (b.all source budget).1.flatten, .ok (last.resized size)) :=
    fun enough => Batches.all_resized hlast fits
  have hfull : ∀ batch ∈ chunks size (b.all source budget).1.flatten, batch ≠ [] := by
    have hmem : ∀ batch ∈ ((b.resized size).all source last.candidates).1, batch ≠ [] :=
      Batches.ne_nil_of_mem_all
    rwa [hall _ le_rfl] at hmem
  obtain ⟨enough, counts', last', hinsert, hsum, hpaired⟩ :=
    (inserts session).follows (inserts session') (flatten_chunks size _) Batches.ne_nil_of_mem_all hfull
      paired hmapM
  refine ⟨last.candidates, (counts'.sum, (chunks size (b.all source budget).1.flatten).length,
    last.resized size), last', fun n hn => ?_, ⟨hsum, rfl⟩, hpaired⟩
  dsimp only
  rw [insertMade, Batches.made, hall n hn]
  exact bind_apply_eq_ok.2 ⟨counts', last', hinsert enough le_rfl, rfl⟩

theorem follows_loadTable {ref : TableRef} {columns : List String} {onConflict : OnConflict}
    {toRow : ρ → Tuple} {insert : Session → List ρ → Run Nat}
    (inserts : ∀ session, Inserts session ref columns onConflict toRow (flush insert session))
    (fresh : b.accepted = 0) (fits : (b.resized size).Fits) (clear : Bool) (policy : RetryPolicy) :
    Follows session session' (fun loaded loaded' : Loaded σ =>
        loaded'.truncated = loaded.truncated ∧ loaded'.source = loaded.source.resized size)
      (loadTable session ref clear policy source insert budget b)
      fun enough => loadTable session' ref clear policy source insert enough (b.resized size) := by
  have hfresh : (b.resized size).accepted = 0 := fresh
  simp only [loadTable_eq_insertMade fresh, loadTable_eq_insertMade hfresh]
  refine (agree_clearing clear ref policy).follows.bind fun truncated _ hsame => ?_
  obtain rfl := hsame
  refine (agree_optimize false).follows.bind fun _ _ _ => ?_
  refine (follows_insertMade inserts fits).bind fun done done' hdone => ?_
  exact agree_restore.follows.bind fun _ _ _ => follows_pure ⟨rfl, hdone.2⟩

end Follows

section Run

variable {s : Seeding} {session session' : Session} {seed : UInt64} {index : ReferentialIndex}
  {sizes : BatchSizes} {entropy : Random.Entropy}

theorem userBatches_rebatched (seeded : s.config.rngSeed = some seed) (budget : Nat) :
    (s.rebatched sizes entropy budget).userBatches = s.userBatches.resized sizes.users.toNat := by
  rw [userBatches, userBatches, stream_seeded (s.rebatched sizes entropy budget) seeded rfl]
  rfl

theorem articleBatches_rebatched (seeded : s.config.rngSeed = some seed) (budget : Nat) :
    (s.rebatched sizes entropy budget).articleBatches index =
      (s.articleBatches index).resized sizes.articles.toNat := by
  rw [articleBatches, articleBatches, stream_seeded (s.rebatched sizes entropy budget) seeded rfl]
  rfl

theorem readBatches_rebatched (seeded : s.config.rngSeed = some seed) (budget : Nat) :
    (s.rebatched sizes entropy budget).readBatches = s.readBatches.resized sizes.reads.toNat := by
  rw [readBatches, readBatches, stream_seeded (s.rebatched sizes entropy budget) seeded rfl]
  rfl

theorem follows_userPhase (seeded : s.config.rngSeed = some seed) {dists : Distributions}
    (fits : (s.userBatches.resized sizes.users.toNat).Fits) :
    Follows session session' (fun users users' => users'.truncated = users.truncated ∧
        users'.source = users.source.resized sizes.users.toNat)
      (s.userPhase dists) fun budget => (s.rebatched sizes entropy budget).userPhase dists := by
  simp only [userPhase, userBatches_rebatched seeded]
  exact Follows.withSession (fun _ _ => follows_loadTable (fun _ => inserts_users) rfl fits _ _)
    (fun _ => respects_loadTable (respects_insertUsers _) _ _ _ _ _)
    fun _ _ => respects_loadTable (respects_insertUsers _) _ _ _ _ _

theorem follows_articlePhase (seeded : s.config.rngSeed = some seed) {dists : Distributions}
    (fits : ((s.articleBatches index).resized sizes.articles.toNat).Fits) :
    Follows session session' (fun articles articles' => articles'.truncated = articles.truncated ∧
        articles'.source = articles.source.resized sizes.articles.toNat)
      (s.articlePhase dists index)
      fun budget => (s.rebatched sizes entropy budget).articlePhase dists index := by
  simp only [articlePhase, articleBatches_rebatched seeded]
  exact Follows.withSession (fun _ _ => follows_loadTable (fun _ => inserts_articles) rfl fits _ _)
    (fun _ => respects_loadTable (respects_insertArticles _) _ _ _ _ _)
    fun _ _ => respects_loadTable (respects_insertArticles _) _ _ _ _ _

theorem follows_loadPopulation (seeded : s.config.rngSeed = some seed)
    (fits : (s.rebatched sizes entropy 0).config.Fits) (full : s.config.readsOnly = false) :
    Follows session session' (fun counted counted' => counted'.2 = counted.2 ∧
        counted'.1.unbatched = counted.1.unbatched)
      s.loadPopulation fun budget => (s.rebatched sizes entropy budget).loadPopulation := by
  have husers : (s.userBatches.resized sizes.users.toNat).Fits := fits.users full
  have harticles : ∀ index, ((s.articleBatches index).resized sizes.articles.toNat).Fits :=
    fun _ => fits.articles full
  simp only [loadPopulation]
  refine (agree_lift _).follows.bind fun dists _ hsame => ?_
  obtain rfl := hsame
  refine (follows_userPhase seeded husers).bind fun users users' hloaded => ?_
  obtain ⟨htruncated, hsource⟩ := hloaded
  rw [hsource]
  refine (follows_articlePhase seeded (harticles _)).bind fun articles articles' hloaded => ?_
  obtain ⟨htruncated', hsource'⟩ := hloaded
  refine follows_pure ⟨?_, ?_⟩
  · rw [hsource']
    rfl
  · dsimp only
    rw [populationReport, populationReport, htruncated, htruncated', hsource, hsource']
    rfl

theorem follows_loadInline (seeded : s.config.rngSeed = some seed)
    (fits : (s.rebatched sizes entropy 0).config.Fits) (source : ReadSource) :
    Follows session session' (fun outcome outcome' => outcome'.affected = outcome.affected ∧
        outcome'.source = outcome.source.resized sizes.reads.toNat)
      (s.loadInline session source)
      fun budget => (s.rebatched sizes entropy budget).loadInline session' source := by
  have hreads : (s.readBatches.resized sizes.reads.toNat).Fits := fits.reads
  simp only [loadInline_eq_insertMade, readBatches_rebatched seeded]
  exact (follows_insertMade (fun _ => inserts_reads) hreads).bind fun _ _ hdone => follows_pure hdone

theorem follows_loadReads (seeded : s.config.rngSeed = some seed)
    (fits : (s.rebatched sizes entropy 0).config.Fits) (index : ReferentialIndex) :
    Follows session session' (fun outcome outcome' => outcome'.affected = outcome.affected ∧
        outcome'.source = outcome.source.resized sizes.reads.toNat)
      (s.loadReads session index)
      fun budget => (s.rebatched sizes entropy budget).loadReads session' index := by
  refine (agree_lift (s.readSource index)).follows.bind fun source _ hsame => ?_
  obtain rfl := hsame
  have hinline : Follows session session' _ (s.loadInline session source) fun budget =>
      (s.rebatched sizes entropy budget).loadInline session' source := follows_loadInline seeded fits source
  by_cases hdepth : s.config.readQueueDepth = 0
  · have hdepth' : ∀ budget, (s.rebatched sizes entropy budget).config.readQueueDepth = 0 := fun _ => hdepth
    simp only [if_pos hdepth, if_pos (hdepth' _)]
    exact hinline
  · have hdepth' : ∀ budget, (s.rebatched sizes entropy budget).config.readQueueDepth ≠ 0 :=
      fun _ => hdepth
    simp only [if_neg hdepth, if_neg (hdepth' _)]
    intro server other next outcome paired hloaded
    rw [loadQueued] at hloaded
    split at hloaded
    · cases (Prod.mk.inj hloaded).1
    rename_i hshallow
    rcases hdone : s.loadInline session source server with ⟨halt | done, last⟩
    · rw [hdone] at hloaded
      cases halt <;> cases (Prod.mk.inj hloaded).1
    rw [hdone] at hloaded
    obtain ⟨hresult, rfl⟩ := Prod.mk.inj hloaded
    obtain rfl := Except.ok.inj hresult
    obtain ⟨enough, outcome', last', hfollows, hrelated, hpaired⟩ := hinline paired hdone
    refine ⟨enough, outcome', last', fun budget hbudget => ?_, hrelated, hpaired⟩
    have hlast := hfollows budget hbudget
    dsimp only at hlast ⊢
    have hshallow' : ¬maxQueueDepth < (s.rebatched sizes entropy budget).config.readQueueDepth.toNat :=
      hshallow
    rw [loadQueued, if_neg hshallow', hlast]

theorem follows_runPhases (seeded : s.config.rngSeed = some seed)
    (fits : (s.rebatched sizes entropy 0).config.Fits) :
    Follows session session' (fun report report' => report'.unbatched = report.unbatched)
      (s.runPhases session) fun budget => (s.rebatched sizes entropy budget).runPhases session' := by
  simp only [runPhases]
  refine (agree_optimize true).follows.bind fun _ _ _ => ?_
  refine (agree_clearing s.config.truncate Keyspace.read.table s.retry).follows.bind
    fun truncated _ hsame => ?_
  obtain rfl := hsame
  have hindex : Follows session session' (fun counted counted' => counted'.2 = counted.2 ∧
        counted'.1.unbatched = counted.1.unbatched)
      (s.indexPhase session) fun budget => (s.rebatched sizes entropy budget).indexPhase session' := by
    have hstored : ∀ budget, (s.rebatched sizes entropy budget).config.readsOnly = s.config.readsOnly :=
      fun _ => rfl
    simp only [indexPhase, hstored]
    cases hfull : s.config.readsOnly with
    | true =>
      refine agree_load.follows.bind fun index _ hsame => ?_
      exact follows_pure ⟨hsame.symm, rfl⟩
    | false => exact follows_loadPopulation seeded fits hfull
  refine hindex.bind fun counted counted' hcounted => ?_
  obtain ⟨hsame, hreports⟩ := hcounted
  rw [hsame]
  refine (follows_loadReads seeded fits counted.2).bind fun outcome outcome' houtcome => ?_
  refine agree_restore.follows.bind fun _ _ _ => follows_pure ?_
  have husers := congrArg SeedReport.users hreports
  have harticles := congrArg SeedReport.articles hreports
  have htruncated := congrArg SeedReport.truncated hreports
  dsimp only [SeedReport.unbatched] at husers harticles htruncated
  simp only [SeedReport.unbatched, husers, harticles, htruncated, houtcome.1, houtcome.2]
  rfl

variable {server next : Server} {report : SeedReport}

/-- What a run does with one budget, a run with other batches does with any budget that is large enough. -/
theorem exists_rebatched (sizes : BatchSizes) (entropy : Random.Entropy) (quiet : server.failures = [])
    (seeded : s.config.rngSeed = some seed) (wet : s.config.dryRun = false) (h : s.run server = (.ok report, next))
    (fits : (s.rebatched sizes entropy 0).config.Fits) : ∃ enough report' last,
      (∀ budget, enough ≤ budget → (s.rebatched sizes entropy budget).run server = (.ok report', last)) ∧
        report'.unbatched = report.unbatched ∧ Alike next last := by
  have hrun : s.run = Run.withSession s.runPhases := by rw [run_eq_withSession, wet, if_neg Bool.false_ne_true]
  have hrun' : ∀ budget, (s.rebatched sizes entropy budget).run =
      Run.withSession (s.rebatched sizes entropy budget).runPhases :=
    fun _ => (run_eq_withSession _).trans (if_neg (by simp [rebatched, wet]))
  rw [hrun] at h
  simp only [hrun']
  have hphases : ∀ inner inner', Follows inner inner' _ (s.runPhases inner) fun budget =>
      (s.rebatched sizes entropy budget).runPhases inner' := fun _ _ => follows_runPhases seeded fits
  exact Follows.inSession hphases quiet quiet (fun _ => rfl) h

/-- With batches of one size a run succeeds, with enough patience, exactly if it does with batches of another,
as long as there is room for the batches. Both leave the same tables and report the same but for the numbers of
batches, and these are what the two configurations say. -/
theorem run_rebatched (quiet : server.failures = []) (seeded : s.config.rngSeed = some seed)
    (wet : s.config.dryRun = false) (sizes sizes' : BatchSizes) (entropy entropy' : Random.Entropy) :
    ((s.rebatched sizes entropy 0).config.Fits → (s.rebatched sizes' entropy' 0).config.Fits →
      ((∃ budget report next, (s.rebatched sizes entropy budget).run server = (.ok report, next)) ↔
        ∃ budget report next, (s.rebatched sizes' entropy' budget).run server = (.ok report, next))) ∧
    ∀ budget report next budget' report' next',
      (s.rebatched sizes entropy budget).run server = (.ok report, next) →
      (s.rebatched sizes' entropy' budget').run server = (.ok report', next') →
        Alike next next' ∧ report'.unbatched = report.unbatched ∧
          report.Batched (s.rebatched sizes entropy budget).config ∧
          report'.Batched (s.rebatched sizes' entropy' budget').config := by
  refine ⟨fun fits fits' => ⟨?_, ?_⟩, ?_⟩
  · rintro ⟨budget, report, next, h⟩
    obtain ⟨enough, report', next', hdone, -⟩ :=
      exists_rebatched (s := s.rebatched sizes entropy budget) sizes' entropy' quiet seeded wet h fits'
    exact ⟨enough, report', next', hdone enough le_rfl⟩
  · rintro ⟨budget, report, next, h⟩
    obtain ⟨enough, report', next', hdone, -⟩ :=
      exists_rebatched (s := s.rebatched sizes' entropy' budget) sizes entropy quiet seeded wet h fits
    exact ⟨enough, report', next', hdone enough le_rfl⟩
  · intro budget report next budget' report' next' h h'
    have hbatched := (sized_of_run (s := s.rebatched sizes entropy budget) wet h).1
    obtain ⟨hbatched', fits'⟩ := sized_of_run (s := s.rebatched sizes' entropy' budget') wet h'
    -- From some budget on both runs with the second sizes are the same run.
    obtain ⟨enough, report₁, last₁, hdone, hsame, halike⟩ :=
      exists_rebatched (s := s.rebatched sizes entropy budget) sizes' entropy' quiet seeded wet h fits'
    obtain ⟨enough', report₂, last₂, hdone', hsame', halike'⟩ :=
      exists_rebatched (s := s.rebatched sizes' entropy' budget') sizes' entropy' quiet seeded wet h' fits'
    have hboth := (hdone (max enough enough') (le_max_left _ _)).symm.trans
      (hdone' (max enough enough') (le_max_right _ _))
    obtain ⟨hreports, rfl⟩ := Prod.mk.inj hboth
    obtain rfl := Except.ok.inj hreports
    exact ⟨fun key => (halike key).trans (halike' key).symm, hsame'.symm.trans hsame, hbatched, hbatched'⟩

theorem run_rebatched_samePair : ∃ report next budget report' next',
    (samePair.rebatched ⟨1, 1, 1⟩ 0 10).run vacant = (.ok report, next) ∧
      (samePair.rebatched ⟨0, 5, 2⟩ 1 budget).run vacant = (.ok report', next') ∧ Alike next next' ∧
        report'.unbatched = report.unbatched ∧ report.readBatches = 2 ∧ report'.readBatches = 1 := by
  have hdone : ((samePair.rebatched ⟨1, 1, 1⟩ 0 10).run vacant).1.toOption.isSome := by
    -- The text of a statement takes long to read in the kernel.
    unfold run perform loadReads loadQueued loadInline
    rw [insertReads_eq]
    decide +kernel
  rcases hrun : (samePair.rebatched ⟨1, 1, 1⟩ 0 10).run vacant with ⟨halt | report, next⟩
  · rw [hrun] at hdone
    cases hdone
  · have quiet : vacant.failures = [] := rfl
    obtain ⟨hiff, hsame⟩ := run_rebatched (s := samePair) quiet rfl rfl ⟨1, 1, 1⟩ ⟨0, 5, 2⟩ 0 1
    obtain ⟨budget, report', next', hrun'⟩ :=
      (hiff ⟨by decide, by decide, by decide⟩ ⟨by decide, by decide, by decide⟩).1 ⟨10, report, next, hrun⟩
    obtain ⟨halike, hreport, hbatched, hbatched'⟩ := hsame _ _ _ _ _ _ hrun hrun'
    have hcount : report'.readBatches = 2 ⌈/⌉ max 2 1 := hbatched'.reads
    exact ⟨report, next, budget, report', next', rfl, hrun', halike, hreport, hbatched.reads,
      hcount.trans (by decide)⟩

/-- Articles cannot be made in a batch that there is no room for. -/
theorem populated_overfull (nobody : s.config.users = 0)
    (overfull : ¬min (max s.config.articleBatchSize.toNat 1) s.config.articles.toNat * Article.width ≤
      Batches.maxRoom) : s.populated = .error .outOfRange := by
  obtain ⟨dists, hdists⟩ : ∃ dists, Distributions.standard = .ok dists := exists_eq_ok (by decide +kernel)
  have hnone : s.userBatches.remaining = 0 := congrArg UInt64.toNat nobody
  have hnext : s.userBatches.nextSize = min (max s.userBatches.size 1) s.userBatches.remaining := rfl
  have hroom : s.userBatches.Fits := by
    rw [Batches.Fits, hnext, hnone, Nat.min_zero, Nat.zero_mul]
    exact Nat.zero_le _
  have husers : s.userBatches.made (s.userSource dists).offer s.budget = .ok (_, s.userBatches) :=
    Batches.made_of_drawn (.nil _) hnone.symm hroom (Nat.le_add_right _ _)
  have hmade : (s.articleBatches s.userBatches.state.index).made (s.articleSource dists).offer s.budget =
      .error .outOfRange := Batches.made_of_overfull overfull
  simp only [populated, hdists, husers, hmade, ok_bind]
  rfl

end Run

end Seeding
end ReadingBench
