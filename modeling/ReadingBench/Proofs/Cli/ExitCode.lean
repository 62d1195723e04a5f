import ReadingBench.Cli.Program
import ReadingBench.Proofs.Ranking.Stocked
import ReadingBench.Proofs.Seeding.Strays

namespace ReadingBench.Cli

open Store Server ReadingBench.Outcome

/-- The configuration that a command starts from. -/
def base? (world : World) (o : Options) : Option Config :=
  match o.config with
  | none => some {}
  | some path => loadConfig? world path

/-- No run can work with the configuration, or reads are to be made of stored users and articles, and there
are none. -/
def Refuses (command : Command) (c : Config) : Prop :=
  c.validate ≠ .ok () ∨
    command.seeds ∧ c.seed.readsOnly ∧ (c.seed.dryRun ∨ 0 < c.seed.reads)

/-- Enough candidates are accepted in time, no date leaves the calendar, and the queue is one that there can
be. -/
structure Feasible (world : World) (command : Command) (c : Config) : Prop where
  ends : command.seeds → c.seed.readsOnly = false →
    (c.seeding world.entropy world.budget).dryRun ≠ .error .unfinished
  inside : command.seeds → c.seed.readsOnly = false → ¬(c.seeding world.entropy world.budget).Strays
  bucketed : command.seeds → command.ranks → c.seed.readsOnly = false → c.seed.dryRun = false →
    ∀ g, (c.seeding world.entropy world.budget).generated = .ok g →
      ∀ article ∈ g.articles, article.timestamp.date.Bucketed
  shallow : c.seed.readQueueDepth.toNat ≤ Seeding.maxQueueDepth

section Phase

variable {α : Type} {name : String} {run : Run α} {summary : Summary} {server next : Server} {a : α}

theorem phase_of_ok (figures : α → Summary) (h : run server = (.ok a, next)) :
    phase true name (figures <$> run) summary server = (.ok (summary ++ figures a), next) := by
  rw [phase, if_pos rfl, ← bind_pure_comp, bind_apply, h]
  rfl

theorem code_halted (name : String) (e : RunError) : (Outcome.halted name (.failed e)).code = 1 := by
  cases e <;> rfl

theorem phase_of_error {halt : Halt} (name : String) (summary : Summary) (figures : α → Summary)
    (h : (run server).1 = .error halt) :
    ∃ next, phase true name (figures <$> run) summary server = (.error (.halted name halt), next) := by
  obtain ⟨next, hrun⟩ : ∃ next, run server = (.error halt, next) := ⟨_, Prod.ext h rfl⟩
  refine ⟨next, ?_⟩
  rw [phase, if_pos rfl, ← bind_pure_comp, bind_apply, hrun]

end Phase

section Command

variable {world : World} {command : Command} {c : Config}

theorem phases_eq (world : World) (command : Command) (c : Config) : phases world command c = (do
    let summary ← phase command.seeds "seeding failed"
      (Summary.ofSeed <$> (c.seeding world.entropy world.budget).run) []
    let summary ← phase (command.rollsUp && !c.seed.dryRun) "BeRead aggregation failed"
      (Summary.ofRollup <$> Rollup.run c.rollup) summary
    phase (command.ranks && !c.seed.dryRun) "PopularRank rebuild failed"
      (Summary.ofRanking <$> Ranking.run c.rank world.today) summary) := rfl

/-- Only a command that does not seed ranks without rolling up. -/
theorem seeds_of_ranks (ranks : command.ranks = true) (alone : command.rollsUp = false) :
    command.seeds = false := by
  cases command with
  | seed => exact absurd ranks (by decide)
  | rollup | rank => rfl
  | all => exact absurd alone (by decide)

/-- A command that seeds ends with its first phase, where that fails. -/
theorem phases_of_error {halt : Halt} (seeds : command.seeds = true)
    (h : ((c.seeding world.entropy world.budget).run (fresh world.clock)).1 = .error halt) :
    (phases world command c (fresh world.clock)).1 = .error (.halted "seeding failed" halt) := by
  obtain ⟨next, hphase⟩ := phase_of_error "seeding failed" [] Summary.ofSeed h
  rw [phases_eq, seeds, bind_apply, hphase]

/-- Where a command is refused for its reads, seeding fails. -/
theorem run_of_refused (world : World) (stored : c.seed.readsOnly = true) (asked : c.seed.dryRun = true ∨ 0 < c.seed.reads) :
    ∃ e, ((c.seeding world.entropy world.budget).run (fresh world.clock)).1 = .error (.failed e) := by
  cases hdry : c.seed.dryRun with
  | true =>
    refine ⟨.config .dryReadsOnly, ?_⟩
    have hwanted : (c.seeding world.entropy world.budget).config.dryRun = true := hdry
    have hstored : (c.seeding world.entropy world.budget).config.readsOnly = true := stored
    rw [Seeding.run, if_pos hwanted, lift_apply, Seeding.dryRun, if_pos hstored]
    rfl
  | false =>
    rw [hdry] at asked
    exact Seeding.run_of_nobody _ hdry stored (asked.resolve_left Bool.false_ne_true)

variable (valid : c.validate = .ok ())

include valid

/-- A dry run that is feasible and for whose batches there is room ends well. -/
theorem exists_dryRun (full : c.seed.readsOnly = false) (seeds : command.seeds = true)
    (feasible : Feasible world command c) (fits : c.seed.Fits) :
    ∃ report, (c.seeding world.entropy world.budget).dryRun = .ok report := by
  rcases hdry : (c.seeding world.entropy world.budget).dryRun with halt | report
  · cases halt with
    | failed e => exact absurd hdry (Config.dryRun_ne_failed valid full _ _ e)
    | outOfRange => exact absurd (Seeding.strays_of_dryRun full fits hdry) (feasible.inside seeds full)
    | unfinished => exact absurd hdry (feasible.ends seeds full)
  · exact ⟨report, rfl⟩

/-- What a phase of seeding leaves for the later phases of its command. -/
def Leaves (command : Command) (c : Config) (next : Server) : Prop :=
  c.seed.dryRun = false → ∃ g : Generated, g.Stocked next ∧ (command.seeds = false → g = .empty) ∧
    (command.ranks → ∀ article ∈ g.articles, article.timestamp.date.Bucketed)

variable (granted : ¬Refuses command c) (feasible : Feasible world command c)

include granted feasible

/-- Seeding ends well, and the later phases can work with what is stored then. -/
theorem exists_seeded (seeds : command.seeds = true) (fits : c.seed.Fits) : ∃ report next,
    (c.seeding world.entropy world.budget).run (fresh world.clock) = (.ok report, next) ∧
      Leaves command c next := by
  have nobody : ∀ article ∈ Generated.empty.articles, article.timestamp.date.Bucketed :=
    fun _ h => by cases h
  cases stored : c.seed.readsOnly with
  | true =>
    obtain ⟨wet, idle⟩ : c.seed.dryRun = false ∧ ¬0 < c.seed.reads := by
      simpa [Refuses, valid, seeds, stored] using granted
    have hnone : c.seed.reads = 0 := by
      rw [UInt64.lt_iff_toNat_lt] at idle
      exact UInt64.toNat_inj.1 (Nat.eq_zero_of_not_pos idle)
    obtain ⟨report, next, hrun, hstocked⟩ := Seeding.run_of_nothing world.clock
      (s := c.seeding world.entropy world.budget) wet stored hnone feasible.shallow
    exact ⟨report, next, hrun, fun _ => ⟨.empty, hstocked, fun _ => rfl, fun _ => nobody⟩⟩
  | false =>
    obtain ⟨report, hdry⟩ := exists_dryRun valid stored seeds feasible fits
    cases wet : c.seed.dryRun with
    | true =>
      have hwanted : (c.seeding world.entropy world.budget).config.dryRun = true := wet
      refine ⟨report, fresh world.clock, ?_, fun h => by cases wet.symm.trans h⟩
      rw [Seeding.run, if_pos hwanted, lift_apply, hdry]
    | false =>
      obtain ⟨report, next, hrun⟩ := Seeding.exists_run_of_dryRun (s := c.seeding world.entropy world.budget)
        (Seeding.ready_fresh world.clock) rfl stored wet feasible.shallow hdry
      obtain ⟨g, hg, hstocked⟩ := Seeding.stocked_of_run wet stored hrun
      refine ⟨report, next, hrun, fun _ => ⟨g, hstocked, fun h => ?_, fun ranks => ?_⟩⟩
      · cases seeds.symm.trans h
      · exact feasible.bucketed seeds ranks stored wet g hg

omit valid granted feasible in
/-- After seeding, the rollup ends well, and then the ranking. -/
theorem exists_later (world : World) {server : Server} (leaves : Leaves command c server) (summary : Summary) :
    ∃ summary' next, (do
      let summary ← phase (command.rollsUp && !c.seed.dryRun) "BeRead aggregation failed"
        (Summary.ofRollup <$> Rollup.run c.rollup) summary
      phase (command.ranks && !c.seed.dryRun) "PopularRank rebuild failed"
        (Summary.ofRanking <$> Ranking.run c.rank world.today) summary) server = (.ok summary', next) := by
  cases wet : c.seed.dryRun with
  | true =>
    rw [Bool.not_true, Bool.and_false, Bool.and_false]
    exact ⟨summary, server, rfl⟩
  | false =>
    obtain ⟨g, stocked, unseeded, bucketed⟩ := leaves wet
    rw [Bool.not_false, Bool.and_true, Bool.and_true, bind_apply]
    obtain ⟨counts, counted, hrollup, countable⟩ : ∃ counts counted,
        phase command.rollsUp "BeRead aggregation failed" (Summary.ofRollup <$> Rollup.run c.rollup) summary
          server = (.ok counts, counted) ∧ (command.ranks → Ranking.Countable g counted) := by
      cases rolls : command.rollsUp with
      | true =>
        obtain ⟨report, next, hrun, countable⟩ := Ranking.rollup_of_stocked stocked c.rollup
        exact ⟨_, next, phase_of_ok _ hrun, fun _ => countable⟩
      | false =>
        refine ⟨summary, server, rfl, fun ranks => ?_⟩
        obtain rfl := unseeded (seeds_of_ranks ranks rolls)
        exact Ranking.countable_of_empty stocked
    rw [hrollup]
    cases ranks : command.ranks with
    | true =>
      obtain ⟨n, next, hrun⟩ := Ranking.run_of_countable (countable ranks) c.rank world.today (bucketed ranks)
      exact ⟨_, next, phase_of_ok _ hrun⟩
    | false => exact ⟨counts, counted, rfl⟩

theorem phases_of_granted (fits : command.seeds → c.seed.Fits) :
    ∃ summary, (phases world command c (fresh world.clock)).1 = .ok summary := by
  obtain ⟨summary, next, hseeded, leaves⟩ : ∃ summary next, phase command.seeds "seeding failed"
      (Summary.ofSeed <$> (c.seeding world.entropy world.budget).run) [] (fresh world.clock) =
        (.ok summary, next) ∧ Leaves command c next := by
    cases seeds : command.seeds with
    | true =>
      obtain ⟨report, next, hrun, leaves⟩ := exists_seeded valid granted feasible seeds (fits seeds)
      exact ⟨_, next, phase_of_ok _ hrun, leaves⟩
    | false =>
      exact ⟨[], fresh world.clock, rfl, fun _ => ⟨.empty, Seeding.stocked_fresh _, fun _ => rfl,
        fun _ _ h => by cases h⟩⟩
  obtain ⟨summary', last, hlater⟩ := exists_later world leaves summary
  refine ⟨summary', ?_⟩
  rw [phases_eq, bind_apply, hseeded]
  exact congrArg Prod.fst hlater

end Command

section Program

variable {world : World} {words : List String} {command : Command} {o : Options} {base : Config}

/-- A command on a store of its own ends as its phases do, if the configuration is valid. -/
theorem execute_eq (embedded : o.embedded = true) (loaded : base? world o = some base) :
    execute world command o =
      match (o.apply base).validate with
      | .error e => .failed e.message
      | .ok () =>
        match (phases world command (o.apply base) (fresh world.clock)).1 with
        | .error outcome => outcome
        | .ok summary =>
          { code := 0
            output := match o.format with
              | .json => summary.json
              | .table => summary.table } := by
  unfold base? at loaded
  unfold execute
  cases hpath : o.config with
  | none =>
    rw [hpath] at loaded
    obtain rfl := Option.some.inj loaded
    rewrite [embedded]
    rfl
  | some path =>
    rw [hpath] at loaded
    have hload : loadConfig? world path = some base := loaded
    dsimp only
    rewrite [hload, embedded]
    rfl

/-- A command on a store of its own ends with code 1 where it is refused. In all other cases it ends with
code 0 if it is feasible and there is room for the batches that it makes. -/
theorem code_run (parsed : readArguments world.environment words = .run command o) (embedded : o.embedded = true)
    (loaded : base? world o = some base) :
    (Refuses command (o.apply base) → (run world words).code = 1) ∧
      (¬Refuses command (o.apply base) → Feasible world command (o.apply base) →
        (command.seeds → (o.apply base).seed.Fits) → (run world words).code = 0) := by
  have hrun : run world words = execute world command o := by rw [run, parsed]
  rw [hrun, execute_eq embedded loaded]
  constructor
  · intro refused
    rcases hvalid : (o.apply base).validate with e | ⟨⟩
    · rfl
    · obtain ⟨seeds, stored, asked⟩ := refused.resolve_left (not_not.2 hvalid)
      obtain ⟨e, hfails⟩ := run_of_refused world stored asked
      dsimp only
      rw [phases_of_error seeds hfails]
      exact code_halted _ e
  · intro granted feasible fits
    rcases hvalid : (o.apply base).validate with e | ⟨⟩
    · exact absurd (.inl (by rw [hvalid]; exact fun h => by cases h)) granted
    · obtain ⟨summary, hphases⟩ := phases_of_granted hvalid granted feasible fits
      dsimp only
      rw [hphases]

/-- A world in which one text can be read, that of a configuration with one user. -/
def oneText : World where
  fileText path := if path = "one.yaml" then some "seed:\n  users: 1\n" else none
  clock := Server.still
  today := defaultBaseTime.date
  entropy := 0
  budget := 50

/-- All phases, for an article that the user reads twice. -/
def allWords : List String :=
  ["--config", "one.yaml", "all", "--embedded", "--articles=1", "--reads=2", "--seed", "7"]

def allOptions : Options where
  config := some "one.yaml"
  embedded := true
  articles := some 1
  reads := some 2
  seed := some 7

theorem feasible_allOptions : Feasible oneText .all (allOptions.apply { seed := { users := 1 } }) := by
  obtain ⟨report, hdry⟩ : ∃ report, ((allOptions.apply { seed := { users := 1 } }).seeding oneText.entropy
      oneText.budget).dryRun = .ok report := exists_eq_ok (by decide +kernel)
  refine ⟨fun _ _ h => ?_, fun _ full => Seeding.not_strays_of_dryRun full hdry, fun _ _ _ _ g hg => ?_,
    by decide⟩
  · cases hdry.symm.trans h
  · have hinner : ((allOptions.apply { seed := { users := 1 } }).seeding oneText.entropy
        oneText.budget).generated.toOption.map (·.articles.all fun a => a.timestamp.date.Inner) = some true := by
      decide +kernel
    rw [hg] at hinner
    have hall := List.all_eq_true.1 (Option.some.inj hinner)
    exact fun article harticle => (of_decide_eq_true (hall article harticle)).bucketed

theorem code_run_oneText : (run oneText allWords).code = 0 ∧
    (run oneText ["seed", "--reads-only", "--embedded"]).code = 1 := by
  have parsed : readArguments oneText.environment allWords = .run .all allOptions := by decide +kernel
  have loaded : base? oneText allOptions = some { seed := { users := 1 } } := by decide +kernel
  have granted : ¬Refuses .all (allOptions.apply { seed := { users := 1 } }) := by
    rintro (invalid | ⟨-, stored, -⟩)
    · exact invalid (by decide)
    · cases stored
  have parsed' : readArguments oneText.environment ["seed", "--reads-only", "--embedded"] =
      .run .seed { readsOnly := true, embedded := true } := by
    decide +kernel
  exact ⟨(code_run parsed rfl loaded).2 granted feasible_allOptions fun _ => ⟨by decide, by decide, by decide⟩,
    (code_run parsed' rfl rfl).1 (.inr ⟨rfl, rfl, .inr (by decide)⟩)⟩

/-- More articles than there is room for in one batch. -/
def overfullWords : List String :=
  ["--embedded", "seed", "--users", "0", "--reads", "0", "--articles", "144115188075855872",
    "--article-batch-size", "144115188075855872", "--seed", "7"]

def overfullOptions : Options where
  embedded := true
  users := some 0
  articles := some 144115188075855872
  reads := some 0
  articleBatchSize := some 144115188075855872
  seed := some 7

theorem populated_overfullOptions :
    ((overfullOptions.apply {}).seeding oneText.entropy oneText.budget).populated = .error .outOfRange :=
  Seeding.populated_overfull rfl (by decide)

theorem feasible_overfullOptions : Feasible oneText .seed (overfullOptions.apply {}) where
  ends _ full h := by
    rw [Seeding.dryRun_eq full, populated_overfullOptions] at h
    cases h
  inside _ _ strays := by
    cases strays with
    | users pos late => exact absurd pos (by decide)
    | articles standard users strays =>
      obtain ⟨stop, hstop⟩ : ∃ stop, defaultBaseTime.addDays? 366 = some stop :=
        Option.isSome_iff_exists.1 (by decide +kernel)
      exact Seeding.not_strays_of_reach (by decide) hstop strays
    | reads standard users articles drawing strays =>
      obtain ⟨records, last, hoffered, before, -⟩ := strays
      rw [hoffered.target_eq] at before
      exact absurd before (Nat.not_lt_zero _)
  bucketed _ ranks := by cases ranks
  shallow := by decide

/-- The program panics over a batch that there is no room for, though nothing else is in its way. -/
theorem not_code_overfull : readArguments oneText.environment overfullWords = .run .seed overfullOptions ∧
    overfullOptions.embedded = true ∧ base? oneText overfullOptions = some {} ∧
    ¬Refuses .seed (overfullOptions.apply {}) ∧ Feasible oneText .seed (overfullOptions.apply {}) ∧
      (run oneText overfullWords).code = 101 := by
  have parsed : readArguments oneText.environment overfullWords = .run .seed overfullOptions := by decide +kernel
  have granted : ¬Refuses .seed (overfullOptions.apply {}) := by
    rintro (invalid | ⟨-, stored, -⟩)
    · exact invalid (by decide)
    · cases stored
  have hrun := Seeding.run_of_populated (Seeding.ready_fresh oneText.clock) rfl rfl rfl (by decide)
    populated_overfullOptions
  refine ⟨parsed, rfl, rfl, granted, feasible_overfullOptions, ?_⟩
  rw [run, parsed]
  dsimp only
  rw [execute_eq rfl (show base? oneText overfullOptions = some {} from rfl), phases_of_error rfl hrun]
  rfl

end Program

end ReadingBench.Cli
