import ReadingBench.Proofs.Seeding.Named
import ReadingBench.Proofs.Seeding.Stages

namespace ReadingBench

open Sql Store Outcome Server

namespace Seeding

variable {s : Seeding}

/-- The inserts of all users, batch by batch. -/
def userInserts (s : Seeding) : List Insert := s.plan.users.map intoUsers

def articleInserts (s : Seeding) : List Insert := s.plan.articles.map intoArticles

def readInserts (s : Seeding) : List Insert := s.plan.reads.map storing

section Phases

variable {sessions : List Session} {session : Session} {index : ReferentialIndex}

theorem takes_loadInline (hs : session ∈ sessions) (source : ReadSource) :
    Takes sessions (s.loadInline session source) fun events r => Stage false Keyspace.read.table
      ((s.readBatches.all source.offer s.budget).1.map storing) events r.isSome := by
  have htables : ∀ statement ∈ (s.readBatches.all source.offer s.budget).1.map storing,
      statement.table = Keyspace.read.table := by
    intro statement hstatement
    obtain ⟨batch, -, rfl⟩ := List.mem_map.1 hstatement
    rfl
  have hcount : ∀ tally, Takes sessions (do
      let last ← liftM (s.readBatches.all source.offer s.budget).2
      return Counted.outcome (tally, last) : Run ReadOutcome) fun events _ => events = [] := by
    intro tally
    refine Takes.bind (takes_lift _) (fun last => takes_pure _) (fun _ h => h.1) ?_
    rintro last before after r ⟨rfl, -⟩ ⟨rfl, -⟩
    rfl
  rw [Queue.loadInline_eq]
  refine Takes.bind (takes_insertAll hs Batches.ne_nil_of_mem_all {}) hcount ?_ ?_
  · rintro events ⟨left, hflushes, -⟩
    exact .of_flushes hflushes htables fun hsome => by cases hsome
  · rintro tally before after r ⟨left, hflushes, hdone⟩ rfl
    rw [List.append_nil]
    exact .of_flushes hflushes htables fun _ => hdone rfl

/-- The stage of reads, whether their batches wait in a queue or not. -/
theorem takes_loadQueued (hs : session ∈ sessions) (source : ReadSource) :
    Takes sessions (s.loadQueued session source) fun events r => Stage false Keyspace.read.table
      ((s.readBatches.all source.offer s.budget).1.map storing) events r.isSome := by
  intro server hopen
  unfold loadQueued
  split
  · exact ⟨[], trivial, rfl, hopen, .nil _ _ _⟩
  · obtain ⟨ops, hadmits, hafter, hkept, hstage⟩ := takes_loadInline hs source server hopen
    refine ⟨ops, hadmits, ?_⟩
    rcases hinline : s.loadInline session source server with ⟨halt | outcome, next⟩
    · rw [hinline] at hafter hstage
      cases halt <;> exact ⟨hafter, hkept, hstage⟩
    · rw [hinline] at hafter hstage
      exact ⟨hafter, hkept, hstage⟩

theorem takes_loadReads (hs : session ∈ sessions) : Takes sessions (s.loadReads session index)
    fun events r => (∀ source, s.readSource index = .ok source →
      s.plan.reads = (s.readBatches.all source.offer s.budget).1) →
        Stage false Keyspace.read.table s.readInserts events r.isSome := by
  have hload : ∀ source, Takes sessions
      (if s.config.readQueueDepth = 0 then s.loadInline session source else s.loadQueued session source)
      fun events r => Stage false Keyspace.read.table
        ((s.readBatches.all source.offer s.budget).1.map storing) events r.isSome := by
    intro source
    split
    · exact takes_loadInline hs source
    · exact takes_loadQueued hs source
  refine Takes.bind (takes_lift (s.readSource index)) hload ?_ ?_
  · rintro events ⟨rfl, -⟩ -
    exact .nil _ _ _
  · rintro source before after r ⟨rfl, hsource⟩ hstage hplan
    cases hmade : s.readSource index with
    | error halt =>
      rw [hmade] at hsource
      cases hsource
    | ok made =>
      rw [hmade] at hsource
      obtain rfl := Option.some.inj hsource
      rw [readInserts, hplan source hmade]
      exact hstage

/-- What the stages of users and articles ask for, and what they have done if they succeed. -/
structure Populates (s : Seeding) (users articles : List Event) (usersDone articlesDone : Bool) : Prop where
  userStage : Stage s.config.truncate Keyspace.user.table s.userInserts users usersDone
  articleStage : Stage s.config.truncate Keyspace.article.table s.articleInserts articles articlesDone
  /-- No article is sent before all users are stored. -/
  waits : usersDone = false → inserts Keyspace.article.table articles = []
  usersCount : usersDone →
    s.plan.users.length = s.config.users.toNat ⌈/⌉ max s.config.userBatchSize.toNat 1
  articlesCount : articlesDone →
    s.plan.articles.length = s.config.articles.toNat ⌈/⌉ max s.config.articleBatchSize.toNat 1

theorem Populates.nothing (s : Seeding) : s.Populates [] [] false false where
  userStage := .nil _ _ _
  articleStage := .nil _ _ _
  waits _ := rfl
  usersCount := fun hdone => by cases hdone
  articlesCount := fun hdone => by cases hdone

section Population

variable {dists : Distributions}

theorem takes_userPhase : Takes sessions (s.userPhase dists)
    (Loads s.config.truncate Keyspace.user.table intoUsers (s.userSource dists).offer s.budget
      s.userBatches Loaded.source) :=
  takes_withSession_loads fun _ => takes_loadTable sends_insertUsers (by simp) rfl (fun _ => rfl) _ _

theorem takes_articlePhase : Takes sessions (s.articlePhase dists index)
    (Loads s.config.truncate Keyspace.article.table intoArticles (s.articleSource dists).offer s.budget
      (s.articleBatches index) Loaded.source) :=
  takes_withSession_loads fun _ => takes_loadTable sends_insertArticles (by simp) rfl (fun _ => rfl) _ _

/-- The phase of articles, and then the index that it leaves. -/
theorem takes_articlePhase_report (users : Loaded Growing) : Takes sessions (do
      let articles ← s.articlePhase dists index
      return (populationReport users articles, articles.source.state.index))
    fun events r => Stage s.config.truncate Keyspace.article.table
      (((s.articleBatches index).all (s.articleSource dists).offer s.budget).1.map intoArticles)
        events r.isSome ∧
      ∀ report later, r = some (report, later) → ∃ grown : Batches Growing,
        ((s.articleBatches index).all (s.articleSource dists).offer s.budget).2 = .ok grown ∧
          grown.state.index = later := by
  refine Takes.bind takes_articlePhase (fun articles => takes_pure _) ?_ ?_
  · exact fun events h => ⟨h.1, fun _ _ hsome => by cases hsome⟩
  · rintro articles before after r ⟨hstage, hmade⟩ ⟨rfl, rfl⟩
    rw [List.append_nil]
    refine ⟨hstage, fun report index hsome => ⟨_, hmade articles rfl, ?_⟩⟩
    exact (Prod.mk.inj (Option.some.inj hsome)).2

end Population

theorem takes_loadPopulation : Takes sessions s.loadPopulation fun events r =>
    ∃ users articles usersDone, events = users ++ articles ∧
      s.Populates users articles usersDone r.isSome ∧
        ∀ report index source, r = some (report, index) → s.readSource index = .ok source →
          s.plan.reads = (s.readBatches.all source.offer s.budget).1 := by
  rw [loadPopulation]
  cases hdists : Distributions.standard with
  | error halt =>
    refine (takes_throw halt).imp ?_
    rintro events r ⟨rfl, rfl⟩
    exact ⟨[], [], false, rfl, .nothing s, fun _ _ _ hsome => by cases hsome⟩
  | ok dists =>
    refine takes_ok_bind rfl (Takes.bind takes_userPhase (fun users => takes_articlePhase_report users) ?_ ?_)
    · rintro events ⟨hstage, -⟩
      refine ⟨events, [], false, (List.append_nil _).symm, ?_, fun _ _ _ hsome => by cases hsome⟩
      rw [← plan_users hdists] at hstage
      exact { Populates.nothing s with userStage := hstage }
    · rintro users before after r ⟨hstage, hmade⟩ ⟨hstage', hmade'⟩
      have hgrown := hmade users rfl
      rw [← plan_users hdists] at hstage
      rw [← plan_articles hdists hgrown] at hstage'
      refine ⟨before, after, true, rfl, ⟨hstage, hstage', fun hfalse => (by cases hfalse), fun _ =>
        length_users hdists hgrown, fun hdone => ?_⟩, ?_⟩
      · obtain ⟨⟨report, index⟩, rfl⟩ := Option.isSome_iff_exists.1 hdone
        obtain ⟨grown', hgrown', -⟩ := hmade' report index rfl
        exact length_articles hdists hgrown hgrown'
      · intro report index source hsome hsource
        obtain ⟨grown', hgrown', rfl⟩ := hmade' report index hsome
        exact plan_reads hdists hgrown hgrown' hsource

/-- What a run asks for: it may clear the table of reads, and then comes stage after stage. -/
structure Staged (s : Seeding) (before users articles reads : List Event) (usersDone articlesDone : Bool) :
    Prop where
  clears : ∀ e ∈ before,
    e.request.Clears Keyspace.read.table ∧ (s.config.truncate = false → e.request.Idle)
  populates : s.Populates users articles usersDone articlesDone
  readStage : Stage false Keyspace.read.table s.readInserts reads false
  /-- No read is sent before all articles are stored. -/
  waits : articlesDone = false → inserts Keyspace.read.table reads = []

def InStages (s : Seeding) (events : List Event) : Prop :=
  ∃ before users articles reads usersDone articlesDone, events = before ++ users ++ articles ++ reads ∧
    s.Staged before users articles reads usersDone articlesDone

/-- Before the stages the table of reads may be cleared, and settings may change. -/
theorem takes_bind_staged {α β : Type} {first : Run α} {rest : α → Run β}
    (h : Only (fun op => op.Clears Keyspace.read.table ∧ (s.config.truncate = false → op.Idle)) sessions first)
    (hrest : ∀ a, Takes sessions (rest a) fun events _ => s.InStages events) :
    Takes sessions (first >>= rest) fun events _ => s.InStages events := by
  refine Takes.bind h hrest ?_ ?_
  · intro events hclears
    exact ⟨events, [], [], [], false, false, by simp, hclears, .nothing s, .nil _ _ _, fun _ => rfl⟩
  · rintro a first after r hclears ⟨before, users, articles, reads, usersDone, articlesDone, rfl, hstaged⟩
    exact ⟨first ++ before, users, articles, reads, usersDone, articlesDone, by simp only [List.append_assoc],
      { hstaged with clears := List.forall_mem_append.2 ⟨hclears, hstaged.clears⟩ }⟩

theorem takes_runPhases (full : s.config.readsOnly = false) (hs : session ∈ sessions) :
    Takes sessions (s.runPhases session) fun events _ => s.InStages events := by
  have hreads : ∀ (truncated : Nat) (counted : SeedReport × ReferentialIndex), Takes sessions (do
      let outcome ← s.loadReads session counted.2
      restore session
      return { counted.1 with
        truncated := truncated + counted.1.truncated
        reads := outcome.source.accepted
        readBatches := outcome.batches
        readCandidates := outcome.source.candidates
        readsAffected := outcome.affected
        referentialFallbacks := outcome.source.state.fallbacks } : Run SeedReport)
      fun events _ => (∀ source, s.readSource counted.2 = .ok source →
        s.plan.reads = (s.readBatches.all source.offer s.budget).1) →
          Stage false Keyspace.read.table s.readInserts events false := by
    intro truncated counted
    refine Takes.bind (takes_loadReads hs) (fun outcome => (only_restore hs).bind fun _ => only_pure _) ?_ ?_
    · exact fun events hstage hplan => hstage hplan
    · exact fun outcome before after r hstage hidle hplan =>
        ((hstage hplan).append_idle hidle).incomplete
  have hoptimize : Only (fun op => op.Clears Keyspace.read.table ∧ (s.config.truncate = false → op.Idle))
      sessions (liftM (optimize session true) : Run Unit) :=
    (only_optimize hs true).imp fun op hidle => ⟨hidle.clears, fun _ => hidle⟩
  rw [runPhases, indexPhase, full, if_neg Bool.false_ne_true]
  refine takes_bind_staged hoptimize fun _ => takes_bind_staged (only_clearing hs _ _ _) fun truncated => ?_
  refine Takes.bind takes_loadPopulation (hreads truncated) ?_ ?_
  · rintro events ⟨users, articles, usersDone, rfl, hpopulates, -⟩
    exact ⟨[], users, articles, [], usersDone, false, by simp, by simp, hpopulates, .nil _ _ _, fun _ => rfl⟩
  · rintro ⟨report, index⟩ before reads r ⟨users, articles, usersDone, rfl, hpopulates, hplan⟩ hstage
    exact ⟨[], users, articles, reads, usersDone, true, by simp, by simp, hpopulates,
      hstage fun source hsource => hplan report index source rfl hsource, fun hfalse => by cases hfalse⟩

theorem takes_run_staged (wet : s.config.dryRun = false) (full : s.config.readsOnly = false) :
    Takes sessions s.run fun events _ => s.InStages events := by
  rw [run_eq_withSession, wet, if_neg Bool.false_ne_true]
  refine Takes.withSession (fun session => takes_runPhases full (List.mem_cons_self)) ?_
  rintro session events r ending ⟨before, users, articles, reads, usersDone, articlesDone, rfl, hstaged⟩ hending
  have hopen : ∀ e ∈ [(⟨.openSession, .ok (.opened session)⟩ : Event)], e.request.Idle := by
    simp [Operation.Idle, Operation.target?]
  have hclose : ∀ e ∈ ending, e.request.Idle := fun e he => by
    rw [hending e he]
    simp [Operation.Idle, Operation.target?]
  refine ⟨[⟨.openSession, .ok (.opened session)⟩] ++ before, users, articles, reads ++ ending, usersDone, articlesDone, by simp, ?_, hstaged.populates,
    hstaged.readStage.append_idle hclose, fun hwaits => ?_⟩
  · exact List.forall_mem_append.2
      ⟨fun e he => ⟨(hopen e he).clears, fun _ => hopen e he⟩, hstaged.clears⟩
  · rw [inserts_append, hstaged.waits hwaits,
      inserts_eq_nil fun e he => insertInto?_of_trims (hclose e he).trims]
    rfl

end Phases

/-- The order of a run's statements, up to any point. -/
structure InOrder (s : Seeding) (events : List Event) : Prop where
  /-- Of each table, the inserts that succeeded are the first of those that there are to send. -/
  users : stored Keyspace.user.table events <+: s.userInserts
  articles : stored Keyspace.article.table events <+: s.articleInserts
  reads : stored Keyspace.read.table events <+: s.readInserts
  /-- Where an article has been sent, all users had been, and had been stored. -/
  usersFirst : ∀ seen, seen <+: events → inserts Keyspace.article.table seen ≠ [] →
    stored Keyspace.user.table seen = s.userInserts ∧ inserts Keyspace.user.table seen = s.userInserts ∧
      s.userInserts.length = s.config.users.toNat ⌈/⌉ max s.config.userBatchSize.toNat 1
  articlesFirst : ∀ seen, seen <+: events → inserts Keyspace.read.table seen ≠ [] →
    stored Keyspace.article.table seen = s.articleInserts ∧
      inserts Keyspace.article.table seen = s.articleInserts ∧
        s.articleInserts.length = s.config.articles.toNat ⌈/⌉ max s.config.articleBatchSize.toNat 1
  committed : Committed events

theorem key_injective : Function.Injective fun ks : Keyspace => ks.table.key := by
  intro ks other h
  revert h
  cases ks <;> cases other <;> decide

/-- What comes before and after the stage of a table: before it the table may be cleared, and after it
nothing is done to it. -/
structure Around (ref : TableRef) (first later : List Event) : Prop where
  trims : ∀ e ∈ first, e.request.Trims ref
  spares : ∀ e ∈ later, e.request.target? ≠ some ref.key

section Around

variable {ref : TableRef} {first later events : List Event}

theorem Around.inserts_first (h : Around ref first later) : inserts ref first = [] :=
  inserts_eq_nil fun e he => insertInto?_of_trims (h.trims e he)

theorem Around.inserts_later (h : Around ref first later) : inserts ref later = [] :=
  inserts_eq_nil fun e he => Event.insertInto?_eq_none (h.spares e he)

theorem Around.stored_eq (h : Around ref first later) :
    stored ref (first ++ events ++ later) = stored ref events := by
  rw [stored_append, stored_append, stored_eq_nil h.inserts_first, stored_eq_nil h.inserts_later,
    List.nil_append, List.append_nil]

/-- A stage is through wherever, in what has been seen so far, there is something of a later one. -/
theorem Stage.through_of_seen {clear complete : Bool} {statements : List Insert}
    (h : Stage clear ref statements events complete) (around : Around ref first later) (other : TableRef)
    (hnone : inserts other (first ++ events) = []) (waits : complete = false → inserts other later = []) :
    ∀ seen, seen <+: first ++ events ++ later → inserts other seen ≠ [] →
      complete ∧ stored ref seen = statements ∧ inserts ref seen = statements := by
  intro seen hseen hsent
  rcases List.prefix_or_prefix_of_prefix hseen (List.prefix_append _ later) with hearly | ⟨more, rfl⟩
  · have hprefix : inserts other seen <+: inserts other (first ++ events) := inserts_of_prefix hearly
    rw [hnone, List.prefix_nil] at hprefix
    exact absurd hprefix hsent
  · have hmore : more <+: later := (List.prefix_append_right_inj _).1 hseen
    have hprefix : inserts ref more <+: inserts ref later := inserts_of_prefix hmore
    rw [around.inserts_later, List.prefix_nil] at hprefix
    have hdone : complete := by
      by_contra hwaits
      have hother : inserts other more <+: inserts other later := inserts_of_prefix hmore
      rw [waits (by simpa using hwaits), List.prefix_nil] at hother
      exact hsent (by rw [inserts_append, hnone, hother]; rfl)
    refine ⟨hdone, ?_, ?_⟩
    · rw [stored_append, stored_append, stored_eq_nil around.inserts_first, stored_eq_nil hprefix,
        List.nil_append, List.append_nil, h.whole hdone]
    · rw [inserts_append, inserts_append, around.inserts_first, hprefix, List.nil_append,
        List.append_nil, h.sends_all hdone]

end Around

section Staged

variable {before users articles reads : List Event} {usersDone articlesDone : Bool}

theorem Stage.target_ne {clear complete : Bool} {ks other : Keyspace} {statements : List Insert}
    {events : List Event} (h : Stage clear ks.table statements events complete) (hother : ks ≠ other) :
    ∀ e ∈ events, e.request.target? ≠ some other.table.key :=
  fun e he => (h.within e he).target_ne (key_injective.ne hother)

theorem Staged.around_users (h : s.Staged before users articles reads usersDone articlesDone) :
    Around Keyspace.user.table before (articles ++ reads) where
  trims e he htarget := absurd htarget ((h.clears e he).1.1.target_ne (key_injective.ne (by decide)))
  spares := List.forall_mem_append.2
    ⟨h.populates.articleStage.target_ne (by decide), h.readStage.target_ne (by decide)⟩

theorem Staged.around_articles (h : s.Staged before users articles reads usersDone articlesDone) :
    Around Keyspace.article.table (before ++ users) reads where
  trims := List.forall_mem_append.2
    ⟨fun e he htarget => absurd htarget ((h.clears e he).1.1.target_ne (key_injective.ne (by decide))),
      fun e he htarget => absurd htarget (h.populates.userStage.target_ne (by decide) e he)⟩
  spares := h.readStage.target_ne (by decide)

theorem Staged.around_reads (h : s.Staged before users articles reads usersDone articlesDone) :
    Around Keyspace.read.table (before ++ users ++ articles) [] where
  trims := List.forall_mem_append.2 ⟨List.forall_mem_append.2
    ⟨fun e he => (h.clears e he).1.2,
      fun e he htarget => absurd htarget (h.populates.userStage.target_ne (by decide) e he)⟩,
    fun e he htarget => absurd htarget (h.populates.articleStage.target_ne (by decide) e he)⟩
  spares := by simp

theorem Staged.inOrder (h : s.Staged before users articles reads usersDone articlesDone) :
    s.InOrder (before ++ users ++ articles ++ reads) := by
  have husers := h.around_users
  have harticles := h.around_articles
  have hreads := h.around_reads
  have hassoc : before ++ users ++ articles ++ reads = before ++ users ++ (articles ++ reads) :=
    List.append_assoc _ _ _
  have hbefore : ∀ ref, inserts ref before = [] := fun ref => inserts_eq_nil fun e he => by
    rw [Event.insertInto?, (h.clears e he).1.insert_eq_none]
    rfl
  have helsewhere : ∀ {ks : Keyspace} {events : List Event},
      (∀ e ∈ events, e.request.target? ≠ some ks.table.key) → inserts ks.table events = [] :=
    fun hspares => inserts_eq_nil fun e he => Event.insertInto?_eq_none (hspares e he)
  refine ⟨?_, ?_, ?_, ?_, ?_, ?_⟩
  · rw [hassoc, husers.stored_eq]
    exact h.populates.userStage.stores
  · rw [harticles.stored_eq]
    exact h.populates.articleStage.stores
  · rw [← List.append_nil (before ++ users ++ articles ++ reads), hreads.stored_eq]
    exact h.readStage.stores
  · intro seen hseen hsent
    rw [hassoc] at hseen
    obtain ⟨hdone, hstored, hinserts⟩ := h.populates.userStage.through_of_seen husers
      Keyspace.article.table
      (by rw [inserts_append, hbefore, helsewhere (h.populates.userStage.target_ne (by decide))]; rfl)
      (fun hwaits => by
        rw [inserts_append, h.populates.waits hwaits, helsewhere (h.readStage.target_ne (by decide))]
        rfl)
      seen hseen hsent
    exact ⟨hstored, hinserts, (List.length_map _).trans (h.populates.usersCount hdone)⟩
  · intro seen hseen hsent
    obtain ⟨hdone, hstored, hinserts⟩ := h.populates.articleStage.through_of_seen harticles
      Keyspace.read.table
      (by
        rw [inserts_append, inserts_append, hbefore,
          helsewhere (h.populates.userStage.target_ne (by decide)),
          helsewhere (h.populates.articleStage.target_ne (by decide))]
        rfl)
      h.waits seen hseen hsent
    exact ⟨hstored, hinserts, (List.length_map _).trans (h.populates.articlesCount hdone)⟩
  · have hfirst : Committed before := committed_of_none fun e he => (h.clears e he).1.insert_eq_none
    exact ((hfirst.append h.populates.userStage.committed).append
      h.populates.articleStage.committed).append h.readStage.committed

end Staged

/-- What is left of a table and comes into it: its first rows go, and then come the first of these batches,
each of them whole. -/
def Leaves (ks : Keyspace) (onConflict : OnConflict) (batches : List (List (List Value)))
    (events : List Event) (server next : Server) : Prop :=
  ∀ t, server.table? ks.table = some t → ∃ u, next.table? ks.table = some u ∧
    Table.Reloaded (removed ks.table events) ks.columns onConflict
      (batches.take (stored ks.table events).length).flatten t u

section Leaves

variable {ks : Keyspace} {onConflict : OnConflict} {server : Server} {ops : List Operation}
  {first events later : List Event} {ρ : Type} {into : List ρ → Insert} {batches : List (List ρ)}
  {clear complete : Bool}

theorem Stage.leaves (h : Stage clear ks.table (batches.map into) events complete)
    (around : Around ks.table first later) (reachable : server.Reachable) (admits : server.Admits ops)
    (hevents : server.events ops = first ++ events ++ later) (plain : ∀ targets, onConflict ≠ .update targets)
    (alike : ∀ batch, (into batch).stamp = none ∧ (into batch).columns = ks.columns ∧
      (into batch).onConflict = onConflict) :
    Leaves ks onConflict (batches.map fun batch => (into batch).rows) (server.events ops) server
      (server.after ops) := by
  intro t ht
  have hstored : stored ks.table (server.events ops) <+: batches.map into := by
    rw [hevents, around.stored_eq]
    exact h.stores
  have hinserts : ∀ statement ∈ inserts ks.table (server.events ops),
      statement.stamp = none ∧ statement.columns = ks.columns ∧ statement.onConflict = onConflict := by
    intro statement hstatement
    rw [hevents, inserts_append, inserts_append, around.inserts_first, around.inserts_later,
      List.nil_append, List.append_nil] at hstatement
    obtain ⟨batch, -, rfl⟩ := List.mem_map.1 (h.sends.subset hstatement)
    exact alike batch
  have hrows : (stored ks.table (server.events ops)).flatMap (·.rows) =
      ((batches.map fun batch => (into batch).rows).take
        (stored ks.table (server.events ops)).length).flatten := by
    conv_lhs => rw [List.prefix_iff_eq_take.1 hstored]
    rw [List.flatMap_def, ← List.map_take, List.map_map, List.map_take]
    rfl
  obtain ⟨trims, fills, rfl, htrims, hfills⟩ := h.split
  have hsplit : server.events ops = (first ++ trims) ++ (fills ++ later) := by
    rw [hevents]
    simp only [List.append_assoc]
  obtain ⟨before, rest, rfl, hbefore, hrest⟩ := events_eq_append hsplit
  rw [← hrows]
  refine after_reload reachable.sound admits ht ?_ ?_ plain hinserts
  · rw [← forall_events, hbefore]
    exact List.forall_mem_append.2 ⟨around.trims, htrims⟩
  · rw [← forall_events, hrest]
    exact List.forall_mem_append.2 ⟨hfills, fun e he htarget => absurd htarget (around.spares e he)⟩

end Leaves

/-- Without truncation nothing is taken from a table. -/
theorem Staged.keeps {before users articles reads : List Event} {usersDone articlesDone : Bool}
    (h : s.Staged before users articles reads usersDone articlesDone) (keep : s.config.truncate = false)
    (ref : TableRef) : removed ref (before ++ users ++ articles ++ reads) = 0 := by
  have hnone : ∀ {clear complete : Bool} {ks : Keyspace} {statements : List Insert} {events : List Event},
      Stage clear ks.table statements events complete → clear = false → removed ref events = 0 := by
    intro clear complete ks statements events hstage hclear
    refine removed_eq_zero fun e he => ?_
    by_cases hkey : ks.table.key = ref.key
    · refine removedFrom_of_fills fun htarget => hstage.fills hclear e he ?_
      rw [hkey]
      exact htarget
    · exact Event.removedFrom_eq_zero ((hstage.within e he).target_ne hkey)
  rw [removed_append, removed_append, removed_append, hnone h.populates.userStage keep,
    hnone h.populates.articleStage keep, hnone h.readStage rfl,
    removed_eq_zero fun e he => removedFrom_of_fills ((h.clears e he).2 keep).fills]

/-- However a run ends, it has left all other tables alone. -/
theorem run_spares {key : String} (wet : s.config.dryRun = false) (full : s.config.readsOnly = false)
    (other : ∀ ks ∈ [Keyspace.user, .article, .read], ks.table.key ≠ key) (server : Server) :
    (s.run server).2.tables[key]? = server.tables[key]? := by
  obtain ⟨ops, -, hafter, -, before, users, articles, reads, usersDone, articlesDone, hevents, hstaged⟩ :=
    (takes_run_staged wet full : Takes [] s.run fun events _ => s.InStages events) server
      fun _ h => by cases h
  have hwithin : ∀ {ks : Keyspace} {op : Operation}, op.Within ks.table →
      ks ∈ [Keyspace.user, .article, .read] → op.target? ≠ some key :=
    fun hop hks htarget => other _ hks (hop _ htarget).symm
  have hall : ∀ e ∈ server.events ops, e.request.target? ≠ some key := by
    rw [hevents]
    exact List.forall_mem_append.2 ⟨List.forall_mem_append.2 ⟨List.forall_mem_append.2
      ⟨fun e he => hwithin (hstaged.clears e he).1.1 (by simp),
        fun e he => hwithin (hstaged.populates.userStage.within e he) (by simp)⟩,
      fun e he => hwithin (hstaged.populates.articleStage.within e he) (by simp)⟩,
      fun e he => hwithin (hstaged.readStage.within e he) (by simp)⟩
  rw [hafter]
  exact after_getElem? (forall_events.1 hall)

/-- A run sends its statements in order, and however it ends the tables hold whole batches, from the first
on, behind what truncation has left of them. The ids and names in these batches run along. -/
theorem run_in_order {server next : Server} {result : Except Halt SeedReport}
    (reachable : server.Reachable) (wet : s.config.dryRun = false) (full : s.config.readsOnly = false)
    (hrun : s.run server = (result, next)) : ∃ ops, server.Admits ops ∧ next = server.after ops ∧
      next.log.toList = server.log.toList ++ (server.events ops).filterMap Event.text? ∧
      s.InOrder (server.events ops) ∧ s.plan.Named ∧
      Leaves .user .fail (s.plan.users.map (·.map User.toRow)) (server.events ops) server next ∧
      Leaves .article .fail (s.plan.articles.map (·.map Article.toRow)) (server.events ops) server next ∧
      Leaves .read .ignore (s.plan.reads.map (·.map Read.storedRow)) (server.events ops) server next ∧
      (s.config.truncate = false → ∀ ref, removed ref (server.events ops) = 0) := by
  obtain ⟨ops, hadmits, hafter, -, before, users, articles, reads, usersDone, articlesDone, hevents, hstaged⟩ :=
    (takes_run_staged wet full : Takes [] s.run fun events _ => s.InStages events) server
      fun _ h => by cases h
  rw [hrun] at hafter
  obtain rfl : next = server.after ops := hafter
  refine ⟨ops, hadmits, rfl, log_after hadmits, hevents ▸ hstaged.inOrder, s.named_plan, ?_, ?_, ?_,
    fun keep ref => hevents ▸ hstaged.keeps keep ref⟩
  · refine hstaged.populates.userStage.leaves hstaged.around_users reachable hadmits ?_ (by simp)
      fun batch => ⟨rfl, rfl, rfl⟩
    rw [hevents]
    simp only [List.append_assoc]
  · exact hstaged.populates.articleStage.leaves hstaged.around_articles reachable hadmits hevents
      (by simp) fun batch => ⟨rfl, rfl, rfl⟩
  · refine hstaged.readStage.leaves hstaged.around_reads reachable hadmits ?_ (by simp)
      fun batch => ⟨rfl, rfl, rfl⟩
    rw [hevents, List.append_nil]

/-- A server on which there is no table of reads yet. -/
def readless : Server :=
  (Server.empty Server.still).after ([Keyspace.user, .article].map fun ks => .define ks.spec)

/-- A run that fails at its first read: all users and articles are there. -/
theorem run_in_order_readless : ∃ halt next ops, samePair.run readless = (.error halt, next) ∧
    next = readless.after ops ∧ samePair.InOrder (readless.events ops) ∧ samePair.plan.Named ∧
    Leaves .article .fail (samePair.plan.articles.map (·.map Article.toRow)) (readless.events ops)
      readless next ∧
    next.rowCount Keyspace.user.table = 1 ∧ next.rowCount Keyspace.article.table = 1 := by
  have hends : (samePair.run readless).1.toOption.isNone ∧
      (samePair.run readless).2.rowCount Keyspace.user.table = 1 ∧
      (samePair.run readless).2.rowCount Keyspace.article.table = 1 := by
    -- The text of a statement takes long to read in the kernel.
    unfold run perform loadReads loadQueued loadInline
    rw [insertReads_eq]
    decide +kernel
  obtain ⟨hfails, husers, harticles⟩ := hends
  rcases hrun : samePair.run readless with ⟨halt | report, next⟩
  · rw [hrun] at husers harticles
    obtain ⟨ops, -, hafter, -, horder, hnamed, -, hleaves, -, -⟩ := run_in_order ⟨_, _, rfl⟩ rfl rfl hrun
    exact ⟨halt, next, ops, rfl, hafter, horder, hnamed, hleaves, husers, harticles⟩
  · rw [hrun] at hfails
    cases hfails

end Seeding
end ReadingBench
