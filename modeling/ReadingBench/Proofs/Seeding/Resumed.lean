import ReadingBench.Proofs.Seeding.Lasting
import ReadingBench.Proofs.Seeding.Referential
import ReadingBench.Proofs.Store.Calm

namespace ReadingBench

open Sql Store Outcome Server ReferentialIndex

/-- What a report says of reads. -/
def SeedReport.aboutReads (r : SeedReport) : SeedReport :=
  { r with users := 0, articles := 0, userBatches := 0, articleBatches := 0, truncated := 0 }

namespace Seeding

/-- The same run without reads, with random numbers from elsewhere if it has no seed. -/
def populating (s : Seeding) (entropy : Random.Entropy) : Seeding :=
  { s with config := { s.config with reads := 0 }, entropy }

/-- The same run of stored users and articles. -/
def resuming (s : Seeding) (entropy : Random.Entropy) : Seeding :=
  { s with config := { s.config with readsOnly := true }, entropy }

/-- Users and articles in one run, reads in the next, unless the first one fails. -/
def inTwoRuns (s : Seeding) (entropy entropy' : Random.Entropy) : Run SeedReport := do
  let _ ← (s.populating entropy).run
  (s.resuming entropy').run

section Vacant

variable {session : Session} {ref : TableRef} {server : Server} {t : Table}

theorem reindex_vacant (vacant : t.rows = #[]) : (t.dropFirst 0).reindex = .ok (.empty t.spec) := by
  have hrows : (t.dropFirst 0).rows = #[] := by
    simp [Table.dropFirst, vacant]
  rw [Table.reindex, hrows]
  simp only [Table.indexFrom, pure_bind]
  simp [Table.dropFirst, Table.empty, vacant, pure, Except.pure]

theorem retrying_of_ok {α : Type} {action : Action α} {a : α} {server next : Server}
    (h : action server = (.ok a, next)) (more : Nat) : retrying action more server = (.ok a, next) := by
  cases more with
  | zero => exact h
  | succ more => rw [retrying, tryCatch_apply, h]

/-- An empty table loses no rows, and has its indexes made anew. -/
theorem deleteChunk_vacant (calm : Calm session server) (ht : server.table? ref = some t)
    (vacant : t.rows = #[]) : ∃ next, deleteChunk session ref server = (.ok 0, next) ∧
      SameBut ref server next ∧ next.table? ref = some (.empty t.spec) := by
  have hdelete : ∃ mid, session.delete { table := ref, limit := some truncateChunk } server =
      (.ok 0, mid) ∧ Calm session mid ∧ mid.tables =
        (server.tables.insert ref.key (t.dropFirst 0)).insert ref.key (.empty t.spec) := by
    have hkept := (respects_delete session { table := ref, limit := some truncateChunk }).keepsCalm server calm
    have hfound : (server.logged (Delete.sql { table := ref, limit := some truncateChunk })).table? ref =
        some t := ht
    have hsize : t.rows.size = 0 := by rw [vacant, Array.size_empty]
    rw [Session.delete_eq, bind_apply, calm.receive] at hkept ⊢
    dsimp only at hkept ⊢
    simp only [bind_apply, Action.table_apply, hfound, hsize, Nat.min_zero, Action.setTable_apply,
      lift_apply, reindex_vacant vacant] at hkept ⊢
    exact ⟨_, rfl, hkept, rfl⟩
  obtain ⟨mid, hdone, hcalm, htables⟩ := hdelete
  obtain ⟨next, hcommit, hsame⟩ := hcalm.commit
  refine ⟨next, ?_, ?_, ?_⟩
  · rw [deleteChunk, bind_apply, hdone]
    dsimp only
    rw [bind_apply, hcommit]
    rfl
  · intro key hkey
    rw [hsame, htables, Std.TreeMap.getElem?_insert, Std.TreeMap.getElem?_insert]
    simp [Ne.symm hkey]
  · rw [Server.table?, hsame, htables]
    simp

theorem clearing_vacant (clear : Bool) (policy : RetryPolicy) (calm : Calm session server)
    (ht : server.table? ref = some t) (vacant : t.rows = #[]) :
    ∃ next, clearing clear session ref policy server = (.ok 0, next) ∧ SameBut ref server next ∧
      next.table? ref = some (if clear then .empty t.spec else t) := by
  cases clear with
  | false => exact ⟨server, rfl, .of_tables rfl, ht⟩
  | true =>
    obtain ⟨next, hchunk, hothers, hfound⟩ := deleteChunk_vacant calm ht vacant
    refine ⟨next, ?_, hothers, hfound⟩
    have hchunks : ∀ most, deleteChunks session ref policy (most + 1) server = (.ok 0, next) := by
      intro most
      rw [deleteChunks, bind_apply, retrying_of_ok hchunk]
      rfl
    rw [clearing, if_pos rfl, truncate, bind_apply, get_apply]
    exact Run.ofAction_eq_ok.2 (hchunks _)

end Vacant

section Load

variable {session : Session} {server : Server} {t u : Table}

theorem load_of_lists (calm : Calm session server) (ht : server.table? Keyspace.user.table = some t)
    (hspec : t.spec = Keyspace.user.spec) (hu : server.table? Keyspace.article.table = some u)
    (hspec' : u.spec = Keyspace.article.spec) {users : List (String × Region)}
    {articles : List (String × Language)} (lists : server.Lists users articles) :
    ∃ next, ReferentialIndex.load session server = (.ok (ofEntries users articles), next) ∧
      next.tables = server.tables := by
  obtain ⟨rows, hrows, husers⟩ := lists.users
  obtain ⟨rows', hrows', harticles⟩ := lists.articles
  rw [Server.rows, ht] at hrows
  rw [Server.rows, hu] at hrows'
  obtain rfl := Except.ok.inj hrows
  obtain rfl := Except.ok.inj hrows'
  rw [hspec, show Keyspace.user.spec.columns = Keyspace.user.columns from rfl,
    ← mapM_selected _ userEntry_selected] at husers
  rw [hspec', show Keyspace.article.spec.columns = Keyspace.article.columns from rfl,
    ← mapM_selected _ articleEntry_selected] at harticles
  have hfirst := calm.select (s := { table := Keyspace.user.table, columns := ["uid", "region"] }) ht
  rw [Table.select_all (mapM_position_user hspec)] at hfirst
  have hlogged := calm.logged (Select.sql { table := Keyspace.user.table, columns := ["uid", "region"] })
  have hsecond := hlogged.select (t := u)
    (s := { table := Keyspace.article.table, columns := ["aid", "language"] }) hu
  rw [Table.select_all (mapM_position_article hspec')] at hsecond
  unfold ReferentialIndex.load
  simp only [foldlM_addUser, foldlM_addArticle]
  refine ⟨_, bind_apply_eq_ok.2 ⟨_, _, Run.ofAction_eq_ok.2 hfirst,
    bind_apply_eq_ok.2 ⟨ReferentialIndex.empty.addUsers users, _, Run.ofExcept_eq_ok.2 ⟨?_, rfl⟩,
      bind_apply_eq_ok.2 ⟨_, _, Run.ofAction_eq_ok.2 hsecond, Run.ofExcept_eq_ok.2 ⟨?_, rfl⟩⟩⟩⟩, rfl⟩
  · rw [husers]
    rfl
  · rw [harticles]
    rfl

theorem lists_of_filled {users : List User} {articles : List Article}
    (husers : Filled server .user (users.map User.toRow))
    (harticles : Filled server .article (articles.map Article.toRow)) :
    server.Lists (users.map fun user => (user.uid, user.region))
      (articles.map fun article => (article.aid, article.language)) := by
  refine ⟨⟨_, husers.rows_eq, ?_⟩, _, harticles.rows_eq, ?_⟩
  · rw [List.map_map, List.mapM_map, mapM_eq_ok, List.forall₂_map_right_iff, List.forall₂_same]
    exact fun user _ => userEntry_eq_ok.2 ⟨getText?_uid user, getText?_region user⟩
  · rw [List.map_map, List.mapM_map, mapM_eq_ok, List.forall₂_map_right_iff, List.forall₂_same]
    exact fun article _ => articleEntry_eq_ok.2 ⟨getText?_aid article, rfl⟩

end Load

section Reads

variable {s : Seeding} {session session' : Session} {index : ReferentialIndex} {server : Server}

theorem agree_insertReads (batch : List Read) :
    Agree session session' (insertReads session batch) (insertReads session' batch) := by
  rw [insertReads_eq, insertStored, insertStored]
  cases (Read.rawInsert batch).sql? with
  | none => exact agree_pure 0
  | some sql => exact ((agree_receive sql).bind fun _ => agree_applyInsert rfl).ofAction

theorem agree_insertAll (batches : List (List Read)) (tally : Tally) : Agree session session'
    (Queue.insertAll session batches tally) (Queue.insertAll session' batches tally) := by
  induction batches generalizing tally with
  | nil => exact agree_pure tally
  | cons batch batches ih =>
    have hflush : Agree session session' (flush insertReads session batch)
        (flush insertReads session' batch) :=
      (agree_insertReads batch).bind fun affected =>
        agree_commit.ofAction.bind fun _ => agree_pure affected
    exact hflush.bind fun affected => ih (tally.add batch affected)

theorem agree_loadInline (s : Seeding) (source : ReadSource) :
    Agree session session' (s.loadInline session source) (s.loadInline session' source) := by
  rw [Queue.loadInline_eq, Queue.loadInline_eq]
  exact (agree_insertAll _ _).bind fun tally => (agree_lift _).bind fun last => agree_pure _

theorem agree_loadReads (s : Seeding) (index : ReferentialIndex) :
    Agree session session' (s.loadReads session index) (s.loadReads session' index) := by
  refine (agree_lift _).bind fun source => ?_
  split
  · exact agree_loadInline s source
  · intro server other paired
    rw [loadQueued, loadQueued]
    split
    · exact ⟨rfl, paired⟩
    · obtain ⟨hsame, hpaired⟩ := agree_loadInline s source server other paired
      rcases hleft : s.loadInline session source server with ⟨result, next⟩
      rcases hright : s.loadInline session' source other with ⟨result', next'⟩
      rw [hleft, hright] at hsame hpaired
      obtain rfl : result = result' := hsame
      cases result with
      | ok outcome => exact ⟨rfl, hpaired⟩
      | error halt => cases halt <;> exact ⟨rfl, hpaired⟩

/-- A run whose queue is too deep stops before the first read. -/
theorem loadReads_deep (deep : maxQueueDepth < s.config.readQueueDepth.toNat)
    (h : ∃ source, s.readSource index = .ok source) :
    s.loadReads session index server = (.error .outOfRange, server) := by
  obtain ⟨source, hsource⟩ := h
  have hdepth : s.config.readQueueDepth ≠ 0 := by
    intro hnone
    rw [hnone] at deep
    exact absurd deep (Nat.not_lt_zero _)
  rw [loadReads, bind_apply, hsource, lift_apply]
  dsimp only
  rw [if_neg hdepth, loadQueued, if_pos deep]

/-- No read is made where none is asked for. -/
theorem loadReads_none (shallow : ¬maxQueueDepth < s.config.readQueueDepth.toNat)
    (none : s.config.reads = 0) {source : ReadSource} (hsource : s.readSource index = .ok source) :
    s.loadReads session index server = (.ok ⟨0, 0, s.readBatches⟩, server) := by
  have hall : s.readBatches.all source.offer s.budget = ([], .ok s.readBatches) := by
    have hleft : s.readBatches.remaining = 0 := by
      rw [Batches.remaining, readBatches, none]
      rfl
    rw [Batches.all, hleft]
    rfl
  have hinline : s.loadInline session source server = (.ok ⟨0, 0, s.readBatches⟩, server) := by
    rw [Queue.loadInline_eq, hall]
    rfl
  rw [loadReads, bind_apply, hsource, lift_apply]
  dsimp only
  split
  · exact hinline
  · rw [loadQueued, if_neg shallow, hinline]

end Reads

section Resumed

variable {s : Seeding} {seed : UInt64} {session : Session} {index : ReferentialIndex}
  {server next : Server} {entropy : Random.Entropy}

/-- A seed fixes all random numbers. -/
theorem stream_seeded (other : Seeding) (seeded : s.config.rngSeed = some seed)
    (same : other.config.rngSeed = s.config.rngSeed) (number : UInt64) :
    other.stream number = s.stream number := by
  rw [stream, stream, same, seeded]

/-- What comes before the reads: what was removed, what was counted, and the index. -/
def beforeReads (s : Seeding) (session : Session) : Run (Nat × SeedReport × ReferentialIndex) := do
  optimize session true
  let truncated ← clearing s.config.truncate session Keyspace.read.table s.retry
  let (report, index) ← s.indexPhase session
  return (truncated, report, index)

theorem respects_beforeReads {R : Lasting} [R.Spans] (s : Seeding) (other : Session) :
    Respects R (s.beforeReads other) := by
  refine (respects_optimize other true).bind fun _ => ?_
  refine (respects_clearing _ other _ _).bind fun truncated => ?_
  exact (respects_indexPhase s other).bind fun _ => respects_pure _

/-- The rest of a run. -/
def readPhase (s : Seeding) (session : Session) (before : Nat × SeedReport × ReferentialIndex) :
    Run SeedReport := do
  let outcome ← s.loadReads session before.2.2
  restore session
  return { before.2.1 with
    truncated := before.1 + before.2.1.truncated
    reads := outcome.source.accepted
    readBatches := outcome.batches
    readCandidates := outcome.source.candidates
    readsAffected := outcome.affected
    referentialFallbacks := outcome.source.state.fallbacks }

theorem runPhases_eq_readPhase (s : Seeding) (session : Session) :
    s.runPhases session = s.beforeReads session >>= s.readPhase session := by
  rw [runPhases]
  simp only [beforeReads, readPhase, bind_assoc, pure_bind]

def ReadOutcome.aboutReads (outcome : ReadOutcome) : SeedReport :=
  { reads := outcome.source.accepted, readBatches := outcome.batches
    readCandidates := outcome.source.candidates, readsAffected := outcome.affected
    referentialFallbacks := outcome.source.state.fallbacks }

theorem readPhase_apply (s : Seeding) (session : Session)
    (before : Nat × SeedReport × ReferentialIndex) (server : Server) :
    (s.readPhase session before server).1.map SeedReport.aboutReads =
        (s.loadReads session before.2.2 server).1.map ReadOutcome.aboutReads ∧
      (s.readPhase session before server).2.tables =
        (s.loadReads session before.2.2 server).2.tables := by
  rw [readPhase, bind_apply]
  rcases s.loadReads session before.2.2 server with ⟨halt | outcome, loaded⟩
  · exact ⟨rfl, rfl⟩
  · exact ⟨rfl, restore_tables session loaded⟩

theorem beforeReads_populating (seeded : s.config.rngSeed = some seed) :
    (s.populating entropy).beforeReads session = s.beforeReads session := by
  have hstream := stream_seeded (s.populating entropy) seeded rfl
  have husers : (s.populating entropy).userBatches = s.userBatches := by
    rw [userBatches, userBatches, hstream]
    rfl
  have harticles : (s.populating entropy).articleBatches = s.articleBatches := by
    funext index
    rw [articleBatches, articleBatches, hstream]
    rfl
  have hpopulation : (s.populating entropy).loadPopulation = s.loadPopulation := by
    unfold loadPopulation userPhase articlePhase
    rw [husers, harticles]
    rfl
  unfold beforeReads indexPhase
  rw [hpopulation]
  rfl

theorem readSource_resuming (full : s.config.readsOnly = false)
    (users : index.userCount = s.config.users.toNat)
    (articles : index.articleCount = s.config.articles.toNat) :
    (s.resuming entropy).readSource index = s.readSource index := by
  unfold readSource resuming
  simp only [full, if_true, Bool.false_eq_true, if_false, users, articles]

theorem loadReads_resuming (seeded : s.config.rngSeed = some seed)
    (same : (s.resuming entropy).readSource index = s.readSource index) :
    (s.resuming entropy).loadReads session index = s.loadReads session index := by
  have hstream := stream_seeded (s.resuming entropy) seeded rfl
  have hbatches : (s.resuming entropy).readBatches = s.readBatches := by
    rw [readBatches, readBatches, hstream]
    rfl
  have hinline : ∀ source, (s.resuming entropy).loadInline session source =
      s.loadInline session source := by
    intro source
    unfold loadInline
    rw [hbatches]
    rfl
  unfold loadReads loadQueued
  simp only [same, hinline]
  rfl

/-- The index counts all users and articles that were asked for, since their names differ. -/
theorem counts_of_population {users : List User} {articles : List Article}
    (h : s.population = .ok (users, articles, index)) :
    index.userCount = s.config.users.toNat ∧ index.articleCount = s.config.articles.toNat := by
  have hentries := index_of_population h
  obtain ⟨dists, grown, grown', -, husers, harticles, -⟩ := population_eq_ok.1 h
  have huids := Batches.map_name_of_records husers User.uid rfl rfl
    (fun _ _ _ _ => UserSource.offer_ne_rejected)
    fun _ _ _ _ _ hoffer => (UserSource.of_accepted hoffer).2
  have haids := Batches.map_name_of_records harticles Article.aid rfl rfl
    (fun _ _ _ _ => ArticleSource.offer_ne_rejected)
    fun _ _ _ _ _ hoffer => (ArticleSource.of_accepted hoffer).2
  constructor
  · have hnames : (users.map fun user => (user.uid, user.region)).map (·.1) =
        (List.range s.config.users.toNat).map uidOf := by
      rw [List.map_map]
      exact huids
    have hcount := congrArg List.length huids
    rw [List.length_map, List.length_map, List.length_range] at hcount
    rw [hentries, userCount_ofEntries (hnames ▸ nodup_map_uidOf _), List.length_map]
    exact hcount
  · have hnames : (articles.map fun article => (article.aid, article.language)).map (·.1) =
        (List.range s.config.articles.toNat).map aidOf := by
      rw [List.map_map]
      exact haids
    have hcount := congrArg List.length haids
    rw [List.length_map, List.length_map, List.length_range] at hcount
    rw [hentries, articleCount_ofEntries (hnames ▸ nodup_map_aidOf _), List.length_map]
    exact hcount

/-- What the phases before the reads leave, for the next run as for this one. -/
structure Populated (s : Seeding) (server : Server) (index : ReferentialIndex) : Prop where
  /-- The index is what would be loaded. -/
  lists : ∃ users articles, server.Lists users articles ∧ index = ofEntries users articles
  users : index.userCount = s.config.users.toNat
  articles : index.articleCount = s.config.articles.toNat
  tables : ∀ ks ∈ [Keyspace.user, .article], ∃ t, server.table? ks.table = some t ∧ t.spec = ks.spec
  /-- The table of reads is empty, and emptying it would not change it. -/
  reads : ∃ t, server.table? Keyspace.read.table = some t ∧ t.rows = #[] ∧
    (s.config.truncate → t = .empty t.spec)

theorem populated_of_beforeReads {truncated : Nat} {report : SeedReport} (calm : Calm session server)
    (ready : ∀ ks ∈ [Keyspace.user, .article], Ready s.config.truncate server ks) {t : Table}
    (ht : server.table? Keyspace.read.table = some t) (vacant : t.rows = #[])
    (full : s.config.readsOnly = false)
    (h : s.beforeReads session server = (.ok (truncated, report, index), next)) :
    s.Populated next index := by
  obtain ⟨_, prepared, hprepare, h⟩ := bind_apply_eq_ok.1 h
  have hcalm := (respects_optimize session true).keepsCalm.after calm hprepare
  obtain ⟨-, rfl⟩ := Prod.mk.inj ((Run.liftState_apply _ _).symm.trans hprepare)
  have hprepared := optimize_tables session true server
  obtain ⟨count, cleared, hclears, h⟩ := bind_apply_eq_ok.1 h
  obtain ⟨cleared', hclears', hothers, hread⟩ := clearing_vacant s.config.truncate s.retry hcalm ((table?_of_tables hprepared _).trans ht) vacant
  obtain rfl : cleared' = cleared := congrArg Prod.snd (hclears'.symm.trans hclears)
  obtain ⟨⟨counted, index'⟩, populated, hindex, h⟩ := bind_apply_eq_ok.1 h
  obtain ⟨hresult, rfl⟩ := pure_apply_eq_ok.1 h
  obtain ⟨-, -, rfl⟩ : _ ∧ _ ∧ index' = index := by simpa using hresult
  rw [indexPhase, full, if_neg Bool.false_ne_true] at hindex
  have hbefore : ∀ ks : Keyspace, ks.table.key ≠ Keyspace.read.table.key →
      cleared'.table? ks.table = server.table? ks.table := fun ks hks =>
    (hothers.table? hks).trans (table?_of_tables hprepared _)
  obtain ⟨dists, users, articles, grown, grown', hstandard, husers, harticles, rfl, hkeep, hfilled,
    hfilled'⟩ := filled_of_loadPopulation ((ready .user (by simp)).of_eq (hbefore .user key_ne.2.1))
      ((ready .article (by simp)).of_eq (hbefore .article key_ne.2.2)) hindex
  have hpopulation : s.population = .ok (users, articles, grown'.state.index) :=
    population_eq_ok.2 ⟨dists, grown, grown', hstandard, husers, harticles, rfl⟩
  obtain ⟨husers', harticles'⟩ := counts_of_population hpopulation
  refine ⟨⟨_, _, lists_of_filled hfilled hfilled', index_of_population hpopulation⟩, husers',
    harticles', ?_, ?_⟩
  · intro ks hks
    simp only [List.mem_cons, List.not_mem_nil, or_false] at hks
    rcases hks with rfl | rfl
    · obtain ⟨u, hu, hspec, -⟩ := hfilled
      exact ⟨u, hu, hspec⟩
    · obtain ⟨u, hu, hspec, -⟩ := hfilled'
      exact ⟨u, hu, hspec⟩
  · refine ⟨_, hkeep.trans hread, ?_, ?_⟩
    · split
      · rfl
      · exact vacant
    · intro htruncate
      rw [if_pos htruncate]
      rfl

/-- The next run finds what the run before has left, and leaves it there until it comes to the reads. -/
theorem beforeReads_resuming {other : Server} (calm : Calm session other)
    (populated : s.Populated server index) (alike : Alike other server) : ∃ before after,
      (s.resuming entropy).beforeReads session other = (.ok before, after) ∧ before.2.2 = index ∧
        Calm session after ∧ Alike after server := by
  obtain ⟨t, ht, vacant, hreset⟩ := populated.reads
  have hprepared := optimize_tables session true other
  have hcalm := (respects_optimize session true).keepsCalm.after calm (Run.liftState_apply _ _)
  have hfound : (optimize session true other).2.table? Keyspace.read.table = some t :=
    (table?_of_tables hprepared _).trans ((alike.table? _).trans ht)
  obtain ⟨cleared, hclears, hothers, hread⟩ := clearing_vacant s.config.truncate s.retry hcalm hfound vacant
  have hsame : (if s.config.truncate then Table.empty t.spec else t) = t := by
    split
    · rename_i hclear
      exact (hreset hclear).symm
    · rfl
  rw [hsame] at hread
  have hcleared : Alike cleared server := by
    intro key
    by_cases hkey : key = Keyspace.read.table.key
    · rw [hkey]
      exact hread.trans ht.symm
    · rw [hothers key hkey, hprepared]
      exact alike key
  have hclearedCalm := (respects_clearing _ session _ _).keepsCalm.after hcalm hclears
  obtain ⟨users, articles, hlists, rfl⟩ := populated.lists
  have hnext := hlists.of_eq (hcleared.table? Keyspace.user.table)
    (hcleared.table? Keyspace.article.table)
  obtain ⟨u, hu, hspec⟩ := populated.tables .user (by simp)
  obtain ⟨v, hv, hspec'⟩ := populated.tables .article (by simp)
  obtain ⟨after, hload, htables⟩ := load_of_lists hclearedCalm ((hcleared.table? _).trans hu) hspec
    ((hcleared.table? _).trans hv) hspec' hnext
  have hafter := (respects_load session).keepsCalm.after hclearedCalm hload
  refine ⟨(0, {}, ofEntries users articles), after, ?_, rfl, hafter, hcleared.of_tables htables rfl⟩
  rw [beforeReads, bind_apply, Run.liftState_apply]
  refine bind_apply_eq_ok.2 ⟨0, cleared, hclears, bind_apply_eq_ok.2 ⟨({}, _), after, ?_, rfl⟩⟩
  have hstored : (s.resuming entropy).config.readsOnly = true := rfl
  rw [indexPhase, if_pos hstored, bind_apply, hload]
  rfl

theorem exists_readSource (full : s.config.readsOnly = false) (some_users : 0 < s.config.users)
    (some_articles : 0 < s.config.articles) (index : ReferentialIndex) :
    ∃ source, s.readSource index = .ok source := by
  have husers : s.config.users.toNat ≠ 0 := (UInt64.lt_iff_toNat_lt.1 some_users).ne'
  have harticles : s.config.articles.toNat ≠ 0 := (UInt64.lt_iff_toNat_lt.1 some_articles).ne'
  unfold readSource
  rw [full]
  refine ⟨_, if_neg ?_⟩
  rintro ⟨-, hnone | hnone⟩
  · exact husers hnone
  · exact harticles hnone

/-- The reads of one run and those of the next, which starts from where they start. -/
theorem run_resuming {between : Server} {before : Nat × SeedReport × ReferentialIndex}
    (entropy : Random.Entropy) (seeded : s.config.rngSeed = some seed) (wet : s.config.dryRun = false)
    (full : s.config.readsOnly = false) (calm : Calm session server)
    (populated : s.Populated server before.2.2) (quiet : between.failures = [])
    (same : between.tables = server.tables) :
    Alike ((s.resuming entropy).run between).2 (s.readPhase session before server).2 ∧
      ((s.resuming entropy).run between).1.map SeedReport.aboutReads =
        (s.readPhase session before server).1.map SeedReport.aboutReads := by
  have hrun : (s.resuming entropy).run = Run.withSession (s.resuming entropy).runPhases :=
    (run_eq_withSession _).trans (if_neg (by simp [resuming, wet]))
  have hopened : Alike (Session.openNew between).2 server := by
    intro key
    rw [← same]
    rfl
  obtain ⟨before', after, hbefore, hindex, hcalm, halike⟩ :=
    beforeReads_resuming (calm_openNew quiet) populated hopened
  have hphases : (s.resuming entropy).runPhases (Session.openNew between).1 (Session.openNew between).2 =
      (s.resuming entropy).readPhase (Session.openNew between).1 before' after := by
    rw [runPhases_eq_readPhase, bind_apply, hbefore]
  have hsource : (s.resuming entropy).readSource before.2.2 = s.readSource before.2.2 :=
    readSource_resuming full populated.users populated.articles
  obtain ⟨hsame, hpaired⟩ := agree_loadReads s before.2.2 after server ⟨hcalm, calm, halike⟩
  obtain ⟨hreport, htables⟩ := readPhase_apply (s.resuming entropy) (Session.openNew between).1 before' after
  obtain ⟨hreport', htables'⟩ := readPhase_apply s session before server
  rw [hindex, loadReads_resuming seeded hsource] at hreport htables
  rw [hrun, Run.withSession_apply, hphases]
  refine ⟨hpaired.alike.of_tables ((Session.leave_tables _ _ _).trans htables) htables', ?_⟩
  rw [hreport, hreport', hsame]

/-- Seeding in two runs leaves the same tables as one run, and reports the same of the reads. Where one
run fails, so do two, in the same way. -/
theorem run_resumed (reachable : server.Reachable) (tables : HasTables server)
    (vacant : ∀ ks ∈ [Keyspace.user, .article, .read], server.rowCount ks.table = 0)
    (quiet : server.failures = []) (seeded : s.config.rngSeed = some seed)
    (some_users : 0 < s.config.users) (some_articles : 0 < s.config.articles)
    (wet : s.config.dryRun = false) (full : s.config.readsOnly = false)
    (entropy entropy' : Random.Entropy) :
    Alike (s.inTwoRuns entropy entropy' server).2 (s.run server).2 ∧
      (s.inTwoRuns entropy entropy' server).1.map SeedReport.aboutReads =
        (s.run server).1.map SeedReport.aboutReads := by
  have hwhole : s.run = Run.withSession s.runPhases := by
    rw [run_eq_withSession, wet, if_neg Bool.false_ne_true]
  have hfirst : (s.populating entropy).run = Run.withSession (s.populating entropy).runPhases :=
    (run_eq_withSession _).trans (if_neg (by simp [populating, wet]))
  have hopened : (Session.openNew server).2.tables = server.tables := rfl
  have hcalm := calm_openNew quiet
  rw [inTwoRuns, hwhole, bind_apply, hfirst, Run.withSession_apply, Run.withSession_apply,
    runPhases_eq_readPhase, runPhases_eq_readPhase, beforeReads_populating seeded, bind_apply, bind_apply]
  generalize (Session.openNew server).1 = session at hcalm ⊢
  generalize (Session.openNew server).2 = opened at hcalm hopened ⊢
  rcases hbefore : s.beforeReads session opened with ⟨halt | before, populated⟩
  · exact ⟨fun _ => rfl, rfl⟩
  dsimp only
  have hkept : Calm session populated := (respects_beforeReads s session).keepsCalm.after hcalm hbefore
  have hvacant : ∀ ks ∈ [Keyspace.user, .article, .read], ∃ t, opened.table? ks.table = some t ∧
      t.spec = ks.spec ∧ t.rows = #[] ∧ t.Sound := by
    intro ks hks
    obtain ⟨t, ht, hspec⟩ := tables ks hks
    have hcount := vacant ks hks
    rw [Server.rowCount, ht] at hcount
    exact ⟨t, (table?_of_tables hopened _).trans ht, hspec, Array.size_eq_zero_iff.1 hcount,
      reachable.sound _ _ ht⟩
  have ready : ∀ ks ∈ [Keyspace.user, .article], Ready s.config.truncate opened ks := by
    intro ks hks
    obtain ⟨t, ht, hspec, hrows, hsound⟩ := hvacant ks (by simp only [List.mem_cons] at hks ⊢; tauto)
    exact ⟨t, ht, hspec, .inr hrows, hsound⟩
  obtain ⟨t, ht, -, hrows, -⟩ := hvacant .read (by simp)
  have hpopulated := populated_of_beforeReads hcalm ready ht hrows full hbefore
  have hsource := exists_readSource full some_users some_articles before.2.2
  have hsource' : ∃ source, (s.populating entropy).readSource before.2.2 = .ok source :=
    exists_readSource (s := s.populating entropy) full some_users some_articles _
  by_cases hdeep : maxQueueDepth < s.config.readQueueDepth.toNat
  · simp only [readPhase, bind_apply, loadReads_deep hdeep hsource]
    have hstopped : (s.populating entropy).loadReads session before.2.2 populated =
        (.error .outOfRange, populated) := loadReads_deep hdeep hsource'
    rw [hstopped]
    exact ⟨fun _ => rfl, rfl⟩
  · obtain ⟨source, hsource'⟩ := hsource'
    have hdone : (s.populating entropy).loadReads session before.2.2 populated =
        (.ok ⟨0, 0, (s.populating entropy).readBatches⟩, populated) := loadReads_none hdeep rfl hsource'
    have hrestored := (respects_restore session).keepsCalm.after hkept (Run.liftState_apply _ _)
    have htables := restore_tables session populated
    have hsame := (Session.close_tables session _).trans htables
    have hquiet := (close_failures session _).trans hrestored.failures
    have hclosed := Session.leave_tables session (s.readPhase session before populated).1
      (s.readPhase session before populated).2
    obtain ⟨halike, hreport⟩ :=
      run_resuming entropy' seeded wet full hkept hpopulated hquiet hsame
    rw [readPhase, bind_apply, hdone]
    exact ⟨halike.of_tables rfl hclosed, hreport⟩

theorem run_resumed_samePair : Alike (samePair.inTwoRuns 0 1 vacant).2 (samePair.run vacant).2 ∧
    (samePair.inTwoRuns 0 1 vacant).1.toOption.map (fun report => (report.reads, report.readsAffected)) =
      some (2, 1) := by
  have hcounts : (samePair.run vacant).1.toOption.map
      (fun report => (report.reads, report.readsAffected)) = some (2, 1) := by
    -- The text of a statement takes long to read in the kernel.
    unfold run perform loadReads loadQueued loadInline
    rw [insertReads_eq]
    decide +kernel
  have reachable : vacant.Reachable := ⟨_, _, rfl⟩
  have empty : ∀ ks ∈ [Keyspace.user, .article, .read], vacant.rowCount ks.table = 0 := by decide
  obtain ⟨halike, hreports⟩ := run_resumed (s := samePair) reachable hasTables_vacant empty rfl
    rfl (by decide) (by decide) rfl rfl 0 1
  refine ⟨halike, ?_⟩
  rcases hone : (samePair.run vacant).1 with halt | report
  · rw [hone] at hcounts
    cases hcounts
  · rw [hone] at hcounts hreports
    rcases htwo : (samePair.inTwoRuns 0 1 vacant).1 with halt | report'
    · rw [htwo] at hreports
      cases hreports
    · rw [htwo] at hreports
      have hreport : report'.aboutReads = report.aboutReads := Except.ok.inj hreports
      have hreads := congrArg SeedReport.reads hreport
      have haffected := congrArg SeedReport.readsAffected hreport
      obtain ⟨hmade, hstored⟩ := Prod.mk.inj (Option.some.inj hcounts)
      exact congrArg some (Prod.ext (hreads.trans hmade) (haffected.trans hstored))

/-- The same reads, and nothing stored. -/
def samePairDry : Seeding := { samePair with config := { samePair.config with dryRun := true } }

/-- A dry run has nothing stored for its reads, so the second of two dry runs fails. -/
theorem not_resumed_dry : samePairDry.config.rngSeed = some 7 ∧ 0 < samePairDry.config.users ∧
    0 < samePairDry.config.articles ∧
    (samePairDry.run vacant).1.toOption.map (·.aboutReads.reads) = some 2 ∧
      (samePairDry.inTwoRuns 0 0 vacant).1.toOption.map (·.aboutReads.reads) = none := by
  refine ⟨rfl, by decide, by decide, by decide +kernel, by decide +kernel⟩

end Resumed

end Seeding
end ReadingBench
