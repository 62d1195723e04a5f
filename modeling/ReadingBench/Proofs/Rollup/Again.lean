import ReadingBench.Proofs.Rollup.Keyed
import ReadingBench.Proofs.Rollup.Settled
import ReadingBench.Proofs.Store.Bookkeeping
import ReadingBench.Proofs.Store.Calm

namespace ReadingBench.Rollup

open Sql Store Outcome Server

section Lasting

variable {R : Lasting}

theorem respects_ofArticle (session : Session) (id : Nat) (row : Row) :
    Respects R (ofArticle session id row) :=
  (respects_ofExcept _).bind fun aid => (respects_select session (readSelect aid)).ofAction.bind fun _ =>
    (respects_ofExcept _).bind fun _ => respects_pure _

theorem respects_compute (articles reads : Session) : Respects R (compute articles reads) :=
  (respects_select articles _).ofAction.bind fun _ => Respects.mapM (fun _ => respects_ofArticle reads _ _) _

theorem respects_persistBatch (sink : Session) (batch : List BeRead) :
    Respects R (persistBatch sink batch) :=
  (respects_insert sink _).ofAction.bind fun _ => (respects_commit sink).ofAction

theorem respects_persist (config : RollupConfig) (sink : Session) (rows : List BeRead) :
    Respects R (persist config sink rows) :=
  (Respects.forM (respects_persistBatch sink) _).bind fun _ => respects_pure _

theorem respects_run [R.Spans] (config : RollupConfig) : Respects R (run config) := by
  rw [run_eq_withSession]
  refine .withSession fun articles => .withSession fun reads => .withSession fun sink => ?_
  exact (respects_compute articles reads).bind fun rows =>
    (respects_persist config sink rows).bind fun _ => respects_pure _

open Opening in
theorem keepsBooks_perform (config : RollupConfig) : KeepsBooks (perform config) := by
  refine (keepsBooks_session .article).bind fun articles => (keepsBooks_session .read).bind fun reads => ?_
  refine (keepsBooks_session .beRead).bind fun sink => ?_
  refine (keepsBooks_ofRun (respects_compute articles reads)).bind fun rows => ?_
  exact (keepsBooks_ofRun (respects_persist config sink rows)).bind fun _ => keepsBooks_pure _

end Lasting

theorem ofArticle_of_readable {s : Session} {server : Server} {reads : Table} (calm : Calm s server)
    (hreads : server.table? Keyspace.read.table = some reads) (hspec : reads.spec = Keyspace.read.spec)
    {row : Tuple} (h : Readable reads row) (id : Nat) :
    ∃ next, ofArticle s id (articleRow row) server = (.ok (rollupOf reads id row), next) := by
  obtain ⟨aid, flags, haid, hflags⟩ := h
  have hselect := (calm.select (s := readSelect aid) hreads).trans (by rw [select_reads hspec])
  rw [rollupOf_eq haid hflags]
  refine ⟨_, bind_apply_eq_ok.2 ⟨aid, _, Run.ofExcept_eq_ok.2 ⟨?_, rfl⟩,
    bind_apply_eq_ok.2 ⟨_, _, Run.ofAction_eq_ok.2 hselect,
      bind_apply_eq_ok.2 ⟨flags, _, Run.ofExcept_eq_ok.2 ⟨hflags, rfl⟩, rfl⟩⟩⟩⟩
  exact Row.requireText_eq_ok_iff.2 haid

theorem compute_of_readable {s s' : Session} {server : Server} {articles reads : Table}
    (calm : Calm s server) (calm' : Calm s' server)
    (harticles : server.table? Keyspace.article.table = some articles)
    (hreads : server.table? Keyspace.read.table = some reads)
    (hspec : articles.spec = Keyspace.article.spec) (hspec' : reads.spec = Keyspace.read.spec)
    (readable : ∀ row ∈ articles.rows.toList, Readable reads row) :
    ∃ next, compute s s' server = (.ok (rollups articles reads), next) := by
  have hselect := (calm.select (s := articleSelect) harticles).trans (by rw [select_articles hspec])
  have hcalm := (respects_select s articleSelect).keepsCalm.after calm' hselect
  have hstep : ∀ x ∈ articles.rows.toList.zipIdx 1, ∀ last,
      Calm s' last ∧ last.table? Keyspace.read.table = some reads →
        ∃ next, ofArticle s' x.2 (articleRow x.1) last = (.ok (rollupOf reads x.2 x.1), next) ∧
          Calm s' next ∧ next.table? Keyspace.read.table = some reads := by
    rintro ⟨row, id⟩ hx last ⟨hlast, hfound⟩
    have hrow := readable row (List.fst_mem_of_mem_zipIdx hx)
    obtain ⟨next, hstep⟩ := ofArticle_of_readable hlast hfound hspec' hrow id
    have htables := (ofArticle_eq_ok hfound hspec' hstep).1
    exact ⟨next, hstep, (respects_ofArticle s' id _).keepsCalm.after hlast hstep,
      (table?_of_tables htables _).trans hfound⟩
  obtain ⟨next, hall, -⟩ := mapM_apply_of_ok hstep ⟨hcalm, hreads⟩
  refine ⟨next, bind_apply_eq_ok.2 ⟨_, _, Run.ofAction_eq_ok.2 hselect, ?_⟩⟩
  rw [List.zipIdx_map, List.mapM_map]
  exact hall

/-- A table of rollups takes every upsert. -/
theorem exists_insert_upsert {t : Table} (ht : t.Sound) (hspec : t.spec = Keyspace.beRead.spec)
    (batch : List BeRead) (now : DateTime) : ∃ r, t.insert now (upsert batch) = .ok r := by
  have hall : ∃ r, t.applyAll Keyspace.beRead.columns (.update Keyspace.updateColumns)
      (some ⟨11, .dateTime now⟩) (batch.map BeRead.toRow) = .ok r := by
    induction batch generalizing t with
    | nil => exact ⟨_, rfl⟩
    | cons b batch ih =>
      obtain ⟨⟨u, applied⟩, happly⟩ := exists_apply_upsert ht hspec b (.dateTime now)
      obtain ⟨r, hrest⟩ := ih (Table.sound_apply ht happly) ((Table.apply_frame happly).1.trans hspec)
      rw [List.map_cons, Table.applyAll_cons, happly, ok_bind]
      dsimp only
      rw [hrest]
      exact ⟨_, rfl⟩
  obtain ⟨r, hr⟩ := hall
  exact ⟨r, Table.insert_eq_ok.2 ⟨_, resolveStamp_upsert hspec now batch, hr⟩⟩

/-- The session can write to a table of rollups. -/
structure Writable (sink : Session) (server : Server) : Prop where
  calm : Calm sink server
  stats : ∃ t, server.table? Keyspace.beRead.table = some t ∧ t.Sound ∧ t.spec = Keyspace.beRead.spec

theorem Writable.accepts_batch {sink : Session} {server : Server} (h : Writable sink server)
    (batch : List BeRead) :
    ∃ next, persistBatch sink batch server = (.ok (), next) ∧ Writable sink next := by
  obtain ⟨calm, t, ht, sound, hspec⟩ := h
  obtain ⟨affected, inserted, hinsert⟩ := calm.insert ht (exists_insert_upsert sound hspec batch)
  obtain ⟨next, hcommit, -⟩ := ((respects_insert sink (upsert batch)).keepsCalm.after calm hinsert).commit
  have hbatch : persistBatch sink batch server = (.ok (), next) :=
    bind_apply_eq_ok.2 ⟨affected, inserted, Run.ofAction_eq_ok.2 hinsert, Run.ofAction_eq_ok.2 hcommit⟩
  obtain ⟨u, htables, hupserted⟩ := persistBatch_eq_ok hspec ht .nil hbatch
  exact ⟨next, hbatch, (respects_persistBatch sink batch).keepsCalm.after calm hbatch, u, table?_of_insert htables,
    hupserted.sound sound, hupserted.spec_eq.trans hspec⟩

theorem Writable.accepts {sink : Session} {server : Server} (h : Writable sink server)
    (config : RollupConfig) (bs : List BeRead) :
    ∃ next, persist config sink bs server = (.ok (chunks config.batchSize.toNat bs).length, next) := by
  have hstep : ∀ batch ∈ chunks config.batchSize.toNat bs, ∀ last, Writable sink last →
      ∃ next, persistBatch sink batch last = (.ok (), next) ∧ Writable sink next :=
    fun batch _ _ hlast => hlast.accepts_batch batch
  obtain ⟨next, hbatches, -⟩ := forM_apply_of_ok hstep h
  exact ⟨next, bind_apply_eq_ok.2 ⟨(), next, hbatches, rfl⟩⟩

/-- A run succeeds exactly where no failure waits and all that it reads is readable. -/
theorem run_isOk_iff (config : RollupConfig) {server : Server} {articles reads stats : Table}
    (tables : HasTables server articles reads stats) (sound : stats.Sound) :
    (∃ report, (run config server).1 = .ok report) ↔
      server.failures = [] ∧ ∀ row ∈ articles.rows.toList, Readable reads row := by
  let first := Session.openNew server
  let second := Session.openNew first.2
  let third := Session.openNew second.2
  constructor
  · rintro ⟨report, hok⟩
    refine ⟨?_, (run_eq_ok tables hok).1⟩
    rw [run_eq_withSession, Run.withSession_apply, Run.withSession_apply, Run.withSession_apply] at hok
    dsimp only at hok
    obtain ⟨bs, _, hcompute, -⟩ := bind_apply_eq_ok.1 (Prod.ext hok rfl)
    obtain ⟨fetched, _, hfetch, -⟩ := bind_apply_eq_ok.1 hcompute
    exact (Calm.of_select_eq_ok (Run.ofAction_eq_ok.1 hfetch)).failures
  · rintro ⟨quiet, readable⟩
    have hfirst : Calm first.1 first.2 := calm_openNew quiet
    have hsecond : Calm second.1 second.2 := calm_openNew hfirst.failures
    have hthird : Calm third.1 third.2 := calm_openNew hsecond.failures
    have harticles : third.2.table? Keyspace.article.table = some articles := tables.articles_table
    have hreads : third.2.table? Keyspace.read.table = some reads := tables.reads_table
    have hstats : third.2.table? Keyspace.beRead.table = some stats := tables.stats_table
    obtain ⟨computed, hcompute⟩ := compute_of_readable hfirst.openNew.openNew hsecond.openNew harticles hreads
      tables.articles_spec tables.reads_spec readable
    have hcomputed := (compute_eq_ok harticles hreads tables.articles_spec tables.reads_spec hcompute).1
    have writable : Writable third.1 computed := ⟨(respects_compute _ _).keepsCalm.after hthird hcompute, stats,
      (table?_of_tables hcomputed _).trans hstats, sound, tables.stats_spec⟩
    obtain ⟨persisted, hpersist⟩ := writable.accepts config (rollups articles reads)
    obtain ⟨next, hrun⟩ : ∃ next,
        run config server = (.ok (reportOf config (rollups articles reads)), next) := by
      rw [run_eq_withSession]
      refine Run.exists_withSession_eq_ok ?_
      refine Run.exists_withSession_eq_ok ?_
      refine Run.exists_withSession_eq_ok ?_
      exact ⟨persisted, bind_apply_eq_ok.2 ⟨_, _, hcompute, bind_apply_eq_ok.2 ⟨_, _, hpersist, rfl⟩⟩⟩
    exact ⟨_, by rw [hrun]⟩

/-- A run that succeeds succeeds again, with the same report, and changes no row of the rollups but for the
times. That is so at once, since no failure waits after it, and on any later server with the same tables. -/
theorem run_again (config : RollupConfig) {server : Server} (reachable : server.Reachable)
    {articles reads before : Table} (tables : HasTables server articles reads before)
    (hsize : articles.rows.size < 2 ^ 64) {report : RollupReport}
    (hok : (run config server).1 = .ok report) :
    (run config server).2.failures = [] ∧ ∃ after, HasTables (run config server).2 articles reads after ∧
      ∀ later : Server, later.failures = [] → HasTables later articles reads after →
        (run config later).1 = .ok report ∧ ∃ again, HasTables (run config later).2 articles reads again ∧
          again.rows.toList.map untimed = after.rows.toList.map untimed := by
  have sound : before.Sound := reachable.sound Keyspace.beRead.table.key before tables.stats_table
  have quiet : server.failures = [] := ((run_isOk_iff config tables sound).1 ⟨report, hok⟩).1
  obtain ⟨readable, hreport, after, hafter, hupserted⟩ := run_eq_ok tables hok
  have hsound := hupserted.sound sound
  have settled := hupserted.settled sound tables.stats_spec (nodup_ids reads hsize)
  refine ⟨(respects_run config).quiet quiet, after, hafter, fun later hquiet hlater => ?_⟩
  obtain ⟨report', hok'⟩ := (run_isOk_iff config hlater hsound).2 ⟨hquiet, readable⟩
  obtain ⟨-, hreport', again, hagain, hupserted'⟩ := run_eq_ok hlater hok'
  exact ⟨by rw [hok', ← hreport', hreport], again, hagain,
    settled.unchanged hsound hafter.stats_spec hupserted'⟩

/-- The one old row has the place of one article and the aid of another, which both take it. -/
def contested : Server := oneArticle
  [put .article ["id", "aid"] [[.int 2, .text "a2"]],
    .insert .root (upsert [⟨1, "a2", "", ⟨["u9"], [], [], []⟩⟩])]

theorem run_again_contested : ∃ articles reads after again report,
    (run {} contested).1 = .ok report ∧ HasTables (run {} contested).2 articles reads after ∧
      after.rows.size = 1 ∧ (run {} (run {} contested).2).1 = .ok report ∧
        HasTables (run {} (run {} contested).2).2 articles reads again ∧
          again.rows.toList.map untimed = after.rows.toList.map untimed := by
  obtain ⟨articles, reads, before, tables, haids⟩ := hasTables_oneArticle
    [put .article ["id", "aid"] [[.int 2, .text "a2"]],
      .insert .root (upsert [⟨1, "a2", "", ⟨["u9"], [], [], []⟩⟩])] [some "a1", some "a2"]
    (by decide +kernel) (by decide +kernel) (by decide +kernel)
  obtain ⟨report, hok⟩ := exists_eq_ok (x := (run {} contested).1) (by decide +kernel)
  have hsize : articles.rows.size < 2 ^ 64 := by
    have hlength := congrArg List.length haids
    simp at hlength
    omega
  have reachable : contested.Reachable := ⟨_, _, rfl⟩
  obtain ⟨quiet, after, hafter, hlater⟩ := run_again {} reachable tables hsize hok
  obtain ⟨hagain, again, hstats, hsame⟩ := hlater _ quiet hafter
  have hrows : ((run {} contested).2.table? Keyspace.beRead.table).map (·.rows.size) = some 1 := by
    decide +kernel
  rw [hafter.stats_table, Option.map_some, Option.some.injEq] at hrows
  exact ⟨articles, reads, after, again, report, hok, hafter, hrows, hagain, hstats, hsame⟩

end ReadingBench.Rollup
