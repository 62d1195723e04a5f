import ReadingBench.Proofs.Rollup.Run
import ReadingBench.Proofs.Store.UniqueKeys

namespace ReadingBench.Rollup

open Sql Store Outcome

/-- The server has the tables of articles, reads and rollups, each in its standard shape. -/
structure HasTables (server : Server) (articles reads stats : Table) : Prop where
  articles_table : server.table? Keyspace.article.table = some articles
  reads_table : server.table? Keyspace.read.table = some reads
  stats_table : server.table? Keyspace.beRead.table = some stats
  articles_spec : articles.spec = Keyspace.article.spec
  reads_spec : reads.spec = Keyspace.read.spec
  stats_spec : stats.spec = Keyspace.beRead.spec

/-- The aid has one row, and it shows the aid's reads. -/
def IsShown (reads stats : Table) (aid : String) : Prop :=
  statsAt stats aid = [(statsOf reads aid).values]

/-- What a run reports of its rollups. -/
def reportOf (config : RollupConfig) (bs : List BeRead) : RollupReport :=
  { articles := bs.length
    reads := (bs.flatMap (·.stats.readUids)).length
    batches := (chunks config.batchSize.toNat bs).length }

/-- A run that succeeds has upserted the rollups of all articles and nothing else. -/
theorem run_upserted {config : RollupConfig} {server next : Server} {articles reads before : Table}
    (htables : HasTables server articles reads before) {report : RollupReport}
    (h : run config server = (.ok report, next)) :
    (∀ row ∈ articles.rows.toList, Readable reads row) ∧
      reportOf config (rollups articles reads) = report ∧ SameOthers server next ∧
      ∃ after, next.table? Keyspace.beRead.table = some after ∧
        Upserted before (rollups articles reads) after := by
  rw [run_eq_withSession] at h
  obtain ⟨opened₁, last₁, hopened₁, hlast₁, hwork₁⟩ := Run.withSession_eq_ok h
  obtain ⟨opened₂, last₂, hopened₂, hlast₂, hwork₂⟩ := Run.withSession_eq_ok hwork₁
  obtain ⟨opened, last, hopened₃, hlast₃, hwork⟩ := Run.withSession_eq_ok hwork₂
  have hopened : opened.tables = server.tables := hopened₃.trans (hopened₂.trans hopened₁)
  have hlast : next.tables = last.tables := hlast₁.trans (hlast₂.trans hlast₃)
  have htable : ∀ ref, opened.table? ref = server.table? ref := fun ref => by
    rw [Server.table?, Server.table?, hopened]
  obtain ⟨bs, computed, hcompute, hrest⟩ := bind_apply_eq_ok.1 hwork
  obtain ⟨count, persisted, hpersist, hrest⟩ := bind_apply_eq_ok.1 hrest
  obtain ⟨rfl, rfl⟩ := pure_apply_eq_ok.1 hrest
  obtain ⟨hcomputed, hreadable, rfl⟩ := compute_eq_ok ((htable _).trans htables.articles_table)
    ((htable _).trans htables.reads_table) htables.articles_spec htables.reads_spec hcompute
  have hcomputedTable : ∀ ref, computed.table? ref = server.table? ref := fun ref => by
    rw [Server.table?, hcomputed, ← htable, Server.table?]
  obtain ⟨rfl, hothers, after, hafter, hupserted⟩ := persist_eq_ok htables.stats_spec
    ((hcomputedTable _).trans htables.stats_table) hpersist
  have hnext : ∀ ref, next.table? ref = persisted.table? ref := fun ref => by
    rw [Server.table?, Server.table?, hlast]
  exact ⟨hreadable, rfl, fun ref href => (hnext ref).trans ((hothers ref href).trans (hcomputedTable ref)),
    after, (hnext _).trans hafter, hupserted⟩

theorem run_eq_ok {config : RollupConfig} {server : Server} {articles reads before : Table}
    (htables : HasTables server articles reads before) {report : RollupReport}
    (hok : (run config server).1 = .ok report) :
    (∀ row ∈ articles.rows.toList, Readable reads row) ∧ reportOf config (rollups articles reads) = report ∧
      ∃ after, HasTables (run config server).2 articles reads after ∧
        Upserted before (rollups articles reads) after := by
  obtain ⟨next, hrun⟩ : ∃ next, run config server = (.ok report, next) := ⟨_, Prod.ext hok rfl⟩
  obtain ⟨hreadable, hreport, hothers, after, hafter, hupserted⟩ := run_upserted htables hrun
  rw [hrun]
  exact ⟨hreadable, hreport, after, ⟨(hothers _ (by decide)).trans htables.articles_table,
    (hothers _ (by decide)).trans htables.reads_table, hafter, htables.articles_spec, htables.reads_spec,
    hupserted.spec_eq.trans htables.stats_spec⟩, hupserted⟩

theorem rolled_run {config : RollupConfig} {server : Server} {articles reads before : Table}
    (htables : HasTables server articles reads before) (ht : before.Sound)
    (distinct : (articles.rows.toList.map aidOf).Nodup) (hsize : articles.rows.size < 2 ^ 64)
    {report : RollupReport} (hok : (run config server).1 = .ok report) :
    ∃ after, HasTables (run config server).2 articles reads after ∧
      Rolled before (rollups articles reads) after ∧ (rollups articles reads).Pairwise Apart ∧
      articles.rows.toList.map aidOf = (rollups articles reads).map fun b => some b.aid := by
  obtain ⟨hreadable, -, after, hafter, hupserted⟩ := run_eq_ok htables hok
  have haids := map_aidOf hreadable
  have apart := pairwise_rollups hsize haids distinct
  exact ⟨after, hafter, hupserted.rolled ht htables.stats_spec apart, apart, haids⟩

/-- A run serves all articles, that is, each has one row and this shows its reads, exactly where the
condition holds of the table before the run. -/
theorem isShown_iff_served (config : RollupConfig) {server : Server} (reachable : server.Reachable)
    {articles reads before : Table} (htables : HasTables server articles reads before)
    (distinct : (articles.rows.toList.map aidOf).Nodup) (hsize : articles.rows.size < 2 ^ 64)
    {report : RollupReport} (hok : (run config server).1 = .ok report) :
    ∃ after, HasTables (run config server).2 articles reads after ∧
      ((∀ row ∈ articles.rows, ∀ aid, aidOf row = some aid → IsShown reads after aid) ↔
        ∀ b ∈ rollups articles reads, Served before (rollups articles reads) b) := by
  have ht : before.Sound := reachable.sound Keyspace.beRead.table.key before htables.stats_table
  obtain ⟨after, hafter, hrolled, apart, haids⟩ := rolled_run htables ht distinct hsize hok
  refine ⟨after, hafter, ?_⟩
  have hstats : ∀ b ∈ rollups articles reads, b.stats = statsOf reads b.aid := by
    intro b hb
    obtain ⟨x, -, rfl⟩ := List.mem_map.1 hb
    rfl
  constructor
  · intro hshown b hb
    rw [← hrolled.statsAt_iff apart hb, hstats b hb]
    have hmem : some b.aid ∈ articles.rows.toList.map aidOf := haids ▸ List.mem_map_of_mem hb
    obtain ⟨row, hrow, haid⟩ := List.mem_map.1 hmem
    exact hshown row (Array.mem_toList_iff.1 hrow) b.aid haid
  · intro hserved row hrow aid haid
    have hmem : some aid ∈ (rollups articles reads).map fun b => some b.aid :=
      haids ▸ haid ▸ List.mem_map_of_mem (Array.mem_toList_iff.2 hrow)
    obtain ⟨b, hb, heq⟩ := List.mem_map.1 hmem
    obtain rfl := Option.some.inj heq
    rw [IsShown, ← hstats b hb, hrolled.statsAt_iff apart hb]
    exact hserved b hb

deriving instance DecidableEq for TableSpec

/-- An insert of some columns of a standard table. -/
def put (keyspace : Keyspace) (columns : List String) (rows : List (List Value)) : Operation :=
  .insert .root { table := keyspace.table, columns, rows }

/-- The standard tables with one article and one read of it, after further requests. -/
def oneArticle (ops : List Operation) : Server := (Server.empty Server.still).after
  (standardSpecs.map .define ++
    [put .article ["id", "aid"] [[.int 1, .text "a1"]],
      put .read ["id", "uid", "aid", "agreeOrNot"] [[.int 1, .text "u1", .text "a1", .int 1]]] ++ ops)

theorem hasTables_oneArticle (ops : List Operation) (aids : List (Option String))
    (harticles : ∃ t, (oneArticle ops).table? Keyspace.article.table = some t ∧
      t.spec = Keyspace.article.spec ∧ t.rows.toList.map aidOf = aids)
    (hreads : ∃ t, (oneArticle ops).table? Keyspace.read.table = some t ∧ t.spec = Keyspace.read.spec)
    (hstats : ∃ t, (oneArticle ops).table? Keyspace.beRead.table = some t ∧
      t.spec = Keyspace.beRead.spec) :
    ∃ articles reads stats, HasTables (oneArticle ops) articles reads stats ∧
      articles.rows.toList.map aidOf = aids := by
  obtain ⟨articles, hat, has, haids⟩ := harticles
  obtain ⟨reads, hrt, hrs⟩ := hreads
  obtain ⟨stats, hst, hss⟩ := hstats
  exact ⟨articles, reads, stats, ⟨hat, hrt, hst, has, hrs, hss⟩, haids⟩

theorem isShown_iff_served_first : ∃ articles reads before after,
    HasTables (oneArticle []) articles reads before ∧
      HasTables (run {} (oneArticle [])).2 articles reads after ∧
      ((∀ row ∈ articles.rows, ∀ aid, aidOf row = some aid → IsShown reads after aid) ↔
        ∀ b ∈ rollups articles reads, Served before (rollups articles reads) b) ∧
      IsShown reads after "a1" := by
  obtain ⟨articles, reads, before, htables, haids⟩ := hasTables_oneArticle [] [some "a1"]
    (by decide +kernel) (by decide +kernel) (by decide +kernel)
  obtain ⟨report, hok⟩ := exists_eq_ok (x := (run {} (oneArticle [])).1) (by decide +kernel)
  have hsize : articles.rows.size < 2 ^ 64 := by
    have hlength := congrArg List.length haids
    simp at hlength
    omega
  have distinct : (articles.rows.toList.map aidOf).Nodup := by rw [haids]; decide
  have reachable : (oneArticle []).Reachable := ⟨_, _, rfl⟩
  obtain ⟨after, hafter, hiff⟩ := isShown_iff_served {} reachable htables distinct hsize hok
  refine ⟨articles, reads, before, after, htables, hafter, hiff, ?_⟩
  have hempty : ((oneArticle []).table? Keyspace.beRead.table).map (·.rows.size) = some 0 := by
    decide +kernel
  rw [htables.stats_table, Option.map_some, Option.some.injEq] at hempty
  have hsound := reachable.sound Keyspace.beRead.table.key before htables.stats_table
  have hmem : some "a1" ∈ articles.rows.toList.map aidOf := by simp [haids]
  obtain ⟨row, hrow, haid⟩ := List.mem_map.1 hmem
  exact hiff.2 (fun b _ => served_of_empty hsound htables.stats_spec hempty _ b) row
    (Array.mem_toList_iff.1 hrow) "a1" haid

/-- An earlier run, over another article, has left its row. -/
def replaced : Server := oneArticle [.insert .root (upsert [⟨1, "a0", "", ⟨[], [], [], []⟩⟩])]

theorem not_isShown_replaced : replaced.Reachable ∧ ∃ articles reads before after report,
    HasTables replaced articles reads before ∧ articles.rows.toList.map aidOf = [some "a1"] ∧
      (run {} replaced).1 = .ok report ∧
      (run {} replaced).2.table? Keyspace.beRead.table = some after ∧ ¬IsShown reads after "a1" := by
  obtain ⟨articles, reads, before, htables, haids⟩ := hasTables_oneArticle
    [.insert .root (upsert [⟨1, "a0", "", ⟨[], [], [], []⟩⟩])] [some "a1"]
    (by decide +kernel) (by decide +kernel) (by decide +kernel)
  obtain ⟨report, hok⟩ := exists_eq_ok (x := (run {} replaced).1) (by decide +kernel)
  obtain ⟨after, hafter, hempty⟩ : ∃ after,
      (run {} replaced).2.table? Keyspace.beRead.table = some after ∧
        (statsAt after "a1").isEmpty := by
    decide +kernel
  refine ⟨⟨_, _, rfl⟩, articles, reads, before, after, report, htables, haids, hok, hafter, ?_⟩
  intro hshown
  rw [hshown] at hempty
  cases hempty

end ReadingBench.Rollup
