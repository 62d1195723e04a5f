import ReadingBench.Proofs.Population.Index
import ReadingBench.Proofs.Rollup.Upsert
import ReadingBench.Proofs.Store.Calm
import ReadingBench.Proofs.Store.Opening
import ReadingBench.Ranking

namespace ReadingBench.Ranking

open Sql Store Outcome Server

/-- A rollup as it is fetched. -/
def countRow (row : Tuple) : Row :=
  ⟨["aid", "readNum"], ["aid", "readNum"].map (Keyspace.beRead.cell row)⟩

/-- An article as it is fetched. -/
def articleRow (row : Tuple) : Row :=
  ⟨["aid", "timestamp"], ["aid", "timestamp"].map (Keyspace.article.cell row)⟩

/-- Adds the count of a rollup; a later one of the same article takes its place. -/
def addCount (counts : Std.TreeMap String Int64) (row : Row) : Except RunError (Std.TreeMap String Int64) := do
  let aid ← row.requireText .beRead "aid"
  return counts.insert aid ((row.getInt? "readNum").getD 0)

/-- The scores that the two tables hold. -/
def scoresOf (articles stats : Table) : Except RunError (List ArticleScore) := do
  let counts ← (stats.rows.toList.map countRow).foldlM addCount ∅
  (articles.rows.toList.map articleRow).mapM (score counts)

/-- Loads the scores with a session for each table. -/
def loadScores : Run (List ArticleScore) :=
  Run.withSession fun articles => Run.withSession fun beReads => load articles beReads

section Fetch

variable {articles stats : Table}

theorem select_counts (hspec : stats.spec = Keyspace.beRead.spec) :
    stats.select { table := Keyspace.beRead.table, columns := ["aid", "readNum"] } =
      .ok (stats.rows.toList.map countRow) := by
  have hpositions : ["aid", "readNum"].mapM stats.spec.position = .ok [1, 3] := by
    rw [hspec]
    rfl
  rw [Table.select_all hpositions]
  rfl

theorem select_articles (hspec : articles.spec = Keyspace.article.spec) :
    articles.select { table := Keyspace.article.table, columns := ["aid", "timestamp"] } =
      .ok (articles.rows.toList.map articleRow) := by
  have hpositions : ["aid", "timestamp"].mapM articles.spec.position = .ok [1, 2] := by
    rw [hspec]
    rfl
  rw [Table.select_all hpositions]
  rfl

end Fetch

/-- The server has the tables of articles and rollups, each in its standard shape. -/
structure HasSources (server : Server) (articles stats : Table) : Prop where
  articles_table : server.table? Keyspace.article.table = some articles
  stats_table : server.table? Keyspace.beRead.table = some stats
  articles_spec : articles.spec = Keyspace.article.spec
  stats_spec : stats.spec = Keyspace.beRead.spec

theorem HasSources.of_eq {server next : Server} {articles stats : Table}
    (h : HasSources server articles stats)
    (harticles : next.table? Keyspace.article.table = server.table? Keyspace.article.table)
    (hstats : next.table? Keyspace.beRead.table = server.table? Keyspace.beRead.table) :
    HasSources next articles stats :=
  ⟨harticles.trans h.articles_table, hstats.trans h.stats_table, h.articles_spec, h.stats_spec⟩

section Load

variable {R : Lasting} {s s' : Session} {server : Server} {articles stats : Table}

theorem ofExcept_apply {α : Type} (result : Except RunError α) (server : Server) :
    Run.ofExcept result server = (result.mapError .failed, server) := by
  cases result <;> rfl

theorem respects_loadCounts (beReads : Session) : Respects R (loadCounts beReads) :=
  (respects_select beReads _).ofAction.bind fun _ => respects_ofExcept _

theorem respects_load (articles beReads : Session) : Respects R (load articles beReads) :=
  (respects_loadCounts beReads).bind fun _ =>
    (respects_select articles _).ofAction.bind fun _ => respects_ofExcept _

theorem loadCounts_calm (calm : Calm s' server) (ht : server.table? Keyspace.beRead.table = some stats)
    (hspec : stats.spec = Keyspace.beRead.spec) : ∃ next, loadCounts s' server =
      (((stats.rows.toList.map countRow).foldlM addCount ∅).mapError .failed, next) ∧
        next.tables = server.tables := by
  have hselect := (calm.select (s := { table := Keyspace.beRead.table, columns := ["aid", "readNum"] })
    ht).trans (by rw [select_counts hspec])
  rw [loadCounts, bind_apply, Run.ofAction_eq_ok.2 hselect]
  exact ⟨_, ofExcept_apply _ _, rfl⟩

/-- In two open sessions, with no failure waiting, loading gives what the tables hold. -/
theorem load_calm (calm : Calm s server) (calm' : Calm s' server)
    (sources : HasSources server articles stats) : ∃ next,
      load s s' server = ((scoresOf articles stats).mapError .failed, next) ∧
        next.tables = server.tables := by
  obtain ⟨counted, hcounts, hsame⟩ := loadCounts_calm calm' sources.stats_table sources.stats_spec
  have hcalm := (respects_loadCounts s').keepsCalm.after calm hcounts
  have harticles := (table?_of_tables hsame _).trans sources.articles_table
  rw [load, bind_apply, hcounts, scoresOf]
  cases (stats.rows.toList.map countRow).foldlM addCount ∅ with
  | error e => exact ⟨counted, rfl, hsame⟩
  | ok counts =>
    have hselect := (hcalm.select harticles
      (s := { table := Keyspace.article.table, columns := ["aid", "timestamp"] })).trans
        (by rw [select_articles sources.articles_spec])
    dsimp only [Except.mapError]
    rw [bind_apply, Run.ofAction_eq_ok.2 hselect]
    exact ⟨_, ofExcept_apply _ _, hsame⟩

theorem loadScores_fst (quiet : server.failures = []) (sources : HasSources server articles stats) :
    (loadScores server).1 = (scoresOf articles stats).mapError .failed := by
  let first := Session.openNew server
  let second := Session.openNew first.2
  have hfirst : Calm first.1 first.2 := calm_openNew quiet
  have hsecond : Calm second.1 second.2 := calm_openNew hfirst.failures
  obtain ⟨next, hload, -⟩ := load_calm hfirst.openNew hsecond (sources.of_eq rfl rfl)
  rw [loadScores, Run.withSession_apply, Run.withSession_apply]
  exact congrArg Prod.fst hload

end Load

end ReadingBench.Ranking
