import ReadingBench.Proofs.Ranking.Rebuilt
import ReadingBench.Proofs.Rollup.Again
import ReadingBench.Proofs.Rollup.Tallied
import ReadingBench.Proofs.Seeding.InOrder
import ReadingBench.Proofs.Seeding.Linked

namespace ReadingBench.Ranking

open Sql Store Outcome Server ReferentialIndex

section Scores

variable {articles reads stats : Table}

/-- What the rollup says of an article, as an entry of the counts. -/
def countOf (reads : Table) (article : Tuple) : String × Int64 :=
  ((Rollup.aidOf article).getD "", (UInt64.ofNat (Rollup.readCount reads article)).toInt64)

/-- The score of an article with these reads. -/
def scoreOf (reads : Table) (article : Tuple) : ArticleScore :=
  ⟨(countOf reads article).1, ((articleRow article).getDateTime? "timestamp").map (·.date),
    (countOf reads article).2⟩

theorem foldlM_addCount {xs rows : List Tuple} (h : List.Forall₂ (Rollup.Tallies reads) xs rows)
    (counts : Std.TreeMap String Int64) :
    (rows.map countRow).foldlM addCount counts = .ok (enter counts (xs.map (countOf reads))) := by
  induction h generalizing counts with
  | nil => rfl
  | @cons article row xs rows hrow _ ih =>
    obtain ⟨aid, haid, hname, hcount⟩ := hrow
    have hadd : addCount counts (countRow row) =
        .ok (counts.insert (countOf reads article).1 (countOf reads article).2) := by
      simp only [countRow, List.map_cons, List.map_nil, hname, hcount, countOf, haid]
      rfl
    rw [List.map_cons, List.foldlM_cons, hadd, ok_bind, ih]
    rfl

/-- The join finds the count of every article. -/
theorem scoresOf_tallied (h : Rollup.Tallied articles reads stats)
    (distinct : (articles.rows.toList.map Rollup.aidOf).Nodup) :
    scoresOf articles stats = .ok (articles.rows.toList.map (scoreOf reads)) := by
  have hkeys : ((articles.rows.toList.map (countOf reads)).map (·.1)).Nodup := by
    refine List.Nodup.of_map some ?_
    rw [List.map_map, List.map_map]
    refine (List.map_congr_left fun article harticle => ?_) ▸ distinct
    obtain ⟨aid, haid⟩ := h.exists_aid article harticle
    simp [countOf, haid]
  rw [scoresOf, foldlM_addCount h, ok_bind, mapM_eq_ok, List.forall₂_map_left_iff,
    List.forall₂_map_right_iff, List.forall₂_same]
  intro article harticle
  obtain ⟨aid, haid⟩ := h.exists_aid article harticle
  have hname : (articleRow article).requireText .article "aid" = .ok aid := Row.requireText_eq_ok_iff.2 haid
  have hentry : (aid, (countOf reads article).2) ∈ articles.rows.toList.map (countOf reads) :=
    List.mem_map.2 ⟨article, harticle, by simp [countOf, haid]⟩
  rw [score, hname, ok_bind, getElem?_enter (by simp) hkeys hentry, scoreOf]
  simp only [countOf, haid, Option.getD_some]
  rfl

end Scores

/-- A score has the name of an article and the number of its stored reads. -/
def Counted (reads : List Row) (article : Row) (score : ArticleScore) : Prop :=
  article.getText? "aid" = some score.aid ∧
    score.readNum.toInt = reads.countP fun read => read.getText? "aid" = some score.aid

/-- The reports, the stored rows and the scores tell of the same articles and the same reads. -/
structure Conserves (seeded : SeedReport) (rolled : RollupReport) (articles reads stats : List Row)
    (scores : List ArticleScore) : Prop where
  articles_eq : rolled.articles = seeded.articles
  length_stats : stats.length = rolled.articles
  reads_eq : rolled.reads = seeded.readsAffected
  sum_readNum : ∃ counts, stats.mapM (·.getInt? "readNum") = some counts ∧
    (counts.map Int64.toInt).sum = rolled.reads
  scores : List.Forall₂ (Counted reads) articles scores

section Rows

variable {articles reads stats : Table}

theorem mapM_readNum {xs rows : List Tuple} (h : List.Forall₂ (Rollup.Tallies reads) xs rows) :
    (rows.map fun row => (⟨Keyspace.beRead.spec.columns, row⟩ : Row)).mapM (·.getInt? "readNum") =
      some (xs.map fun article => (countOf reads article).2) := by
  induction h with
  | nil => rfl
  | @cons article row xs rows hrow _ ih =>
    obtain ⟨aid, -, -, hcount⟩ := hrow
    have hint : (Row.mk Keyspace.beRead.spec.columns row).getInt? "readNum" =
        some (countOf reads article).2 := by
      rw [Row.getInt?_eq (i := 3) row rfl]
      exact congrArg Value.asInt? hcount
    rw [List.map_cons, List.mapM_cons, hint, ih]
    rfl

theorem toInt_countOf {article : Tuple} (h : Rollup.readCount reads article < 2 ^ 63) :
    (countOf reads article).2.toInt = Rollup.readCount reads article := by
  rw [countOf, UInt64.toInt64_ofNat', Int64.toInt_ofNat_of_lt h]

theorem counted_scoreOf {article : Tuple} {aid : String} (haid : Rollup.aidOf article = some aid)
    (few : Rollup.readCount reads article < 2 ^ 63) :
    Counted (reads.rows.toList.map fun row => ⟨Keyspace.read.spec.columns, row⟩)
      ⟨Keyspace.article.spec.columns, article⟩ (scoreOf reads article) := by
  have hname : (scoreOf reads article).aid = aid := by simp [scoreOf, countOf, haid]
  have hcount : (scoreOf reads article).readNum.toInt = Rollup.readCount reads article := toInt_countOf few
  rw [Counted, hname, hcount, Rollup.readCount, haid, List.countP_map]
  refine ⟨(Row.getText?_eq (i := 1) article rfl).trans haid, ?_⟩
  refine congrArg Nat.cast (List.countP_congr fun row _ => ?_)
  rw [Function.comp_apply, Row.getText?_eq (i := 2) row rfl]
  rfl

theorem conserves_of_tallied {seedReport : SeedReport} {report : RollupReport}
    (hstats : stats.spec = Keyspace.beRead.spec) (harticles : articles.spec = Keyspace.article.spec)
    (hreads : reads.spec = Keyspace.read.spec) (tallied : Rollup.Tallied articles reads stats)
    (few : ∀ article ∈ articles.rows.toList, Rollup.readCount reads article < 2 ^ 63)
    (articles_eq : report.articles = articles.rows.size) (seeded_eq : seedReport.articles = articles.rows.size)
    (reads_eq : report.reads = (articles.rows.toList.map (Rollup.readCount reads)).sum)
    (affected_eq : report.reads = seedReport.readsAffected) :
    Conserves seedReport report (articles.rows.toList.map fun row => ⟨articles.spec.columns, row⟩)
      (reads.rows.toList.map fun row => ⟨reads.spec.columns, row⟩)
      (stats.rows.toList.map fun row => ⟨stats.spec.columns, row⟩)
      (articles.rows.toList.map (scoreOf reads)) where
  articles_eq := articles_eq.trans seeded_eq.symm
  length_stats := by
    rw [List.length_map, ← tallied.length_eq, Array.length_toList, articles_eq]
  reads_eq := affected_eq
  sum_readNum := by
    refine ⟨_, hstats ▸ mapM_readNum tallied, ?_⟩
    rw [List.map_map, reads_eq, Nat.cast_list_sum, List.map_map]
    exact congrArg List.sum (List.map_congr_left fun article harticle => toInt_countOf (few article harticle))
  scores := by
    rw [List.forall₂_map_left_iff, List.forall₂_map_right_iff, List.forall₂_same, harticles, hreads]
    intro article harticle
    obtain ⟨aid, haid⟩ := tallied.exists_aid article harticle
    exact counted_scoreOf haid (few article harticle)

end Rows

section Linked

variable {g : Generated} {articles reads : Table}

theorem map_aidOf_linked (harticles : articles.rows.toList = g.articles.map Article.toRow) :
    articles.rows.toList.map Rollup.aidOf = (g.articles.map (·.aid)).map some := by
  rw [harticles, List.map_map, List.map_map]
  rfl

theorem readAid_mem_linked (linked : g.Linked) (harticles : articles.rows.toList = g.articles.map Article.toRow)
    (hreads : reads.rows.toList = (Read.firsts g.reads).map Read.storedRow) :
    ∀ row ∈ reads.rows.toList, Rollup.readAid row ∈ articles.rows.toList.map Rollup.aidOf := by
  rw [map_aidOf_linked harticles, hreads]
  refine List.forall_mem_map.2 fun read hread => ?_
  have haid := linked.aid_mem read ((Read.firsts_sublist g.reads).mem hread)
  exact List.mem_map_of_mem (f := some) haid

theorem readCount_lt_linked (linked : g.Linked) (harticles : articles.rows.toList = g.articles.map Article.toRow)
    (hreads : reads.rows.toList = (Read.firsts g.reads).map Read.storedRow) :
    ∀ article ∈ articles.rows.toList, Rollup.readCount reads article < 2 ^ 63 := by
  rw [harticles]
  refine List.forall_mem_map.2 fun article _ => ?_
  rw [Rollup.readCount, hreads, List.countP_map]
  refine lt_of_eq_of_lt (List.countP_congr fun read _ => ?_) (linked.countP_lt article.aid)
  have hread : Rollup.readAid read.storedRow = some read.aid := rfl
  have harticle : Rollup.aidOf article.toRow = some article.aid := rfl
  simp [hread, harticle]

end Linked

section Run

variable {s : Seeding} {rollup : RollupConfig} {ranking : RankConfig} {today : Date}
  {server seeded rolled ranked : Server} {seedReport : SeedReport} {report : RollupReport} {n : Nat}

/-- The tables of the later stages stay as they are. -/
theorem spared_of_run (wet : s.config.dryRun = false) (full : s.config.readsOnly = false)
    (h : s.run server = (.ok seedReport, seeded)) :
    ∀ ks ∈ [Keyspace.beRead, .popularRank], seeded.table? ks.table = server.table? ks.table := by
  intro ks hks
  have hkeys : ∀ loaded ∈ [Keyspace.user, .article, .read], loaded.table.key ≠ ks.table.key := by
    simp only [List.mem_cons, List.not_mem_nil, or_false] at hks
    rcases hks with rfl | rfl <;> decide
  have hkept := Seeding.run_spares wet full hkeys server
  rw [h] at hkept
  exact hkept

theorem others_of_run (standard : ∃ t, rolled.table? Keyspace.popularRank.table = some t ∧
    t.spec = Keyspace.popularRank.spec) (quiet : rolled.failures = []) {articles stats : Table}
    (sources : HasSources rolled articles stats) (h : run ranking today rolled = (.ok n, ranked)) :
    SameBut Keyspace.popularRank.table rolled ranked := by
  obtain ⟨t, ht, hspec⟩ := standard
  obtain ⟨next, hnext, hleft⟩ := run_eq ranking today quiet sources ht hspec
  rw [h] at hnext
  rcases hranks : ranksOf ranking today articles stats with halt | ranks
  · rw [hranks] at hnext
    cases (Prod.mk.inj hnext).1
  · rw [hranks] at hleft
    obtain ⟨-, rfl⟩ := Prod.mk.inj hnext
    exact Replaced.others hleft

/-- From empty tables, a full run, a rollup and a ranking that succeed conserve what was made: articles and
reads are as many in the reports, in the tables and in the scores. -/
theorem run_conserves (reachable : server.Reachable) (standard : Standard server)
    (vacant : ∀ ks : Keyspace, server.rowCount ks.table = 0) (wet : s.config.dryRun = false)
    (full : s.config.readsOnly = false) (hseed : s.run server = (.ok seedReport, seeded))
    (hrollup : Rollup.run rollup seeded = (.ok report, rolled))
    (hranking : run ranking today rolled = (.ok n, ranked)) :
    ∃ articles reads stats scores, ranked.rows Keyspace.article.table = .ok articles ∧
      ranked.rows Keyspace.read.table = .ok reads ∧ ranked.rows Keyspace.beRead.table = .ok stats ∧
      (loadScores ranked).1 = .ok scores ∧ Conserves seedReport report articles reads stats scores := by
  obtain ⟨g, -, linked, ⟨articles, harticles, hspec, hrows⟩, ⟨reads, hreads, hspec', hrows'⟩, hmade,
    haffected⟩ := Seeding.linked_of_run reachable (fun ks _ => standard ks) (fun ks _ => vacant ks) wet full
      hseed
  have hsize : articles.rows.size = g.articles.length := by
    rw [← Array.length_toList, hrows, List.length_map]
  have hsize' : reads.rows.size = (Read.firsts g.reads).length := by
    rw [← Array.length_toList, hrows', List.length_map]
  have distinct : (articles.rows.toList.map Rollup.aidOf).Nodup := by
    rw [map_aidOf_linked hrows]
    exact linked.aids.map (Option.some_injective _)
  -- The rollup starts from an empty table.
  have hspared := spared_of_run wet full hseed
  obtain ⟨before, hbefore, hspecBefore⟩ := standard .beRead
  have empty := vacant .beRead
  rw [Server.rowCount, hbefore] at empty
  have sound : before.Sound := reachable.sound _ _ hbefore
  have tables : Rollup.HasTables seeded articles reads before :=
    ⟨harticles, hreads, (hspared .beRead (by simp)).trans hbefore, hspec, hspec', hspecBefore⟩
  obtain ⟨hothers, hcounted, htotal, stats, hstats, hspecStats, tallied⟩ :=
    Rollup.tallied_run tables sound empty distinct (hsize ▸ linked.articles_lt) hrollup
  have quiet : seeded.failures = [] :=
    ((Rollup.run_isOk_iff rollup tables sound).1 ⟨report, by rw [hrollup]⟩).1
  have quietRolled := (Rollup.respects_run rollup).quiet quiet
  rw [hrollup] at quietRolled
  -- The ranking leaves all tables but its own.
  have sources : HasSources rolled articles stats :=
    ⟨(hothers _ (by decide)).trans harticles, hstats, hspec, hspecStats⟩
  obtain ⟨ranks, hranks, hspecRanks⟩ := standard .popularRank
  have hkept : ∀ ks : Keyspace, ks.table.key ≠ Keyspace.popularRank.table.key →
      ranked.table? ks.table = rolled.table? ks.table := fun ks =>
    (others_of_run ⟨ranks, (hothers _ (by decide)).trans ((hspared .popularRank (by simp)).trans hranks),
      hspecRanks⟩ quietRolled sources hranking).table?
  have quietRanked := (respects_run ranking today).quiet quietRolled
  rw [hranking] at quietRanked
  have sourcesRanked := sources.of_eq (hkept .article (by decide)) (hkept .beRead (by decide))
  have hreadsRanked : ranked.table? Keyspace.read.table = some reads :=
    (hkept .read (by decide)).trans ((hothers _ (by decide)).trans hreads)
  refine ⟨_, _, _, articles.rows.toList.map (scoreOf reads), ?_, ?_, ?_, ?_, conserves_of_tallied hspecStats
    hspec hspec' tallied (readCount_lt_linked linked hrows hrows') hcounted (hmade.trans hsize.symm) htotal ?_⟩
  · rw [Server.rows, sourcesRanked.articles_table]
  · rw [Server.rows, hreadsRanked]
  · rw [Server.rows, sourcesRanked.stats_table]
  · rw [loadScores_fst quietRanked sourcesRanked, scoresOf_tallied tallied distinct]
    rfl
  · rw [htotal, Rollup.sum_readCount distinct (readAid_mem_linked linked hrows hrows'), hsize', haffected]

/-- Two users, who read two articles three times. -/
def threeReads : Seeding where
  config := { users := 2, articles := 2, reads := 3, spreadDays := 1, rngSeed := some 7 }
  retry := {}
  entropy := 0
  budget := 50

theorem standard_vacant : Standard Seeding.vacant := fun ks => ⟨.empty ks.spec, by cases ks <;> rfl, rfl⟩

theorem run_conserves_threeReads : ∃ seedReport report n seeded rolled ranked articles reads stats scores,
    threeReads.run Seeding.vacant = (.ok seedReport, seeded) ∧
      Rollup.run ⟨1⟩ seeded = (.ok report, rolled) ∧
      run ⟨1⟩ defaultBaseTime.date rolled = (.ok n, ranked) ∧
      seedReport.articles = 2 ∧ seedReport.reads = 3 ∧ seedReport.readsAffected = 2 ∧ report.batches = 2 ∧
      ranked.rows Keyspace.article.table = .ok articles ∧ ranked.rows Keyspace.read.table = .ok reads ∧
      ranked.rows Keyspace.beRead.table = .ok stats ∧ (loadScores ranked).1 = .ok scores ∧
      Conserves seedReport report articles reads stats scores := by
  have hends :
      (threeReads.run Seeding.vacant).1.toOption.map (fun r => (r.articles, r.reads, r.readsAffected)) =
        some (2, 3, 2) ∧
      (Rollup.run ⟨1⟩ (threeReads.run Seeding.vacant).2).1.toOption.map (·.batches) = some 2 ∧
      (run ⟨1⟩ defaultBaseTime.date
        (Rollup.run ⟨1⟩ (threeReads.run Seeding.vacant).2).2).1.toOption.isSome := by
    -- The text of a statement takes long to read in the kernel.
    unfold Seeding.run Seeding.perform Seeding.loadReads Seeding.loadQueued Seeding.loadInline
    rw [Seeding.insertReads_eq]
    decide +kernel
  have reachable : Seeding.vacant.Reachable := ⟨_, _, rfl⟩
  have empty : ∀ ks : Keyspace, Seeding.vacant.rowCount ks.table = 0 := fun ks => by cases ks <;> rfl
  rcases hseed : threeReads.run Seeding.vacant with ⟨halt | seedReport, seeded⟩
  · rw [hseed] at hends
    cases hends.1
  rw [hseed] at hends
  rcases hrollup : Rollup.run ⟨1⟩ seeded with ⟨halt | report, rolled⟩
  · rw [hrollup] at hends
    cases hends.2.1
  rw [hrollup] at hends
  rcases hranking : run ⟨1⟩ defaultBaseTime.date rolled with ⟨halt | n, ranked⟩
  · rw [hranking] at hends
    cases hends.2.2
  obtain ⟨hmade, hbatches, -⟩ := hends
  obtain ⟨harticles, hreads⟩ := Prod.mk.inj (Option.some.inj hmade)
  obtain ⟨hreads, haffected⟩ := Prod.mk.inj hreads
  obtain ⟨articles, reads, stats, scores, hrows, hrows', hrows'', hscores, hconserves⟩ :=
    run_conserves reachable standard_vacant empty rfl rfl hseed hrollup hranking
  exact ⟨seedReport, report, n, seeded, rolled, ranked, articles, reads, stats, scores, rfl, hrollup,
    hranking, harticles, hreads, haffected, Option.some.inj hbatches, hrows, hrows', hrows'', hscores,
    hconserves⟩

end Run

end ReadingBench.Ranking
