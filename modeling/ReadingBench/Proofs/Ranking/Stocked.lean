import ReadingBench.Proofs.Ranking.Compute
import ReadingBench.Proofs.Ranking.Conserved
import ReadingBench.Proofs.Seeding.Stocked

namespace ReadingBench

open Sql Store Outcome Server

/-- The date is in buckets that begin and end within the calendar. -/
def Date.Bucketed (d : Date) : Prop :=
  ∀ g : Granularity, ∃ anchor edge, g.anchorOf? d = some anchor ∧ g.upperEdge? anchor = some edge

open Date

/-- At least thirty days from both ends of the calendar all buckets are within it. -/
theorem Date.Inner.bucketed {d : Date} (inner : d.Inner) : d.Bucketed := fun g => by
  obtain ⟨anchor, edge, hanchor, hspan⟩ := g.exists_anchorOf? inner
  exact ⟨anchor, edge, hanchor, hspan.upper⟩

namespace Granularity

variable {g : Granularity} {a x final : Date} {most : Nat}

/-- Weeks follow each other from Monday to Monday. -/
theorem monday_of_mem_anchorsFrom (monday : a.dayNumber % 7 = 0)
    (h : x ∈ weekly.anchorsFrom final most (some a)) : x.dayNumber % 7 = 0 ∧ x ≤ final := by
  induction most generalizing a with
  | zero => cases h
  | succ most ih =>
    rw [anchorsFrom] at h
    split at h
    · next hle =>
      rcases List.mem_cons.1 h with rfl | h
      · exact ⟨monday, hle⟩
      · cases hnext : weekly.nextAnchor? a with
        | none =>
          rw [hnext, anchorsFrom_none] at h
          cases h
        | some b =>
          rw [hnext] at h
          have hweek := addDays?_eq_some.1 hnext
          exact ih (by omega) h
    · cases h

/-- Where the bucket of the last date ends within the calendar, so do those before it. -/
theorem exists_edge_of_mem_anchorsFrom {d : Date} (hd : g.anchorOf? d = some a) (bucketed : final.Bucketed)
    (h : x ∈ g.anchorsFrom final most (some a)) : ∃ edge, g.upperEdge? x = some edge := by
  cases g with
  | daily => exact ⟨x, rfl⟩
  | monthly => exact ⟨_, rfl⟩
  | weekly =>
    obtain ⟨monday, edge, hmonday, hedge⟩ := bucketed weekly
    have hstart := weekStart?_eq_some.1 hmonday
    have hend := addDays?_eq_some.1 hedge
    have hfirst := weekStart?_eq_some.1 hd
    obtain ⟨hx, hle⟩ := monday_of_mem_anchorsFrom (by omega) h
    rw [le_def] at hle
    have hcalendar := x.first_le
    have hlast := edge.le_last
    obtain ⟨e, he, -⟩ := exists_dayNumber_eq (n := x.dayNumber + 6) (by omega) (by omega)
    exact ⟨e, he⟩

theorem exists_anchors? {initial : Date} (bucketed : initial.Bucketed) (bucketed' : final.Bucketed) :
    ∃ anchors, g.anchors? initial final = some anchors ∧
      ∀ x ∈ anchors, ∃ edge, g.upperEdge? x = some edge := by
  unfold anchors?
  split
  · exact ⟨[], rfl, fun x hx => by cases hx⟩
  · obtain ⟨a, -, ha, -⟩ := bucketed g
    rw [ha]
    exact ⟨_, rfl, fun x hx => exists_edge_of_mem_anchorsFrom ha bucketed' hx⟩

end Granularity

namespace Ranking

/-- The ranking is made where all articles with a date, or today if there is none, are in buckets within
the calendar. -/
theorem exists_compute? (config : RankConfig) {today : Date} {articles : List ArticleScore}
    (dated : ∀ a ∈ articles, ∀ d ∈ a.date, d.Bucketed)
    (undated : articles ≠ [] → (∀ a ∈ articles, a.date = none) → today.Bucketed) :
    ∃ ranks, compute? config articles today = some ranks := by
  by_cases present : articles = []
  · exact ⟨[], by rw [present]; rfl⟩
  obtain ⟨initial, final, hpair, hrange⟩ := exists_spanned articles today
  obtain ⟨hinitial, hfinal⟩ := hrange.ends dated (undated present)
  choose anchors hanchors hedges using fun g : Granularity => g.exists_anchors? hinitial hfinal
  rw [compute?, if_neg (by simpa using present), buckets?_of_anchors hpair hanchors hedges]
  exact ⟨_, rfl⟩

section Stages

variable {g : Generated} {server : Server}

/-- An article with its reads can be rolled up. -/
theorem readable_stocked {reads : Table} (hreads : reads.rows.toList = (Read.firsts g.reads).map Read.storedRow)
    (article : Article) : Rollup.Readable reads article.toRow := by
  obtain ⟨flags, hflags⟩ : ∃ flags,
      ((Rollup.readsOf reads article.aid).map Rollup.readRow).mapM ReadFlags.ofRow = .ok flags := by
    refine exists_mapM_eq_ok (List.forall_mem_map.2 fun row hrow => ?_)
    have hmem := (List.mem_filter.1 hrow).1
    rw [hreads] at hmem
    obtain ⟨read, -, rfl⟩ := List.mem_map.1 hmem
    exact ⟨_, rfl⟩
  exact ⟨article.aid, flags, rfl, hflags⟩

/-- The articles are stored, each with its count of reads, and no ranking of them is. -/
structure Countable (g : Generated) (server : Server) : Prop where
  counted : ∃ articles reads stats, HasSources server articles stats ∧
    articles.rows.toList = g.articles.map Article.toRow ∧ Rollup.Tallied articles reads stats
  aids : (g.articles.map (·.aid)).Nodup
  ranks : server.table? Keyspace.popularRank.table = some (.empty Keyspace.popularRank.spec)
  quiet : server.failures = []

/-- Without articles there is nothing to count. -/
theorem countable_of_empty (stocked : Generated.empty.Stocked server) : Countable Generated.empty server where
  counted := by
    obtain ⟨articles, harticles, hspec, hrows⟩ := stocked.articles
    refine ⟨articles, articles, _, ⟨harticles, stocked.derived .beRead (by simp), hspec, rfl⟩, hrows, ?_⟩
    rw [Rollup.Tallied, hrows]
    exact .nil
  aids := List.nodup_nil
  ranks := stocked.derived .popularRank (by simp)
  quiet := stocked.quiet

theorem rollup_of_stocked (stocked : g.Stocked server) (config : RollupConfig) :
    ∃ report next, Rollup.run config server = (.ok report, next) ∧ Countable g next := by
  obtain ⟨articles, harticles, hspec, hrows⟩ := stocked.articles
  obtain ⟨reads, hreads, hspec', hrows'⟩ := stocked.reads
  have tables : Rollup.HasTables server articles reads _ :=
    ⟨harticles, hreads, stocked.derived .beRead (by simp), hspec, hspec', rfl⟩
  have sound := Table.sound_empty Keyspace.beRead.spec
  have readable : ∀ row ∈ articles.rows.toList, Rollup.Readable reads row := by
    rw [hrows]
    exact List.forall_mem_map.2 fun article _ => readable_stocked hrows' article
  obtain ⟨report, hok⟩ := (Rollup.run_isOk_iff config tables sound).2 ⟨stocked.quiet, readable⟩
  have hquiet := (Rollup.respects_run config).quiet stocked.quiet
  rcases hrun : Rollup.run config server with ⟨result, next⟩
  rw [hrun] at hok hquiet
  obtain rfl : result = .ok report := hok
  have distinct : (articles.rows.toList.map Rollup.aidOf).Nodup := by
    rw [map_aidOf_linked hrows]
    exact stocked.linked.aids.map (Option.some_injective _)
  have few : articles.rows.size < 2 ^ 64 := by
    rw [← Array.length_toList, hrows, List.length_map]
    exact stocked.linked.articles_lt
  obtain ⟨hothers, -, -, stats, hstats, hspecStats, tallied⟩ :=
    Rollup.tallied_run tables sound rfl distinct few hrun
  exact ⟨report, next, rfl, ⟨articles, reads, stats,
      ⟨(hothers _ (by decide)).trans harticles, hstats, hspec, hspecStats⟩, hrows, tallied⟩,
    stocked.linked.aids, (hothers _ (by decide)).trans (stocked.derived .popularRank (by simp)), hquiet⟩

theorem run_of_countable (countable : Countable g server) (config : RankConfig) (today : Date)
    (bucketed : ∀ article ∈ g.articles, article.timestamp.date.Bucketed) :
    ∃ n next, run config today server = (.ok n, next) := by
  obtain ⟨articles, reads, stats, sources, hrows, tallied⟩ := countable.counted
  have distinct : (articles.rows.toList.map Rollup.aidOf).Nodup := by
    rw [map_aidOf_linked hrows]
    exact countable.aids.map (Option.some_injective _)
  have hscores := scoresOf_tallied tallied distinct
  obtain ⟨ranks, hranks⟩ : ∃ ranks,
      compute? config (articles.rows.toList.map (scoreOf reads)) today = some ranks := by
    have hdate : ∀ a ∈ articles.rows.toList.map (scoreOf reads), ∃ d, a.date = some d ∧ d.Bucketed := by
      rw [hrows, List.map_map]
      exact List.forall_mem_map.2 fun article harticle => ⟨_, rfl, bucketed article harticle⟩
    refine exists_compute? config (fun a ha d hd => ?_) fun present hnone => ?_
    · obtain ⟨e, he, hbucketed⟩ := hdate a ha
      exact Option.some.inj (he.symm.trans hd) ▸ hbucketed
    · obtain ⟨a, ha⟩ := List.exists_mem_of_ne_nil _ present
      obtain ⟨d, hd, -⟩ := hdate a ha
      cases (hnone a ha).symm.trans hd
  obtain ⟨next, hrun, -⟩ := run_eq config today countable.quiet sources countable.ranks rfl
  have hok : ranksOf config today articles stats = .ok ranks := by
    rw [ranksOf, hscores]
    dsimp only
    rw [hranks]
  rw [hok] at hrun
  exact ⟨_, next, hrun⟩

end Stages

end Ranking
end ReadingBench
