import ReadingBench.Proofs.Ranking.Rebuilt
import ReadingBench.Proofs.Rollup.Again
import ReadingBench.Proofs.Seeding.Lasting

namespace ReadingBench.Store

open Sql Server

/-- On any store, with any tables and any failures waiting, no run that comes back leaves a session
open: the count is as before, and to the sessions there were only closed ones have been added. -/
theorem runs_tidy {server : Server} (rooted : Rooted server) :
    (∀ (s : Seeding) result next, s.run server = (result, next) → Returned result → Tidied server next) ∧
      (∀ config result next, Rollup.run config server = (result, next) → Returned result →
        Tidied server next) ∧
      ∀ config today result next, Ranking.run config today server = (result, next) → Returned result →
        Tidied server next := by
  refine ⟨fun s result next hrun returned => ?_, fun config result next hrun returned => ?_,
    fun config today result next hrun returned => ?_⟩
  · unfold Seeding.run at hrun
    split at hrun
    · rw [lift_apply] at hrun
      obtain ⟨-, rfl⟩ := Prod.mk.inj hrun
      exact (Bookkept.start server).tidied
    · exact (Seeding.keepsBooks_perform s).tidied rooted hrun returned
  · exact (Rollup.keepsBooks_perform config).tidied rooted hrun returned
  · exact (Ranking.keepsBooks_perform config today).tidied rooted hrun returned

/-- A store with another session open, a table of articles that lacks most columns, no table of reads, and
a failure waiting. -/
def crippled : Server :=
  let articles : TableSpec := { table := Keyspace.article.table, columns := ["aid"], uniqueKeys := [] }
  (Session.openNew ((ofSpecs still [articles]).failNext (.server 1213 "deadlock"))).2

/-- A run that takes users and articles from the store. -/
def fromStored : Seeding where
  config := { readsOnly := true, truncate := true }
  retry := .immediate 1
  entropy := 0
  budget := 10

theorem runs_tidy_crippled : Rooted crippled ∧ crippled.openSessions = 1 ∧
    (Returned (fromStored.run crippled).1 ∧ Tidied crippled (fromStored.run crippled).2) ∧
      (Returned (Rollup.run {} crippled).1 ∧ Tidied crippled (Rollup.run {} crippled).2) ∧
        Returned (Ranking.run {} defaultBaseTime.date crippled).1 ∧
          Tidied crippled (Ranking.run {} defaultBaseTime.date crippled).2 := by
  have rooted : Rooted crippled := Reachable.rooted
    ⟨still, [.define { table := Keyspace.article.table, columns := ["aid"], uniqueKeys := [] },
      .failNext (.server 1213 "deadlock"), .openSession], rfl⟩
  obtain ⟨hseed, hroll, hrank⟩ := runs_tidy rooted
  have hseeds : Returned (fromStored.run crippled).1 := by decide +kernel
  have hrolls : Returned (Rollup.run {} crippled).1 := by decide +kernel
  have hranks : Returned (Ranking.run {} defaultBaseTime.date crippled).1 := by decide +kernel
  exact ⟨rooted, by decide +kernel, ⟨hseeds, hseed fromStored _ _ rfl hseeds⟩, ⟨hrolls, hroll {} _ _ rfl hrolls⟩,
    hranks, hrank {} defaultBaseTime.date _ _ rfl hranks⟩

end ReadingBench.Store
