import ReadingBench.Proofs.Seeding.InOrder
import ReadingBench.Proofs.Seeding.Lasting
import ReadingBench.Proofs.Seeding.Linked
import ReadingBench.Proofs.Seeding.Predicted

namespace ReadingBench

open Sql Store Outcome Server ReferentialIndex

/-- A store with the standard tables, to which nothing has happened. -/
def Store.Server.fresh (clock : Nat → DateTime) : Server := ofSpecs clock standardSpecs

/-- Linked articles and reads are stored, and no rollup or ranking of them is. -/
structure Generated.Stocked (g : Generated) (server : Server) : Prop where
  linked : g.Linked
  articles : Seeding.Filled server .article (g.articles.map Article.toRow)
  reads : Seeding.Filled server .read ((Read.firsts g.reads).map Read.storedRow)
  derived : ∀ ks ∈ [Keyspace.beRead, .popularRank], server.table? ks.table = some (.empty ks.spec)
  quiet : server.failures = []

/-- No records. -/
def Generated.empty : Generated := ⟨[], [], []⟩

namespace Seeding

section Fresh

variable (clock : Nat → DateTime)

theorem table?_fresh (ks : Keyspace) : (fresh clock).table? ks.table = some (.empty ks.spec) := by
  cases ks <;> rfl

theorem reachable_fresh : (fresh clock).Reachable := ⟨clock, standardSpecs.map .define, rfl⟩

theorem hasTables_fresh : HasTables (fresh clock) := fun ks _ => ⟨_, table?_fresh clock ks, rfl⟩

theorem rowCount_fresh (ks : Keyspace) : (fresh clock).rowCount ks.table = 0 := by
  rw [rowCount, table?_fresh]
  rfl

theorem ready_fresh : ∀ ks ∈ [Keyspace.user, .article, .read], Ready false (fresh clock) ks :=
  ready_of_rowCount false (reachable_fresh clock) (hasTables_fresh clock) fun ks _ => rowCount_fresh clock ks

theorem linked_empty : Generated.empty.Linked where
  aids := List.nodup_nil
  uid_mem _ h := by cases h
  aid_mem _ h := by cases h
  users_lt := by decide
  articles_lt := by decide

theorem stocked_fresh : Generated.empty.Stocked (fresh clock) where
  linked := linked_empty
  articles := ⟨_, table?_fresh clock .article, rfl, rfl⟩
  reads := ⟨_, table?_fresh clock .read, rfl, rfl⟩
  derived ks _ := table?_fresh clock ks
  quiet := rfl

end Fresh

section Run

variable {s : Seeding} {clock : Nat → DateTime} {server next : Server} {report : SeedReport}

theorem stocked_of_run (wet : s.config.dryRun = false) (full : s.config.readsOnly = false)
    (h : s.run (fresh clock) = (.ok report, next)) : ∃ g, s.generated = .ok g ∧ g.Stocked next := by
  obtain ⟨g, hg, linked, articles, reads, -⟩ := linked_of_run (reachable_fresh clock) (hasTables_fresh clock)
    (fun ks _ => rowCount_fresh clock ks) wet full h
  have hquiet := s.respects_run.quiet (stocked_fresh clock).quiet
  rw [h] at hquiet
  refine ⟨g, hg, linked, articles, reads, fun ks hks => ?_, hquiet⟩
  have hkeys : ∀ ks ∈ [Keyspace.beRead, .popularRank], ∀ loaded ∈ [Keyspace.user, .article, .read],
      loaded.table.key ≠ ks.table.key := by decide
  have hspared := run_spares wet full (hkeys ks hks) (fresh clock)
  rw [h] at hspared
  exact hspared.trans (table?_fresh clock ks)

theorem beforeReads_vacant {session : Session} (stored : s.config.readsOnly = true)
    (calm : Calm session server)
    (vacant : ∀ ks ∈ [Keyspace.user, .article, .read], server.table? ks.table = some (.empty ks.spec)) :
    ∃ next, s.beforeReads session server = (.ok (0, {}, ofEntries [] []), next) ∧
      SameBut Keyspace.read.table server next ∧
      next.table? Keyspace.read.table = some (.empty Keyspace.read.spec) := by
  have hprepared := (respects_optimize session true).keepsCalm.after calm (Run.liftState_apply _ _)
  have htables := optimize_tables session true server
  obtain ⟨cleared, hclear, hothers, hfound⟩ := clearing_vacant s.config.truncate s.retry hprepared
    ((table?_of_tables htables _).trans (vacant .read (by simp))) rfl
  have hcleared := (respects_clearing s.config.truncate session _ s.retry).keepsCalm.after hprepared hclear
  have hempty : ∀ ks ∈ [Keyspace.user, .article], cleared.table? ks.table = some (.empty ks.spec) := by
    intro ks hks
    have hkeys : ∀ ks ∈ [Keyspace.user, .article], ks.table.key ≠ Keyspace.read.table.key := by decide
    exact (hothers.table? (hkeys ks hks)).trans ((table?_of_tables htables _).trans
      (vacant ks (by simp only [List.mem_cons] at hks ⊢; tauto)))
  have husers : Filled cleared .user (([] : List User).map User.toRow) := ⟨_, hempty .user (by simp), rfl, rfl⟩
  have harticles : Filled cleared .article (([] : List Article).map Article.toRow) :=
    ⟨_, hempty .article (by simp), rfl, rfl⟩
  obtain ⟨loaded, hload, hsame⟩ := load_of_lists hcleared (hempty .user (by simp)) rfl
    (hempty .article (by simp)) rfl (lists_of_filled husers harticles)
  have hindex : s.indexPhase session cleared = (.ok ({}, ofEntries [] []), loaded) := by
    rw [indexPhase, stored, if_pos rfl, bind_apply, hload]
    rfl
  refine ⟨loaded, ?_, ((SameBut.of_tables htables).trans hothers).trans (.of_tables hsame),
    (table?_of_tables hsame _).trans ?_⟩
  · rw [beforeReads, bind_apply, Run.liftState_apply]
    dsimp only
    rw [bind_apply, hclear]
    dsimp only
    rw [bind_apply, hindex]
    rfl
  · rw [hfound]
    exact congrArg some (ite_self _)

/-- No read can be of a user where there is none. -/
theorem run_of_nobody (clock : Nat → DateTime) (wet : s.config.dryRun = false) (stored : s.config.readsOnly = true)
    (asked : 0 < s.config.reads) : ∃ e, (s.run (fresh clock)).1 = .error (.failed e) := by
  have calm : Calm (Session.openNew (fresh clock)).1 (Session.openNew (fresh clock)).2 := calm_openNew rfl
  obtain ⟨next, hbefore, -⟩ := beforeReads_vacant stored calm fun ks _ => table?_fresh clock ks
  have hsource : s.readSource (ofEntries [] []) =
      .error (.failed (.config (.nobodyToRead s.config.reads.toNat 0 0))) := by
    rw [readSource, stored, if_pos rfl]
    exact if_pos ⟨asked, .inl rfl⟩
  refine ⟨.config (.nobodyToRead s.config.reads.toNat 0 0), ?_⟩
  rw [run_eq_withSession, wet, if_neg Bool.false_ne_true, Run.withSession_apply, runPhases_eq_readPhase, bind_apply, hbefore]
  dsimp only
  rw [readPhase, bind_apply, loadReads, bind_apply, hsource]
  rfl

/-- Without reads such a run does nothing. -/
theorem run_of_nothing (clock : Nat → DateTime) (wet : s.config.dryRun = false) (stored : s.config.readsOnly = true)
    (idle : s.config.reads = 0) (shallow : s.config.readQueueDepth.toNat ≤ maxQueueDepth) :
    ∃ report next, s.run (fresh clock) = (.ok report, next) ∧ Generated.empty.Stocked next := by
  have calm : Calm (Session.openNew (fresh clock)).1 (Session.openNew (fresh clock)).2 := calm_openNew rfl
  obtain ⟨before, hbefore, hothers, hread⟩ :=
    beforeReads_vacant stored calm fun ks _ => table?_fresh clock ks
  obtain ⟨source, hsource⟩ : ∃ source, s.readSource (ofEntries [] []) = .ok source := by
    refine ⟨_, if_neg fun h => ?_⟩
    rw [idle] at h
    exact absurd h.1 (by decide)
  have hloaded : s.loadReads (Session.openNew (fresh clock)).1 (ofEntries [] []) before =
      (.ok ⟨0, 0, s.readBatches⟩, before) := loadReads_none (not_lt.2 shallow) idle hsource
  have hdone : ∃ report next, s.run (fresh clock) = (.ok report, next) ∧ next.tables = before.tables := by
    rw [run_eq_withSession, wet, if_neg Bool.false_ne_true, Run.withSession_apply, runPhases_eq_readPhase, bind_apply, hbefore]
    dsimp only
    rw [readPhase, bind_apply, hloaded]
    dsimp only
    exact ⟨_, _, rfl, (Session.leave_tables _ _ _).trans (restore_tables _ _)⟩
  obtain ⟨report, next, hrun, htables⟩ := hdone
  have hkept : ∀ ks, ks ≠ Keyspace.read → next.table? ks.table = some (.empty ks.spec) := fun ks hks =>
    (table?_of_tables htables _).trans
      ((hothers.table? (key_injective.ne hks)).trans (table?_fresh clock ks))
  have hquiet := s.respects_run.quiet (stocked_fresh clock).quiet
  rw [hrun] at hquiet
  refine ⟨report, next, hrun, linked_empty, ⟨_, hkept .article (by decide), rfl, rfl⟩,
    ⟨_, (table?_of_tables htables _).trans hread, rfl, rfl⟩, fun ks hks => hkept ks ?_, hquiet⟩
  rintro rfl
  simp at hks

end Run

end Seeding
end ReadingBench
