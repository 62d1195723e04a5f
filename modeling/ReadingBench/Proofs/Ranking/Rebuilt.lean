import ReadingBench.Proofs.Ranking.Compute
import ReadingBench.Proofs.Ranking.Loaded
import ReadingBench.Proofs.Rollup.Keyed
import ReadingBench.Proofs.Store.Bookkeeping
import ReadingBench.Proofs.Store.Joined
import ReadingBench.Proofs.Store.Unmet

namespace ReadingBench.Ranking

open Sql Store Outcome Server

section Ids

variable {config : RankConfig} {articles : List ArticleScore} {today : Date}

theorem nodup_ids_of_compute? {ranks : List PopularRank} (h : compute? config articles today = some ranks) :
    (ranks.map (·.id)).Nodup := by
  rw [compute?] at h
  split at h
  · obtain rfl : [] = ranks := Option.some.inj h
    exact List.nodup_nil
  · obtain ⟨buckets, hbuckets, h⟩ := Option.map_eq_some_iff.1 h
    have hids := map_id_rowsOf (length_buckets?_lt hbuckets)
    rw [show rowsOf buckets = ranks from h] at hids
    have hnodup : ((ranks.map (·.id)).map UInt64.toNat).Nodup := by
      rw [List.map_map]
      exact hids ▸ List.nodup_range'
    exact hnodup.of_map _

end Ids

theorem keyOf_id (r : PopularRank) : Keyspace.popularRank.spec.keyOf r.toRow ["id"] =
    .ok (some (Value.ofUInt64 r.id).literal) :=
  TableSpec.keyOf_single (show Keyspace.popularRank.spec.position "id" = .ok 0 from rfl) _

theorem keysDiffer_of_id {r r' : PopularRank} (h : r.id ≠ r'.id) :
    Keyspace.popularRank.spec.KeysDiffer r.toRow r'.toRow := by
  intro key hkey k hk hk'
  obtain rfl : key = ["id"] := List.mem_singleton.1 hkey
  rw [keyOf_id, Except.ok.injEq, Option.some.injEq] at hk hk'
  exact h (Value.ofUInt64_literal (hk.trans hk'.symm))

theorem pairwise_keysDiffer {ranks : List PopularRank} (distinct : (ranks.map (·.id)).Nodup) :
    (ranks.map PopularRank.toRow).Pairwise Keyspace.popularRank.spec.KeysDiffer :=
  List.pairwise_map.2 ((List.pairwise_map.1 distinct).imp keysDiffer_of_id)

section Persist

variable {sink : Session} {server : Server} {ref : TableRef} {t : Table}

/-- After all rows of a table are deleted its indexes are empty as well. -/
theorem delete_all (calm : Calm sink server) (ht : server.table? ref = some t) :
    ∃ count next, sink.delete { table := ref } server = (.ok count, next) ∧ Calm sink next ∧
      SameBut ref server next ∧ next.table? ref = some (.empty t.spec) := by
  have hfound : (server.logged (Delete.sql { table := ref })).table? ref = some t := ht
  have hvacant : (t.dropFirst t.rows.size).reindex = .ok (.empty t.spec) := by
    have hrows : (t.dropFirst t.rows.size).rows = #[] := by simp [Table.dropFirst]
    rw [Table.reindex_eq, hrows]
    rfl
  have hkept := (respects_delete sink { table := ref }).keepsCalm server calm
  have hdelete : ∃ next, sink.delete { table := ref } server = (.ok t.rows.size, next) ∧ next.tables =
      (server.tables.insert ref.key (t.dropFirst t.rows.size)).insert ref.key (.empty t.spec) := by
    rw [Session.delete_eq, bind_apply, calm.receive]
    simp only [bind_apply, Action.table_apply, hfound, Option.getD_none, Nat.min_self,
      Action.setTable_apply, lift_apply, hvacant]
    exact ⟨_, rfl, rfl⟩
  obtain ⟨next, hdone, htables⟩ := hdelete
  rw [hdone] at hkept
  refine ⟨_, next, hdone, hkept, ?_, ?_⟩
  · intro key hkey
    rw [htables, Std.TreeMap.getElem?_insert, Std.TreeMap.getElem?_insert]
    simp [Ne.symm hkey]
  · rw [Server.table?, htables]
    simp

/-- Ranks with distinct ids can be stored whatever was stored before, and are then all that is. -/
theorem persist_calm (calm : Calm sink server) (ht : server.table? Keyspace.popularRank.table = some t)
    (hspec : t.spec = Keyspace.popularRank.spec) {ranks : List PopularRank}
    (distinct : (ranks.map (·.id)).Nodup) :
    ∃ u next, persist sink ranks server = (.ok (), next) ∧ Calm sink next ∧
      next.table? Keyspace.popularRank.table = some u ∧ u.spec = Keyspace.popularRank.spec ∧
        u.rows.toList = ranks.map PopularRank.toRow ∧ SameBut Keyspace.popularRank.table server next := by
  obtain ⟨count, cleared, hdelete, hcleared, hothers, hempty⟩ := delete_all calm ht
  rw [hspec] at hempty
  obtain ⟨u, hall, -, huspec, hrows⟩ := (Table.indexed_empty Keyspace.popularRank.spec).applyAll_unmet
    Keyspace.popularRank.columns .fail (ranks.map PopularRank.toRow)
    (List.forall_mem_map.2 fun _ _ => TableSpec.fullRow_self (by decide) rfl)
    (List.forall_mem_map.2 fun _ _ => ⟨_, rfl⟩) (pairwise_keysDiffer distinct)
  rw [← flatten_chunks insertChunk ranks] at hall
  obtain ⟨counts, stored, hforM, -, hstored, hu, hsame⟩ :=
    inserts_insert.mapM_accepts hcleared hempty hall
  obtain ⟨next, hcommit, htables⟩ := hstored.commit
  refine ⟨u, next, ?_, (respects_commit sink).keepsCalm.after hstored hcommit,
    (table?_of_tables htables _).trans hu, huspec, hrows, (hothers.trans hsame).trans (.of_tables htables)⟩
  refine bind_apply_eq_ok.2 ⟨count, cleared, Run.ofAction_eq_ok.2 hdelete,
    bind_apply_eq_ok.2 ⟨(), stored, ?_, Run.ofAction_eq_ok.2 hcommit⟩⟩
  exact (congrFun (forM_eq_mapM _ _) cleared).trans (bind_apply_eq_ok.2 ⟨counts, stored, hforM, rfl⟩)

end Persist

section Run

variable {R : Lasting} {config : RankConfig} {today : Date} {server next : Server} {articles stats before : Table}

/-- These ranks are all that is stored of a ranking, and nothing else has changed. -/
structure Replaced (server next : Server) (ranks : List PopularRank) : Prop where
  others : SameBut Keyspace.popularRank.table server next
  stored : ∃ t, next.table? Keyspace.popularRank.table = some t ∧ t.spec = Keyspace.popularRank.spec ∧
    t.rows.toList = ranks.map PopularRank.toRow

theorem Replaced.rows_eq {ranks : List PopularRank} (h : Replaced server next ranks) :
    next.rows Keyspace.popularRank.table =
      .ok (ranks.map fun r => ⟨Keyspace.popularRank.columns, r.toRow⟩) := by
  obtain ⟨t, ht, hspec, hrows⟩ := h.stored
  rw [Server.rows, ht]
  simp only [hspec, hrows, List.map_map]
  rfl

theorem respects_compute (config : RankConfig) (scores : List ArticleScore) (today : Date) :
    Respects R (compute config scores today) := by
  unfold compute
  cases compute? config scores today with
  | some ranks => exact respects_pure ranks
  | none => exact respects_throw _

theorem respects_persist (sink : Session) (ranks : List PopularRank) : Respects R (persist sink ranks) := by
  refine (respects_delete sink _).ofAction.bind fun _ => ?_
  refine (Respects.forM (fun batch => ?_) _).bind fun _ => (respects_commit sink).ofAction
  exact (respects_insert sink _).ofAction.bind fun _ => respects_pure _

open Opening in
/-- The three sessions of a run enclose its work. -/
theorem run_eq_withSession (config : RankConfig) (today : Date) : run config today =
    Run.withSession fun articles => Run.withSession fun beReads => Run.withSession fun sink => do
      let scores ← load articles beReads
      let ranks ← compute config scores today
      persist sink ranks
      return ranks.length := by
  refine (Brackets.session fun articles => .session fun beReads => .session fun sink => ?_).withSessions_eq
  refine Closes.brackets ((closes_ofRun _).bind fun scores => (closes_ofRun _).bind fun ranks => ?_)
  exact (closes_ofRun _).bind fun _ => closes_pure _

theorem respects_run [R.Spans] (config : RankConfig) (today : Date) : Respects R (run config today) := by
  rw [run_eq_withSession]
  refine .withSession fun articles => .withSession fun beReads => .withSession fun sink => ?_
  exact (respects_load articles beReads).bind fun scores =>
    (respects_compute config scores today).bind fun ranks =>
      (respects_persist sink ranks).bind fun _ => respects_pure _

open Opening in
theorem keepsBooks_perform (config : RankConfig) (today : Date) : KeepsBooks (perform config today) := by
  refine (keepsBooks_session .article).bind fun articles => (keepsBooks_session .beRead).bind fun beReads => ?_
  refine (keepsBooks_session .popularRank).bind fun sink => ?_
  refine (keepsBooks_ofRun (respects_load articles beReads)).bind fun scores => ?_
  refine (keepsBooks_ofRun (respects_compute config scores today)).bind fun ranks => ?_
  exact (keepsBooks_ofRun (respects_persist sink ranks)).bind fun _ => keepsBooks_pure _

/-- The ranking of what is stored, as far as it can be made. -/
def ranksOf (config : RankConfig) (today : Date) (articles stats : Table) : Except Halt (List PopularRank) :=
  match scoresOf articles stats with
  | .error e => .error (.failed e)
  | .ok scores =>
    match compute? config scores today with
    | some ranks => .ok ranks
    | none => .error .outOfRange

theorem ranksOf_eq_ok {ranks : List PopularRank} (h : ranksOf config today articles stats = .ok ranks) :
    ∃ scores, scoresOf articles stats = .ok scores ∧ compute? config scores today = some ranks := by
  unfold ranksOf at h
  rcases hscores : scoresOf articles stats with e | scores
  · rw [hscores] at h
    cases h
  · rw [hscores] at h
    dsimp only at h
    rcases hranks : compute? config scores today with _ | found
    · rw [hranks] at h
      cases h
    · rw [hranks] at h
      obtain rfl := Except.ok.inj h
      exact ⟨scores, rfl, hranks⟩

/-- A run stores the ranking of what is stored, or stops before it has changed a table. -/
theorem run_eq (config : RankConfig) (today : Date) (quiet : server.failures = [])
    (sources : HasSources server articles stats)
    (ht : server.table? Keyspace.popularRank.table = some before)
    (hspec : before.spec = Keyspace.popularRank.spec) : ∃ next,
    run config today server = ((ranksOf config today articles stats).map List.length, next) ∧
      match ranksOf config today articles stats with
      | .ok ranks => Replaced server next ranks
      | .error _ => next.tables = server.tables := by
  let first := Session.openNew server
  let second := Session.openNew first.2
  let third := Session.openNew second.2
  have hfirst : Calm first.1 first.2 := calm_openNew quiet
  have hsecond : Calm second.1 second.2 := calm_openNew hfirst.failures
  have hthird : Calm third.1 third.2 := calm_openNew hsecond.failures
  let ended (result : Except Halt Nat) (last : Server) : Server :=
    first.1.leave result (second.1.leave result (third.1.leave result last))
  have hclosed : ∀ result last, (ended result last).tables = last.tables := fun result last =>
    (Session.leave_tables _ _ _).trans ((Session.leave_tables _ _ _).trans (Session.leave_tables _ _ _))
  have hrun : ∀ result last, (do
      let scores ← load first.1 second.1
      let ranks ← compute config scores today
      persist third.1 ranks
      return ranks.length : Run Nat) third.2 = (result, last) →
        run config today server = (result, ended result last) := by
    intro result last hwork
    rw [run_eq_withSession, Run.withSession_apply, Run.withSession_apply, Run.withSession_apply]
    dsimp only
    rw [hwork]
  obtain ⟨loaded, hload, hsame⟩ := load_calm hfirst.openNew.openNew hsecond.openNew
    (sources.of_eq rfl rfl : HasSources third.2 articles stats)
  unfold ranksOf
  rcases hscores : scoresOf articles stats with e | scores
  · rw [hscores] at hload
    have hstop := hrun _ loaded (by rw [bind_apply, hload]; rfl)
    exact ⟨_, hstop, (hclosed _ loaded).trans hsame⟩
  rw [hscores] at hload
  dsimp only
  rcases hranks : compute? config scores today with _ | ranks
  · have hcompute : compute config scores today loaded = (.error .outOfRange, loaded) := by
      rw [compute, hranks]
      rfl
    have hstop := hrun _ loaded (by
      rw [bind_apply, hload]
      dsimp only [Except.mapError]
      rw [bind_apply, hcompute])
    exact ⟨_, hstop, (hclosed _ loaded).trans hsame⟩
  have hcompute : compute config scores today loaded = (.ok ranks, loaded) := by
    rw [compute, hranks]
    rfl
  obtain ⟨u, next, hpersist, -, hu, hspec', hrows, hothers⟩ := persist_calm
    ((respects_load _ _).keepsCalm.after hthird hload) ((table?_of_tables hsame _).trans ht) hspec
    (nodup_ids_of_compute? hranks)
  have hdone := hrun (.ok ranks.length) next (bind_apply_eq_ok.2 ⟨scores, loaded, hload,
    bind_apply_eq_ok.2 ⟨ranks, loaded, hcompute, bind_apply_eq_ok.2 ⟨(), next, hpersist, rfl⟩⟩⟩)
  refine ⟨_, hdone, ?_, u, ?_, hspec', hrows⟩
  · exact ((SameBut.of_tables hsame).trans hothers).trans (.of_tables (hclosed _ next))
  · exact (table?_of_tables (hclosed _ next) _).trans hu

/-- The server has all tables, each in its standard shape. -/
def Standard (server : Server) : Prop :=
  ∀ ks : Keyspace, ∃ t, server.table? ks.table = some t ∧ t.spec = ks.spec

/-- A run that succeeds leaves the ranking of what is stored in place of the one before, with every row of
it, and touches no other table; the next run leaves it as it is. A run that fails has changed no table. -/
theorem run_rebuilds (config : RankConfig) (today : Date) {server : Server} (standard : Standard server)
    (quiet : server.failures = []) :
    (∀ n next, run config today server = (.ok n, next) → ∃ scores ranks,
      (loadScores server).1 = .ok scores ∧ compute? config scores today = some ranks ∧
      ranks.length = n ∧
      next.rows Keyspace.popularRank.table =
        .ok (ranks.map fun r => ⟨Keyspace.popularRank.columns, r.toRow⟩) ∧
      SameBut Keyspace.popularRank.table server next ∧
      ∃ again, run config today next = (.ok n, again) ∧
        again.rows Keyspace.popularRank.table = next.rows Keyspace.popularRank.table ∧
        SameBut Keyspace.popularRank.table server again) ∧
    ∀ halt next, run config today server = (.error halt, next) → next.tables = server.tables := by
  obtain ⟨articles, harticles, hspec⟩ := standard .article
  obtain ⟨stats, hstats, hspec'⟩ := standard .beRead
  obtain ⟨before, ht, hspec''⟩ := standard .popularRank
  have sources : HasSources server articles stats := ⟨harticles, hstats, hspec, hspec'⟩
  obtain ⟨last, hrun, hleft⟩ := run_eq config today quiet sources ht hspec''
  rcases hranks : ranksOf config today articles stats with halt | ranks
  · rw [hranks] at hrun hleft
    refine ⟨fun n next hok => ?_, fun halt' next herror => ?_⟩
    · cases (Prod.mk.inj (hrun.symm.trans hok)).1
    · obtain ⟨-, rfl⟩ := Prod.mk.inj (hrun.symm.trans herror)
      exact hleft
  · have hquiet := (respects_run config today).quiet quiet
    rw [hranks] at hrun hleft
    rw [hrun] at hquiet
    replace hleft : Replaced server last ranks := hleft
    obtain ⟨after, hafter, hspecAfter, -⟩ := hleft.stored
    have hothers : ∀ ks : Keyspace, ks.table.key ≠ Keyspace.popularRank.table.key →
        last.table? ks.table = server.table? ks.table := fun ks => hleft.others.table?
    obtain ⟨again, hagain, hleft'⟩ := run_eq config today hquiet
      (sources.of_eq (hothers .article (by decide)) (hothers .beRead (by decide))) hafter hspecAfter
    rw [hranks] at hagain hleft'
    replace hleft' : Replaced last again ranks := hleft'
    obtain ⟨scores, hscores, hcompute⟩ := ranksOf_eq_ok hranks
    refine ⟨fun n next hok => ?_, fun halt next herror => ?_⟩
    · obtain ⟨hn, rfl⟩ := Prod.mk.inj (hrun.symm.trans hok)
      obtain rfl := Except.ok.inj hn
      refine ⟨scores, ranks, ?_, hcompute, rfl, hleft.rows_eq, hleft.others, again, hagain, ?_,
        hleft.others.trans hleft'.others⟩
      · rw [loadScores_fst quiet sources, hscores]
        rfl
      · rw [hleft'.rows_eq, hleft.rows_eq]
    · cases (Prod.mk.inj (hrun.symm.trans herror)).1

/-- A store with one article and with what is left of a ranking, under ids that the next one has too. -/
def outdated : Server := Rollup.oneArticle [Rollup.put .popularRank ["id"] [[.int 2], [.int 9]]]

theorem run_rebuilds_outdated : ∃ (next again : Server) (ranks : List PopularRank),
    run ⟨1⟩ defaultBaseTime.date outdated = (.ok 3, next) ∧ ranks.length = 3 ∧
      next.rows Keyspace.popularRank.table =
        .ok (ranks.map fun r => ⟨Keyspace.popularRank.columns, r.toRow⟩) ∧
      run ⟨1⟩ defaultBaseTime.date next = (.ok 3, again) ∧
        again.rows Keyspace.popularRank.table = next.rows Keyspace.popularRank.table := by
  have standard : Standard outdated := by
    intro ks
    cases ks <;> decide +kernel
  have quiet : outdated.failures = [] := List.isEmpty_iff.1 (by decide +kernel)
  have hdone : (run ⟨1⟩ defaultBaseTime.date outdated).1.toOption = some 3 := by decide +kernel
  rcases hrun : run ⟨1⟩ defaultBaseTime.date outdated with ⟨halt | n, next⟩
  · rw [hrun] at hdone
    cases hdone
  · rw [hrun] at hdone
    obtain rfl : n = 3 := Option.some.inj hdone
    obtain ⟨scores, ranks, -, -, hlength, hrows, -, again, hagain, hsame, -⟩ :=
      (run_rebuilds ⟨1⟩ defaultBaseTime.date standard quiet).1 3 next hrun
    exact ⟨next, again, ranks, rfl, hlength, hrows, hagain, hsame⟩

end Run

end ReadingBench.Ranking
