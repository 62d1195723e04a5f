import ReadingBench.Proofs.Seeding.Inserted
import ReadingBench.Proofs.Seeding.Made

namespace ReadingBench.Seeding

open Sql Store Outcome Server

section Population

variable {σ ρ : Type} {session : Session} {ks : Keyspace} {toRow : ρ → Tuple} {source : Source σ ρ}
  {budget : Nat} {b : Batches σ} {server : Server}

/-- Loading a table without rows comes to what making the records comes to, if no two of them share a
key. -/
theorem loadTable_made {insert : Session → List ρ → Run Nat}
    (inserts : Inserts session ks.table ks.spec.columns .fail toRow (flush insert session))
    (full : ∀ r, ks.spec.fullRow ks.spec.columns (toRow r) = .ok (toRow r))
    (readable : ∀ r, ∃ keys, ks.spec.keysOf (toRow r) = .ok keys) (fresh : b.accepted = 0)
    (differ : ((b.all source budget).1.flatten.map toRow).Pairwise ks.spec.KeysDiffer)
    (calm : Calm session server) (ready : Ready false server ks) (clear : Bool) (policy : RetryPolicy) :
    ∃ next, loadTable session ks.table clear policy source insert budget b server =
        ((b.made source budget).map fun made => ⟨made.1, 0, made.2⟩, next) ∧
      SameBut ks.table server next := by
  obtain ⟨t, ht, hspec, vacant, sound⟩ := ready
  have hrows : t.rows = #[] := vacant.resolve_left Bool.false_ne_true
  obtain ⟨cleared, hclear, hothers, hfound⟩ := clearing_vacant clear policy calm ht hrows
  have hcleared := (respects_clearing clear session ks.table policy).keepsCalm.after calm hclear
  have hprepared := (respects_optimize session false).keepsCalm.after hcleared (Run.liftState_apply _ _)
  have htables := optimize_tables session false cleared
  obtain ⟨v, hv, hindexed, hvspec, hvrows⟩ : ∃ v, cleared.table? ks.table = some v ∧ v.Indexed ∧
      v.spec = ks.spec ∧ v.rows.toList = [] := by
    cases clear with
    | true => exact ⟨_, hfound, Table.indexed_empty _, hspec, rfl⟩
    | false => exact ⟨t, hfound, sound.indexed hrows, hspec, congrArg Array.toList hrows⟩
  obtain ⟨u, hall, -, -, -⟩ := hindexed.applyAll_unmet ks.spec.columns .fail
    ((b.all source budget).1.flatten.map toRow)
    (List.forall_mem_map.2 fun r _ => hvspec ▸ full r)
    (List.forall_mem_map.2 fun r _ => hvspec ▸ readable r)
    (by rw [hvspec, hvrows]; exact differ)
  obtain ⟨filled, hinsert, hsame⟩ :=
    insertMade_of_applyAll inserts hprepared ((table?_of_tables htables _).trans hv) hall
  have hothers' := (hothers.trans (.of_tables htables)).trans hsame
  rw [loadTable_eq_insertMade fresh, bind_apply, hclear]
  dsimp only
  rw [bind_apply, Run.liftState_apply]
  dsimp only
  rw [bind_apply, hinsert]
  rcases b.made source budget with halt | ⟨batches, last⟩
  · exact ⟨filled, rfl, hothers'⟩
  · exact ⟨_, rfl, hothers'.trans (.of_tables (restore_tables session filled))⟩

/-- The same in a session of its own. -/
theorem phase_made (ks : Keyspace) (insert : Session → List ρ → Run Nat)
    (inserts : ∀ session, Inserts session ks.table ks.spec.columns .fail toRow (flush insert session))
    (lasts : ∀ session batch, Respects staysQuiet (insert session batch))
    (full : ∀ r, ks.spec.fullRow ks.spec.columns (toRow r) = .ok (toRow r))
    (readable : ∀ r, ∃ keys, ks.spec.keysOf (toRow r) = .ok keys) (fresh : b.accepted = 0)
    (differ : ((b.all source budget).1.flatten.map toRow).Pairwise ks.spec.KeysDiffer)
    (quiet : server.failures = []) (ready : Ready false server ks) (clear : Bool) (policy : RetryPolicy) :
    ∃ next, Run.withSession (fun session =>
        loadTable session ks.table clear policy source insert budget b) server =
          ((b.made source budget).map fun made => ⟨made.1, 0, made.2⟩, next) ∧
      SameBut ks.table server next ∧ next.failures = [] := by
  have hopened : (Session.openNew server).2.tables = server.tables := rfl
  obtain ⟨next, hload, hothers⟩ := loadTable_made (inserts _) full readable fresh differ
    (calm_openNew quiet) (ready.of_eq (table?_of_tables hopened _)) clear policy
  have hquiet : (Run.withSession (fun session =>
      loadTable session ks.table clear policy source insert budget b) server).2.failures = [] :=
    (Respects.withSession fun session => respects_loadTable (lasts session) _ _ _ _ _).quiet quiet
  rw [Run.withSession_apply, hload] at hquiet ⊢
  exact ⟨_, rfl, hothers.trans (.of_tables (Session.leave_tables _ _ _)), hquiet⟩

end Population

section Phases

variable {s : Seeding} {session : Session} {index : ReferentialIndex} {server : Server}

theorem loadPopulation_made (quiet : server.failures = [])
    (ready : ∀ ks ∈ [Keyspace.user, .article], Ready false server ks) :
    ∃ next, s.loadPopulation server = (s.populated, next) ∧
      next.table? Keyspace.read.table = server.table? Keyspace.read.table := by
  unfold loadPopulation userPhase articlePhase populated
  rw [bind_apply, lift_apply]
  rcases Distributions.standard with halt | dists
  · exact ⟨server, rfl, rfl⟩
  obtain ⟨mid, husers, hothers, hquiet⟩ := phase_made .user insertUsers
    (fun _ => inserts_users) respects_insertUsers
    (fun _ => TableSpec.fullRow_self (by decide) rfl) (fun _ => ⟨_, rfl⟩) rfl (s.users_differ dists) quiet
    (ready .user (by simp)) s.config.truncate s.retry
  dsimp only
  rw [bind_apply, husers, ok_bind]
  rcases s.userBatches.made (s.userSource dists).offer s.budget with halt | ⟨userBatches, users⟩
  · exact ⟨mid, rfl, hothers.table? key_ne.2.1.symm⟩
  obtain ⟨last, harticles, hothers', -⟩ := phase_made .article insertArticles
    (fun _ => inserts_articles) respects_insertArticles
    (fun _ => TableSpec.fullRow_self (by decide) rfl) (fun _ => ⟨_, rfl⟩) rfl
    (s.articles_differ dists users.state.index) hquiet
    ((ready .article (by simp)).of_eq (hothers.table? key_ne.1.symm)) s.config.truncate s.retry
  have hread := (hothers'.table? key_ne.2.2.symm).trans (hothers.table? key_ne.2.1.symm)
  dsimp only [Except.map]
  rw [bind_apply, harticles, ok_bind]
  rcases (s.articleBatches users.state.index).made (s.articleSource dists).offer s.budget with
    halt | ⟨articleBatches, articles⟩
  · exact ⟨last, rfl, hread⟩
  · exact ⟨last, rfl, hread⟩

/-- With a queue, a worker that leaves the calendar is a failed task. -/
def readsHalt (s : Seeding) (halt : Halt) : Halt :=
  if s.config.readQueueDepth = 0 then halt else Queue.taskHalt halt

/-- Reads are stored or dropped, so their phase comes to what making them comes to. -/
theorem loadInline_made (calm : Calm session server) {t : Table}
    (ht : server.table? Keyspace.read.table = some t) (hspec : t.spec = Keyspace.read.spec)
    (source : ReadSource) : ∃ affected, (s.loadInline session source server).1 =
      (s.readBatches.made source.offer s.budget).map fun made => ⟨made.1, affected, made.2⟩ := by
  have hcolumns : t.spec.columns = Keyspace.read.columns := by
    rw [hspec]
    rfl
  obtain ⟨⟨u, n⟩, hall⟩ := Table.exists_applyAll_ignore t Keyspace.read.columns
    ((s.readBatches.all source.offer s.budget).1.flatten.map Read.storedRow)
    (List.forall_mem_map.2 fun r _ => hcolumns ▸
      TableSpec.fullRow_self (by rw [hspec]; decide) (by rw [hspec]; rfl))
    (List.forall_mem_map.2 fun r _ => ⟨_, by rw [hspec, Read.storedRow, TableSpec.keysOf_written]; rfl⟩)
  obtain ⟨filled, hinsert, -⟩ := insertMade_of_applyAll inserts_reads calm ht hall
  refine ⟨n, ?_⟩
  rw [loadInline_eq_insertMade, bind_apply, hinsert]
  cases s.readBatches.made source.offer s.budget <;> rfl

theorem readSource_eq_error {halt : Halt} (h : s.readSource index = .error halt) :
    s.readsHalt halt = halt := by
  unfold readSource at h
  generalize (if s.config.readsOnly = true then (index.userCount, index.articleCount)
    else (s.config.users.toNat, s.config.articles.toNat)) = counts at h
  dsimp only at h
  split at h
  · obtain rfl := Except.error.inj h
    exact ite_self _
  · cases h

theorem loadReads_made (index : ReferentialIndex) (shallow : s.config.readQueueDepth.toNat ≤ maxQueueDepth)
    (calm : Calm session server) {t : Table} (ht : server.table? Keyspace.read.table = some t)
    (hspec : t.spec = Keyspace.read.spec) : ∃ affected, (s.loadReads session index server).1 =
      match s.readsMade index with
      | .ok made => .ok ⟨made.1, affected, made.2⟩
      | .error halt => .error (s.readsHalt halt) := by
  unfold readsMade
  rw [loadReads, bind_apply, lift_apply]
  rcases hsource : s.readSource index with halt | source
  · exact ⟨0, congrArg Except.error (readSource_eq_error hsource).symm⟩
  obtain ⟨affected, hinline⟩ := loadInline_made (s := s) calm ht hspec source
  refine ⟨affected, ?_⟩
  rw [ok_bind]
  dsimp only
  by_cases hdepth : s.config.readQueueDepth = 0
  · rw [if_pos hdepth, hinline]
    rcases s.readBatches.made source.offer s.budget with halt | made
    · exact congrArg Except.error (if_pos hdepth).symm
    · rfl
  · rw [if_neg hdepth, loadQueued, if_neg (by omega)]
    rcases hloaded : s.loadInline session source server with ⟨result, next⟩
    rw [hloaded] at hinline
    obtain rfl : result = _ := hinline
    rcases s.readBatches.made source.offer s.budget with halt | made
    · cases halt <;> simp [Except.map, readsHalt, Queue.taskHalt, hdepth]
    · rfl

/-- What a run comes to on empty tables, as far as it is known before. -/
theorem runPhases_made (full : s.config.readsOnly = false)
    (shallow : s.config.readQueueDepth.toNat ≤ maxQueueDepth) (calm : Calm session server)
    (ready : ∀ ks ∈ [Keyspace.user, .article, .read], Ready false server ks) :
    ∃ affected, (s.runPhases session server).1 =
      match s.populated with
      | .error halt => .error halt
      | .ok (report, index) =>
        match s.readsMade index with
        | .ok made => .ok { report.withReads made with readsAffected := affected }
        | .error halt => .error (s.readsHalt halt) := by
  have hprepared := (respects_optimize session true).keepsCalm.after calm (Run.liftState_apply _ _)
  have htables := optimize_tables session true server
  obtain ⟨t, ht, hspec, vacant, -⟩ := ready .read (by simp)
  have hrows : t.rows = #[] := vacant.resolve_left Bool.false_ne_true
  obtain ⟨cleared, hclear, hothers, hfound⟩ := clearing_vacant s.config.truncate s.retry hprepared
    ((table?_of_tables htables _).trans ht) hrows
  have hcleared := (respects_clearing s.config.truncate session _ s.retry).keepsCalm.after hprepared hclear
  have hbefore : ∀ ks : Keyspace, ks.table.key ≠ Keyspace.read.table.key →
      cleared.table? ks.table = server.table? ks.table := fun ks hks =>
    (hothers.table? hks).trans (table?_of_tables htables _)
  have hready : ∀ ks ∈ [Keyspace.user, .article], Ready false cleared ks := by
    intro ks hks
    simp only [List.mem_cons, List.not_mem_nil, or_false] at hks
    rcases hks with rfl | rfl
    · exact (ready .user (by simp)).of_eq (hbefore .user key_ne.2.1)
    · exact (ready .article (by simp)).of_eq (hbefore .article key_ne.2.2)
  obtain ⟨populated, hpopulated, hkeep⟩ := loadPopulation_made (s := s) hcleared.failures hready
  have hcalm := (respects_loadPopulation s).keepsCalm.after hcleared hpopulated
  have hread : ∃ u, populated.table? Keyspace.read.table = some u ∧ u.spec = Keyspace.read.spec := by
    refine ⟨_, hkeep.trans hfound, ?_⟩
    split
    · exact hspec
    · exact hspec
  obtain ⟨u, hu, huspec⟩ := hread
  have hindex : s.indexPhase session cleared = (s.populated, populated) := by
    rw [indexPhase, full, if_neg Bool.false_ne_true]
    exact hpopulated
  rw [runPhases, bind_apply, Run.liftState_apply]
  dsimp only
  rw [bind_apply, hclear]
  dsimp only
  rw [bind_apply, hindex]
  rcases hmade : s.populated with halt | ⟨report, index⟩
  · exact ⟨0, rfl⟩
  dsimp only
  obtain ⟨affected, hloaded⟩ := loadReads_made index shallow hcalm hu huspec
  refine ⟨affected, ?_⟩
  rw [bind_apply]
  rcases hreads : s.loadReads session index populated with ⟨result, last⟩
  rw [hreads] at hloaded
  obtain rfl : result = _ := hloaded
  rcases s.readsMade index with halt | made
  · rfl
  · simp only [bind_apply, Run.liftState_apply, pure_apply, Nat.zero_add]
    rfl

end Phases

section Run

variable {s : Seeding} {seed : UInt64} {server : Server}

/-- The same run without storing, with random numbers from elsewhere if it has no seed. -/
def dry (s : Seeding) (entropy : Random.Entropy) : Seeding :=
  { s with config := { s.config with dryRun := true }, entropy }

/-- What a dry run says of the real one: its report, but for the number of reads that are stored, or the
halt that it ended with itself. Where it panicked over the reads a queue makes a failed task of that. -/
def Predicts (s : Seeding) (dry wet : Except Halt SeedReport) : Prop :=
  match dry with
  | .ok report => ∃ affected, wet = .ok { report with readsAffected := affected }
  | .error halt => wet = .error halt ∨
      halt = .outOfRange ∧ (∃ made, s.populated = .ok made) ∧ s.config.readQueueDepth ≠ 0 ∧
        wet = .error (.failed .task)

theorem predicts_run (tables : ∀ ks ∈ [Keyspace.user, .article, .read], Ready false server ks)
    (quiet : server.failures = []) (full : s.config.readsOnly = false) (wet : s.config.dryRun = false)
    (shallow : s.config.readQueueDepth.toNat ≤ maxQueueDepth) : s.Predicts s.dryRun (s.run server).1 := by
  have hopened : (Session.openNew server).2.tables = server.tables := rfl
  obtain ⟨affected, hphases⟩ := runPhases_made (s := s) full shallow (calm_openNew quiet)
    fun ks hks => (tables ks hks).of_eq (table?_of_tables hopened _)
  have hrun : (s.run server).1 =
      (s.runPhases (Session.openNew server).1 (Session.openNew server).2).1 := by
    rw [run_eq_withSession, if_neg (by rw [wet]; exact Bool.false_ne_true), Run.withSession_apply]
  rw [hrun, hphases, dryRun_eq full]
  unfold Predicts
  rcases s.populated with halt | ⟨report, index⟩
  · exact .inl rfl
  rw [ok_bind]
  dsimp only
  rcases s.readsMade index with halt | made
  · cases halt with
    | outOfRange =>
      by_cases hdepth : s.config.readQueueDepth = 0
      · exact .inl (by simp [readsHalt, hdepth])
      · exact .inr ⟨rfl, ⟨_, rfl⟩, hdepth, by simp [readsHalt, Queue.taskHalt, hdepth]⟩
    | failed e => exact .inl (congrArg Except.error (ite_self _))
    | unfinished => exact .inl (congrArg Except.error (ite_self _))
  · exact ⟨affected, rfl⟩

/-- Where a dry run succeeds the real one does. -/
theorem exists_run_of_dryRun (tables : ∀ ks ∈ [Keyspace.user, .article, .read], Ready false server ks)
    (quiet : server.failures = []) (full : s.config.readsOnly = false) (wet : s.config.dryRun = false)
    (shallow : s.config.readQueueDepth.toNat ≤ maxQueueDepth) {report : SeedReport}
    (h : s.dryRun = .ok report) : ∃ report next, s.run server = (.ok report, next) := by
  have hpredicts := predicts_run tables quiet full wet shallow
  rw [h] at hpredicts
  obtain ⟨affected, hwet⟩ := hpredicts
  exact ⟨_, _, Prod.ext hwet rfl⟩

/-- Where users or articles cannot be made both runs end as their making does. -/
theorem run_of_populated (tables : ∀ ks ∈ [Keyspace.user, .article, .read], Ready false server ks)
    (quiet : server.failures = []) (full : s.config.readsOnly = false) (wet : s.config.dryRun = false)
    (shallow : s.config.readQueueDepth.toNat ≤ maxQueueDepth) {halt : Halt}
    (h : s.populated = .error halt) : (s.run server).1 = .error halt := by
  have hpredicts := predicts_run tables quiet full wet shallow
  rw [dryRun_eq full, h] at hpredicts
  obtain hwet | ⟨-, ⟨made, hmade⟩, -⟩ := hpredicts
  · exact hwet
  · cases hmade.symm.trans h

end Run

end ReadingBench.Seeding
