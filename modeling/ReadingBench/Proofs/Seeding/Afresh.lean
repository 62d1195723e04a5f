import ReadingBench.Proofs.Seeding.InOrder
import ReadingBench.Proofs.Seeding.Resumed
import ReadingBench.Proofs.Store.Local

namespace ReadingBench

open Sql Store Outcome Server

namespace Seeding

section Clear

variable {session : Session} {ref : TableRef} {server : Server} {t : Table}

theorem delete_calm (calm : Calm session server) {d : Delete} (ht : server.table? d.table = some t)
    (sound : t.Sound) : ∃ count mid, session.delete d server = (.ok count, mid) :=
  ⟨_, _, Prod.ext (delete_fst sound calm.opened calm.failures ht) rfl⟩

theorem deleteChunk_calm (calm : Calm session server) (ht : server.table? ref = some t) (sound : t.Sound) :
    ∃ next u, deleteChunk session ref server = (.ok (min truncateChunk t.rows.size), next) ∧
      Trimmed ref t u server next ∧ u.rows.size = t.rows.size - min truncateChunk t.rows.size := by
  obtain ⟨count, mid, hdelete⟩ :=
    delete_calm calm (d := { table := ref, limit := some truncateChunk }) ht sound
  obtain ⟨u, hu, hcount⟩ := Session.trimmed_of_delete ht sound hdelete
  obtain ⟨hmin, hsize⟩ := hcount count rfl
  obtain ⟨next, hcommit, htables⟩ := ((respects_delete session _).keepsCalm.after calm hdelete).commit
  obtain rfl : count = min truncateChunk t.rows.size := hmin
  refine ⟨next, u, ?_, hu.trans (.of_tables hu.found hu.sound htables), hsize⟩
  rw [deleteChunk, bind_apply, hdelete]
  dsimp only
  rw [bind_apply, hcommit]
  rfl

/-- More chunks than rows remove all rows, and the last of them makes the indexes anew. -/
theorem deleteChunks_calm (policy : RetryPolicy) {most : Nat} (calm : Calm session server)
    (ht : server.table? ref = some t) (sound : t.Sound) (enough : t.rows.size < most) :
    ∃ next, deleteChunks session ref policy most server = (.ok t.rows.size, next) ∧
      Arrives session ref server next (.empty t.spec) := by
  induction most generalizing server t with
  | zero => exact absurd enough (Nat.not_lt_zero _)
  | succ most ih =>
    rw [deleteChunks, bind_apply]
    by_cases hvacant : t.rows = #[]
    · obtain ⟨next, hchunk, hothers, hfound⟩ := deleteChunk_vacant calm ht hvacant
      have hkept := (respects_deleteChunk session ref).keepsCalm.after calm hchunk
      rw [retrying_of_ok hchunk, hvacant]
      exact ⟨next, rfl, hkept, hothers, hfound⟩
    · have hpos : 0 < t.rows.size := Array.size_pos_iff.2 hvacant
      obtain ⟨mid, u, hchunk, hu, hsize⟩ := deleteChunk_calm calm ht sound
      have hkept := (respects_deleteChunk session ref).keepsCalm.after calm hchunk
      have hcount : min truncateChunk t.rows.size ≠ 0 := by
        unfold truncateChunk
        omega
      obtain ⟨next, hrest, hnext⟩ := ih hkept hu.found hu.sound (by omega)
      have htotal : min truncateChunk t.rows.size + u.rows.size = t.rows.size := by omega
      rw [hu.spec] at hnext
      refine ⟨next, ?_, hnext.calm, hu.others.trans hnext.others, hnext.found⟩
      rw [retrying_of_ok hchunk]
      dsimp only
      rw [if_neg hcount, bind_apply, hrest]
      exact congrArg (fun total => (Except.ok total, next)) htotal

theorem clearing_calm (policy : RetryPolicy) (calm : Calm session server)
    (ht : server.table? ref = some t) (sound : t.Sound) :
    ∃ next, clearing true session ref policy server = (.ok t.rows.size, next) ∧
      Arrives session ref server next (.empty t.spec) := by
  have hcount : server.rowCount ref = t.rows.size := by
    rw [Server.rowCount, ht]
    rfl
  have enough : t.rows.size < server.rowCount ref + 1 := by omega
  obtain ⟨next, hchunks, hnext⟩ := deleteChunks_calm policy calm ht sound enough
  refine ⟨next, ?_, hnext⟩
  rw [clearing, if_pos rfl, truncate, bind_apply, get_apply]
  exact Run.ofAction_eq_ok.2 hchunks

end Clear

section Load

variable {ref : TableRef} {σ ρ : Type} {insert : Session → List ρ → Run Nat} {source : Source σ ρ}
  {budget : Nat} {b : Batches σ} {s : Seeding}

theorem local_optimize (rawText : Bool) :
    Local ref fun session => (liftM (optimize session rawText) : Run Unit) :=
  local_of_tables ⟨⟩ fun session server calm => by
    rw [Run.liftState_apply]
    exact ⟨rfl, (respects_optimize session rawText).keepsCalm server calm,
      optimize_tables session rawText server⟩

theorem local_restore : Local ref fun session => (liftM (restore session) : Run Unit) :=
  local_of_tables ⟨⟩ fun session server calm => by
    rw [Run.liftState_apply]
    exact ⟨rfl, (respects_restore session).keepsCalm server calm, restore_tables session server⟩

theorem local_insertUsers (batch : List User) :
    Local Keyspace.user.table fun session => insertUsers session batch := by
  cases batch with
  | nil => exact local_pure 0
  | cons user batch => exact (local_insert (s := intoUsers (user :: batch)) rfl).ofAction

theorem local_insertArticles (batch : List Article) :
    Local Keyspace.article.table fun session => insertArticles session batch := by
  cases batch with
  | nil => exact local_pure 0
  | cons article batch => exact (local_insert (s := intoArticles (article :: batch)) rfl).ofAction

theorem local_insertReads (batch : List Read) :
    Local Keyspace.read.table fun session => insertReads session batch := by
  rw [insertReads_eq]
  unfold insertStored
  cases (Read.rawInsert batch).sql? with
  | none => exact local_pure 0
  | some sql =>
    have hstored : Local Keyspace.read.table fun _ => Action.applyInsert (storing batch) :=
      local_applyInsert (s := storing batch) rfl
    exact ((local_receive sql).bind fun _ => hstored).ofAction

theorem local_flush (h : ∀ batch, Local ref fun session => insert session batch) (batch : List ρ) :
    Local ref fun session => flush insert session batch :=
  (h batch).bind fun affected => local_commit.ofAction.bind fun _ => local_pure affected

/-- All batches of a source. -/
theorem local_run (h : ∀ batch, Local ref fun session => insert session batch) (fresh : b.accepted = 0) :
    Local ref fun session => b.run source budget fun batch => (do
      let _ ← flush insert session batch) := by
  have huse : ∀ batch, Local ref fun session => (do
      let _ ← flush insert session batch : Run Unit) :=
    fun batch => (local_flush h batch).bind fun _ => local_pure ()
  simp only [Batches.run_eq _ fresh]
  refine (Local.forM huse _).bind fun _ => ?_
  cases (b.all source budget).2 with
  | error halt => exact local_throw halt
  | ok last => exact local_pure _

theorem local_insertAll (batches : List (List Read)) (tally : Tally) :
    Local Keyspace.read.table fun session => Queue.insertAll session batches tally := by
  induction batches generalizing tally with
  | nil => exact local_pure tally
  | cons batch batches ih =>
    exact (local_flush local_insertReads batch).bind fun affected => ih (tally.add batch affected)

theorem local_loadInline (source : ReadSource) :
    Local Keyspace.read.table fun session => s.loadInline session source := by
  simp only [Queue.loadInline_eq]
  exact (local_insertAll _ _).bind fun tally => (local_lift _).bind fun last => local_pure _

theorem local_loadQueued (source : ReadSource) :
    Local Keyspace.read.table fun session => s.loadQueued session source := by
  unfold loadQueued
  by_cases hdeep : maxQueueDepth < s.config.readQueueDepth.toNat
  · simp only [if_pos hdeep]
    exact local_throw Halt.outOfRange
  · simp only [if_neg hdeep]
    obtain ⟨outcome, houtcome⟩ := local_loadInline (s := s) source
    -- A worker that fails is reported in another way.
    refine ⟨fun t => (outcome t).mapError Queue.taskHalt, fun session server t calm ht => ?_⟩
    have hcomes := houtcome session server t calm ht
    dsimp only at hcomes ⊢
    rcases hinline : s.loadInline session source server with ⟨result, next⟩
    rw [hinline] at hcomes
    cases hends : outcome t with
    | error halt =>
      rw [hends] at hcomes
      obtain rfl := hcomes.of_error
      cases halt <;> rfl
    | ok r =>
      rw [hends] at hcomes
      obtain ⟨rfl, hnext⟩ := hcomes.of_ok
      exact ⟨rfl, hnext⟩

theorem local_loadReads (index : ReferentialIndex) :
    Local Keyspace.read.table fun session => s.loadReads session index := by
  unfold loadReads
  refine (local_lift _).bind fun source => ?_
  split
  · exact local_loadInline source
  · exact local_loadQueued source

/-- What loading does once its table is empty. -/
def fillTable (session : Session) (source : Source σ ρ) (insert : Session → List ρ → Run Nat)
    (budget : Nat) (start : Batches σ) : Run (Loaded σ) := do
  optimize session false
  let (batches, source) ← start.run source budget fun batch => do
    let _ ← flush insert session batch
  restore session
  return { batches, truncated := 0, source }

theorem local_fillTable (h : ∀ batch, Local ref fun session => insert session batch)
    (fresh : b.accepted = 0) : Local ref fun session => fillTable session source insert budget b :=
  (local_optimize false).bind fun _ => (local_run h fresh).bind fun _ =>
    local_restore.bind fun _ => local_pure _

theorem loadTable_eq_fillTable (session : Session) (clear : Bool) (policy : RetryPolicy) :
    loadTable session ref clear policy source insert budget b = (do
      let truncated ← clearing clear session ref policy
      let loaded ← fillTable session source insert budget b
      return { loaded with truncated }) := by
  rw [loadTable_eq]
  simp only [fillTable, bind_assoc, pure_bind]

/-- Loading gives the same, and leaves the same table, whatever rows were in it before. It only counts
those that it removes. -/
def LoadsAfresh (ks : Keyspace) (load : RetryPolicy → Session → Run (Loaded σ)) : Prop :=
  ∃ outcome : Except Halt (Loaded σ × Table), ∀ policy session server t, Calm session server →
    server.table? ks.table = some t → t.Sound → t.spec = ks.spec →
      Comes session ks.table server (load policy session server)
        (outcome.map fun r => ({ r.1 with truncated := t.rows.size }, r.2))

theorem loadsAfresh_loadTable {ks : Keyspace}
    (h : ∀ batch, Local ks.table fun session => insert session batch) (fresh : b.accepted = 0) :
    LoadsAfresh ks fun policy session =>
      loadTable session ks.table true policy source insert budget b := by
  obtain ⟨outcome, houtcome⟩ : Local ks.table fun session => fillTable session source insert budget b :=
    local_fillTable h fresh
  refine ⟨outcome (.empty ks.spec), fun policy session server t calm ht sound hspec => ?_⟩
  obtain ⟨mid, hclears, hmid⟩ := clearing_calm policy calm ht sound
  rw [hspec] at hmid
  have hcomes := houtcome session mid _ hmid.calm hmid.found
  dsimp only at hcomes ⊢
  rw [loadTable_eq_fillTable, bind_apply, hclears]
  cases hends : outcome (.empty ks.spec) with
  | error halt =>
    rw [hends] at hcomes
    exact hcomes.bind_of_error _
  | ok r =>
    rw [hends] at hcomes
    dsimp only
    rw [hcomes.bind_of_ok]
    exact ⟨rfl, hmid.trans hcomes.2⟩

/-- Sessions of its own do not matter. -/
theorem LoadsAfresh.withSession {ks : Keyspace} {load : RetryPolicy → Session → Run (Loaded σ)}
    (h : LoadsAfresh ks load)
    (lasts : ∀ policy session other, Respects (staysCalm session) (load policy other)) :
    LoadsAfresh ks fun policy _ => Run.withSession (load policy) := by
  obtain ⟨outcome, houtcome⟩ := h
  refine ⟨outcome, fun policy session server t calm ht sound hspec => ?_⟩
  have hcalm := (Respects.withSession (lasts policy session)).keepsCalm server calm
  have hcomes := houtcome policy (Session.openNew server).1 (Session.openNew server).2 t
    (calm_openNew calm.failures) ht sound hspec
  dsimp only
  rw [Run.withSession_apply] at hcalm ⊢
  rcases hload : load policy (Session.openNew server).1 (Session.openNew server).2 with ⟨result, next⟩
  rw [hload] at hcomes hcalm
  have hclosed := Session.leave_tables (Session.openNew server).1 result next
  cases hends : outcome with
  | error halt =>
    rw [hends] at hcomes
    exact hcomes
  | ok r =>
    rw [hends] at hcomes
    obtain ⟨rfl, hnext⟩ := hcomes.of_ok
    exact ⟨rfl, hcalm, hnext.others.trans (.of_tables hclosed), (table?_of_tables hclosed _).trans hnext.found⟩

end Load

section Phases

variable {s : Seeding}

/-- Sound tables as the schema has them, with this many rows. -/
structure Holds (server : Server) (ks : Keyspace) (count : Nat) : Prop where
  holds : ∃ t, server.table? ks.table = some t ∧ t.Sound ∧ t.spec = ks.spec ∧ t.rows.size = count

theorem Holds.of_eq {server next : Server} {ks : Keyspace} {count : Nat} (h : Holds server ks count)
    (same : next.table? ks.table = server.table? ks.table) : Holds next ks count := by
  obtain ⟨t, ht, hrest⟩ := h.holds
  exact ⟨t, same.trans ht, hrest⟩

theorem LoadsAfresh.of_holds {σ : Type} {ks : Keyspace} {load : RetryPolicy → Session → Run (Loaded σ)}
    (h : LoadsAfresh ks load) : ∃ outcome : Except Halt (Loaded σ × Table),
      ∀ policy session server count, Calm session server → Holds server ks count →
        Comes session ks.table server (load policy session server)
          (outcome.map fun r => ({ r.1 with truncated := count }, r.2)) := by
  obtain ⟨outcome, houtcome⟩ := h
  refine ⟨outcome, fun policy session server count calm ⟨t, ht, hsound, hspec, hsize⟩ => ?_⟩
  rw [← hsize]
  exact houtcome policy session server t calm ht hsound hspec

/-- Users and articles are loaded, or there was an error. -/
def ComesPopulated (session : Session) (server : Server) (total : Nat)
    (done : Except Halt (SeedReport × ReferentialIndex) × Server) :
    Except Halt ((SeedReport × ReferentialIndex) × Table × Table) → Prop
  | .error halt => done.1 = .error halt
  | .ok ((report, index), u, v) => done.1 = .ok ({ report with truncated := total }, index) ∧
    Calm session done.2 ∧ done.2.table? Keyspace.user.table = some u ∧
      done.2.table? Keyspace.article.table = some v ∧
        done.2.table? Keyspace.read.table = server.table? Keyspace.read.table

theorem userPhase_afresh (truncating : s.config.truncate = true) (dists : Distributions) :
    LoadsAfresh .user fun policy _ => ({ s with retry := policy } : Seeding).userPhase dists := by
  have hload : LoadsAfresh .user fun policy session => loadTable session Keyspace.user.table true policy
      (s.userSource dists).offer insertUsers s.budget s.userBatches :=
    loadsAfresh_loadTable local_insertUsers rfl
  rw [← truncating] at hload
  exact hload.withSession fun policy session other =>
    respects_loadTable (respects_insertUsers other) _ _ _ _ _

theorem articlePhase_afresh (truncating : s.config.truncate = true) (dists : Distributions)
    (index : ReferentialIndex) :
    LoadsAfresh .article fun policy _ => ({ s with retry := policy } : Seeding).articlePhase dists index := by
  have hload : LoadsAfresh .article fun policy session => loadTable session Keyspace.article.table true
      policy (s.articleSource dists).offer insertArticles s.budget (s.articleBatches index) :=
    loadsAfresh_loadTable local_insertArticles rfl
  rw [← truncating] at hload
  exact hload.withSession fun policy session other =>
    respects_loadTable (respects_insertArticles other) _ _ _ _ _

theorem loadPopulation_afresh (truncating : s.config.truncate = true) :
    ∃ outcome, ∀ policy session server users articles, Calm session server →
      Holds server .user users → Holds server .article articles →
        ComesPopulated session server (users + articles)
          (({ s with retry := policy } : Seeding).loadPopulation server) outcome := by
  simp only [loadPopulation]
  cases hdists : Distributions.standard with
  | error halt => exact ⟨.error halt, fun policy session server users articles calm _ _ => rfl⟩
  | ok dists =>
    obtain ⟨users, husers⟩ := (userPhase_afresh truncating dists).of_holds
    cases users with
    | error halt =>
      refine ⟨.error halt, fun policy session server count _ calm hcount _ => ?_⟩
      exact (husers policy session server count calm hcount).bind_of_error _
    | ok first =>
      obtain ⟨loaded, u⟩ := first
      obtain ⟨articles, harticles⟩ :=
        (articlePhase_afresh truncating dists loaded.source.state.index).of_holds
      refine ⟨articles.map fun r => ((populationReport loaded r.1, r.1.source.state.index), u, r.2),
        fun policy session server count count' calm hcount hcount' => ?_⟩
      have hfirst := husers policy session server count calm hcount
      have hmid := hfirst.2
      have hsecond := harticles policy session _ count' hmid.calm
        (hcount'.of_eq (hmid.others.table? (key_injective.ne (by decide))))
      rw [bind_apply, lift_apply]
      dsimp only
      rw [hfirst.bind_of_ok]
      cases articles with
      | error halt => exact hsecond.bind_of_error _
      | ok second =>
        have hnext := hsecond.2
        rw [hsecond.bind_of_ok]
        refine ⟨rfl, hnext.calm, ?_, hnext.found, ?_⟩
        · exact (hnext.others.table? (key_injective.ne (by decide))).trans hmid.found
        · exact (hnext.others.table? (key_injective.ne (by decide))).trans
            (hmid.others.table? (key_injective.ne (by decide)))

/-- Everything before the reads is done, or there was an error. -/
def ComesBeforeReads (session : Session) (removed total : Nat)
    (done : Except Halt (Nat × SeedReport × ReferentialIndex) × Server) :
    Except Halt ((SeedReport × ReferentialIndex) × Table × Table) → Prop
  | .error halt => done.1 = .error halt
  | .ok ((report, index), u, v) =>
    done.1 = .ok (removed, { report with truncated := total }, index) ∧ Calm session done.2 ∧
      done.2.table? Keyspace.user.table = some u ∧ done.2.table? Keyspace.article.table = some v ∧
        done.2.table? Keyspace.read.table = some (.empty Keyspace.read.spec)

theorem beforeReads_afresh (truncating : s.config.truncate = true) (full : s.config.readsOnly = false) :
    ∃ outcome, ∀ policy session server users articles reads, Calm session server →
      Holds server .user users → Holds server .article articles → Holds server .read reads →
        ComesBeforeReads session reads (users + articles)
          (({ s with retry := policy } : Seeding).beforeReads session server) outcome := by
  obtain ⟨outcome, houtcome⟩ := loadPopulation_afresh truncating
  refine ⟨outcome, fun policy session server users articles reads calm husers harticles hreads => ?_⟩
  have hprepared := optimize_tables session true server
  have hcalm := (respects_optimize session true).keepsCalm.after calm (Run.liftState_apply _ _)
  obtain ⟨t, ht, hsound, hspec, hsize⟩ := hreads.holds
  obtain ⟨mid, hclears, hmid⟩ :=
    clearing_calm policy hcalm ((table?_of_tables hprepared _).trans ht) hsound
  rw [hspec] at hmid
  rw [hsize] at hclears
  have hkept : ∀ ks : Keyspace, ks ≠ .read → mid.table? ks.table = server.table? ks.table := fun ks hks =>
    (hmid.others.table? (key_injective.ne hks)).trans (table?_of_tables hprepared _)
  have hcomes := houtcome policy session mid users articles hmid.calm
    (husers.of_eq (hkept .user (by decide))) (harticles.of_eq (hkept .article (by decide)))
  rw [beforeReads, bind_apply, Run.liftState_apply]
  dsimp only
  rw [truncating, bind_apply, hclears, indexPhase, full, if_neg Bool.false_ne_true]
  dsimp only
  rw [bind_apply]
  rcases hpopulation : ({ s with retry := policy } : Seeding).loadPopulation mid with ⟨result, next⟩
  rw [hpopulation] at hcomes
  cases outcome with
  | error halt =>
    obtain rfl : result = .error halt := hcomes
    rfl
  | ok r =>
    obtain ⟨⟨report, index⟩, u, v⟩ := r
    obtain ⟨rfl, hnext, hu, hv, hread⟩ := hcomes
    exact ⟨rfl, hnext, hu, hv, hread.trans hmid.found⟩

/-- All tables are loaded, or there was an error. -/
def ComesSeeded (total : Nat) (done : Except Halt SeedReport × Server) :
    Except Halt (SeedReport × Table × Table × Table) → Prop
  | .error halt => done.1 = .error halt
  | .ok (report, u, v, w) => done.1 = .ok { report with truncated := total } ∧
    done.2.table? Keyspace.user.table = some u ∧ done.2.table? Keyspace.article.table = some v ∧
      done.2.table? Keyspace.read.table = some w

theorem ComesSeeded.of_tables {total : Nat} {done : Except Halt SeedReport × Server} {next : Server}
    {outcome : Except Halt (SeedReport × Table × Table × Table)} (h : ComesSeeded total done outcome)
    (same : next.tables = done.2.tables) : ComesSeeded total (done.1, next) outcome := by
  cases outcome with
  | error halt => exact h
  | ok r =>
    obtain ⟨report, u, v, w⟩ := r
    obtain ⟨hresult, hu, hv, hw⟩ := h
    exact ⟨hresult, (table?_of_tables same _).trans hu, (table?_of_tables same _).trans hv,
      (table?_of_tables same _).trans hw⟩

theorem runPhases_afresh (truncating : s.config.truncate = true) (full : s.config.readsOnly = false) :
    ∃ outcome, ∀ policy session server users articles reads, Calm session server →
      Holds server .user users → Holds server .article articles → Holds server .read reads →
        ComesSeeded (reads + (users + articles))
          (({ s with retry := policy } : Seeding).runPhases session server) outcome := by
  obtain ⟨before, hbefore⟩ := beforeReads_afresh truncating full
  cases before with
  | error halt =>
    refine ⟨.error halt, fun policy session server users articles reads calm husers harticles hreads => ?_⟩
    have hcomes := hbefore policy session server users articles reads calm husers harticles hreads
    rw [runPhases_eq_readPhase, bind_apply]
    rcases hdone : ({ s with retry := policy } : Seeding).beforeReads session server with ⟨result, mid⟩
    rw [hdone] at hcomes
    obtain rfl : result = .error halt := hcomes
    rfl
  | ok r =>
    obtain ⟨⟨report, index⟩, u, v⟩ := r
    obtain ⟨outcome, houtcome⟩ :
      Local Keyspace.read.table fun session => s.loadReads session index := local_loadReads index
    refine ⟨(outcome (.empty Keyspace.read.spec)).map fun r => ({ report with
        reads := r.1.source.accepted
        readBatches := r.1.batches
        readCandidates := r.1.source.candidates
        readsAffected := r.1.affected
        referentialFallbacks := r.1.source.state.fallbacks }, u, v, r.2),
      fun policy session server users articles reads calm husers harticles hreads => ?_⟩
    have hcomes := hbefore policy session server users articles reads calm husers harticles hreads
    rw [runPhases_eq_readPhase, bind_apply]
    rcases hdone : ({ s with retry := policy } : Seeding).beforeReads session server with ⟨result, mid⟩
    rw [hdone] at hcomes
    obtain ⟨rfl, hmid, hu, hv, hread⟩ := hcomes
    have hloads : Comes session Keyspace.read.table mid
        (({ s with retry := policy } : Seeding).loadReads session index mid) (outcome _) :=
      houtcome session mid _ hmid hread
    dsimp only
    rw [readPhase]
    cases hends : outcome (.empty Keyspace.read.spec) with
    | error halt =>
      rw [hends] at hloads
      exact hloads.bind_of_error _
    | ok r =>
      rw [hends] at hloads
      have hloaded := hloads.2
      rw [hloads.bind_of_ok]
      have hrestored := restore_tables session
        (({ s with retry := policy } : Seeding).loadReads session index mid).2
      have hkept : ∀ ks : Keyspace, ks ≠ .read → (restore session
          (({ s with retry := policy } : Seeding).loadReads session index mid).2).2.table? ks.table =
            mid.table? ks.table := fun ks hks =>
        (table?_of_tables hrestored _).trans (hloaded.others.table? (key_injective.ne hks))
      exact ⟨rfl, (hkept .user (by decide)).trans hu, (hkept .article (by decide)).trans hv,
        (table?_of_tables hrestored _).trans hloaded.found⟩

end Phases

end Seeding

/-- What a report says, but for the rows that were removed. -/
def SeedReport.untruncated (r : SeedReport) : SeedReport := { r with truncated := 0 }

namespace Seeding

section Afresh

variable {s : Seeding} {seed : UInt64} {server other : Server}

/-- Where there is a seed, nothing is drawn from anywhere else. -/
theorem run_seeded (seeded : s.config.rngSeed = some seed) (entropy : Random.Entropy) :
    ({ s with entropy } : Seeding).run = s.run := by
  have hstream := stream_seeded ({ s with entropy } : Seeding) seeded rfl
  have husers : ({ s with entropy } : Seeding).userBatches = s.userBatches := by
    rw [userBatches, userBatches, hstream]
  have harticles : ({ s with entropy } : Seeding).articleBatches = s.articleBatches := by
    funext index
    rw [articleBatches, articleBatches, hstream]
  have hreads : ({ s with entropy } : Seeding).readBatches = s.readBatches := by
    rw [readBatches, readBatches, hstream]
  unfold run perform prepareIndex populate loadReads loadQueued loadInline dryRun
  rw [husers, harticles, hreads]
  rfl

/-- The rows that there are to remove. -/
def stale (server : Server) : Nat :=
  server.rowCount Keyspace.read.table +
    (server.rowCount Keyspace.user.table + server.rowCount Keyspace.article.table)

theorem HasTables.holds (tables : HasTables server) (reachable : server.Reachable) {ks : Keyspace}
    (hks : ks ∈ [Keyspace.user, .article, .read]) : Holds server ks (server.rowCount ks.table) := by
  obtain ⟨t, ht, hspec⟩ := tables ks hks
  refine ⟨t, ht, reachable.sound _ _ ht, hspec, ?_⟩
  rw [Server.rowCount, ht]
  rfl

/-- What a run comes to does not depend on the server, nor on how often a chunk is tried again. -/
theorem run_comes_afresh (seeded : s.config.rngSeed = some seed) (truncating : s.config.truncate = true)
    (wet : s.config.dryRun = false) (full : s.config.readsOnly = false) :
    ∃ outcome, ∀ (again : Seeding) server, again.config = s.config → again.budget = s.budget →
      server.Reachable → HasTables server → server.failures = [] →
        ComesSeeded (stale server) (again.run server) outcome := by
  obtain ⟨outcome, houtcome⟩ := runPhases_afresh truncating full
  refine ⟨outcome, fun again server hconfig hbudget reachable tables quiet => ?_⟩
  have hrun : again.run = Run.withSession ({ s with retry := again.retry } : Seeding).runPhases := by
    have hagain : again = { s with retry := again.retry, entropy := again.entropy } := by
      cases again
      cases hconfig
      cases hbudget
      rfl
    have hdry : ({ s with retry := again.retry } : Seeding).config.dryRun = false := wet
    rw [hagain, run_seeded (s := { s with retry := again.retry }) seeded, run_eq_withSession, hdry,
      if_neg Bool.false_ne_true]
  have hholds : ∀ ks ∈ [Keyspace.user, .article, .read],
      Holds (Session.openNew server).2 ks (server.rowCount ks.table) :=
    fun ks hks => (tables.holds reachable hks).of_eq rfl
  have hcomes := houtcome again.retry (Session.openNew server).1 (Session.openNew server).2 _ _ _
    (calm_openNew quiet) (hholds .user (by simp)) (hholds .article (by simp)) (hholds .read (by simp))
  rw [hrun, Run.withSession_apply]
  exact hcomes.of_tables (Session.leave_tables _ _ _)

/-- A run that truncates forgets what was stored before: on two servers, whatever they hold, it ends in
the same way and with the same report, but for the count of the rows that each has lost, and with the same
tables. Other tables stay as they are. -/
theorem run_afresh {again : Seeding} (config : again.config = s.config) (budget : again.budget = s.budget)
    (reachable : server.Reachable) (reachable' : other.Reachable) (tables : HasTables server)
    (tables' : HasTables other) (quiet : server.failures = []) (quiet' : other.failures = [])
    (seeded : s.config.rngSeed = some seed) (truncating : s.config.truncate = true)
    (wet : s.config.dryRun = false) (full : s.config.readsOnly = false) :
    (s.run server).1.map SeedReport.untruncated = (again.run other).1.map SeedReport.untruncated ∧
      (∀ report, (s.run server).1 = .ok report → report.truncated = stale server ∧
        ∀ ks ∈ [Keyspace.user, .article, .read], ∃ t,
          (s.run server).2.table? ks.table = some t ∧ (again.run other).2.table? ks.table = some t) ∧
      (∀ report, (again.run other).1 = .ok report → report.truncated = stale other) ∧
      ∀ ks ∈ [Keyspace.beRead, .popularRank],
        (s.run server).2.table? ks.table = server.table? ks.table ∧
          (again.run other).2.table? ks.table = other.table? ks.table := by
  obtain ⟨outcome, houtcome⟩ := run_comes_afresh seeded truncating wet full
  have hfirst := houtcome s server rfl rfl reachable tables quiet
  have hsecond := houtcome again other config budget reachable' tables' quiet'
  have hspares : ∀ ks ∈ [Keyspace.beRead, .popularRank], ∀ loaded ∈ [Keyspace.user, .article, .read],
      loaded.table.key ≠ ks.table.key := by decide
  have wet' : again.config.dryRun = false := by rw [config, wet]
  have full' : again.config.readsOnly = false := by rw [config, full]
  have hothers : ∀ ks ∈ [Keyspace.beRead, .popularRank],
      (s.run server).2.table? ks.table = server.table? ks.table ∧
        (again.run other).2.table? ks.table = other.table? ks.table := fun ks hks =>
    ⟨run_spares wet full (hspares ks hks) server, run_spares wet' full' (hspares ks hks) other⟩
  generalize s.run server = done at hfirst hothers ⊢
  generalize again.run other = done' at hsecond hothers ⊢
  obtain ⟨result, next⟩ := done
  obtain ⟨result', next'⟩ := done'
  cases outcome with
  | error halt =>
    obtain rfl : result = .error halt := hfirst
    obtain rfl : result' = .error halt := hsecond
    exact ⟨rfl, fun _ hok => (by cases hok), fun _ hok => (by cases hok), hothers⟩
  | ok r =>
    obtain ⟨report, u, v, w⟩ := r
    obtain ⟨rfl, hu, hv, hw⟩ := hfirst
    obtain ⟨rfl, hu', hv', hw'⟩ := hsecond
    refine ⟨rfl, fun found hok => ⟨?_, fun ks hks => ?_⟩, fun found hok => ?_, hothers⟩
    · rw [← Except.ok.inj hok]
    · simp only [List.mem_cons, List.not_mem_nil, or_false] at hks
      rcases hks with rfl | rfl | rfl
      · exact ⟨u, hu, hu'⟩
      · exact ⟨v, hv, hv'⟩
      · exact ⟨w, hw, hw'⟩
    · rw [← Except.ok.inj hok]

/-- The reads of `samePair`, into tables that are emptied first. -/
def samePairAfresh : Seeding := { samePair with config := { samePair.config with truncate := true } }

/-- A server on which there is a user, of a name that the run uses too. -/
def occupied : Server := vacant.after [.openSession, .insert ⟨0⟩
  { table := Keyspace.user.table, columns := ["id", "uid"], rows := [[.int 7, .text "u0"]] }]

theorem hasTables_occupied : HasTables occupied := by
  intro ks hks
  simp only [List.mem_cons, List.not_mem_nil, or_false] at hks
  rcases hks with rfl | rfl | rfl <;> exact ⟨_, rfl, rfl⟩

theorem run_afresh_occupied : ∃ report report',
    (samePairAfresh.run vacant).1 = .ok report ∧ (samePairAfresh.run occupied).1 = .ok report' ∧
      report.truncated = 0 ∧ report'.truncated = 1 ∧ report.untruncated = report'.untruncated ∧
      ∃ t, (samePairAfresh.run vacant).2.table? Keyspace.user.table = some t ∧
        (samePairAfresh.run occupied).2.table? Keyspace.user.table = some t := by
  have hends : (samePairAfresh.run vacant).1.toOption.isSome := by
    -- The text of a statement takes long to read in the kernel.
    unfold run perform loadReads loadQueued loadInline
    rw [insertReads_eq]
    decide +kernel
  have reachable : vacant.Reachable := ⟨_, _, rfl⟩
  have reachable' : occupied.Reachable := reachable.after _
  have same : samePairAfresh.config = samePairAfresh.config := rfl
  obtain ⟨hreports, hleft, hright, -⟩ := run_afresh same rfl reachable reachable' hasTables_vacant
    hasTables_occupied rfl rfl rfl rfl rfl rfl
  rcases hone : (samePairAfresh.run vacant).1 with halt | report
  · rw [hone] at hends
    cases hends
  · rw [hone] at hreports
    rcases htwo : (samePairAfresh.run occupied).1 with halt | report'
    · rw [htwo] at hreports
      cases hreports
    · rw [htwo] at hreports
      obtain ⟨htruncated, htables⟩ := hleft report hone
      exact ⟨report, report', rfl, rfl, htruncated, hright report' htwo, Except.ok.inj hreports,
        htables .user (by simp)⟩

end Afresh

end Seeding
end ReadingBench
