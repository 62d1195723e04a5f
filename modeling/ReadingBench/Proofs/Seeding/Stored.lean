import ReadingBench.Proofs.Seeding.Named
import ReadingBench.Proofs.Seeding.Parts

namespace ReadingBench

open Sql Store Outcome

namespace Store.Table

/-- Tuples that may not meet a taken key are appended, all of them. -/
theorem rows_of_applyAll_fail {columns : List String} {rows : List Tuple} {t u : Table} {affected : Nat}
    (full : ∀ row ∈ rows, t.spec.fullRow columns row = .ok row)
    (h : t.applyAll columns .fail none rows = .ok (u, affected)) :
    u.spec = t.spec ∧ u.rows.toList = t.rows.toList ++ rows := by
  induction rows generalizing t affected with
  | nil =>
    obtain ⟨rfl, -⟩ := Prod.mk.inj (pure_eq_ok.1 h)
    simp
  | cons row rows ih =>
    rw [applyAll_cons] at h
    obtain ⟨⟨v, applied⟩, hfirst, h⟩ := bind_eq_ok.1 h
    obtain ⟨⟨w, rest⟩, hrest, h⟩ := bind_eq_ok.1 h
    obtain ⟨rfl, -⟩ := Prod.mk.inj (pure_eq_ok.1 h)
    obtain ⟨row', hrow, hfirst⟩ := apply_eq_ok hfirst
    obtain rfl := Except.ok.inj ((full row (by simp)).symm.trans hrow)
    rcases hfirst with ⟨-, happend, -⟩ | ⟨pos, -, ⟨himpossible, -⟩ | ⟨targets, himpossible, -⟩⟩
    · obtain ⟨keys, -, hv⟩ := append_eq_ok.1 happend
      have hstamped : stamped none row = row := rfl
      have hvspec : v.spec = t.spec := by rw [hv]
      have hvrows : v.rows.toList = t.rows.toList ++ [row] := by rw [hv, Array.toList_push, hstamped]
      have later : ∀ row ∈ rows, v.spec.fullRow columns row = .ok row := by
        intro row hrow
        rw [hvspec, full row (by simp [hrow])]
      obtain ⟨hspec, hrows⟩ := ih later hrest
      refine ⟨hspec.trans hvspec, ?_⟩
      rw [hrows, hvrows, List.append_assoc]
      rfl
    · cases himpossible
    · cases himpossible

end Store.Table

namespace Seeding

open Server

section Load

variable {σ ρ : Type} {session : Session} {ref : TableRef} {spec : TableSpec} {toRow : ρ → Tuple}
  {insert : Session → List ρ → Run Nat} {server next : Server} {t : Table}

/-- A successful insert appends the rows of its batch. -/
def Appends (ref : TableRef) (spec : TableSpec) (toRow : ρ → Tuple)
    (insert : Session → List ρ → Run Nat) : Prop :=
  ∀ session batch server next affected t, server.table? ref = some t → t.spec = spec →
    insert session batch server = (.ok affected, next) → SameBut ref server next ∧
      ∃ u, next.table? ref = some u ∧ u.spec = spec ∧ u.rows.toList = t.rows.toList ++ batch.map toRow

/-- Inserts with bound values that may not meet a taken key. -/
theorem appends_insert {columns : List String} (full : ∀ r, spec.fullRow columns (toRow r) = .ok (toRow r)) :
    Appends ref spec toRow fun session batch =>
      if batch.isEmpty then return 0
      else Run.ofAction (session.insert { table := ref, columns, rows := batch.map toRow }) := by
  intro session batch server next affected t ht hspec h
  dsimp only at h
  split at h
  · rename_i hempty
    obtain ⟨-, rfl⟩ := pure_apply_eq_ok.1 h
    exact ⟨.of_tables rfl, t, ht, hspec, by simp [List.isEmpty_iff.1 hempty]⟩
  · obtain ⟨t', u, now, ht', hinsert, htables⟩ := Session.insert_eq_ok (Run.ofAction_eq_ok.1 h)
    obtain rfl := Option.some.inj (ht.symm.trans ht')
    rw [Table.insert_unstamped rfl] at hinsert
    have hfull : ∀ row ∈ batch.map toRow, t.spec.fullRow columns row = .ok row := by
      intro row hrow
      obtain ⟨r, -, rfl⟩ := List.mem_map.1 hrow
      rw [hspec, full]
    obtain ⟨hspec', hrows⟩ := Table.rows_of_applyAll_fail hfull hinsert
    exact ⟨.of_insert htables, u, table?_of_insert htables, hspec'.trans hspec, hrows⟩

theorem appends_insertUsers :
    Appends Keyspace.user.table Keyspace.user.spec User.toRow insertUsers :=
  appends_insert fun _ => TableSpec.fullRow_self (by decide) rfl

theorem appends_insertArticles :
    Appends Keyspace.article.table Keyspace.article.spec Article.toRow insertArticles :=
  appends_insert fun _ => TableSpec.fullRow_self (by decide) rfl

theorem flush_eq_ok {batch : List ρ} {affected : Nat}
    (h : flush insert session batch server = (.ok affected, next)) :
    ∃ mid, insert session batch server = (.ok affected, mid) ∧ next.tables = mid.tables := by
  obtain ⟨count, mid, hinsert, h⟩ := bind_apply_eq_ok.1 h
  obtain ⟨_, last, hcommit, h⟩ := bind_apply_eq_ok.1 h
  obtain ⟨rfl, rfl⟩ := pure_apply_eq_ok.1 h
  exact ⟨mid, hinsert, Session.commit_eq_ok (Run.ofAction_eq_ok.1 hcommit)⟩

/-- Batch after batch, the rows of all of them are appended. -/
theorem rows_of_forM (appends : Appends ref spec toRow insert) {batches : List (List ρ)}
    (ht : server.table? ref = some t) (hspec : t.spec = spec)
    (h : (forM batches fun batch => do let _ ← flush insert session batch : Run Unit) server =
      (.ok ⟨⟩, next)) : SameBut ref server next ∧ ∃ u, next.table? ref = some u ∧ u.spec = spec ∧
        u.rows.toList = t.rows.toList ++ batches.flatten.map toRow := by
  induction batches generalizing server t with
  | nil =>
    obtain ⟨-, rfl⟩ := pure_apply_eq_ok.1 h
    exact ⟨.of_tables rfl, t, ht, hspec, by simp⟩
  | cons batch batches ih =>
    rw [List.forM_cons] at h
    obtain ⟨_, mid, hbatch, h⟩ := bind_apply_eq_ok.1 h
    obtain ⟨affected, last, hflush, hbatch⟩ := bind_apply_eq_ok.1 hbatch
    obtain ⟨-, rfl⟩ := pure_apply_eq_ok.1 hbatch
    obtain ⟨inserted, hinsert, htables⟩ := flush_eq_ok hflush
    obtain ⟨hothers, u, hu, huspec, hrows⟩ := appends _ _ _ _ _ _ ht hspec hinsert
    obtain ⟨hrest, v, hv, hvspec, hall⟩ := ih ((table?_of_tables htables ref).trans hu) huspec h
    refine ⟨(hothers.trans (.of_tables htables)).trans hrest, v, hv, hvspec, ?_⟩
    rw [hall, hrows, List.flatten_cons, List.map_append, List.append_assoc]

/-- Loading a table that is empty, or is emptied first, leaves the records' rows there. -/
theorem loadTable_eq_ok (appends : Appends ref spec toRow insert) {clear : Bool} {policy : RetryPolicy}
    {source : Source σ ρ} {budget : Nat} {start : Batches σ} {loaded : Loaded σ}
    (fresh : start.accepted = 0) (ht : server.table? ref = some t) (sound : t.Sound)
    (hspec : t.spec = spec) (vacant : clear ∨ t.rows = #[])
    (h : loadTable session ref clear policy source insert budget start server = (.ok loaded, next)) :
    ∃ records, start.records source budget = .ok (records, loaded.source) ∧ SameBut ref server next ∧
      ∃ u, next.table? ref = some u ∧ u.spec = spec ∧ u.rows.toList = records.map toRow := by
  obtain ⟨cleared, filled, hclears, hforM, hmade, -, rfl⟩ := loadTable_parts fresh h
  obtain ⟨u, hu, hempty⟩ := trimmed_of_clearing ht sound hclears
  have hprepared := optimize_tables session false cleared
  have hrestored := restore_tables session filled
  obtain ⟨hothers, v, hv, hvspec, hrows⟩ := rows_of_forM appends
    ((table?_of_tables hprepared ref).trans hu.found) (hu.spec.trans hspec) hforM
  refine ⟨_, records_of_made hmade, ?_, v, (table?_of_tables hrestored ref).trans hv, hvspec, ?_⟩
  · exact ((hu.others.trans (.of_tables hprepared)).trans hothers).trans (.of_tables hrestored)
  · rw [hrows, hempty vacant]
    rfl

end Load

section Reads

variable {session : Session} {server next : Server} {t : Table} {reads batch : List Read}

/-- The insert that the text of a batch comes down to. -/
def storing (batch : List Read) : Insert :=
  { (Read.rawInsert batch).bound with rows := batch.map Read.storedRow }

/-- Inserts a batch without reading back the text that is sent. -/
def insertStored (session : Session) (batch : List Read) : Run Nat :=
  match (Read.rawInsert batch).sql? with
  | some sql => Run.ofAction (do session.receive sql; Action.applyInsert (storing batch))
  | none => return 0

theorem reading_storing {batch : List Read} (hbatch : batch ≠ []) : ∃ text,
    (Read.rawInsert batch).sql? = some text ∧ Action.reading text = .ok (some (storing batch)) := by
  obtain ⟨text, htext, hreading⟩ := reading_sql (Read.regular_rawInsert hbatch)
  have hrows : (Read.rawInsert batch).writtenRows = batch.map Read.storedRow := by
    simp [RawInsert.writtenRows, Read.rawInsert, Read.storedRow]
  rw [hrows] at hreading
  exact ⟨text, htext, hreading⟩

theorem insertReads_eq : insertReads = insertStored := by
  funext session batch
  by_cases hbatch : batch = []
  · rw [hbatch]
    rfl
  · obtain ⟨text, htext, hreading⟩ := reading_storing hbatch
    rw [insertReads, insertStored, htext]
    exact congrArg Run.ofAction (Session.execute_insert hreading)

theorem kept_of_insertReads {affected : Nat} (ht : server.table? Keyspace.read.table = some t)
    (kept : Read.Kept reads t) (distinct : ((reads ++ batch).map (·.id)).Nodup)
    (h : insertReads session batch server = (.ok affected, next)) :
    SameBut Keyspace.read.table server next ∧ ∃ u, next.table? Keyspace.read.table = some u ∧
      Read.Kept (reads ++ batch) u ∧
        (Read.firsts (reads ++ batch)).length = (Read.firsts reads).length + affected := by
  by_cases hbatch : batch = []
  · obtain rfl := hbatch
    obtain ⟨rfl, rfl⟩ := pure_apply_eq_ok.1 h
    rw [List.append_nil]
    exact ⟨.of_tables rfl, t, ht, kept, rfl⟩
  · obtain ⟨text, htext, -⟩ := reading_sql (Read.regular_rawInsert hbatch)
    rw [insertReads_eq, insertStored, htext] at h
    obtain ⟨t', u, now, ht', hinsert, htables⟩ := Session.received_eq_ok (Run.ofAction_eq_ok.1 h)
    obtain rfl := Option.some.inj (ht.symm.trans ht')
    rw [Table.insert_unstamped rfl] at hinsert
    obtain ⟨hkept, hcount⟩ := kept.applyAll distinct hinsert
    exact ⟨.of_insert htables, u, table?_of_insert htables, hkept, hcount⟩

theorem kept_of_insertAll {batches : List (List Read)} {tally tally' : Tally}
    (ht : server.table? Keyspace.read.table = some t) (kept : Read.Kept reads t)
    (distinct : ((reads ++ batches.flatten).map (·.id)).Nodup)
    (h : Queue.insertAll session batches tally server = (.ok tally', next)) :
    SameBut Keyspace.read.table server next ∧ ∃ u, next.table? Keyspace.read.table = some u ∧
      Read.Kept (reads ++ batches.flatten) u ∧
        (Read.firsts (reads ++ batches.flatten)).length + tally.affected =
          (Read.firsts reads).length + tally'.affected := by
  induction batches generalizing reads server t tally with
  | nil =>
    obtain ⟨rfl, rfl⟩ := pure_apply_eq_ok.1 h
    rw [List.flatten_nil, List.append_nil]
    exact ⟨.of_tables rfl, t, ht, kept, rfl⟩
  | cons batch batches ih =>
    rw [List.flatten_cons, ← List.append_assoc] at distinct ⊢
    obtain ⟨affected, mid, hflush, h⟩ := bind_apply_eq_ok.1 h
    obtain ⟨inserted, hinsert, htables⟩ := flush_eq_ok hflush
    have hfront : ((reads ++ batch).map (·.id)).Nodup := by
      rw [List.map_append] at distinct
      exact (List.nodup_append.1 distinct).1
    obtain ⟨hothers, u, hu, hkept, hcount⟩ := kept_of_insertReads ht kept hfront hinsert
    obtain ⟨hrest, v, hv, hall, hcounts⟩ :=
      ih ((table?_of_tables htables _).trans hu) hkept distinct h
    refine ⟨(hothers.trans (.of_tables htables)).trans hrest, v, hv, hall, ?_⟩
    simp only [Tally.add] at hcounts
    omega

theorem kept_of_loadReads {s : Seeding} {index : ReferentialIndex} {outcome : ReadOutcome}
    (ht : server.table? Keyspace.read.table = some t) (kept : Read.Kept [] t)
    (h : s.loadReads session index server = (.ok outcome, next)) :
    ∃ source reads, s.readSource index = .ok source ∧
      s.readBatches.records source.offer s.budget = .ok (reads, outcome.source) ∧
      SameBut Keyspace.read.table server next ∧ ∃ u, next.table? Keyspace.read.table = some u ∧
        Read.Kept reads u ∧ (Read.firsts reads).length = outcome.affected := by
  obtain ⟨source, tally, hsource, hinsert, hmade, -, haffected⟩ := loadReads_parts h
  have hrecords := records_of_made hmade
  have hids := Batches.map_id_of_records hrecords Read.id rfl s.config.reads.toNat_lt
    fun _ _ _ _ _ => ReadSource.id_of_accepted
  -- Ids differ across all batches, so only a pair can be in a read's way.
  have distinct : (((s.readBatches.all source.offer s.budget).1.flatten).map (·.id)).Nodup := by
    refine List.Nodup.of_map UInt64.toNat ?_
    rw [List.map_map]
    exact hids ▸ List.nodup_range'
  obtain ⟨hothers, u, hu, hkept, hcount⟩ := kept_of_insertAll ht kept distinct hinsert
  exact ⟨source, _, hsource, hrecords, hothers, u, hu, hkept,
    (hcount.trans (Nat.zero_add _)).trans haffected.symm⟩

end Reads

/-- The keyspace's table can be loaded: it is empty, or will be emptied. -/
def Ready (clear : Bool) (server : Server) (ks : Keyspace) : Prop :=
  ∃ t, server.table? ks.table = some t ∧ t.spec = ks.spec ∧ (clear ∨ t.rows = #[]) ∧ t.Sound

/-- The keyspace's table holds these rows. -/
def Filled (server : Server) (ks : Keyspace) (rows : List Tuple) : Prop :=
  ∃ t, server.table? ks.table = some t ∧ t.spec = ks.spec ∧ t.rows.toList = rows

section Run

variable {clear : Bool} {server next : Server} {ks : Keyspace} {rows : List Tuple}

theorem Ready.of_eq (h : Ready clear server ks) (hsame : next.table? ks.table = server.table? ks.table) :
    Ready clear next ks := by
  obtain ⟨t, ht, hrest⟩ := h
  exact ⟨t, hsame.trans ht, hrest⟩

theorem Filled.of_eq (h : Filled server ks rows)
    (hsame : next.table? ks.table = server.table? ks.table) : Filled next ks rows := by
  obtain ⟨t, ht, hrest⟩ := h
  exact ⟨t, hsame.trans ht, hrest⟩

theorem Filled.rows_eq (h : Filled server ks rows) :
    server.rows ks.table = .ok (rows.map fun row => ⟨ks.spec.columns, row⟩) := by
  obtain ⟨t, ht, hspec, rfl⟩ := h
  rw [Server.rows, ht, ← hspec]

/-- A phase in a session of its own. -/
theorem filled_of_loadTable {σ ρ : Type} {toRow : ρ → Tuple} {insert : Session → List ρ → Run Nat}
    (appends : Appends ks.table ks.spec toRow insert) {policy : RetryPolicy} {source : Source σ ρ}
    {budget : Nat} {start : Batches σ} {loaded : Loaded σ} (fresh : start.accepted = 0)
    (ready : Ready clear server ks)
    (h : Run.withSession (fun session =>
      loadTable session ks.table clear policy source insert budget start) server = (.ok loaded, next)) :
    ∃ records, start.records source budget = .ok (records, loaded.source) ∧
      SameBut ks.table server next ∧ Filled next ks (records.map toRow) := by
  obtain ⟨t, ht, hspec, vacant, sound⟩ := ready
  obtain ⟨opened, last, hopened, hclosed, h⟩ := Run.withSession_eq_ok h
  obtain ⟨records, hrecords, hothers, u, hu, huspec, hrows⟩ :=
    loadTable_eq_ok appends fresh ((table?_of_tables hopened _).trans ht) sound hspec vacant h
  refine ⟨records, hrecords, ?_, u, (table?_of_tables hclosed _).trans hu, huspec, hrows⟩
  exact (SameBut.trans (.of_tables hopened) hothers).trans (.of_tables hclosed)

theorem key_ne : Keyspace.user.table.key ≠ Keyspace.article.table.key ∧
    Keyspace.user.table.key ≠ Keyspace.read.table.key ∧
      Keyspace.article.table.key ≠ Keyspace.read.table.key := by decide

variable {s : Seeding}

theorem filled_of_loadPopulation {report : SeedReport} {index : ReferentialIndex}
    (users_ready : Ready s.config.truncate server .user)
    (articles_ready : Ready s.config.truncate server .article)
    (h : s.loadPopulation server = (.ok (report, index), next)) :
    ∃ dists users articles, ∃ grown grown' : Batches Growing, Distributions.standard = .ok dists ∧
      s.userBatches.records (s.userSource dists).offer s.budget = .ok (users, grown) ∧
      (s.articleBatches grown.state.index).records (s.articleSource dists).offer s.budget =
        .ok (articles, grown') ∧ grown'.state.index = index ∧
      next.table? Keyspace.read.table = server.table? Keyspace.read.table ∧
      Filled next .user (users.map User.toRow) ∧ Filled next .article (articles.map Article.toRow) := by
  obtain ⟨dists, loaded, loaded', mid, hstandard, husers, harticles, rfl, -⟩ := loadPopulation_parts h
  obtain ⟨users, hmade, hothers, hfilled⟩ :=
    filled_of_loadTable appends_insertUsers rfl users_ready husers
  have hready := articles_ready.of_eq (hothers.table? key_ne.1.symm)
  obtain ⟨articles, hmade', hothers', hfilled'⟩ :=
    filled_of_loadTable appends_insertArticles rfl hready harticles
  refine ⟨dists, users, articles, _, _, hstandard, hmade, hmade', rfl, ?_, ?_, hfilled'⟩
  · exact (hothers'.table? key_ne.2.2.symm).trans (hothers.table? key_ne.2.1.symm)
  · exact hfilled.of_eq (hothers'.table? key_ne.1)

theorem filled_of_runPhases {session : Session} {report : SeedReport}
    (ready : ∀ ks ∈ [Keyspace.user, .article, .read], Ready s.config.truncate server ks)
    (full : s.config.readsOnly = false) (h : s.runPhases session server = (.ok report, next)) :
    ∃ g, s.generated = .ok g ∧ Filled next .user (g.users.map User.toRow) ∧
      Filled next .article (g.articles.map Article.toRow) ∧
      Filled next .read ((Read.firsts g.reads).map Read.storedRow) ∧
      report.reads = s.config.reads.toNat ∧ report.readsAffected = (Read.firsts g.reads).length := by
  obtain ⟨truncated, cleared, counted, index, populated, outcome, loaded, hcleared, hindex, hreads, rfl,
    rfl⟩ := runPhases_parts h
  have hprepared := optimize_tables session true server
  have hrestored := restore_tables session loaded
  obtain ⟨t, ht, hspec, vacant, sound⟩ := ready .read (by simp)
  obtain ⟨u, hu, hempty⟩ := trimmed_of_clearing ((table?_of_tables hprepared _).trans ht) sound hcleared
  -- The reads' table is the first to be emptied and the last to be filled.
  have kept := Read.kept_empty hu.sound (hu.spec.trans hspec) (hempty vacant)
  have hbefore : ∀ ks : Keyspace, ks.table.key ≠ Keyspace.read.table.key →
      cleared.table? ks.table = server.table? ks.table := fun ks hks =>
    (hu.others.table? hks).trans (table?_of_tables hprepared _)
  rw [indexPhase, full, if_neg Bool.false_ne_true] at hindex
  obtain ⟨dists, users, articles, grown, grown', hstandard, husers, harticles, rfl, hkeep, hfilled,
    hfilled'⟩ := filled_of_loadPopulation ((ready .user (by simp)).of_eq (hbefore .user key_ne.2.1))
      ((ready .article (by simp)).of_eq (hbefore .article key_ne.2.2)) hindex
  obtain ⟨source, reads, hsource, hmade, hothers, v, hv, hkept, hcount⟩ :=
    kept_of_loadReads (hkeep.trans hu.found) kept hreads
  have hafter : ∀ ks : Keyspace, ks.table.key ≠ Keyspace.read.table.key →
      (restore session loaded).2.table? ks.table = populated.table? ks.table := fun ks hks =>
    (table?_of_tables hrestored _).trans (hothers.table? hks)
  have hgenerated : s.generated = .ok ⟨users, articles, reads⟩ :=
    generated_eq_ok.2 ⟨dists, grown, grown', source, _, hstandard, husers, harticles, hsource, hmade⟩
  obtain ⟨hoffered, hlength⟩ := Batches.offered_of_records hmade
  refine ⟨_, hgenerated, hfilled.of_eq (hafter .user key_ne.2.1),
    hfilled'.of_eq (hafter .article key_ne.2.2),
    ⟨v, (table?_of_tables hrestored _).trans hv, hkept.spec, hkept.rows⟩, ?_, hcount.symm⟩
  exact (hoffered.accepted_eq.trans (Nat.zero_add _)).trans hlength

end Run

/-- One user can read one article, and is asked to do so twice; each read is a batch of its own. -/
def samePair : Seeding where
  config := { users := 1, articles := 1, reads := 2, readBatchSize := 1, spreadDays := 1,
              rngSeed := some 7 }
  retry := {}
  entropy := 0
  budget := 10

/-- A server with the standard tables, all empty. -/
def vacant : Server := (Server.empty Server.still).after (standardSpecs.map .define)

end Seeding
end ReadingBench
