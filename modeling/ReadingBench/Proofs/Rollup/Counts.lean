import ReadingBench.Proofs.Rollup.Keyed
import ReadingBench.Proofs.Store.Effect
import ReadingBench.Proofs.Text.StringList

namespace ReadingBench.Rollup

open Sql Store Outcome Server

/-- The request leaves the table of rollups alone, or it upserts rollups. -/
def Upserts (op : Operation) : Prop :=
  op.target? ≠ some Keyspace.beRead.table.key ∨ ∃ s rows, op = .insert s (upsert rows)

section Only

variable {sessions : List Session} {s s' : Session}

theorem only_select (hs : s ∈ sessions) (statement : Select) :
    Only Upserts sessions (s.select statement) := by
  refine (takes_select hs statement).imp ?_
  rintro events r ⟨answer, rfl, -⟩
  simp [Upserts, Operation.target?]

theorem only_ofArticle (hs : s ∈ sessions) (id : Nat) (row : Row) :
    Only Upserts sessions (ofArticle s id row) :=
  (only_ofExcept _).bind fun aid => (only_select hs (readSelect aid)).ofAction.bind fun _ =>
    (only_ofExcept _).bind fun _ => only_pure _

theorem only_compute (hs : s ∈ sessions) (hs' : s' ∈ sessions) : Only Upserts sessions (compute s s') :=
  (only_select hs articleSelect).ofAction.bind fun _ => Only.mapM fun _ _ => only_ofArticle hs' _ _

theorem only_persistBatch (hs : s ∈ sessions) (batch : List BeRead) :
    Only Upserts sessions (persistBatch s batch) := by
  have hinsert : Only Upserts sessions (s.insert (upsert batch)) := by
    refine (takes_insert hs (upsert batch)).imp ?_
    rintro events r ⟨answer, rfl, -⟩
    exact List.forall_mem_singleton.2 (.inr ⟨s, batch, rfl⟩)
  have hcommit : Only Upserts sessions s.commit := by
    refine (takes_commit hs).imp ?_
    rintro events r ⟨answer, rfl, -⟩
    simp [Upserts, Operation.target?]
  exact hinsert.ofAction.bind fun _ => hcommit.ofAction

theorem only_persist (hs : s ∈ sessions) (config : RollupConfig) (rows : List BeRead) :
    Only Upserts sessions (persist config s rows) :=
  (Only.forM fun batch _ => only_persistBatch hs batch).bind fun _ => only_pure _

theorem only_run (config : RollupConfig) : Only Upserts sessions (run config) := by
  have hopens : Upserts .openSession := .inl (by simp [Operation.target?])
  have hcloses : ∀ s, Upserts (.close s) := fun s => .inl (by simp [Operation.target?])
  rw [run_eq_withSession]
  refine Only.withSession (fun articles => ?_) hopens hcloses
  refine Only.withSession (fun reads => ?_) hopens hcloses
  refine Only.withSession (fun sink => ?_) hopens hcloses
  exact (only_compute (by simp) (by simp)).bind fun rows =>
    (only_persist (by simp) config rows).bind fun _ => only_pure _

end Only

section Upserted

variable {server : Server} {t : Table}

theorem insert_tables_of_error {s : Session} {statement : Insert} {next : Server} {e : Error}
    (h : s.insert statement server = (.error e, next)) : next.tables = server.tables := by
  rw [Session.insert_eq, bind_apply] at h
  have htables := (s.receive_snd statement.sql server).1
  rcases hreceive : s.receive statement.sql server with ⟨e' | u, admitted⟩
  · rw [hreceive] at h htables
    obtain ⟨-, rfl⟩ := Prod.mk.inj h
    exact htables
  · rw [hreceive] at h htables
    dsimp only at h
    rw [Action.applyInsert_apply] at h
    split at h
    · obtain ⟨-, rfl⟩ := Prod.mk.inj h
      exact htables
    · split at h
      · obtain ⟨-, rfl⟩ := Prod.mk.inj h
        exact htables
      · cases (Prod.mk.inj h).1

theorem step_upserted {op : Operation} (h : Upserts op)
    (ht : server.table? Keyspace.beRead.table = some t) (hspec : t.spec = Keyspace.beRead.spec) :
    ∃ bs u, (server.step op).table? Keyspace.beRead.table = some u ∧ Upserted t bs u := by
  rcases h with hspares | ⟨s, rows, rfl⟩
  · exact ⟨[], t, (step_getElem? hspares).trans ht, .nil⟩
  have hstep : server.step (.insert s (upsert rows)) = (s.insert (upsert rows) server).2 := by
    rw [step, Operation.perform, bind_pure_apply_snd]
  rw [hstep]
  rcases hinsert : s.insert (upsert rows) server with ⟨e | affected, next⟩
  · exact ⟨[], t, (table?_of_tables (insert_tables_of_error hinsert) _).trans ht, .nil⟩
  · obtain ⟨v, u, now, hv, hinsert, htables⟩ := Session.insert_eq_ok hinsert
    obtain rfl := Option.some.inj (ht.symm.trans hv)
    exact ⟨rows, u, table?_of_insert htables, by simpa using Upserted.nil.insert hspec hinsert⟩

theorem after_upserted {ops : List Operation} (h : ∀ op ∈ ops, Upserts op)
    (ht : server.table? Keyspace.beRead.table = some t) (hspec : t.spec = Keyspace.beRead.spec) :
    ∃ bs u, (server.after ops).table? Keyspace.beRead.table = some u ∧ Upserted t bs u := by
  induction ops generalizing server t with
  | nil => exact ⟨[], t, ht, .nil⟩
  | cons op ops ih =>
    obtain ⟨bs, u, hu, hfirst⟩ := step_upserted (h op (by simp)) ht hspec
    obtain ⟨bs', v, hv, hrest⟩ :=
      ih (fun later hlater => h later (by simp [hlater])) hu (hfirst.spec_eq.trans hspec)
    exact ⟨bs ++ bs', v, hv, hfirst.trans hrest⟩

theorem Only.upserted {sessions : List Session} {α : Type} {work : Run α} (h : Only Upserts sessions work)
    (hopen : server.Open sessions) (ht : server.table? Keyspace.beRead.table = some t)
    (hspec : t.spec = Keyspace.beRead.spec) :
    ∃ bs u, (work server).2.table? Keyspace.beRead.table = some u ∧ Upserted t bs u := by
  obtain ⟨ops, -, hafter, -, hall⟩ := h server hopen
  rw [hafter]
  exact after_upserted (forall_events.1 hall) ht hspec

/-- A closed session asks for nothing. -/
theorem persist_closed {sink : Session} (hclosed : sink.isClosed server = true) (config : RollupConfig)
    (rows : List BeRead) : (persist config sink rows server).2 = server := by
  have hbatch : ∀ batch, ∃ halt, persistBatch sink batch server = (.error halt, server) := by
    intro batch
    have hinsert : ∃ e, sink.insert (upsert batch) server = (.error e, server) := by
      rw [Session.insert_eq, bind_apply, Session.receive_apply, if_pos hclosed]
      exact ⟨_, rfl⟩
    obtain ⟨e, hinsert⟩ := hinsert
    refine ⟨.failed (.sql e), ?_⟩
    rw [persistBatch, bind_apply, Run.ofAction, hinsert]
  rw [persist, bind_apply]
  cases hchunks : chunks config.batchSize.toNat rows with
  | nil => rfl
  | cons batch batches =>
    obtain ⟨halt, hfails⟩ := hbatch batch
    have hall : (batch :: batches).forM (persistBatch sink) server =
        (persistBatch sink batch >>= fun _ => batches.forM (persistBatch sink)) server := rfl
    rw [hall, bind_apply, hfails]

end Upserted

/-- A run of the rollup, a write of rollups that were made somehow, or another request. -/
inductive Step where
  | run (config : RollupConfig)
  | persist (config : RollupConfig) (sink : Session) (rows : List BeRead)
  | request (op : Operation)

namespace Step

/-- The server after the step, however it ends. -/
def perform (server : Server) : Step → Server
  | run config => (Rollup.run config server).2
  | persist config sink rows => (Rollup.persist config sink rows server).2
  | request op => server.step op

/-- Another request leaves the table of rollups alone, or it upserts rollups as a run or a write does that stops
later. -/
def Allowed : Step → Prop
  | request op => Upserts op
  | _ => True

theorem upserted {server : Server} {t : Table} {step : Step} (allowed : step.Allowed)
    (ht : server.table? Keyspace.beRead.table = some t) (hspec : t.spec = Keyspace.beRead.spec) :
    ∃ bs u, (step.perform server).table? Keyspace.beRead.table = some u ∧ Upserted t bs u := by
  cases step with
  | run config =>
    have hrun : Only Upserts [] (Rollup.run config) := only_run config
    exact Only.upserted hrun (fun _ h => by cases h) ht hspec
  | persist config sink rows =>
    cases hclosed : sink.isClosed server with
    | true =>
      rw [perform, persist_closed hclosed]
      exact ⟨[], t, ht, .nil⟩
    | false =>
      exact Only.upserted (only_persist List.mem_cons_self config rows)
        (List.forall_mem_singleton.2 hclosed) ht hspec
  | request op => exact step_upserted allowed ht hspec

theorem through_upserted {server : Server} {t : Table} {steps : List Step}
    (allowed : ∀ step ∈ steps, step.Allowed)
    (ht : server.table? Keyspace.beRead.table = some t) (hspec : t.spec = Keyspace.beRead.spec) :
    ∃ bs u, (steps.foldl perform server).table? Keyspace.beRead.table = some u ∧ Upserted t bs u := by
  induction steps generalizing server t with
  | nil => exact ⟨[], t, ht, .nil⟩
  | cons step steps ih =>
    obtain ⟨bs, u, hu, hfirst⟩ := upserted (allowed step (by simp)) ht hspec
    obtain ⟨bs', v, hv, hrest⟩ :=
      ih (fun later hlater => allowed later (by simp [hlater])) hu (hfirst.spec_eq.trans hspec)
    exact ⟨bs ++ bs', v, hv, hfirst.trans hrest⟩

end Step

/-- The statistics in a row are those of one rollup. -/
def Whole (row : Tuple) : Prop := ∃ stats : ReadStats, (entry row).2 = stats.values

theorem Upserted.whole {t u : Table} {bs : List BeRead} (h : Upserted t bs u) (ht : t.Sound)
    (hspec : t.spec = Keyspace.beRead.spec) (hrows : ∀ row ∈ t.rows, Whole row) :
    ∀ row ∈ u.rows, Whole row := by
  induction h with
  | nil => exact hrows
  | @snoc done b u v now applied before last ih =>
    rcases apply_upsert (before.sound ht) (before.spec_eq.trans hspec) last with
      ⟨-, happend⟩ | ⟨pos, -, -, rfl, hrow⟩
    · obtain ⟨keys, -, rfl⟩ := Table.append_eq_ok.1 happend
      intro row hmem
      rcases Array.mem_push.1 hmem with hold | rfl
      · exact ih row hold
      · exact ⟨b.stats, rfl⟩
    · intro row hmem
      rcases Array.mem_or_eq_of_mem_setIfInBounds hmem with hold | hnew
      · exact ih row hold
      · rw [hnew]
        exact ⟨b.stats, congrArg Prod.snd hrow⟩

/-- The count in one column is the length of the list that the text in another stands for. -/
def Counts (row : Tuple) (count list : String) : Prop :=
  ∃ n text uids, Keyspace.beRead.cell row count = .int n ∧ Keyspace.beRead.cell row list = .text text ∧
    Text.decodeList text = some uids ∧ n = (UInt64.ofNat uids.length).toInt64 ∧
      (uids.length < 2 ^ 63 → n.toInt = uids.length)

theorem counts_of_listColumns {row : Tuple} {count list : String} {uids : List String}
    (h : [Keyspace.beRead.cell row count, Keyspace.beRead.cell row list] = BeRead.listColumns uids) :
    Counts row count list := by
  obtain ⟨hcount, hlist⟩ := List.cons.inj h
  refine ⟨_, _, uids, hcount, (List.cons.inj hlist).1, Text.decodeList_encodeList uids, rfl, fun hlength => ?_⟩
  rw [UInt64.toInt64_ofNat', Int64.toInt_ofNat_of_lt hlength]

theorem Whole.counts {row : Tuple} (h : Whole row) :
    Counts row "readNum" "readUidList" ∧ Counts row "commentNum" "commentUidList" ∧
      Counts row "agreeNum" "agreeUidList" ∧ Counts row "shareNum" "shareUidList" := by
  obtain ⟨stats, hstats⟩ := h
  have hcells : [Keyspace.beRead.cell row "readNum", Keyspace.beRead.cell row "readUidList"] ++
      [Keyspace.beRead.cell row "commentNum", Keyspace.beRead.cell row "commentUidList"] ++
      [Keyspace.beRead.cell row "agreeNum", Keyspace.beRead.cell row "agreeUidList"] ++
      [Keyspace.beRead.cell row "shareNum", Keyspace.beRead.cell row "shareUidList"] = stats.values := hstats
  obtain ⟨hcells, hshare⟩ := List.append_inj hcells rfl
  obtain ⟨hcells, hagree⟩ := List.append_inj hcells rfl
  obtain ⟨hread, hcomment⟩ := List.append_inj hcells rfl
  exact ⟨counts_of_listColumns hread, counts_of_listColumns hcomment, counts_of_listColumns hagree,
    counts_of_listColumns hshare⟩

/-- In a table of rollups that was empty, every row's four counts are the lengths of its four lists,
whatever runs and writes have made of it and wherever they failed. -/
theorem counts_of_steps {server : Server} (reachable : server.Reachable) {t : Table}
    (ht : server.table? Keyspace.beRead.table = some t) (hspec : t.spec = Keyspace.beRead.spec)
    (hempty : t.rows = #[]) {steps : List Step} (allowed : ∀ step ∈ steps, step.Allowed) :
    ∃ u, (steps.foldl Step.perform server).table? Keyspace.beRead.table = some u ∧
      ∀ row ∈ u.rows, Counts row "readNum" "readUidList" ∧ Counts row "commentNum" "commentUidList" ∧
        Counts row "agreeNum" "agreeUidList" ∧ Counts row "shareNum" "shareUidList" := by
  obtain ⟨bs, u, hu, hupserted⟩ := Step.through_upserted allowed ht hspec
  have hwhole := hupserted.whole (reachable.sound Keyspace.beRead.table.key t ht) hspec (by simp [hempty])
  exact ⟨u, hu, fun row hrow => (hwhole row hrow).counts⟩

/-- A run, a write that overwrites its row with the uids of another article, a write that stops at its first
commit, and a run that fails. -/
def overwriting : List Step :=
  [.run {},
    .persist { batchSize := 1 } .root
      [⟨1, "a9", "", ⟨["u\n\"1", "é"], [], ["\\"], []⟩⟩, ⟨7, "a7", "", ⟨["u1"], [], [], []⟩⟩],
    .request (.insert .root (upsert [⟨7, "a8", "", ⟨[], ["u2"], [], []⟩⟩])),
    .request (.failNext .sessionClosed),
    .run {}]

theorem counts_of_steps_overwriting : ∃ u,
    (overwriting.foldl Step.perform (oneArticle [])).table? Keyspace.beRead.table = some u ∧
      u.rows.size = 2 ∧
      ∀ row ∈ u.rows, Counts row "readNum" "readUidList" ∧ Counts row "commentNum" "commentUidList" ∧
        Counts row "agreeNum" "agreeUidList" ∧ Counts row "shareNum" "shareUidList" := by
  obtain ⟨t, ht, hspec, hempty⟩ : ∃ t, (oneArticle []).table? Keyspace.beRead.table = some t ∧
      t.spec = Keyspace.beRead.spec ∧ t.rows.size = 0 := by
    decide +kernel
  have reachable : (oneArticle []).Reachable := ⟨_, _, rfl⟩
  have allowed : ∀ step ∈ overwriting, step.Allowed := by
    simp [overwriting, Step.Allowed, Upserts, Operation.target?]
  obtain ⟨u, hu, hcounts⟩ :=
    counts_of_steps reachable ht hspec (Array.eq_empty_of_size_eq_zero hempty) allowed
  have hsize : ((overwriting.foldl Step.perform (oneArticle [])).table? Keyspace.beRead.table).map
      (·.rows.size) = some 2 := by
    decide +kernel
  rw [hu, Option.map_some, Option.some.injEq] at hsize
  exact ⟨u, hu, hsize, hcounts⟩

end ReadingBench.Rollup
