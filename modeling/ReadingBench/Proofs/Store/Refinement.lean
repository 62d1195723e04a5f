import ReadingBench.Proofs.Store.RowStore

namespace ReadingBench.Store.Server

open Sql Outcome

/-- The server without its indexes, and without what no request reads. -/
def forget (server : Server) : RowStore where
  tables name := server.tables[name]?.map Table.forget
  received := server.log.size
  failures := server.failures
  closed := server.closed
  clock := server.clock

theorem forget_insert (server : Server) (key : String) (t : Table) :
    { server with tables := server.tables.insert key t }.forget = server.forget.set key t.forget := by
  simp only [forget, RowStore.set, RowStore.mk.injEq, and_true]
  funext name
  rw [Std.TreeMap.getElem?_insert]
  by_cases hkey : key = name
  · simp [hkey]
  · simp [hkey, Function.update_of_ne (Ne.symm hkey)]

/-- The second write to a table is the one that stays. -/
theorem forget_insert_again (server : Server) (key : String) (t t' : Table) :
    { server with tables := (server.tables.insert key t).insert key t' }.forget =
      server.forget.set key t'.forget := by
  have hwritten := forget_insert { server with tables := server.tables.insert key t } key t'
  refine hwritten.trans ?_
  rw [forget_insert]
  simp only [RowStore.set, Function.update_idem]

/-- Without indexes the same comes back, and the same is left behind. -/
def Mirrors {α : Type} (f : RowAction α) (g : Action α) (server : Server) : Prop :=
  f server.forget = ((g server).1, (g server).2.forget)

section Mirrors

variable {α β : Type} {server : Server} {s : Session} {sql : String} {ref : TableRef}

theorem Mirrors.bind {f : RowAction α} {g : Action α} {f' : α → RowAction β} {g' : α → Action β}
    (h : Mirrors f g server)
    (hnext : ∀ a next, g server = (.ok a, next) → Mirrors (f' a) (g' a) next) :
    Mirrors (f >>= f') (g >>= g') server := by
  rw [Mirrors] at h
  rw [Mirrors, bind_apply, bind_apply, h]
  rcases hg : g server with ⟨e | a, next⟩
  · rfl
  · exact hnext a next hg

theorem mirrors_pure (a : α) : Mirrors (pure a) (pure a) server := rfl

theorem mirrors_lift (x : Except Error α) : Mirrors (liftM x) (liftM x) server := by
  rw [Mirrors, lift_apply, lift_apply]

theorem mirrors_receive : Mirrors (RowAction.receive s) (s.receive sql) server := by
  rw [Mirrors, Session.receive_apply, Action.begin_apply]
  simp only [RowAction.receive, bind_apply, get_apply]
  rw [show server.forget.closed.getD s.number true = s.isClosed server from rfl]
  by_cases hclosed : s.isClosed server
  · simp only [hclosed, if_true, throw_apply]
  · simp only [hclosed, Bool.false_eq_true, if_false, bind_apply, modify_apply]
    rw [show server.forget.failures = server.failures from rfl]
    cases hfailures : server.failures <;>
      simp [pure_apply, bind_apply, modify_apply, throw_apply, forget, hfailures]

theorem Mirrors.table {f : RowTable → RowAction α} {g : Table → Action α}
    (h : ∀ t, server.table? ref = some t → Mirrors (f t.forget) (g t) server) :
    Mirrors (RowAction.table ref >>= f) (Action.table ref >>= g) server := by
  simp only [Mirrors, RowAction.table, bind_apply, get_apply, Action.table_apply]
  rw [show server.forget.tables ref.key = (server.table? ref).map Table.forget from rfl]
  cases htable : server.table? ref with
  | none => rfl
  | some t => exact h t htable

theorem mirrors_setTable (t : Table) :
    Mirrors (RowAction.setTable ref t.forget) (Action.setTable ref t) server := by
  rw [Mirrors, Action.setTable_apply, forget_insert]
  rfl

theorem mirrors_insert (h : server.All Table.Indexed) {statement : Insert}
    (apart : ∀ t, server.table? statement.table = some t →
      ∀ p ∈ t.insertSteps (server.clock server.log.size) statement, ¬Table.Collision p.1 p.2) :
    Mirrors (RowAction.insert statement) (Action.applyInsert statement) server := by
  refine Mirrors.table fun t htable => ?_
  have hinsert := Table.insert_forget (h statement.table.key t htable) (apart t htable)
  simp only [Mirrors, bind_apply, get_apply, lift_apply]
  rw [show server.forget.clock server.forget.received = server.clock server.log.size from rfl,
    hinsert]
  cases t.insert (server.clock server.log.size) statement with
  | error e => rfl
  | ok r =>
    simp only [Table.forgetResult, Except.map, RowAction.setTable, modify_apply, pure_apply,
      Action.setTable_apply, forget_insert]

theorem mirrors_delete (h : server.All Table.Sound) {t : Table} (ht : server.table? ref = some t)
    (count : Nat) :
    Mirrors (RowAction.setTable ref { t.forget with rows := t.forget.rows.drop count })
      (do
        Action.setTable ref (t.dropFirst count)
        Action.setTable ref (← (t.dropFirst count).reindex))
      server := by
  obtain ⟨u, hu, hforget⟩ := Table.reindex_forget (h ref.key t ht) count
  rw [← hforget, Mirrors]
  simp only [bind_apply, Action.setTable_apply, lift_apply, hu, forget_insert_again]
  rfl

end Mirrors

/-- Every request has the same answer and the same effect on rows. -/
theorem mirrors_perform {server : Server} (h : server.All Table.Indexed) {op : Operation}
    (apart : ∀ p ∈ op.tupleSteps server, ¬Table.Collision p.1 p.2) :
    Mirrors (RowAction.perform op) op.perform server := by
  cases op with
  | define spec => exact (mirrors_setTable (.empty spec)).bind fun _ _ _ => mirrors_pure _
  | openSession => rfl
  | close s =>
    simp only [Mirrors, RowAction.perform, Operation.perform, bind_apply, modify_apply, pure_apply,
      Session.close, Session.shut]
    cases s.isClosed server
    · simp only [Session.release, Bool.not_false]
      split <;> rfl
    · rfl
  | failNext e => rfl
  | select s statement =>
    rw [Operation.perform, Session.select_eq, bind_assoc]
    refine mirrors_receive.bind fun _ admitted hreceive => ?_
    rw [bind_assoc]
    refine Mirrors.table fun t _ => ?_
    rw [Table.select_forget]
    exact (mirrors_lift _).bind fun _ _ _ => mirrors_pure _
  | insert s statement =>
    rw [Operation.perform, Session.insert_eq, bind_assoc]
    refine mirrors_receive.bind fun _ admitted hreceive => ?_
    refine (mirrors_insert (h.receive hreceive) ?_).bind fun _ _ _ => mirrors_pure _
    intro t ht
    simpa [Operation.tupleSteps, Operation.insert?, hreceive, ht] using apart
  | delete s statement =>
    rw [Operation.perform, Session.delete_eq, bind_assoc]
    refine mirrors_receive.bind fun _ admitted hreceive => ?_
    rw [bind_assoc]
    refine Mirrors.table fun t ht => ?_
    have hsound : admitted.All Table.Sound := fun name u hu => (h.receive hreceive name u hu).toSound
    have hsize : t.forget.rows.length = t.rows.size := Array.length_toList
    simp only [hsize, bind_assoc, pure_bind]
    have hdelete := mirrors_delete hsound ht (min (statement.limit.getD t.rows.size) t.rows.size)
    simpa only [bind_assoc] using hdelete.bind fun _ _ _ => mirrors_pure _
  | execute s sql =>
    rw [Operation.perform, Session.execute_eq, bind_assoc]
    refine mirrors_receive.bind fun _ admitted hreceive => ?_
    rw [bind_assoc]
    refine (mirrors_lift (Action.reading sql)).bind fun read next hlift => ?_
    rw [lift_apply] at hlift
    obtain ⟨hread, rfl⟩ := Prod.mk.inj hlift
    cases read with
    | none => rfl
    | some statement =>
      refine (mirrors_insert (h.receive hreceive) ?_).bind fun _ _ _ => mirrors_pure _
      intro t ht
      simpa [Operation.tupleSteps, Operation.insert?, hread, hreceive, ht] using apart
  | commit s =>
    rw [Operation.perform, Session.commit_eq, bind_assoc]
    exact mirrors_receive.bind fun _ _ _ => rfl

theorem after_forget {server : Server} (h : server.All Table.Indexed) {ops : List Operation}
    (apart : server.CollisionFree ops) {done rest : List Operation} (hops : ops = done ++ rest) :
    (server.after done).forget = server.forget.after done := by
  induction done generalizing server ops with
  | nil => rfl
  | cons op done ih =>
    subst hops
    have hstep : (RowAction.perform op server.forget).2 = (server.step op).forget := by
      rw [show RowAction.perform op server.forget = _ from mirrors_perform h apart.1]
      rfl
    have hafter := ih (indexed_step h apart.1) apart.2 rfl
    rw [after_cons, hafter, ← hstep]
    rfl

/-- Without collisions every index is exact after each request, all rows are those of the store without
indexes, and both give the same answer to the next request. -/
theorem refines_rowStore (clock : Nat → DateTime) (ops : List Operation)
    (apart : (empty clock).CollisionFree ops) (done rest : List Operation) (hops : ops = done ++ rest) :
    ((empty clock).after done).All Table.Indexed ∧
      ((empty clock).after done).forget = (RowStore.empty clock).after done ∧
      ∀ op rest', rest = op :: rest' →
        (op.perform ((empty clock).after done)).1 =
          (RowAction.perform op ((RowStore.empty clock).after done)).1 := by
  have hindexed := indexed_after (all_empty _ clock) apart hops
  have hforget := after_forget (all_empty _ clock) apart hops
  have hempty : (empty clock).forget = RowStore.empty clock := by
    simp only [forget, RowStore.empty, getElem?_empty]
    rfl
  rw [hempty] at hforget
  refine ⟨hindexed, hforget, ?_⟩
  rintro op rest' rfl
  have hperform := mirrors_perform hindexed (collisionFree_next (hops ▸ apart))
  rw [← hforget, show RowAction.perform op _ = _ from hperform]

/-- A key moves and its old value is taken, by text and with a NULL beside it; then the front goes. -/
def mixed : List Operation :=
  freed ++
    [.execute .root "INSERT IGNORE INTO t (id, aid) VALUES (4, 'b'), (NULL, 'd')",
      .delete .root ⟨twoKeys.table, some 1⟩, both .ignore [(1, "c")]]

theorem refines_rowStore_mixed : (empty still).CollisionFree mixed ∧
    ((empty still).after mixed).All Table.Indexed ∧
    ((empty still).after mixed).forget = (RowStore.empty still).after mixed :=
  have apart : (empty still).CollisionFree mixed := by decide +kernel
  have refines := refines_rowStore still mixed apart mixed [] (by simp)
  ⟨apart, refines.1, refines.2.1⟩

end ReadingBench.Store.Server
