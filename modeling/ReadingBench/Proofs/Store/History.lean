import ReadingBench.Proofs.Store.Operation

namespace ReadingBench.Store.Server

open Sql Outcome

/-- A table after a request: it was there before, or it was just defined, or an insert or a delete made
it from one that was there. -/
inductive Makes (server : Server) (op : Operation) (name : String) (t' : Table) : Prop where
  | kept (h : server.tables[name]? = some t')
  | defined (spec : TableSpec) (h : t' = .empty spec)
  | inserted (t : Table) (now : DateTime) (s : Insert) (affected : Nat)
      (h : server.tables[name]? = some t) (hsteps : op.tupleSteps server = t.insertSteps now s)
      (hinsert : t.insert now s = .ok (t', affected))
  | deleted (t : Table) (count : Nat) (h : server.tables[name]? = some t)
      (hdelete : (t.dropFirst count).reindex = .ok t')
  | broken (t : Table) (count : Nat) (e : Error) (h : server.tables[name]? = some t)
      (hdelete : (t.dropFirst count).reindex = .error e)

theorem getElem?_insert {tables : Std.TreeMap String Table} {key name : String} {t t' : Table}
    (h : (tables.insert key t)[name]? = some t') :
    (key = name ∧ t = t') ∨ (key ≠ name ∧ tables[name]? = some t') := by
  rw [Std.TreeMap.getElem?_insert] at h
  by_cases hkey : key = name
  · exact .inl ⟨hkey, by simpa [hkey] using h⟩
  · exact .inr ⟨hkey, by simpa [hkey] using h⟩

/-- An insert that is let in changes its own table or nothing. -/
theorem makes_applyInsert {server admitted : Server} {op : Operation} {name : String} {t' : Table}
    {s : Insert} (htables : admitted.tables = server.tables)
    (hsteps : ∀ t, admitted.table? s.table = some t →
      op.tupleSteps server = t.insertSteps (admitted.clock admitted.log.size) s)
    (h : (Action.applyInsert s admitted).2.tables[name]? = some t') : Makes server op name t' := by
  rw [Action.applyInsert_apply] at h
  cases htable : admitted.table? s.table with
  | none =>
    simp only [htable, htables] at h
    exact .kept h
  | some t =>
    simp only [htable] at h
    cases hinsert : t.insert (admitted.clock admitted.log.size) s with
    | error e =>
      simp only [hinsert, htables] at h
      exact .kept h
    | ok r =>
      simp only [hinsert, htables] at h
      rcases getElem?_insert h with ⟨rfl, rfl⟩ | ⟨-, h⟩
      · exact .inserted t _ s r.2 (htables ▸ htable) (hsteps t htable) hinsert
      · exact .kept h

/-- A delete changes its own table or nothing, also where the indexes cannot be made anew. -/
theorem makes_replaceFirst {server admitted : Server} {op : Operation} {name : String} {t t' : Table}
    {ref : TableRef} {count : Nat} (htables : admitted.tables = server.tables)
    (hold : server.tables[ref.key]? = some t)
    (h : ((do
        Action.setTable ref (t.dropFirst count)
        Action.setTable ref (← (t.dropFirst count).reindex)
        return count : Action Nat) admitted).2.tables[name]? = some t') : Makes server op name t' := by
  simp only [bind_apply, Action.setTable_apply, lift_apply, pure_apply, htables] at h
  cases hreindex : (t.dropFirst count).reindex with
  | error e =>
    simp only [hreindex] at h
    rcases getElem?_insert h with ⟨rfl, rfl⟩ | ⟨-, h⟩
    · exact .broken t count e hold hreindex
    · exact .kept h
  | ok u =>
    simp only [hreindex] at h
    rcases getElem?_insert h with ⟨rfl, rfl⟩ | ⟨hother, h⟩
    · exact .deleted t count hold hreindex
    · exact .kept ((getElem?_insert h).resolve_left fun same => hother same.1).2

/-- Behind a session's check, a table was there before or comes from the work. -/
theorem getElem?_receive {α : Type} {s : Session} {sql : String} {work : Unit → Action α}
    {server : Server} {name : String} {t' : Table}
    (h : ((s.receive sql >>= work) server).2.tables[name]? = some t') :
    server.tables[name]? = some t' ∨ ∃ admitted, s.receive sql server = (.ok ⟨⟩, admitted) ∧
      admitted.tables = server.tables ∧ (work ⟨⟩ admitted).2.tables[name]? = some t' := by
  have htables := (s.receive_snd sql server).1
  rw [bind_apply] at h
  rcases hreceive : s.receive sql server with ⟨_ | _, admitted⟩
  · rw [hreceive] at h htables
    exact .inl (htables ▸ h)
  · rw [hreceive] at h htables
    exact .inr ⟨admitted, rfl, htables, h⟩

/-- A request never touches a table in any other way. -/
theorem makes_of_step {server : Server} {op : Operation} {name : String} {t' : Table}
    (h : (server.step op).tables[name]? = some t') : Makes server op name t' := by
  unfold step at h
  cases op with
  | define spec =>
    rcases getElem?_insert h with ⟨-, rfl⟩ | ⟨-, h⟩
    · exact .defined spec rfl
    · exact .kept h
  | openSession => exact .kept h
  | close s => exact .kept (s.close_tables server ▸ h)
  | failNext e => exact .kept h
  | select s statement =>
    rw [Operation.perform, bind_pure_apply_snd, Session.select_eq] at h
    obtain h | ⟨admitted, -, htables, h⟩ := getElem?_receive h
    · exact .kept h
    · rw [bind_apply, Action.table_apply] at h
      refine .kept (htables ▸ ?_)
      cases htable : admitted.table? statement.table with
      | none => simpa [htable] using h
      | some t => simpa [htable, lift_apply] using h
  | insert s statement =>
    rw [Operation.perform, bind_pure_apply_snd, Session.insert_eq] at h
    obtain h | ⟨admitted, hreceive, htables, h⟩ := getElem?_receive h
    · exact .kept h
    · refine makes_applyInsert htables ?_ h
      intro t ht
      simp [Operation.tupleSteps, Operation.insert?, hreceive, ht]
  | delete s statement =>
    rw [Operation.perform, bind_pure_apply_snd, Session.delete_eq] at h
    obtain h | ⟨admitted, -, htables, h⟩ := getElem?_receive h
    · exact .kept h
    · rw [bind_apply, Action.table_apply] at h
      cases htable : admitted.table? statement.table with
      | none => exact .kept (by simpa [htable, ← htables] using h)
      | some t =>
        have hold : server.tables[statement.table.key]? = some t := htables ▸ htable
        simp only [htable] at h
        exact makes_replaceFirst htables hold h
  | execute s sql =>
    rw [Operation.perform, bind_pure_apply_snd, Session.execute_eq] at h
    obtain h | ⟨admitted, hreceive, htables, h⟩ := getElem?_receive h
    · exact .kept h
    · rw [bind_apply, lift_apply] at h
      rcases hreading : Action.reading sql with _ | _ | statement
      · exact .kept (by simpa [hreading, ← htables] using h)
      · exact .kept (by simpa [hreading, ← htables, pure_apply] using h)
      · simp only [hreading] at h
        refine makes_applyInsert htables ?_ h
        intro t ht
        simp [Operation.tupleSteps, Operation.insert?, hreading, hreceive, ht]
  | commit s =>
    rw [Operation.perform, Session.commit_eq, bind_assoc] at h
    obtain h | ⟨admitted, -, htables, h⟩ := getElem?_receive h
    · exact .kept h
    · exact .kept (htables ▸ h)

def All (P : Table → Prop) (server : Server) : Prop :=
  ∀ (name : String) (t : Table), server.tables[name]? = some t → P t

theorem all_empty (P : Table → Prop) (clock : Nat → DateTime) : (empty clock).All P := by
  intro name t h
  simp [getElem?_empty] at h

theorem All.receive {P : Table → Prop} {server admitted : Server} (h : server.All P) {s : Session}
    {sql : String} {u : Unit} (hreceive : s.receive sql server = (.ok u, admitted)) :
    admitted.All P := by
  rwa [All, Session.receive_eq_ok hreceive]

theorem sound_step {server : Server} (h : server.All Table.Sound) (op : Operation) :
    (server.step op).All Table.Sound := by
  intro name t' ht'
  cases makes_of_step ht' with
  | kept hold => exact h name t' hold
  | defined spec heq => exact heq ▸ Table.sound_empty spec
  | inserted t now s affected hold _ hinsert => exact Table.sound_insert (h name t hold) hinsert
  | deleted t count hold hdelete =>
    obtain ⟨u, hu, -, -, hsound⟩ := Table.exists_reindex_dropFirst (h name t hold) count
    rw [hdelete, Except.ok.injEq] at hu
    exact hu ▸ hsound
  | broken t count e hold hdelete =>
    -- A sound table can be indexed anew, so a delete never leaves half of its work behind.
    obtain ⟨u, hu, -⟩ := Table.exists_reindex_dropFirst (h name t hold) count
    simp [hdelete] at hu

theorem sound_after {server : Server} (h : server.All Table.Sound) (ops : List Operation) :
    (server.after ops).All Table.Sound := by
  induction ops generalizing server with
  | nil => exact h
  | cons op ops ih => exact ih (sound_step h op)

theorem Reachable.sound {server : Server} (h : server.Reachable) : server.All Table.Sound := by
  obtain ⟨clock, ops, rfl⟩ := h
  exact sound_after (all_empty _ clock) ops

/-- The tables that an insert works on come from a stored one. -/
theorem tupleSteps_eq {server : Server} {op : Operation} {p : Table × Table}
    (h : p ∈ op.tupleSteps server) : ∃ (name : String) (t : Table) (now : DateTime) (s : Insert),
      server.tables[name]? = some t ∧ op.tupleSteps server = t.insertSteps now s := by
  unfold Operation.tupleSteps at h ⊢
  cases hinsert : op.insert? with
  | none => simp [hinsert] at h
  | some r =>
    obtain ⟨s, sql, statement⟩ := r
    have htables := (s.receive_snd sql server).1
    simp only [hinsert] at h ⊢
    rcases hreceive : s.receive sql server with ⟨_ | _, admitted⟩
    · simp [hreceive] at h
    · simp only [hreceive] at h htables ⊢
      cases htable : admitted.table? statement.table with
      | none => simp [htable] at h
      | some t =>
        refine ⟨statement.table.key, t, _, statement, ?_, rfl⟩
        rw [← htables]
        exact htable

end ReadingBench.Store.Server
