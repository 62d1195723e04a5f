import ReadingBench.Proofs.Outcome
import ReadingBench.Store.Server

namespace ReadingBench.Store

open Sql Outcome

section Work

variable {σ ε α β : Type}

theorem bind_apply (x : ExceptT ε (StateM σ) α) (f : α → ExceptT ε (StateM σ) β)
    (state : σ) : (x >>= f) state =
      match x state with
      | (.ok a, state) => f a state
      | (.error e, state) => (.error e, state) := by
  simp only [bind, ExceptT.bind, ExceptT.mk, StateT.bind]
  rcases x state with ⟨_ | a, next⟩ <;> rfl

theorem pure_apply (a : α) (state : σ) :
    (pure a : ExceptT ε (StateM σ) α) state = (.ok a, state) := rfl

theorem throw_apply (e : ε) (state : σ) :
    (throw e : ExceptT ε (StateM σ) α) state = (.error e, state) := rfl

theorem tryCatch_apply (x : ExceptT ε (StateM σ) α) (handler : ε → ExceptT ε (StateM σ) α)
    (state : σ) : tryCatch x handler state =
      match x state with
      | (.ok a, state) => (.ok a, state)
      | (.error e, state) => handler e state := by
  simp only [tryCatch, tryCatchThe, MonadExceptOf.tryCatch, ExceptT.tryCatch, ExceptT.mk, bind,
    StateT.bind]
  rcases x state with ⟨_ | a, next⟩ <;> rfl

theorem get_apply (state : σ) :
    (get : ExceptT ε (StateM σ) σ) state = (.ok state, state) := rfl

theorem modify_apply (f : σ → σ) (state : σ) :
    (modify f : ExceptT ε (StateM σ) PUnit) state = (.ok ⟨⟩, f state) := rfl

theorem lift_apply (x : Except ε α) (state : σ) :
    (liftM x : ExceptT ε (StateM σ) α) state = (x, state) := by
  cases x <;> rfl

theorem bind_pure_apply_snd (x : ExceptT ε (StateM σ) α) (f : α → β) (state : σ) :
    ((do return f (← x)) state).2 = (x state).2 := by
  rw [bind_apply]
  rcases x state with ⟨_ | _, next⟩ <;> rfl

theorem bind_apply_eq_ok {x : ExceptT ε (StateM σ) α} {f : α → ExceptT ε (StateM σ) β}
    {state state' : σ} {b : β} : (x >>= f) state = (.ok b, state') ↔
      ∃ a next, x state = (.ok a, next) ∧ f a next = (.ok b, state') := by
  rw [bind_apply]
  constructor
  · intro h
    rcases hx : x state with ⟨e | a, next⟩
    · rw [hx] at h
      cases (Prod.mk.inj h).1
    · rw [hx] at h
      exact ⟨a, next, rfl, h⟩
  · rintro ⟨a, next, hx, h⟩
    rw [hx]
    exact h

theorem pure_apply_eq_ok {a b : α} {state state' : σ} :
    (pure a : ExceptT ε (StateM σ) α) state = (.ok b, state') ↔ a = b ∧ state = state' := by
  constructor
  · intro h
    obtain ⟨hab, hstate⟩ := Prod.mk.inj h
    exact ⟨Except.ok.inj hab, hstate⟩
  · rintro ⟨rfl, rfl⟩
    rfl

/-- What every step of a list's work keeps and finds out. -/
theorem mapM_apply_eq_ok {f : α → ExceptT ε (StateM σ) β} {I : σ → Prop} {R : α → β → Prop}
    {xs : List α} (step : ∀ x ∈ xs, ∀ s s' y, I s → f x s = (.ok y, s') → I s' ∧ R x y)
    {state state' : σ} {ys : List β} (start : I state) (h : xs.mapM f state = (.ok ys, state')) :
    I state' ∧ List.Forall₂ R xs ys := by
  induction xs generalizing state ys with
  | nil =>
    rw [List.mapM_nil, pure_apply_eq_ok] at h
    obtain ⟨rfl, rfl⟩ := h
    exact ⟨start, .nil⟩
  | cons x xs ih =>
    simp only [List.mapM_cons, bind_apply_eq_ok, pure_apply_eq_ok] at h
    obtain ⟨y, next, hy, zs, last, hzs, rfl, rfl⟩ := h
    obtain ⟨hnext, hxy⟩ := step x (by simp) state next y start hy
    obtain ⟨hlast, hrest⟩ := ih (fun z hz => step z (by simp [hz])) hnext hzs
    exact ⟨hlast, .cons hxy hrest⟩

/-- Work on a list succeeds where each of its steps does, from every state that the steps keep to. -/
theorem mapM_apply_of_ok {f : α → ExceptT ε (StateM σ) β} {g : α → β} {I : σ → Prop} {xs : List α}
    (step : ∀ x ∈ xs, ∀ s, I s → ∃ s', f x s = (.ok (g x), s') ∧ I s') {state : σ} (start : I state) :
    ∃ state', xs.mapM f state = (.ok (xs.map g), state') ∧ I state' := by
  induction xs generalizing state with
  | nil => exact ⟨state, rfl, start⟩
  | cons x xs ih =>
    obtain ⟨next, hx, hnext⟩ := step x (by simp) state start
    obtain ⟨last, hxs, hlast⟩ := ih (fun y hy => step y (by simp [hy])) hnext
    rw [List.mapM_cons, List.map_cons]
    exact ⟨last, bind_apply_eq_ok.2 ⟨_, _, hx, bind_apply_eq_ok.2 ⟨_, _, hxs, rfl⟩⟩, hlast⟩

theorem forM_apply_of_ok {f : α → ExceptT ε (StateM σ) Unit} {I : σ → Prop} {xs : List α}
    (step : ∀ x ∈ xs, ∀ s, I s → ∃ s', f x s = (.ok (), s') ∧ I s') {state : σ} (start : I state) :
    ∃ state', xs.forM f state = (.ok (), state') ∧ I state' := by
  induction xs generalizing state with
  | nil => exact ⟨state, rfl, start⟩
  | cons x xs ih =>
    obtain ⟨next, hx, hnext⟩ := step x (by simp) state start
    obtain ⟨last, hxs, hlast⟩ := ih (fun y hy => step y (by simp [hy])) hnext
    exact ⟨last, bind_apply_eq_ok.2 ⟨_, _, hx, hxs⟩, hlast⟩

end Work

namespace Action

theorem begin_apply (sql : String) (server : Server) : begin sql server =
    match server.failures with
    | [] => (.ok ⟨⟩, { server with log := server.log.push sql })
    | e :: rest => (.error e, { server with log := server.log.push sql, failures := rest }) := by
  simp only [begin, bind_apply, modify_apply, get_apply]
  cases h : server.failures with
  | nil => rfl
  | cons e rest => simp only [bind_apply, modify_apply, throw_apply]

theorem table_apply (ref : TableRef) (server : Server) : table ref server =
    match server.table? ref with
    | some t => (.ok t, server)
    | none => (.error (.unknownTable ref.key), server) := by
  simp only [table, bind_apply, get_apply]
  cases server.table? ref <;> rfl

theorem table_snd (ref : TableRef) (server : Server) : (table ref server).2 = server := by
  rw [table_apply]
  cases server.table? ref <;> rfl

theorem setTable_apply (ref : TableRef) (t : Table) (server : Server) : setTable ref t server =
    (.ok ⟨⟩, { server with tables := server.tables.insert ref.key t }) := rfl

theorem applyInsert_apply (s : Insert) (server : Server) : applyInsert s server =
    match server.table? s.table with
    | none => (.error (.unknownTable s.table.key), server)
    | some t =>
      match t.insert (server.clock server.log.size) s with
      | .error e => (.error e, server)
      | .ok (t, affected) =>
        (.ok affected, { server with tables := server.tables.insert s.table.key t }) := by
  simp only [applyInsert, bind_apply, table_apply]
  cases server.table? s.table with
  | none => rfl
  | some t =>
    simp only [get_apply, lift_apply]
    cases t.insert (server.clock server.log.size) s with
    | error e => rfl
    | ok r => simp only [setTable_apply, pure_apply]

/-- An insert that fails leaves the server as it is, and one that does not changes its own table only. -/
theorem applyInsert_cases (s : Insert) (server : Server) :
    (∃ e, applyInsert s server = (.error e, server)) ∨ ∃ affected t, applyInsert s server =
      (.ok affected, { server with tables := server.tables.insert s.table.key t }) := by
  rw [applyInsert_apply]
  cases server.table? s.table with
  | none => exact .inl ⟨_, rfl⟩
  | some t =>
    dsimp only
    cases t.insert (server.clock server.log.size) s with
    | error e => exact .inl ⟨e, rfl⟩
    | ok r => exact .inr ⟨_, _, rfl⟩

/-- What a text comes down to: an insert, or a setting that has no effect. -/
def reading (sql : String) : Except Error (Option Insert) :=
  let head := Text.skipBlank sql.toList
  match verb head with
  | "INSERT" =>
    match InsertText.read (String.ofList head) with
    | .ok { ignore, table, columns, rows } =>
      .ok (some { table, columns, rows, onConflict := if ignore then .ignore else .fail })
    | .error e => .error (.parse e.message)
  | "SET" | "COMMIT" | "ROLLBACK" | "BEGIN" => .ok none
  | verb => .error (.unsupported verb)

theorem execute_eq (sql : String) : execute sql = (do
    begin sql
    match ← liftM (reading sql) with
    | some s => applyInsert s
    | none => return 0) := by
  funext server
  simp only [execute, reading, bind_apply, lift_apply]
  rcases begin sql server with ⟨_ | _, next⟩
  · rfl
  · simp only
    generalize verb (Text.skipBlank sql.toList) = word
    by_cases hword : word ∈ ["INSERT", "SET", "COMMIT", "ROLLBACK", "BEGIN"]
    · simp only [List.mem_cons, List.not_mem_nil, or_false] at hword
      rcases hword with rfl | rfl | rfl | rfl | rfl
      · cases InsertText.read (String.ofList (Text.skipBlank sql.toList)) <;> rfl
      all_goals rfl
    · simp only [List.mem_cons, List.not_mem_nil, or_false, not_or] at hword
      obtain ⟨h1, h2, h3, h4, h5⟩ := hword
      simp [throw_apply]

end Action

namespace Server

theorem table?_of_tables {server next : Server} (h : next.tables = server.tables) (ref : TableRef) :
    next.table? ref = server.table? ref := by
  rw [Server.table?, Server.table?, h]

end Server

namespace Session

/-- A session lets a statement in: it is open, and no failure waits. -/
def receive (s : Session) (sql : String) : Action Unit := s.run (.begin sql)

theorem receive_apply (s : Session) (sql : String) (server : Server) : s.receive sql server =
    if s.isClosed server then (.error .sessionClosed, server)
    else Action.begin sql server := by
  simp only [receive, run, bind_apply, get_apply]
  split <;> rfl

/-- Being let in changes the log and the failures that wait. -/
theorem receive_snd (s : Session) (sql : String) (server : Server) :
    (s.receive sql server).2.tables = server.tables ∧ (s.receive sql server).2.clock = server.clock ∧
      (s.receive sql server).2.commits = server.commits ∧
      (s.receive sql server).2.closed = server.closed ∧
      (s.receive sql server).2.openSessions = server.openSessions := by
  rw [receive_apply]
  split
  · simp
  · rw [Action.begin_apply]
    split <;> simp

theorem run_eq {α : Type} (s : Session) (sql : String) (work : Action α) :
    s.run (do Action.begin sql; work) = (do s.receive sql; work) := by
  funext server
  simp only [receive, run, bind_apply, get_apply]
  by_cases h : s.isClosed server
  · simp only [h, if_true, throw_apply, bind_apply]
  · simp only [h, Bool.false_eq_true, if_false, bind_apply]

theorem select_eq (s : Session) (statement : Select) : s.select statement = (do
    s.receive statement.sql
    let t ← Action.table statement.table
    t.select statement) := run_eq s _ _

theorem insert_eq (s : Session) (statement : Insert) : s.insert statement = (do
    s.receive statement.sql
    Action.applyInsert statement) := run_eq s _ _

theorem delete_eq (s : Session) (statement : Delete) : s.delete statement = (do
    s.receive statement.sql
    let t ← Action.table statement.table
    let count := min (statement.limit.getD t.rows.size) t.rows.size
    let t := t.dropFirst count
    Action.setTable statement.table t
    Action.setTable statement.table (← t.reindex)
    return count) := run_eq s _ _

theorem commit_eq (s : Session) : s.commit = (do
    s.receive "COMMIT"
    modify fun server => { server with commits := server.commits + 1 }) := run_eq s _ _

theorem execute_eq (s : Session) (sql : String) : s.execute sql = (do
    s.receive sql
    match ← liftM (Action.reading sql) with
    | some insert => Action.applyInsert insert
    | none => return 0) := by
  rw [execute, Action.execute_eq]
  exact run_eq s _ _

/-- Closing sets a session's flag, and lowers the count the first time, if the session is among those that are
counted. -/
theorem close_eq (s : Session) (server : Server) : s.close server =
    { server with
      closed := server.closed.setIfInBounds s.number true
      openSessions := server.openSessions - if s.isClosed server = true ∨ s = root then 0 else 1 } := by
  unfold close shut
  cases s.isClosed server with
  | false =>
    simp only [release, Bool.not_false]
    split <;> simp_all
  | true => simp

theorem close_tables (s : Session) (server : Server) : (s.close server).tables = server.tables := by
  rw [close_eq]

theorem receive_eq_ok {s : Session} {sql : String} {server next : Server} {u : Unit}
    (h : s.receive sql server = (.ok u, next)) : next.tables = server.tables := by
  rw [← (s.receive_snd sql server).1, h]

theorem select_eq_ok {s : Session} {statement : Select} {server next : Server} {rows : List Row}
    (h : s.select statement server = (.ok rows, next)) : next.tables = server.tables ∧
      ∃ t, server.table? statement.table = some t ∧ t.select statement = .ok rows := by
  rw [select_eq, bind_apply_eq_ok] at h
  obtain ⟨_, admitted, hreceive, h⟩ := h
  have htables := receive_eq_ok hreceive
  have htable := Server.table?_of_tables htables statement.table
  rw [bind_apply, Action.table_apply, htable] at h
  cases hfound : server.table? statement.table with
  | none =>
    rw [hfound] at h
    cases (Prod.mk.inj h).1
  | some t =>
    rw [hfound] at h
    obtain ⟨hselect, rfl⟩ := Prod.mk.inj ((lift_apply _ _).symm.trans h)
    exact ⟨htables, t, rfl, hselect⟩

/-- An insert that was let in and succeeded, whatever text it came in with. -/
theorem received_eq_ok {s : Session} {sql : String} {statement : Insert} {server next : Server}
    {affected : Nat}
    (h : (do s.receive sql; Action.applyInsert statement) server = (.ok affected, next)) :
    ∃ t t' now, server.table? statement.table = some t ∧
      t.insert now statement = .ok (t', affected) ∧
        next.tables = server.tables.insert statement.table.key t' := by
  obtain ⟨_, admitted, hreceive, h⟩ := bind_apply_eq_ok.1 h
  have htables := receive_eq_ok hreceive
  have htable := Server.table?_of_tables htables statement.table
  rw [Action.applyInsert_apply, htable] at h
  cases hfound : server.table? statement.table with
  | none =>
    rw [hfound] at h
    cases (Prod.mk.inj h).1
  | some t =>
    simp only [hfound] at h
    rcases hinsert : t.insert (admitted.clock admitted.log.size) statement with e | ⟨t', n⟩
    · rw [hinsert] at h
      cases (Prod.mk.inj h).1
    · rw [hinsert] at h
      obtain ⟨hn, rfl⟩ := Prod.mk.inj h
      obtain rfl := Except.ok.inj hn
      exact ⟨t, t', _, rfl, hinsert, by rw [htables]⟩

theorem insert_eq_ok {s : Session} {statement : Insert} {server next : Server} {affected : Nat}
    (h : s.insert statement server = (.ok affected, next)) : ∃ t t' now,
      server.table? statement.table = some t ∧ t.insert now statement = .ok (t', affected) ∧
        next.tables = server.tables.insert statement.table.key t' := by
  rw [insert_eq] at h
  exact received_eq_ok h

theorem commit_eq_ok {s : Session} {server next : Server} {u : Unit}
    (h : s.commit server = (.ok u, next)) : next.tables = server.tables := by
  rw [commit_eq, bind_apply_eq_ok] at h
  obtain ⟨_, admitted, hreceive, h⟩ := h
  have htables := receive_eq_ok hreceive
  obtain ⟨-, rfl⟩ := Prod.mk.inj ((modify_apply _ _).symm.trans h)
  exact htables

end Session
end ReadingBench.Store
