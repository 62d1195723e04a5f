import ReadingBench.Proofs.Store.Checked
import ReadingBench.Proofs.Store.Run
import ReadingBench.Proofs.Store.UniqueKeys

namespace ReadingBench.Store

open Sql Outcome

/-- Statements at work with every access by position checked. -/
abbrev CheckedAction (α : Type) := ExceptT Error (StateT Server Option) α

theorem Server.All.of_found {P : Table → Prop} {server next : Server} (h : server.All P)
    {ref : TableRef} {t : Table} (ht : Action.table ref server = (.ok t, next)) :
    P t ∧ next = server := by
  rw [Action.table_apply] at ht
  cases htable : server.table? ref with
  | none =>
    rw [htable] at ht
    cases (Prod.mk.inj ht).1
  | some u =>
    rw [htable] at ht
    obtain ⟨hu, rfl⟩ := Prod.mk.inj ht
    obtain rfl := Except.ok.inj hu
    exact ⟨h ref.key u htable, rfl⟩

namespace CheckedAction

variable {α β : Type}

def free (action : Action α) : CheckedAction α := fun server => some (action server)

def access (x : Checked α) : CheckedAction α := fun server => x.run.map (·, server)

def applyInsert (s : Insert) : CheckedAction Nat := do
  let t ← free (Action.table s.table)
  let server ← free get
  let (t, affected) ← access (Checked.insert t (server.clock server.log.size) s)
  free (Action.setTable s.table t)
  return affected

def perform : Operation → CheckedAction Answer
  | .select s statement => do
    free (s.receive statement.sql)
    let t ← free (Action.table statement.table)
    return .rows (← access (Checked.select t statement))
  | .insert s statement => do
    free (s.receive statement.sql)
    return .affected (← applyInsert statement)
  | .delete s statement => do
    free (s.receive statement.sql)
    let t ← free (Action.table statement.table)
    let count := min (statement.limit.getD t.rows.size) t.rows.size
    let t ← access (Checked.dropFirst t count)
    free (Action.setTable statement.table t)
    free (Action.setTable statement.table (← access (Checked.reindex t)))
    return .affected count
  | .execute s sql => do
    free (s.receive sql)
    match ← free (liftM (Action.reading sql)) with
    | some statement => return .affected (← applyInsert statement)
    | none => return .affected 0
  | op => free op.perform

/-- At a server no check fails. -/
def Passes (f : CheckedAction α) (g : Action α) (server : Server) : Prop := f server = some (g server)

theorem Passes.bind {f : CheckedAction α} {g : Action α} {f' : α → CheckedAction β}
    {g' : α → Action β} {server : Server} (h : Passes f g server)
    (hnext : ∀ a next, g server = (.ok a, next) → Passes (f' a) (g' a) next) :
    Passes (f >>= f') (g >>= g') server := by
  have hbind : (f >>= f') server = (f server).bind fun
      | (.ok a, next) => f' a next
      | (.error e, next) => some (.error e, next) := by
    simp only [Bind.bind, ExceptT.bind, ExceptT.mk, StateT.bind]
    congr 1
    funext r
    rcases r with ⟨_ | _, next⟩ <;> rfl
  rw [Passes] at h
  rw [Passes, hbind, h, bind_apply]
  rcases hg : g server with ⟨e | a, next⟩
  · rfl
  · exact hnext a next hg

theorem passes_free (action : Action α) (server : Server) : Passes (free action) action server := rfl

theorem passes_access {c : Checked α} {x : Except Error α} (h : c = Checked.free x) (server : Server) :
    Passes (access c) (liftM x) server := by
  rw [Passes, lift_apply, access, h]
  rfl

theorem access_ok_bind (a : α) (f : α → CheckedAction β) :
    access (Checked.free (.ok a)) >>= f = f a := rfl

theorem passes_applyInsert {server : Server} (h : server.All Table.Sound) (s : Insert) :
    Passes (applyInsert s) (Action.applyInsert s) server := by
  refine (passes_free _ _).bind fun t next ht => (passes_free _ _).bind fun now last hnow => ?_
  obtain ⟨hsound, -⟩ := h.of_found ht
  refine (passes_access (Checked.insert_eq hsound _ s) _).bind fun r _ _ => ?_
  exact (passes_free _ _).bind fun _ _ _ => rfl

theorem passes_perform {server : Server} (h : server.All Table.Sound) (op : Operation) :
    Passes (perform op) op.perform server := by
  cases op with
  | select s statement =>
    rw [Operation.perform, Session.select_eq, bind_assoc]
    refine (passes_free _ _).bind fun _ admitted hreceive => ?_
    rw [bind_assoc]
    refine (passes_free _ _).bind fun t next ht => ?_
    obtain ⟨hsound, -⟩ := (h.receive hreceive).of_found ht
    exact (passes_access (Checked.select_eq hsound statement) _).bind fun _ _ _ => rfl
  | insert s statement =>
    rw [Operation.perform, Session.insert_eq, bind_assoc]
    refine (passes_free _ _).bind fun _ admitted hreceive => ?_
    exact (passes_applyInsert (h.receive hreceive) statement).bind fun _ _ _ => rfl
  | delete s statement =>
    rw [Operation.perform, Session.delete_eq, bind_assoc]
    refine (passes_free _ _).bind fun _ admitted hreceive => ?_
    rw [bind_assoc]
    refine (passes_free _ _).bind fun t next ht => ?_
    obtain ⟨hsound, -⟩ := (h.receive hreceive).of_found ht
    have hcount : min (statement.limit.getD t.rows.size) t.rows.size ≤ t.rows.size := min_le_right _ _
    generalize min (statement.limit.getD t.rows.size) t.rows.size = count at hcount
    have hwidth : ∀ row ∈ (t.dropFirst count).rows, row.length = t.spec.columns.length :=
      fun row hrow => hsound.width row (Table.mem_dropFirst hrow)
    simp only [Checked.dropFirst_eq hcount, access_ok_bind, bind_assoc]
    refine (passes_free _ _).bind fun _ _ _ => ?_
    refine (passes_access (Checked.reindex_eq hwidth) _).bind fun _ _ _ => ?_
    exact (passes_free _ _).bind fun _ _ _ => rfl
  | execute s sql =>
    rw [Operation.perform, Session.execute_eq, bind_assoc]
    refine (passes_free _ _).bind fun _ admitted hreceive => ?_
    rw [bind_assoc]
    refine (passes_free _ _).bind fun read next hread => ?_
    rw [lift_apply] at hread
    obtain ⟨-, rfl⟩ := Prod.mk.inj hread
    cases read with
    | none => rfl
    | some statement =>
      exact (passes_applyInsert (h.receive hreceive) statement).bind fun _ _ _ => rfl
  | _ => exact passes_free _ _

end CheckedAction

/-- The session and the text that a statement comes in with. -/
def Operation.statement? : Operation → Option (Session × String)
  | select s statement => some (s, statement.sql)
  | insert s statement => some (s, statement.sql)
  | delete s statement => some (s, statement.sql)
  | execute s sql => some (s, sql)
  | commit s => some (s, "COMMIT")
  | _ => none

namespace Server

/-- The server after a statement that did nothing but come in. -/
def logged (server : Server) (sql : String) : Server :=
  { server with log := server.log.push sql, failures := server.failures.tail }

theorem receive_open {server : Server} {s : Session} (hopen : s.isClosed server = false)
    (sql : String) : s.receive sql server =
      (server.failures.head?.elim (.ok ⟨⟩) .error, server.logged sql) := by
  rw [Session.receive_apply, hopen, Action.begin_apply, logged]
  cases hfailures : server.failures <;> rfl

/-- Work that leaves the server alone if it fails on it. -/
def Harmless {α : Type} (work : Action α) (server : Server) : Prop :=
  ∀ e next, work server = (.error e, next) → next = server

section Harmless

variable {α β : Type} {server : Server}

/-- The first part changes nothing, whether it fails or the second part does. -/
theorem Harmless.bind {first : Action α} (h : Harmless first server) {rest : α → Action β}
    (hrest : ∀ a next, first server = (.ok a, next) → next = server ∧ Harmless (rest a) server) :
    Harmless (first >>= rest) server := by
  intro e next hfail
  rw [bind_apply] at hfail
  rcases hfirst : first server with ⟨e' | a, last⟩
  · rw [hfirst] at hfail
    obtain ⟨-, rfl⟩ := Prod.mk.inj hfail
    exact h e' last hfirst
  · rw [hfirst] at hfail
    obtain ⟨rfl, hwork⟩ := hrest a last hfirst
    exact hwork e next hfail

/-- What is made of a result does not fail. -/
theorem Harmless.map {work : Action α} (h : Harmless work server) (f : α → β) :
    Harmless (do return f (← work)) server := by
  intro e next hfail
  rw [bind_apply] at hfail
  rcases hwork : work server with ⟨e' | a, last⟩
  · rw [hwork] at hfail
    obtain ⟨-, rfl⟩ := Prod.mk.inj hfail
    exact h e' last hwork
  · rw [hwork] at hfail
    cases (Prod.mk.inj hfail).1

theorem harmless_lift (x : Except Error α) : Harmless (liftM x) server := by
  intro e next h
  rw [lift_apply] at h
  exact (Prod.mk.inj h).2.symm

theorem harmless_of_ok {work : Action α} {a : α} {last : Server} (h : work server = (.ok a, last)) :
    Harmless work server := by
  intro e next hfail
  rw [h] at hfail
  cases (Prod.mk.inj hfail).1

theorem harmless_table (ref : TableRef) : Harmless (Action.table ref) server := by
  intro e next h
  exact (congrArg Prod.snd h).symm.trans (Action.table_snd ref server)

theorem harmless_applyInsert (s : Insert) : Harmless (Action.applyInsert s) server := by
  intro e next h
  obtain ⟨e', hinsert⟩ | ⟨affected, t, hinsert⟩ := Action.applyInsert_cases s server
  · exact (Prod.mk.inj (h.symm.trans hinsert)).2
  · cases (Prod.mk.inj (h.symm.trans hinsert)).1

end Harmless

/-- Removing the first rows of a sound table does not fail. -/
theorem replaceFirst_apply (server : Server) {t : Table} (ht : t.Sound) (ref : TableRef)
    (count : Nat) : ∃ u, (t.dropFirst count).reindex = .ok u ∧
      (do
        Action.setTable ref (t.dropFirst count)
        Action.setTable ref (← (t.dropFirst count).reindex)
        return count : Action Nat) server =
      (.ok count, { server with
        tables := (server.tables.insert ref.key (t.dropFirst count)).insert ref.key u }) := by
  obtain ⟨u, hu, -⟩ := Table.exists_reindex_dropFirst ht count
  refine ⟨u, hu, ?_⟩
  simp only [bind_apply, Action.setTable_apply, lift_apply, hu]
  rfl

/-- A statement that comes in and fails has been logged and has taken the first waiting failure. -/
theorem receive_bind_error {α : Type} {server : Server} {s : Session}
    (hopen : s.isClosed server = false) {sql : String} {work : Unit → Action α}
    (harmless : Harmless (work ⟨⟩) (server.logged sql)) {e : Error} {next : Server}
    (h : (s.receive sql >>= work) server = (.error e, next)) : next = server.logged sql := by
  rw [bind_apply, receive_open hopen] at h
  cases hfailures : server.failures.head? with
  | none =>
    rw [hfailures] at h
    exact harmless e next h
  | some e' =>
    rw [hfailures] at h
    exact (Prod.mk.inj h).2.symm

theorem perform_error {server : Server} (h : server.All Table.Sound) {op : Operation} {s : Session}
    {sql : String} (hop : op.statement? = some (s, sql)) (hopen : s.isClosed server = false) {e : Error}
    {next : Server} (hfail : op.perform server = (.error e, next)) : next = server.logged sql := by
  cases op with
  | define | openSession | close | failNext => cases hop
  | select s' statement =>
    obtain ⟨rfl, rfl⟩ := Prod.mk.inj (Option.some.inj hop)
    rw [Operation.perform, Session.select_eq, bind_assoc] at hfail
    refine receive_bind_error hopen ?_ hfail
    refine Harmless.map ((harmless_table _).bind fun t last ht => ?_) _
    have hlogged : (server.logged statement.sql).All Table.Sound := h
    exact ⟨(hlogged.of_found ht).2, harmless_lift _⟩
  | insert s' statement =>
    obtain ⟨rfl, rfl⟩ := Prod.mk.inj (Option.some.inj hop)
    rw [Operation.perform, Session.insert_eq, bind_assoc] at hfail
    exact receive_bind_error hopen ((harmless_applyInsert _).map _) hfail
  | delete s' statement =>
    obtain ⟨rfl, rfl⟩ := Prod.mk.inj (Option.some.inj hop)
    rw [Operation.perform, Session.delete_eq, bind_assoc] at hfail
    refine receive_bind_error hopen ?_ hfail
    refine Harmless.map ((harmless_table _).bind fun t last ht => ?_) _
    have hlogged : (server.logged statement.sql).All Table.Sound := h
    obtain ⟨hsound, hlast⟩ := hlogged.of_found ht
    obtain ⟨u, -, hdone⟩ := replaceFirst_apply (server.logged statement.sql) hsound statement.table
      (min (statement.limit.getD t.rows.size) t.rows.size)
    exact ⟨hlast, harmless_of_ok hdone⟩
  | execute s' text =>
    obtain ⟨rfl, rfl⟩ := Prod.mk.inj (Option.some.inj hop)
    rw [Operation.perform, Session.execute_eq, bind_assoc] at hfail
    refine receive_bind_error hopen ?_ hfail
    refine Harmless.map ((harmless_lift _).bind fun read last hread => ?_) _
    rw [lift_apply] at hread
    refine ⟨(Prod.mk.inj hread).2.symm, ?_⟩
    cases read with
    | none => exact harmless_of_ok rfl
    | some statement => exact harmless_applyInsert statement
  | commit s' =>
    obtain ⟨rfl, rfl⟩ := Prod.mk.inj (Option.some.inj hop)
    rw [Operation.perform, Session.commit_eq, bind_assoc] at hfail
    exact receive_bind_error hopen (harmless_of_ok rfl) hfail

section Delete

variable {server next : Server} {s : Session} {d : Delete} {t : Table}

/-- With no failure waiting a delete succeeds. -/
theorem delete_fst (sound : t.Sound) (hopen : s.isClosed server = false)
    (hfailures : server.failures = []) (ht : server.table? d.table = some t) :
    (s.delete d server).1 = .ok (min (d.limit.getD t.rows.size) t.rows.size) := by
  have htable : (server.logged d.sql).table? d.table = some t := ht
  obtain ⟨u, -, hdone⟩ := replaceFirst_apply (server.logged d.sql) sound d.table
    (min (d.limit.getD t.rows.size) t.rows.size)
  rw [Session.delete_eq, bind_apply, receive_open hopen, hfailures]
  dsimp only [List.head?_nil, Option.elim]
  rw [bind_apply, Action.table_apply, htable]
  exact congrArg Prod.fst hdone

theorem delete_apply_fst (h : server.All Table.Sound) (hopen : s.isClosed server = false)
    (hfailures : server.failures = []) (ht : server.table? d.table = some t) :
    (s.delete d server).1 = .ok (min (d.limit.getD t.rows.size) t.rows.size) :=
  delete_fst (h d.table.key t ht) hopen hfailures ht

/-- A delete of a sound table fails where it is not let in. -/
theorem delete_tables_of_error (sound : t.Sound) (ht : server.table? d.table = some t) {e : Error}
    (h : s.delete d server = (.error e, next)) : next.tables = server.tables := by
  rw [Session.delete_eq, bind_apply] at h
  have htables := (s.receive_snd d.sql server).1
  rcases hreceive : s.receive d.sql server with ⟨e' | _, admitted⟩
  · rw [hreceive] at h htables
    obtain ⟨-, rfl⟩ := Prod.mk.inj h
    exact htables
  · rw [hreceive] at h htables
    have hfound : admitted.table? d.table = some t := (Server.table?_of_tables htables _).trans ht
    obtain ⟨u, -, hdone⟩ := replaceFirst_apply admitted sound d.table
      (min (d.limit.getD t.rows.size) t.rows.size)
    dsimp only at h
    rw [bind_apply, Action.table_apply, hfound] at h
    cases (Prod.mk.inj (hdone.symm.trans h)).1

/-- A delete that succeeds removes the rows that it counts. -/
theorem delete_eq_ok (sound : t.Sound) (ht : server.table? d.table = some t) {count : Nat}
    (h : s.delete d server = (.ok count, next)) :
    count = min (d.limit.getD t.rows.size) t.rows.size ∧ Server.SameBut d.table server next ∧
      ∃ u, next.table? d.table = some u ∧ u.spec = t.spec ∧ u.Sound ∧
        u.rows = t.rows.extract count t.rows.size := by
  rw [Session.delete_eq] at h
  obtain ⟨_, admitted, hreceive, h⟩ := bind_apply_eq_ok.1 h
  have htables := Session.receive_eq_ok hreceive
  have hfound : admitted.table? d.table = some t := (Server.table?_of_tables htables _).trans ht
  rw [bind_apply, Action.table_apply, hfound] at h
  obtain ⟨u, hu, hdone⟩ := replaceFirst_apply admitted sound d.table
    (min (d.limit.getD t.rows.size) t.rows.size)
  obtain ⟨hcount, rfl⟩ := Prod.mk.inj (hdone.symm.trans h)
  obtain rfl := Except.ok.inj hcount
  obtain ⟨u', hu', hspec, hrows, hsound⟩ :=
    Table.exists_reindex_dropFirst sound (min (d.limit.getD t.rows.size) t.rows.size)
  obtain rfl := Except.ok.inj (hu.symm.trans hu')
  refine ⟨rfl, fun key hkey => ?_, u, by simp [Server.table?], hspec, hsound, hrows⟩
  simp [Std.TreeMap.getElem?_insert, Ne.symm hkey, htables]

end Delete

/-- A statement of an open session stays within all lists that it reads and writes. If it fails, the
server is as before but for the log and the failure that was waiting; a delete that finds its table, with
no failure waiting, does not fail. -/
theorem error_leaves_logged {server : Server} (reachable : server.Reachable) {op : Operation}
    {s : Session} {sql : String} (hop : op.statement? = some (s, sql))
    (hopen : s.isClosed server = false) :
    CheckedAction.perform op server = some (op.perform server) ∧
      (∀ e next, op.perform server = (.error e, next) → next = server.logged sql) ∧
      ∀ d t, op = .delete s d → server.table? d.table = some t → server.failures = [] →
        (op.perform server).1 = .ok (.affected (min (d.limit.getD t.rows.size) t.rows.size)) := by
  have hsound := reachable.sound
  refine ⟨CheckedAction.passes_perform hsound op, ?_, ?_⟩
  · intro e next hfail
    exact perform_error hsound hop hopen hfail
  · rintro d t rfl ht hfailures
    have hdelete := delete_apply_fst hsound hopen hfailures ht
    rw [Operation.perform, bind_apply]
    rcases hrun : s.delete d server with ⟨r, next⟩
    rw [hrun] at hdelete
    obtain rfl : r = _ := hdelete
    rfl

/-- The second key names a column that the table lacks, which shows where the column before it is not
NULL. -/
def halfUnknown : TableSpec :=
  { table := ⟨none, "t"⟩, columns := ["id", "aid"], uniqueKeys := [["id"], ["aid", "ghost"]] }

def intoHalfUnknown (rows : List (List Value)) : Insert :=
  { table := halfUnknown.table, columns := halfUnknown.columns, rows }

/-- One row, with NULL in the second key. -/
def oneKeyed : Server := (empty still).after
  [.define halfUnknown, .insert .root (intoHalfUnknown [[.int 1, .null]])]

/-- The first tuple could go in, the second cannot. -/
def secondUnknown : Insert := intoHalfUnknown [[.int 2, .null], [.int 3, .text "c"]]

theorem error_leaves_logged_second :
    (∃ e, (Operation.perform (.insert .root secondUnknown) oneKeyed).1 = .error e ∧
      (Operation.perform (.insert .root secondUnknown) oneKeyed).2 =
        oneKeyed.logged secondUnknown.sql) ∧
      CheckedAction.perform (.insert .root secondUnknown) oneKeyed =
        some (Operation.perform (.insert .root secondUnknown) oneKeyed) := by
  have reachable : oneKeyed.Reachable := ⟨_, _, rfl⟩
  have hop : (Operation.insert .root secondUnknown).statement? = some (.root, secondUnknown.sql) := rfl
  have hopen : Session.root.isClosed oneKeyed = false := by decide +kernel
  obtain ⟨hchecked, hfailed, -⟩ := error_leaves_logged reachable hop hopen
  have herror : (Operation.perform (.insert .root secondUnknown) oneKeyed).1.toOption.isNone := by
    decide +kernel
  rcases hrun : Operation.perform (.insert .root secondUnknown) oneKeyed with ⟨e | a, next⟩
  · exact ⟨⟨e, rfl, hfailed e next hrun⟩, hrun ▸ hchecked⟩
  · rw [hrun] at herror
    cases herror

end Server
end ReadingBench.Store
