import ReadingBench.Proofs.Store.Course
import ReadingBench.Proofs.Store.Written

namespace ReadingBench.Store

open Sql Outcome Server

namespace Operation

/-- The key of the table that a request can change. -/
def target? : Operation → Option String
  | define spec => some spec.table.key
  | insert _ statement => some statement.table.key
  | delete _ statement => some statement.table.key
  | execute _ sql =>
    match Action.reading sql with
    | .ok (some statement) => some statement.table.key
    | _ => none
  | _ => none

/-- No table but this one changes. -/
def Within (ref : TableRef) (op : Operation) : Prop := ∀ key, op.target? = some key → key = ref.key

/-- If the table changes, then by a delete. -/
def Trims (ref : TableRef) (op : Operation) : Prop :=
  op.target? = some ref.key → ∃ s d, op = .delete s d

/-- If the table changes, then by an insert. -/
def Fills (ref : TableRef) (op : Operation) : Prop := op.target? = some ref.key → op.insert?.isSome

theorem target_of_insert {op : Operation} {s : Session} {sql : String} {statement : Insert}
    (h : op.insert? = some (s, sql, statement)) :
    op.statement? = some (s, sql) ∧ op.target? = some statement.table.key := by
  cases op with
  | insert s' statement' =>
    cases h
    exact ⟨rfl, rfl⟩
  | execute s' text =>
    rcases hreading : Action.reading text with e | (_ | statement')
    · simp [insert?, hreading] at h
    · simp [insert?, hreading] at h
    · simp only [insert?, hreading, Option.some.injEq, Prod.mk.injEq] at h
      obtain ⟨rfl, rfl, rfl⟩ := h
      exact ⟨rfl, by simp only [target?, hreading]⟩
  | define | openSession | close | failNext | select | delete | commit => cases h

theorem Within.target_ne {ref other : TableRef} {op : Operation} (h : op.Within ref)
    (hother : ref.key ≠ other.key) : op.target? ≠ some other.key := fun htarget => hother (h _ htarget).symm

end Operation

namespace Event

/-- The insert into a table that was asked for. -/
def insertInto? (ref : TableRef) (e : Event) : Option Insert :=
  (e.request.insert?.map (·.2.2)).filter fun statement => statement.table.key = ref.key

/-- The rows that a delete took from a table. -/
def removedFrom (ref : TableRef) (e : Event) : Nat :=
  match e.request, e.answer with
  | .delete _ d, .ok (.affected count) => if d.table.key = ref.key then count else 0
  | _, _ => 0

theorem insertInto?_eq_some {ref : TableRef} {e : Event} {statement : Insert} :
    e.insertInto? ref = some statement ↔
      (∃ s sql, e.request.insert? = some (s, sql, statement)) ∧ statement.table.key = ref.key := by
  simp only [insertInto?, Option.filter_eq_some_iff, Option.map_eq_some_iff, decide_eq_true_eq]
  constructor
  · rintro ⟨⟨⟨s, sql, statement'⟩, h, rfl⟩, hkey⟩
    exact ⟨⟨s, sql, h⟩, hkey⟩
  · rintro ⟨⟨s, sql, h⟩, hkey⟩
    exact ⟨⟨_, h, rfl⟩, hkey⟩

theorem insertInto?_eq_none {ref : TableRef} {e : Event} (h : e.request.target? ≠ some ref.key) :
    e.insertInto? ref = none := by
  rw [Option.eq_none_iff_forall_ne_some]
  intro statement hinto
  obtain ⟨⟨s, sql, hinsert⟩, hkey⟩ := insertInto?_eq_some.1 hinto
  exact h ((Operation.target_of_insert hinsert).2.trans (congrArg some hkey))

theorem removedFrom_eq_zero {ref : TableRef} {e : Event} (h : e.request.target? ≠ some ref.key) :
    e.removedFrom ref = 0 := by
  unfold removedFrom
  split
  · rename_i d _ hrequest _
    rw [hrequest] at h
    exact if_neg fun hkey => h (congrArg some hkey)
  · rfl

end Event

/-- The inserts into a table that were asked for. -/
def inserts (ref : TableRef) (events : List Event) : List Insert := events.filterMap (·.insertInto? ref)

/-- The inserts into a table that succeeded. -/
def stored (ref : TableRef) (events : List Event) : List Insert := inserts ref (events.filter (·.succeeded))

/-- All rows that deletes took from a table. -/
def removed (ref : TableRef) (events : List Event) : Nat := (events.map (·.removedFrom ref)).sum

section Events

variable {ref : TableRef} {first later events : List Event}

@[simp] theorem inserts_append : inserts ref (first ++ later) = inserts ref first ++ inserts ref later :=
  List.filterMap_append

@[simp] theorem stored_append : stored ref (first ++ later) = stored ref first ++ stored ref later := by
  rw [stored, List.filter_append, inserts_append, stored, stored]

@[simp] theorem removed_append : removed ref (first ++ later) = removed ref first + removed ref later := by
  rw [removed, List.map_append, List.sum_append_nat, removed, removed]

theorem stored_sublist : (stored ref events).Sublist (inserts ref events) :=
  List.filter_sublist.filterMap _

theorem inserts_eq_nil (h : ∀ e ∈ events, e.insertInto? ref = none) : inserts ref events = [] :=
  List.filterMap_eq_nil_iff.2 h

theorem stored_eq_nil (h : inserts ref events = []) : stored ref events = [] :=
  List.eq_nil_of_sublist_nil (h ▸ stored_sublist)

theorem removed_eq_zero (h : ∀ e ∈ events, e.removedFrom ref = 0) : removed ref events = 0 :=
  List.sum_eq_zero fun n hn => by
    obtain ⟨e, he, rfl⟩ := List.mem_map.1 hn
    exact h e he

theorem insertInto?_of_trims {e : Event} (h : e.request.Trims ref) : e.insertInto? ref = none := by
  rw [Option.eq_none_iff_forall_ne_some]
  intro statement hinto
  obtain ⟨⟨s, sql, hinsert⟩, hkey⟩ := Event.insertInto?_eq_some.1 hinto
  obtain ⟨s', d, hdelete⟩ := h ((Operation.target_of_insert hinsert).2.trans (congrArg some hkey))
  rw [hdelete] at hinsert
  cases hinsert

theorem removedFrom_of_fills {e : Event} (h : e.request.Fills ref) : e.removedFrom ref = 0 := by
  by_cases htarget : e.request.target? = some ref.key
  · obtain ⟨r, hinsert⟩ := Option.isSome_iff_exists.1 (h htarget)
    unfold Event.removedFrom
    split
    · rename_i hdelete _
      rw [hdelete] at hinsert
      cases hinsert
    · rfl
  · exact Event.removedFrom_eq_zero htarget

theorem inserts_of_prefix (h : first <+: events) : inserts ref first <+: inserts ref events := by
  obtain ⟨later, rfl⟩ := h
  exact ⟨_, inserts_append.symm⟩

end Events

namespace Table

/-- Inserts one after another. -/
def insertAll (t : Table) (statements : List Insert) : Except Error Table :=
  statements.foldlM (fun t s => return (← t.applyAll s.columns s.onConflict none s.rows).1) t

/-- The tuples that became rows. -/
def taken : List (List Value) → List Applied → List (List Value)
  | values :: rows, .inserted :: fates => values :: taken rows fates
  | _ :: rows, _ :: fates => taken rows fates
  | _, _ => []

section Fates

variable {columns : List String} {onConflict : OnConflict} {rows more : List (List Value)} {t u : Table}
  {applied : List Applied}

theorem fates_append : fates columns onConflict none (rows ++ more) t = (do
    let (t, first) ← fates columns onConflict none rows t
    let (t, later) ← fates columns onConflict none more t
    return (t, first ++ later)) := by
  induction rows generalizing t with
  | nil => simp [fates]
  | cons values rows ih =>
    rw [List.cons_append, fates, fates]
    rcases t.apply columns onConflict none values with e | ⟨v, first⟩
    · rfl
    · simp only [ok_bind, ih, bind_assoc, pure_bind, List.cons_append]

/-- Inserts of one kind come to the insert of all their tuples. -/
theorem insertAll_eq {statements : List Insert}
    (alike : ∀ s ∈ statements, s.columns = columns ∧ s.onConflict = onConflict) : t.insertAll statements =
      (fates columns onConflict none (statements.flatMap (·.rows)) t).map (·.1) := by
  induction statements generalizing t with
  | nil => rfl
  | cons s statements ih =>
    obtain ⟨hcolumns, hconflict⟩ := alike s (by simp)
    have hrest : ∀ v : Table, v.insertAll statements =
        (fates columns onConflict none (statements.flatMap (·.rows)) v).map (·.1) :=
      fun v => ih fun later hlater => alike later (by simp [hlater])
    rw [List.flatMap_cons, fates_append, insertAll, List.foldlM_cons, applyAll_eq, hcolumns, hconflict]
    rcases fates columns onConflict none s.rows t with e | ⟨v, first⟩
    · rfl
    · refine (hrest v).trans ?_
      simp only [ok_bind]
      generalize fates columns onConflict none (statements.flatMap (·.rows)) v = made
      cases made <;> rfl

/-- Inserts that update nothing add rows behind those that are there. -/
theorem rows_of_fates (plain : ∀ targets, onConflict ≠ .update targets)
    (h : fates columns onConflict none rows t = .ok (u, applied)) : u.spec = t.spec ∧
      ∃ added, (taken rows applied).mapM (t.spec.fullRow columns) = .ok added ∧
        u.rows.toList = t.rows.toList ++ added := by
  induction rows generalizing t applied with
  | nil =>
    obtain ⟨rfl, rfl⟩ := Prod.mk.inj (pure_eq_ok.1 h)
    exact ⟨rfl, [], rfl, by simp⟩
  | cons values rows ih =>
    rw [fates] at h
    obtain ⟨⟨v, first⟩, hfirst, h⟩ := bind_eq_ok.1 h
    obtain ⟨⟨w, later⟩, hlater, h⟩ := bind_eq_ok.1 h
    obtain ⟨rfl, rfl⟩ := Prod.mk.inj (pure_eq_ok.1 h)
    obtain ⟨hspec, added, hadded, hrows⟩ := ih hlater
    obtain ⟨row, hrow, hfirst⟩ := apply_eq_ok hfirst
    rcases hfirst with ⟨-, happend, rfl⟩ | ⟨pos, -, ⟨-, rfl, rfl⟩ | ⟨targets, htargets, -⟩⟩
    · obtain ⟨keys, -, rfl⟩ := append_eq_ok.1 happend
      refine ⟨hspec, row :: added, ?_, ?_⟩
      · rw [taken, List.mapM_cons, hrow, ok_bind, hadded]
        rfl
      · rw [hrows, Array.toList_push, List.append_assoc]
        rfl
    · exact ⟨hspec, added, hadded, hrows⟩
    · exact absurd htargets (plain targets)

theorem taken_of_fail (h : fates columns .fail none rows t = .ok (u, applied)) :
    taken rows applied = rows := by
  induction rows generalizing t applied with
  | nil =>
    obtain ⟨-, rfl⟩ := Prod.mk.inj (pure_eq_ok.1 h)
    rfl
  | cons values rows ih =>
    rw [fates] at h
    obtain ⟨⟨v, first⟩, hfirst, h⟩ := bind_eq_ok.1 h
    obtain ⟨⟨w, later⟩, hlater, h⟩ := bind_eq_ok.1 h
    obtain ⟨rfl, rfl⟩ := Prod.mk.inj (pure_eq_ok.1 h)
    obtain ⟨row, -, hfirst⟩ := apply_eq_ok hfirst
    rcases hfirst with ⟨-, -, rfl⟩ | ⟨pos, -, ⟨himpossible, -⟩ | ⟨targets, himpossible, -⟩⟩
    · rw [taken, ih hlater]
    · cases himpossible
    · cases himpossible

end Fates

/-- `u` is `t` without its first rows, and with the tuples behind the others that an insert of them all
takes: each of them, where a taken key would be an error. -/
structure Reloaded (count : Nat) (columns : List String) (onConflict : OnConflict)
    (rows : List (List Value)) (t u : Table) : Prop where
  spec : u.spec = t.spec
  rows : ∃ start applied added, start.spec = t.spec ∧ start.rows.toList = t.rows.toList.drop count ∧
    fates columns onConflict none rows start = .ok (u, applied) ∧
      (onConflict = .fail → taken rows applied = rows) ∧
        (taken rows applied).mapM (t.spec.fullRow columns) = .ok added ∧
          u.rows.toList = t.rows.toList.drop count ++ added

end Table

section Frame

variable {key : String} {α β : Type}

/-- Work that leaves the table under a key alone. -/
def Keeps (key : String) (work : Action α) : Prop :=
  ∀ server, (work server).2.tables[key]? = server.tables[key]?

theorem keeps_pure (a : α) : Keeps key (pure a) := fun _ => rfl

theorem keeps_lift (x : Except Error α) : Keeps key (liftM x) := by
  intro server
  rw [lift_apply]

theorem keeps_lift_bind {x : Except Error α} {rest : α → Action β}
    (h : ∀ a, x = .ok a → Keeps key (rest a)) : Keeps key (liftM x >>= rest) := by
  intro server
  rw [bind_apply, lift_apply]
  cases hx : x with
  | error e => rfl
  | ok a => exact h a hx server

theorem Keeps.bind {work : Action α} {rest : α → Action β} (h : Keeps key work)
    (hrest : ∀ a, Keeps key (rest a)) : Keeps key (work >>= rest) := by
  intro server
  have hfirst := h server
  rw [bind_apply]
  rcases hwork : work server with ⟨e | a, next⟩
  · rw [hwork] at hfirst
    exact hfirst
  · rw [hwork] at hfirst
    exact (hrest a next).trans hfirst

theorem keeps_receive (s : Session) (sql : String) : Keeps key (s.receive sql) := by
  intro server
  rw [(s.receive_snd sql server).1]

theorem keeps_table (ref : TableRef) : Keeps key (Action.table ref) := by
  intro server
  rw [Action.table_snd]

theorem getElem?_insert_ne {tables : Std.TreeMap String Table} {other : String} {t : Table}
    (h : other ≠ key) : (tables.insert other t)[key]? = tables[key]? := by
  rw [Std.TreeMap.getElem?_insert]
  simp [h]

theorem keeps_setTable {ref : TableRef} (h : ref.key ≠ key) (t : Table) :
    Keeps key (Action.setTable ref t) := fun _ => getElem?_insert_ne h

theorem keeps_applyInsert {s : Insert} (h : s.table.key ≠ key) : Keeps key (Action.applyInsert s) := by
  intro server
  obtain ⟨e, hinsert⟩ | ⟨affected, t, hinsert⟩ := Action.applyInsert_cases s server
  · rw [hinsert]
  · rw [hinsert]
    exact getElem?_insert_ne h

/-- A request leaves all tables alone that it does not name. -/
theorem Server.step_getElem? {server : Server} {op : Operation} (h : op.target? ≠ some key) :
    (server.step op).tables[key]? = server.tables[key]? := by
  unfold step
  cases op with
  | define spec =>
    have hne : spec.table.key ≠ key := fun hkey => h (congrArg some hkey)
    exact getElem?_insert_ne hne
  | openSession | failNext => rfl
  | close s =>
    have htables : (Operation.perform (.close s) server).2.tables = server.tables :=
      s.close_tables server
    rw [htables]
  | select s statement =>
    rw [Operation.perform, bind_pure_apply_snd, Session.select_eq]
    exact ((keeps_receive s _).bind fun _ => (keeps_table _).bind fun t => keeps_lift _) server
  | insert s statement =>
    have hne : statement.table.key ≠ key := fun hkey => h (congrArg some hkey)
    rw [Operation.perform, bind_pure_apply_snd, Session.insert_eq]
    exact ((keeps_receive s _).bind fun _ => keeps_applyInsert hne) server
  | delete s statement =>
    have hne : statement.table.key ≠ key := fun hkey => h (congrArg some hkey)
    rw [Operation.perform, bind_pure_apply_snd, Session.delete_eq]
    refine ((keeps_receive s _).bind fun _ => (keeps_table _).bind fun t => ?_) server
    exact (keeps_setTable hne _).bind fun _ => (keeps_lift _).bind fun u =>
      (keeps_setTable hne u).bind fun _ => keeps_pure _
  | execute s sql =>
    rw [Operation.perform, bind_pure_apply_snd, Session.execute_eq]
    refine ((keeps_receive s _).bind fun _ => keeps_lift_bind fun read hread => ?_) server
    cases read with
    | none => exact keeps_pure 0
    | some statement =>
      refine keeps_applyInsert fun hkey => h ?_
      rw [Operation.target?, hread, ← hkey]
  | commit s =>
    rw [Operation.perform, Session.commit_eq, bind_assoc]
    exact ((keeps_receive s _).bind fun _ => fun _ => rfl) server

end Frame

section Step

variable {server : Server} {op : Operation} {ref : TableRef} {t : Table}

/-- A request that fails changes no table. -/
theorem Server.step_of_failed (sound : server.All Table.Sound)
    (admits : ∀ s sql, op.statement? = some (s, sql) → s.isClosed server = false) {e : Error}
    (h : (op.perform server).1 = .error e) : (server.step op).tables = server.tables := by
  cases hop : op.statement? with
  | none =>
    cases op with
    | define | openSession | close | failNext => cases h
    | select | insert | delete | execute | commit => cases hop
  | some r =>
    have hlogged : server.step op = server.logged r.2 :=
      perform_error sound hop (admits r.1 r.2 hop) (Prod.ext h rfl)
    rw [hlogged]
    rfl

theorem Operation.perform_of_insert {s : Session} {sql : String} {statement : Insert}
    (h : op.insert? = some (s, sql, statement)) :
    op.perform = (do s.receive sql; Action.applyInsert statement) >>= fun count =>
      pure (.affected count) := by
  cases op with
  | insert s' statement' =>
    cases h
    rw [perform, Session.insert_eq]
  | execute s' text =>
    simp only [insert?] at h
    split at h
    · rename_i statement' hread
      cases h
      rw [perform, Session.execute_insert hread]
    · cases h
  | define | openSession | close | failNext | select | delete | commit => cases h

/-- An insert that succeeds. -/
theorem Server.step_of_insert {s : Session} {sql : String} {statement : Insert} {answer : Answer}
    (hop : op.insert? = some (s, sql, statement)) (unstamped : statement.stamp = none)
    (h : (op.perform server).1 = .ok answer) (ht : server.table? statement.table = some t) :
    ∃ u affected, t.applyAll statement.columns statement.onConflict none statement.rows =
        .ok (u, affected) ∧ (server.step op).table? statement.table = some u := by
  rw [step]
  rw [Operation.perform_of_insert hop, bind_pure_apply_fst] at h
  rw [Operation.perform_of_insert hop, bind_pure_apply_snd]
  rcases hdone : (do s.receive sql; Action.applyInsert statement) server with ⟨e | count, next⟩
  · rw [hdone] at h
    cases h
  · rw [hdone]
    obtain ⟨t', u, now, ht', hinsert, htables⟩ := Session.received_eq_ok hdone
    obtain rfl := Option.some.inj (ht.symm.trans ht')
    rw [Table.insert_unstamped unstamped] at hinsert
    exact ⟨u, count, hinsert, table?_of_insert htables⟩

theorem Server.step_trims (sound : server.All Table.Sound)
    (admits : ∀ s sql, op.statement? = some (s, sql) → s.isClosed server = false)
    (ht : server.table? ref = some t) (trims : op.Trims ref) :
    ∃ u, (server.step op).table? ref = some u ∧ u.spec = t.spec ∧
      u.rows.toList = t.rows.toList.drop (Event.removedFrom ref ⟨op, (op.perform server).1⟩) := by
  have kept : (server.step op).table? ref = server.table? ref →
      Event.removedFrom ref ⟨op, (op.perform server).1⟩ = 0 → ∃ u, (server.step op).table? ref = some u ∧
        u.spec = t.spec ∧
        u.rows.toList = t.rows.toList.drop (Event.removedFrom ref ⟨op, (op.perform server).1⟩) := by
    intro hsame hnone
    exact ⟨t, hsame.trans ht, rfl, by rw [hnone, List.drop_zero]⟩
  by_cases htarget : op.target? = some ref.key
  · obtain ⟨s, d, rfl⟩ := trims htarget
    have hkey : d.table.key = ref.key := Option.some.inj htarget
    have hfound : server.table? d.table = some t := by rw [Server.table?, hkey]; exact ht
    rcases hdone : s.delete d server with ⟨e | count, next⟩
    · have hfailed : (Operation.perform (.delete s d) server).1 = .error e := by
        rw [Operation.perform, bind_pure_apply_fst, hdone]
        rfl
      refine kept (table?_of_tables (step_of_failed sound admits hfailed) ref) ?_
      rw [hfailed]
      rfl
    · have hanswer : (Operation.perform (.delete s d) server).1 = .ok (.affected count) := by
        rw [Operation.perform, bind_pure_apply_fst, hdone]
        rfl
      have hnext : server.step (.delete s d) = next := by
        rw [step, Operation.perform, bind_pure_apply_snd, hdone]
      obtain ⟨-, -, u, hu, hspec, -, hrows⟩ := delete_eq_ok (sound d.table.key t hfound) hfound hdone
      refine ⟨u, ?_, hspec, ?_⟩
      · rw [hnext, Server.table?, ← hkey]
        exact hu
      · rw [hrows, hanswer, Array.toList_extract]
        simp [Event.removedFrom, hkey]
  · refine kept (step_getElem? htarget) (Event.removedFrom_eq_zero htarget)

theorem Server.step_fills (sound : server.All Table.Sound)
    (admits : ∀ s sql, op.statement? = some (s, sql) → s.isClosed server = false)
    (ht : server.table? ref = some t) (fills : op.Fills ref)
    (unstamped : ∀ statement ∈ inserts ref [⟨op, (op.perform server).1⟩], statement.stamp = none) :
    ∃ u, (server.step op).table? ref = some u ∧
      t.insertAll (stored ref [⟨op, (op.perform server).1⟩]) = .ok u := by
  have kept : (server.step op).table? ref = server.table? ref →
      stored ref [⟨op, (op.perform server).1⟩] = [] → ∃ u, (server.step op).table? ref = some u ∧
        t.insertAll (stored ref [⟨op, (op.perform server).1⟩]) = .ok u := by
    intro hsame hnone
    exact ⟨t, hsame.trans ht, by rw [hnone]; rfl⟩
  cases hanswer : (op.perform server).1 with
  | error e =>
    rw [hanswer] at kept
    exact kept (table?_of_tables (step_of_failed sound admits hanswer) ref) rfl
  | ok answer =>
    rw [hanswer] at kept unstamped
    by_cases htarget : op.target? = some ref.key
    · obtain ⟨⟨s, sql, statement⟩, hinsert⟩ := Option.isSome_iff_exists.1 (fills htarget)
      have hkey : statement.table.key = ref.key :=
        Option.some.inj ((Operation.target_of_insert hinsert).2.symm.trans htarget)
      have hinto : Event.insertInto? ref ⟨op, .ok answer⟩ = some statement :=
        Event.insertInto?_eq_some.2 ⟨⟨s, sql, hinsert⟩, hkey⟩
      have hstored : stored ref [⟨op, .ok answer⟩] = [statement] := by
        simp [stored, inserts, Event.succeeded, hinto, Except.toOption]
      have hfound : server.table? statement.table = some t := by rw [Server.table?, hkey]; exact ht
      have hplain : statement.stamp = none := unstamped statement (by simp [inserts, hinto])
      obtain ⟨u, affected, happlied, hu⟩ := step_of_insert hinsert hplain hanswer hfound
      refine ⟨u, ?_, ?_⟩
      · rw [Server.table?, ← hkey]
        exact hu
      · rw [hstored, Table.insertAll, List.foldlM_cons, happlied]
        rfl
    · refine kept (step_getElem? htarget) (stored_eq_nil (inserts_eq_nil ?_))
      simpa using Event.insertInto?_eq_none (e := ⟨op, .ok answer⟩) htarget

end Step

section After

variable {server : Server} {ops : List Operation} {ref : TableRef} {t : Table}

/-- A table that no request names. -/
theorem Server.after_getElem? {key : String} (h : ∀ op ∈ ops, op.target? ≠ some key) :
    (server.after ops).tables[key]? = server.tables[key]? := by
  induction ops generalizing server with
  | nil => rfl
  | cons op ops ih =>
    rw [after_cons, ih fun later hlater => h later (by simp [hlater])]
    exact step_getElem? (h op (by simp))

theorem Server.after_trims (sound : server.All Table.Sound) (admits : server.Admits ops)
    (ht : server.table? ref = some t) (trims : ∀ op ∈ ops, op.Trims ref) :
    ∃ u, (server.after ops).table? ref = some u ∧ u.spec = t.spec ∧
      u.rows.toList = t.rows.toList.drop (removed ref (server.events ops)) := by
  induction ops generalizing server t with
  | nil => exact ⟨t, ht, rfl, rfl⟩
  | cons op ops ih =>
    obtain ⟨u, hu, hspec, hrows⟩ := step_trims sound admits.1 ht (trims op (by simp))
    obtain ⟨v, hv, hspec', hrows'⟩ :=
      ih (sound_step sound op) admits.2 hu fun later hlater => trims later (by simp [hlater])
    refine ⟨v, hv, hspec'.trans hspec, ?_⟩
    rw [hrows', hrows, List.drop_drop]
    rfl

theorem Server.after_fills (sound : server.All Table.Sound) (admits : server.Admits ops)
    (ht : server.table? ref = some t) (fills : ∀ op ∈ ops, op.Fills ref)
    (unstamped : ∀ statement ∈ inserts ref (server.events ops), statement.stamp = none) :
    ∃ u, (server.after ops).table? ref = some u ∧
      t.insertAll (stored ref (server.events ops)) = .ok u := by
  induction ops generalizing server t with
  | nil => exact ⟨t, ht, rfl⟩
  | cons op ops ih =>
    rw [events, ← List.singleton_append, inserts_append] at unstamped
    obtain ⟨u, hu, hinserted⟩ := step_fills sound admits.1 ht (fills op (by simp))
      fun statement h => unstamped statement (List.mem_append_left _ h)
    obtain ⟨v, hv, hrest⟩ := ih (sound_step sound op) admits.2 hu
      (fun later hlater => fills later (by simp [hlater]))
      fun statement h => unstamped statement (List.mem_append_right _ h)
    refine ⟨v, hv, ?_⟩
    rw [events, ← List.singleton_append, stored_append]
    unfold Table.insertAll at hinserted hrest ⊢
    rw [List.foldlM_append, hinserted]
    exact hrest

/-- Requests that first cut a table and then fill it, all in one way. -/
theorem Server.after_reload {first later : List Operation} {columns : List String}
    {onConflict : OnConflict} (sound : server.All Table.Sound) (admits : server.Admits (first ++ later))
    (ht : server.table? ref = some t) (trims : ∀ op ∈ first, op.Trims ref) (fills : ∀ op ∈ later, op.Fills ref)
    (plain : ∀ targets, onConflict ≠ .update targets)
    (alike : ∀ s ∈ inserts ref (server.events (first ++ later)),
      s.stamp = none ∧ s.columns = columns ∧ s.onConflict = onConflict) :
    ∃ u, (server.after (first ++ later)).table? ref = some u ∧
      Table.Reloaded (removed ref (server.events (first ++ later))) columns onConflict
        ((stored ref (server.events (first ++ later))).flatMap (·.rows)) t u := by
  obtain ⟨hfirst, hlater⟩ := admits_append.1 admits
  rw [events_append, inserts_append] at alike
  have hnone : stored ref (server.events first) = [] :=
    stored_eq_nil (inserts_eq_nil fun e he => insertInto?_of_trims (forall_events.2 trims e he))
  have hkept : removed ref ((server.after first).events later) = 0 :=
    removed_eq_zero fun e he => removedFrom_of_fills (forall_events.2 fills e he)
  obtain ⟨start, hstart, hspec, hrows⟩ := after_trims sound hfirst ht trims
  obtain ⟨u, hu, hinserted⟩ := after_fills (sound_after sound first) hlater hstart fills
    fun s hs => (alike s (List.mem_append_right _ hs)).1
  rw [Table.insertAll_eq fun s hs =>
    (alike s (List.mem_append_right _ (stored_sublist.subset hs))).2] at hinserted
  rw [after_append, events_append, stored_append, removed_append, hnone, hkept, List.nil_append,
    Nat.add_zero]
  cases hfates : Table.fates columns onConflict none
      ((stored ref ((server.after first).events later)).flatMap (·.rows)) start with
  | error e =>
    rw [hfates] at hinserted
    cases hinserted
  | ok r =>
    obtain ⟨v, applied⟩ := r
    rw [hfates] at hinserted
    obtain rfl : v = u := Except.ok.inj hinserted
    obtain ⟨hspec', added, hadded, hall⟩ := Table.rows_of_fates plain hfates
    refine ⟨v, hu, hspec'.trans hspec, start, applied, added, hspec, hrows, hfates, ?_, hspec ▸ hadded, ?_⟩
    · rintro rfl
      exact Table.taken_of_fail hfates
    · rw [hall, hrows]

end After

end ReadingBench.Store
