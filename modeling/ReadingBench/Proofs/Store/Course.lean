import ReadingBench.Proofs.Store.Failure
import ReadingBench.Proofs.Store.Run

namespace ReadingBench.Store

open Sql

/-- A request and what came back. -/
structure Event where
  request : Operation
  answer : Except Error Answer

namespace Event

/-- What is logged of a request of an open session. -/
def text? (e : Event) : Option String := e.request.statement?.map (·.2)

def succeeded (e : Event) : Bool := e.answer.toOption.isSome

end Event

namespace Server

/-- Requests one after another, with what comes back. -/
def events (server : Server) : List Operation → List Event
  | [] => []
  | op :: ops => ⟨op, (op.perform server).1⟩ :: (server.step op).events ops

/-- Every statement is one of a session that is open then. -/
def Admits (server : Server) : List Operation → Prop
  | [] => True
  | op :: ops =>
    (∀ s sql, op.statement? = some (s, sql) → s.isClosed server = false) ∧ (server.step op).Admits ops

/-- All of the sessions are open. -/
def Open (sessions : List Session) (server : Server) : Prop := ∀ s ∈ sessions, s.isClosed server = false

theorem after_append (server : Server) (first later : List Operation) :
    server.after (first ++ later) = (server.after first).after later := List.foldl_append

theorem events_append (server : Server) (first later : List Operation) :
    server.events (first ++ later) = server.events first ++ (server.after first).events later := by
  induction first generalizing server with
  | nil => rfl
  | cons op ops ih =>
    rw [List.cons_append, events, events, ih, after_cons, List.cons_append]

theorem admits_append {server : Server} {first later : List Operation} :
    server.Admits (first ++ later) ↔ server.Admits first ∧ (server.after first).Admits later := by
  induction first generalizing server with
  | nil => simp [Admits, after]
  | cons op ops ih => rw [List.cons_append, Admits, Admits, ih, after_cons, and_assoc]

/-- Where the events split, the requests do. -/
theorem events_eq_append {server : Server} {ops : List Operation} {first later : List Event}
    (h : server.events ops = first ++ later) : ∃ before rest, ops = before ++ rest ∧
      server.events before = first ∧ (server.after before).events rest = later := by
  induction first generalizing server ops with
  | nil => exact ⟨[], ops, rfl, rfl, h⟩
  | cons e first ih =>
    cases ops with
    | nil => cases h
    | cons op ops =>
      obtain ⟨hhead, htail⟩ := List.cons.inj h
      obtain ⟨before, rest, rfl, hbefore, hrest⟩ := ih htail
      exact ⟨op :: before, rest, rfl, by rw [events, hhead, hbefore], hrest⟩

theorem map_request_events (server : Server) (ops : List Operation) :
    (server.events ops).map Event.request = ops := by
  induction ops generalizing server with
  | nil => rfl
  | cons op ops ih => rw [events, List.map_cons, ih]

/-- What holds of all requests holds of those in the events. -/
theorem forall_events {server : Server} {ops : List Operation} {C : Operation → Prop} :
    (∀ e ∈ server.events ops, C e.request) ↔ ∀ op ∈ ops, C op := by
  rw [← List.forall_mem_map (f := Event.request), map_request_events]

theorem Reachable.after {server : Server} (h : server.Reachable) (ops : List Operation) :
    (server.after ops).Reachable := by
  obtain ⟨clock, first, rfl⟩ := h
  exact ⟨clock, first ++ ops, ((empty clock).after_append first ops).symm⟩

end Server

section Log

open Server

variable {α β : Type}

/-- Work that sends nothing and closes nothing. -/
def Silent (work : Action α) : Prop :=
  ∀ server, (work server).2.log = server.log ∧ (work server).2.closed = server.closed

theorem silent_pure (a : α) : Silent (pure a) := fun _ => ⟨rfl, rfl⟩

theorem silent_lift (x : Except Error α) : Silent (liftM x) := by
  intro server
  rw [lift_apply]
  exact ⟨rfl, rfl⟩

theorem Silent.bind {work : Action α} {rest : α → Action β} (h : Silent work)
    (hrest : ∀ a, Silent (rest a)) : Silent (work >>= rest) := by
  intro server
  obtain ⟨hlog, hclosed⟩ := h server
  rw [bind_apply]
  rcases hwork : work server with ⟨e | a, next⟩
  · rw [hwork] at hlog hclosed
    exact ⟨hlog, hclosed⟩
  · rw [hwork] at hlog hclosed
    obtain ⟨hlog', hclosed'⟩ := hrest a next
    exact ⟨hlog'.trans hlog, hclosed'.trans hclosed⟩

theorem silent_table (ref : TableRef) : Silent (Action.table ref) := by
  intro server
  rw [Action.table_snd]
  exact ⟨rfl, rfl⟩

theorem silent_setTable (ref : TableRef) (t : Table) : Silent (Action.setTable ref t) :=
  fun _ => ⟨rfl, rfl⟩

theorem silent_applyInsert (s : Insert) : Silent (Action.applyInsert s) := by
  intro server
  obtain ⟨e, hinsert⟩ | ⟨affected, t, hinsert⟩ := Action.applyInsert_cases s server
  all_goals
    rw [hinsert]
    exact ⟨rfl, rfl⟩

theorem receive_bind_logs {s : Session} {sql : String} {server : Server}
    (hopen : s.isClosed server = false) {work : Unit → Action α} (silent : Silent (work ⟨⟩)) :
    ((s.receive sql >>= work) server).2.log = server.log.push sql ∧
      ((s.receive sql >>= work) server).2.closed = server.closed := by
  rw [bind_apply, receive_open hopen]
  cases server.failures.head? with
  | none => exact silent (server.logged sql)
  | some e => exact ⟨rfl, rfl⟩

/-- A statement of an open session is logged, and closes no session. -/
theorem Server.step_statement {server : Server} {op : Operation} {s : Session} {sql : String}
    (hop : op.statement? = some (s, sql)) (hopen : s.isClosed server = false) :
    (server.step op).log = server.log.push sql ∧ (server.step op).closed = server.closed := by
  unfold step
  cases op with
  | define | openSession | close | failNext => cases hop
  | select s' statement =>
    obtain ⟨rfl, rfl⟩ := Prod.mk.inj (Option.some.inj hop)
    rw [Operation.perform, bind_pure_apply_snd, Session.select_eq]
    exact receive_bind_logs hopen ((silent_table _).bind fun t => silent_lift _)
  | insert s' statement =>
    obtain ⟨rfl, rfl⟩ := Prod.mk.inj (Option.some.inj hop)
    rw [Operation.perform, bind_pure_apply_snd, Session.insert_eq]
    exact receive_bind_logs hopen (silent_applyInsert statement)
  | delete s' statement =>
    obtain ⟨rfl, rfl⟩ := Prod.mk.inj (Option.some.inj hop)
    rw [Operation.perform, bind_pure_apply_snd, Session.delete_eq]
    refine receive_bind_logs hopen ((silent_table _).bind fun t => ?_)
    exact (silent_setTable _ _).bind fun _ => (silent_lift _).bind fun u =>
      (silent_setTable _ u).bind fun _ => silent_pure _
  | execute s' text =>
    obtain ⟨rfl, rfl⟩ := Prod.mk.inj (Option.some.inj hop)
    rw [Operation.perform, bind_pure_apply_snd, Session.execute_eq]
    refine receive_bind_logs hopen ((silent_lift _).bind fun read => ?_)
    cases read with
    | none => exact silent_pure 0
    | some statement => exact silent_applyInsert statement
  | commit s' =>
    obtain ⟨rfl, rfl⟩ := Prod.mk.inj (Option.some.inj hop)
    rw [Operation.perform, Session.commit_eq, bind_assoc]
    exact receive_bind_logs hopen fun _ => ⟨rfl, rfl⟩

theorem close_log (s : Session) (server : Server) : (s.close server).log = server.log := by
  unfold Session.close Session.shut
  cases s.isClosed server with
  | false =>
    simp only [Session.release, Bool.not_false]
    split <;> rfl
  | true => rfl

namespace Server

/-- The log grows by the texts of the statements, in their order. -/
theorem log_after {server : Server} {ops : List Operation} (admits : server.Admits ops) :
    (server.after ops).log.toList =
      server.log.toList ++ (server.events ops).filterMap Event.text? := by
  induction ops generalizing server with
  | nil => simp [after, events]
  | cons op ops ih =>
    obtain ⟨hopen, hrest⟩ := admits
    rw [after_cons, ih hrest, events]
    cases hop : op.statement? with
    | none =>
      have hlog : (server.step op).log = server.log := by
        cases op with
        | define | openSession | failNext => rfl
        | close s => exact close_log s server
        | select | insert | delete | execute | commit => cases hop
      rw [hlog, List.filterMap_cons_none (by simp [Event.text?, hop])]
    | some r =>
      have hlog := (step_statement hop (hopen r.1 r.2 hop)).1
      rw [hlog, List.filterMap_cons_some (b := r.2) (by simp [Event.text?, hop])]
      simp

theorem Open.of_closed {sessions : List Session} {server next : Server} (h : Open sessions server)
    (hclosed : next.closed = server.closed) : Open sessions next := by
  intro s hs
  rw [Session.isClosed, hclosed]
  exact h s hs

theorem Open.openNew {sessions : List Session} {server : Server} (h : Open sessions server) :
    Open ((Session.openNew server).1 :: sessions) (Session.openNew server).2 := by
  intro s hs
  rcases List.mem_cons.1 hs with rfl | hs
  · exact Session.isClosed_openNew_self server
  · exact Session.isClosed_openNew (h s hs)

end Server

end Log

theorem bind_pure_apply_fst {ε σ α β : Type} (x : ExceptT ε (StateM σ) α) (f : α → β) (state : σ) :
    ((do return f (← x)) state).1 = (x state).1.map f := by
  rw [bind_apply]
  rcases x state with ⟨_ | _, next⟩ <;> rfl

/-- Work that comes down to requests, with statements of open sessions only, and leaves these sessions
open. `P` holds of what it asked for and of what it gave, if it did not fail. -/
def Takes (sessions : List Session) {ε α : Type} (work : ExceptT ε (StateM Server) α)
    (P : List Event → Option α → Prop) : Prop :=
  ∀ server, server.Open sessions → ∃ ops, server.Admits ops ∧ (work server).2 = server.after ops ∧
    (server.after ops).Open sessions ∧ P (server.events ops) (work server).1.toOption

section Takes

open Server

variable {sessions : List Session} {ε α β : Type} {P : List Event → Option α → Prop}
  {R : List Event → Option β → Prop}

theorem Takes.imp {work : ExceptT ε (StateM Server) α} {Q : List Event → Option α → Prop}
    (h : Takes sessions work P) (himp : ∀ events r, P events r → Q events r) : Takes sessions work Q := by
  intro server hopen
  obtain ⟨ops, hadmits, hafter, hkept, hp⟩ := h server hopen
  exact ⟨ops, hadmits, hafter, hkept, himp _ _ hp⟩

theorem takes_lift (x : Except ε α) : Takes sessions (liftM x : ExceptT ε (StateM Server) α)
    fun events r => events = [] ∧ r = x.toOption := by
  intro server hopen
  rw [lift_apply]
  exact ⟨[], trivial, rfl, hopen, rfl, rfl⟩

theorem takes_pure (a : α) : Takes sessions (pure a : ExceptT ε (StateM Server) α)
    fun events r => events = [] ∧ r = some a := fun _ hopen => ⟨[], trivial, rfl, hopen, rfl, rfl⟩

theorem takes_throw (e : ε) : Takes sessions (throw e : ExceptT ε (StateM Server) α)
    fun events r => events = [] ∧ r = none := fun _ hopen => ⟨[], trivial, rfl, hopen, rfl, rfl⟩

/-- Requests that come after others. -/
theorem Takes.after {work : ExceptT ε (StateM Server) β} {Q : List Event → Option β → Prop}
    (h : Takes sessions work Q) {server : Server} {ops : List Operation} (admits : server.Admits ops)
    (kept : (server.after ops).Open sessions)
    (go : ∀ events r, Q events r → R (server.events ops ++ events) r) :
    ∃ all, server.Admits all ∧ (work (server.after ops)).2 = server.after all ∧
      (server.after all).Open sessions ∧
        R (server.events all) (work (server.after ops)).1.toOption := by
  obtain ⟨later, hadmits, hafter, hkept, hq⟩ := h _ kept
  rw [← after_append] at hafter hkept
  refine ⟨ops ++ later, admits_append.2 ⟨admits, hadmits⟩, hafter, hkept, ?_⟩
  rw [events_append]
  exact go _ _ hq

/-- The requests of a first piece of work and those of the next, if it comes to that. -/
theorem Takes.bind {work : ExceptT ε (StateM Server) α} {rest : α → ExceptT ε (StateM Server) β}
    {Q : α → List Event → Option β → Prop} (h : Takes sessions work P)
    (hrest : ∀ a, Takes sessions (rest a) (Q a)) (stop : ∀ events, P events none → R events none)
    (go : ∀ a before after r, P before (some a) → Q a after r → R (before ++ after) r) :
    Takes sessions (work >>= rest) R := by
  intro server hopen
  obtain ⟨ops, hadmits, hafter, hkept, hp⟩ := h server hopen
  rw [bind_apply]
  rcases hwork : work server with ⟨e | a, next⟩
  · rw [hwork] at hafter hp
    exact ⟨ops, hadmits, hafter, hkept, stop _ hp⟩
  · rw [hwork] at hafter hp
    obtain rfl : next = server.after ops := hafter
    exact (hrest a).after hadmits hkept fun _ _ => go a _ _ _ hp

theorem takes_ok_bind {x : Except ε α} {a : α} (hx : x = .ok a)
    {rest : α → ExceptT ε (StateM Server) β} (h : Takes sessions (rest a) R) :
    Takes sessions (liftM x >>= rest) R := by
  rw [hx]
  exact h

theorem Takes.tryCatch {work : ExceptT ε (StateM Server) α} {handler : ε → ExceptT ε (StateM Server) α}
    {Q R : List Event → Option α → Prop} (h : Takes sessions work P)
    (hhandler : ∀ e, Takes sessions (handler e) Q)
    (stop : ∀ events a, P events (some a) → R events (some a))
    (go : ∀ before after r, P before none → Q after r → R (before ++ after) r) :
    Takes sessions (tryCatch work handler) R := by
  intro server hopen
  obtain ⟨ops, hadmits, hafter, hkept, hp⟩ := h server hopen
  rw [tryCatch_apply]
  rcases hwork : work server with ⟨e | a, next⟩
  · rw [hwork] at hafter hp
    obtain rfl : next = server.after ops := hafter
    exact (hhandler e).after hadmits hkept fun _ _ => go _ _ _ hp
  · rw [hwork] at hafter hp
    exact ⟨ops, hadmits, hafter, hkept, stop _ _ hp⟩

theorem Takes.ofAction {action : Action α} (h : Takes sessions action P) :
    Takes sessions (Run.ofAction action) P := by
  intro server hopen
  obtain ⟨ops, hadmits, hafter, hkept, hp⟩ := h server hopen
  unfold Run.ofAction
  rcases haction : action server with ⟨e | a, next⟩
  · rw [haction] at hafter hp
    exact ⟨ops, hadmits, hafter, hkept, hp⟩
  · rw [haction] at hafter hp
    exact ⟨ops, hadmits, hafter, hkept, hp⟩

theorem takes_ofExcept (x : Except RunError α) : Takes sessions (Run.ofExcept x)
    fun events r => events = [] ∧ r = x.toOption := by
  cases x with
  | error e => exact takes_throw _
  | ok a => exact takes_pure a

/-- One statement. -/
theorem takes_request (op : Operation) {work : Action α} {f : α → Answer} {s : Session} {sql : String}
    (hop : op.perform = do return f (← work)) (hstatement : op.statement? = some (s, sql))
    (hs : s ∈ sessions) : Takes sessions work
      fun events r => ∃ answer, events = [⟨op, answer⟩] ∧ r.map f = answer.toOption := by
  intro server hopen
  have hfirst := hopen s hs
  have hafter : (op.perform server).2 = (work server).2 := by rw [hop, bind_pure_apply_snd]
  refine ⟨[op], ⟨?_, trivial⟩, hafter.symm, ?_, _, rfl, ?_⟩
  · rintro s' sql' hsame
    obtain ⟨rfl, -⟩ := Prod.mk.inj (Option.some.inj (hstatement.symm.trans hsame))
    exact hfirst
  · exact hopen.of_closed (step_statement hstatement hfirst).2
  · rw [hop, bind_pure_apply_fst]
    cases (work server).1 <;> rfl

section Statements

variable {s : Session} (hs : s ∈ sessions)

include hs

theorem takes_select (statement : Select) : Takes sessions (s.select statement)
    fun events r => ∃ answer, events = [⟨.select s statement, answer⟩] ∧
      r.map Answer.rows = answer.toOption :=
  takes_request (.select s statement) rfl rfl hs

theorem takes_insert (statement : Insert) : Takes sessions (s.insert statement)
    fun events r => ∃ answer, events = [⟨.insert s statement, answer⟩] ∧
      r.map Answer.affected = answer.toOption :=
  takes_request (.insert s statement) rfl rfl hs

theorem takes_delete (statement : Delete) : Takes sessions (s.delete statement)
    fun events r => ∃ answer, events = [⟨.delete s statement, answer⟩] ∧
      r.map Answer.affected = answer.toOption :=
  takes_request (.delete s statement) rfl rfl hs

theorem takes_execute (sql : String) : Takes sessions (s.execute sql)
    fun events r => ∃ answer, events = [⟨.execute s sql, answer⟩] ∧
      r.map Answer.affected = answer.toOption :=
  takes_request (.execute s sql) rfl rfl hs

theorem takes_commit : Takes sessions s.commit
    fun events r => ∃ answer, events = [⟨.commit s, answer⟩] ∧
      r.map (fun _ => Answer.done) = answer.toOption :=
  takes_request (.commit s) rfl rfl hs

end Statements

/-- A session of its own is opened before all else, and closed after it where the work comes back. -/
theorem Takes.withSession {work : Session → Run α} {P : Session → List Event → Option α → Prop}
    {Q : List Event → Option α → Prop} (h : ∀ s, Takes (s :: sessions) (work s) (P s))
    (wrap : ∀ s events r last, P s events r → (∀ e ∈ last, e = (⟨.close s, .ok .done⟩ : Event)) →
      Q (⟨.openSession, .ok (.opened s)⟩ :: events ++ last) r) :
    Takes sessions (Run.withSession work) Q := by
  intro server hopen
  rw [Run.withSession_apply]
  obtain ⟨ops, hadmits, hafter, hkept, hp⟩ := h _ _ hopen.openNew
  rcases hnew : Session.openNew server with ⟨s, opened⟩
  rw [hnew] at hadmits hafter hkept hp
  have hstep : server.step .openSession = opened := congrArg Prod.snd hnew
  dsimp only at hafter hp ⊢
  have hanswer : (Operation.openSession.perform server).1 = .ok (.opened s) :=
    congrArg (Except.ok ∘ Answer.opened ∘ Prod.fst) hnew
  have hothers : ∀ other ∈ sessions, other.isClosed (opened.after ops) = false := fun other hother =>
    hkept other (List.mem_cons_of_mem s hother)
  unfold Session.leave
  split
  · have hend : server.after (.openSession :: (ops ++ [.close s])) = s.close (opened.after ops) := by
      rw [after_cons, hstep, after_append]
      rfl
    have hdone : server.events (.openSession :: (ops ++ [.close s])) =
        ⟨.openSession, .ok (.opened s)⟩ :: opened.events ops ++ [⟨.close s, .ok .done⟩] := by
      rw [events, hanswer, hstep, events_append]
      rfl
    refine ⟨.openSession :: (ops ++ [.close s]), ?_, ?_, ?_, ?_⟩
    · refine ⟨fun _ _ hnone => (by cases hnone), ?_⟩
      rw [hstep]
      exact admits_append.2 ⟨hadmits, fun _ _ hnone => (by cases hnone), trivial⟩
    · rw [hend]
      exact congrArg s.close hafter
    · rw [hend]
      intro other hother
      have hne : s.number ≠ other.number := by
        rw [show s = (Session.openNew server).1 by rw [hnew]]
        exact Session.number_openNew_ne (hopen other hother)
      rw [Session.isClosed_close hne]
      exact hothers other hother
    · rw [hdone]
      exact wrap s _ _ _ hp fun e he => List.mem_singleton.1 he
  · have hend : server.after (.openSession :: ops) = opened.after ops := by rw [after_cons, hstep]
    refine ⟨.openSession :: ops, ⟨fun _ _ hnone => (by cases hnone), ?_⟩, ?_, ?_, ?_⟩
    · rw [hstep]
      exact hadmits
    · rw [hend]
      exact hafter
    · rw [hend]
      exact hothers
    · rw [events, hanswer, hstep, ← List.append_nil (_ :: _)]
      exact wrap s _ _ [] hp fun e he => by cases he

end Takes

/-- Work that comes down to requests of one kind. -/
def Only (C : Operation → Prop) (sessions : List Session) {ε α : Type}
    (work : ExceptT ε (StateM Server) α) : Prop :=
  Takes sessions work fun events _ => ∀ e ∈ events, C e.request

section Only

variable {C : Operation → Prop} {sessions : List Session} {ε α β : Type}

theorem only_pure (a : α) : Only C sessions (pure a : ExceptT ε (StateM Server) α) :=
  (takes_pure a).imp fun _ _ h => by simp [h.1]

theorem only_throw (e : ε) : Only C sessions (throw e : ExceptT ε (StateM Server) α) :=
  (takes_throw e).imp fun _ _ h => by simp [h.1]

theorem only_ofExcept (x : Except RunError α) : Only C sessions (Run.ofExcept x) :=
  (takes_ofExcept x).imp fun _ _ h => by simp [h.1]

theorem Only.imp {D : Operation → Prop} {work : ExceptT ε (StateM Server) α} (h : Only C sessions work)
    (himp : ∀ op, C op → D op) : Only D sessions work :=
  Takes.imp h fun _ _ hall e he => himp _ (hall e he)

theorem Only.bind {work : ExceptT ε (StateM Server) α} {rest : α → ExceptT ε (StateM Server) β}
    (h : Only C sessions work) (hrest : ∀ a, Only C sessions (rest a)) :
    Only C sessions (work >>= rest) :=
  Takes.bind h hrest (fun _ hall => hall) fun _ _ _ _ hbefore hafter =>
    List.forall_mem_append.2 ⟨hbefore, hafter⟩

theorem Only.tryCatch {work : ExceptT ε (StateM Server) α} {handler : ε → ExceptT ε (StateM Server) α}
    (h : Only C sessions work) (hhandler : ∀ e, Only C sessions (handler e)) :
    Only C sessions (tryCatch work handler) :=
  Takes.tryCatch h hhandler (fun _ _ hall => hall) fun _ _ _ hbefore hafter =>
    List.forall_mem_append.2 ⟨hbefore, hafter⟩

theorem Only.mapM {γ : Type} {use : γ → ExceptT ε (StateM Server) α} {cs : List γ}
    (h : ∀ c ∈ cs, Only C sessions (use c)) : Only C sessions (cs.mapM use) := by
  induction cs with
  | nil => exact only_pure []
  | cons c cs ih =>
    rw [List.mapM_cons]
    exact (h c (by simp)).bind fun _ => (ih fun later hlater => h later (by simp [hlater])).bind
      fun _ => only_pure _

theorem Only.forM {γ : Type} {use : γ → ExceptT ε (StateM Server) Unit} {cs : List γ}
    (h : ∀ c ∈ cs, Only C sessions (use c)) : Only C sessions (cs.forM use) := by
  induction cs with
  | nil => exact only_pure ()
  | cons c cs ih => exact (h c (by simp)).bind fun _ => ih fun later hlater => h later (by simp [hlater])

theorem Only.ofAction {action : Action α} (h : Only C sessions action) :
    Only C sessions (Run.ofAction action) := Takes.ofAction h

theorem Only.withSession {work : Session → Run α} (h : ∀ s, Only C (s :: sessions) (work s))
    (opens : C .openSession) (closes : ∀ s, C (.close s)) : Only C sessions (Run.withSession work) :=
  Takes.withSession h fun s events r last hall hlast => by
    simp only [List.cons_append, List.mem_cons, List.mem_append]
    rintro e (rfl | he | he)
    · exact opens
    · exact hall e he
    · rw [hlast e he]
      exact closes s

end Only

end ReadingBench.Store
