import ReadingBench.Proofs.Store.Bookkeeping
import ReadingBench.Proofs.Store.UniqueKeys

namespace ReadingBench.Store

open Sql

/-- What a client sends through its session. -/
inductive Statement where
  | select (s : Select)
  | insert (s : Insert)
  | delete (s : Delete)
  | execute (sql : String)
  | commit

namespace Statement

/-- The request that it is to the store. -/
def through (statement : Statement) (s : Session) : Operation :=
  match statement with
  | select q => .select s q
  | insert q => .insert s q
  | delete q => .delete s q
  | execute sql => .execute s sql
  | commit => .commit s

/-- What it does once its session has been found open. -/
def work : Statement → Action Answer
  | select q => return .rows (← Action.select q)
  | insert q => return .affected (← Action.insert q)
  | delete q => return .affected (← Action.delete q)
  | execute sql => return .affected (← Action.execute sql)
  | commit => do
    Action.commit
    return .done

end Statement

/-- A server with its clients, between two of their steps. -/
structure Site where
  server : Server
  /-- The sessions of all clients. A clone has the session of its original. -/
  clients : List Session
  /-- The closes that have set their flag and have yet to lower the count. -/
  releasing : List Session
  /-- The statements that found their session open and have yet to do their work. -/
  admitted : List (Session × Statement)

namespace Site

/-- One client over a server with the given tables. -/
def start (clock : Nat → DateTime) (specs : List TableSpec) : Site :=
  ⟨.ofSpecs clock specs, [.root], [], []⟩

/-- What a client has done. -/
inductive Event where
  | opened (s : Session)
  | cloned (s : Session)
  | shut (s : Session)
  | released (s : Session)
  | refused (s : Session) (statement : Statement)
  | admitted (s : Session) (statement : Statement)
  | worked (s : Session) (statement : Statement)
  | defined (spec : TableSpec)
  | failing (e : Error)

/-- The steps that the clients can take next. -/
inductive Step : Site → Event → Site → Prop where
  /-- Any client opens sessions, a closed one too. -/
  | opened {p : Site} {s : Session} (client : s ∈ p.clients) :
      Step p (.opened (Session.openNew p.server).1)
        { p with
          server := (Session.openNew p.server).2
          clients := (Session.openNew p.server).1 :: p.clients }
  | cloned {p : Site} {s : Session} (client : s ∈ p.clients) :
      Step p (.cloned s) { p with clients := s :: p.clients }
  /-- Only the first close of a session goes on to the count, and the root's does not. -/
  | shut {p : Site} {s : Session} (client : s ∈ p.clients) :
      Step p (.shut s)
        { p with
          server := (s.shut p.server).2
          releasing := if (s.shut p.server).1 ∧ s ≠ .root then s :: p.releasing else p.releasing }
  | released {p : Site} {s : Session} (pending : s ∈ p.releasing) :
      Step p (.released s) { p with server := s.release p.server, releasing := p.releasing.erase s }
  | refused {p : Site} {s : Session} (client : s ∈ p.clients) (statement : Statement)
      (closed : s.isClosed p.server = true) : Step p (.refused s statement) p
  | admitted {p : Site} {s : Session} (client : s ∈ p.clients) (statement : Statement)
      (isOpen : s.isClosed p.server = false) :
      Step p (.admitted s statement) { p with admitted := (s, statement) :: p.admitted }
  | worked {p : Site} {s : Session} {statement : Statement} {before after : List (Session × Statement)}
      (waiting : p.admitted = before ++ (s, statement) :: after) :
      Step p (.worked s statement)
        { p with server := (statement.work p.server).2, admitted := before ++ after }
  | defined {p : Site} (spec : TableSpec) : Step p (.defined spec) { p with server := p.server.define spec }
  | failing {p : Site} (e : Error) : Step p (.failing e) { p with server := p.server.failNext e }

/-- Any number of steps, with what was done, the last at the end. -/
inductive Runs (start : Site) : List Event → Site → Prop where
  | nil : Runs start [] start
  | snoc {events : List Event} {p next : Site} {e : Event} (run : Runs start events p) (step : Step p e next) :
      Runs start (events ++ [e]) next

namespace Event

def opened? : Event → Option Session
  | opened s => some s
  | _ => none

def shut? : Event → Option Session
  | shut s => some s
  | _ => none

end Event

/-- The sessions that were opened, in order. -/
def openedIn (events : List Event) : List Session := events.filterMap Event.opened?

/-- The sessions with a close, whether it is done or between its two steps. -/
def shutIn (events : List Event) : List Session := events.filterMap Event.shut?

/-- The opened sessions that were never closed. -/
def unclosed (events : List Event) : List Session := (openedIn events).filter (· ∉ shutIn events)

end Site

section Statements

variable {α β : Type}

/-- No session is opened or closed. -/
def KeepsSessions (work : Action α) : Prop := ∀ server,
  (work server).2.closed = server.closed ∧ (work server).2.openSessions = server.openSessions

theorem keepsSessions_pure (a : α) : KeepsSessions (pure a) := fun _ => ⟨rfl, rfl⟩

theorem keepsSessions_modify {f : Server → Server} (hclosed : ∀ server, (f server).closed = server.closed)
    (hcount : ∀ server, (f server).openSessions = server.openSessions) : KeepsSessions (modify f) :=
  fun server => ⟨hclosed server, hcount server⟩

theorem keepsSessions_lift (x : Except Error α) : KeepsSessions (liftM x) := by
  intro server
  rw [lift_apply]
  exact ⟨rfl, rfl⟩

theorem KeepsSessions.bind {work : Action α} {rest : α → Action β} (h : KeepsSessions work)
    (hrest : ∀ a, KeepsSessions (rest a)) : KeepsSessions (work >>= rest) := by
  intro server
  have hwork := h server
  rw [bind_apply]
  rcases hresult : work server with ⟨e | a, next⟩
  · rw [hresult] at hwork
    exact hwork
  · rw [hresult] at hwork
    obtain ⟨hclosed, hcount⟩ := hrest a next
    exact ⟨hclosed.trans hwork.1, hcount.trans hwork.2⟩

theorem keepsSessions_begin (sql : String) : KeepsSessions (Action.begin sql) := by
  intro server
  rw [Action.begin_apply]
  cases server.failures <;> exact ⟨rfl, rfl⟩

theorem keepsSessions_table (ref : TableRef) : KeepsSessions (Action.table ref) := by
  intro server
  rw [Action.table_snd]
  exact ⟨rfl, rfl⟩

theorem keepsSessions_setTable (ref : TableRef) (t : Table) : KeepsSessions (Action.setTable ref t) :=
  keepsSessions_modify (fun _ => rfl) fun _ => rfl

theorem keepsSessions_applyInsert (s : Insert) : KeepsSessions (Action.applyInsert s) := by
  intro server
  obtain ⟨e, hinsert⟩ | ⟨affected, t, hinsert⟩ := Action.applyInsert_cases s server
  all_goals
    rw [hinsert]
    exact ⟨rfl, rfl⟩

theorem Statement.keepsSessions (statement : Statement) : KeepsSessions statement.work := by
  cases statement with
  | select q =>
    refine KeepsSessions.bind ?_ fun _ => keepsSessions_pure _
    exact (keepsSessions_begin _).bind fun _ => (keepsSessions_table _).bind fun t => keepsSessions_lift _
  | insert q =>
    refine KeepsSessions.bind ?_ fun _ => keepsSessions_pure _
    exact (keepsSessions_begin _).bind fun _ => keepsSessions_applyInsert q
  | delete q =>
    refine KeepsSessions.bind ?_ fun _ => keepsSessions_pure _
    refine (keepsSessions_begin _).bind fun _ => (keepsSessions_table _).bind fun t => ?_
    refine (keepsSessions_setTable _ _).bind fun _ => (keepsSessions_lift _).bind fun u => ?_
    exact (keepsSessions_setTable _ u).bind fun _ => keepsSessions_pure _
  | execute sql =>
    refine KeepsSessions.bind ?_ fun _ => keepsSessions_pure _
    rw [Action.execute_eq]
    refine (keepsSessions_begin _).bind fun _ => (keepsSessions_lift _).bind fun reading => ?_
    cases reading with
    | none => exact keepsSessions_pure 0
    | some s => exact keepsSessions_applyInsert s
  | commit =>
    refine KeepsSessions.bind ?_ fun _ => keepsSessions_pure _
    exact (keepsSessions_begin _).bind fun _ => keepsSessions_modify (fun _ => rfl) fun _ => rfl

end Statements

namespace Session

variable {α β : Type} {s other : Session} {server : Server}

theorem run_of_closed (h : s.isClosed server = true) (action : Action α) :
    s.run action server = (.error .sessionClosed, server) := by
  simp only [run, bind_apply, get_apply, h, if_true]
  rfl

theorem run_of_open (h : s.isClosed server = false) (action : Action α) :
    s.run action server = action server := by
  simp only [run, bind_apply, get_apply, h, Bool.false_eq_true, if_false]

theorem map_run (s : Session) (action : Action α) (f : α → β) :
    (do return f (← s.run action)) = s.run (do return f (← action)) := by
  funext server
  rw [bind_apply]
  cases hclosed : s.isClosed server with
  | true => rw [run_of_closed hclosed, run_of_closed hclosed]
  | false => rw [run_of_open hclosed, run_of_open hclosed, bind_apply]

theorem perform_through (statement : Statement) (s : Session) :
    (statement.through s).perform = s.run statement.work := by
  cases statement <;> exact map_run s _ _

theorem isClosed_openNew_iff (other : Session) : other.isClosed (openNew server).2 = true ↔
    other.isClosed server = true ∧ other.number ≠ server.closed.size := by
  simp only [isClosed, openNew, Array.getD_eq_getD_getElem?, Array.getElem?_push]
  by_cases hlast : other.number = server.closed.size
  · simp [hlast]
  · simp [hlast]

theorem size_shut (s : Session) (server : Server) : (s.shut server).2.closed.size = server.closed.size := by
  simp [shut]

theorem isClosed_shut_iff (s other : Session) : other.isClosed (s.shut server).2 = true ↔
    other = s ∨ other.isClosed server = true := by
  simp only [isClosed, shut, Array.getD_eq_getD_getElem?]
  by_cases hsame : other = s
  · subst hsame
    by_cases hlt : other.number < server.closed.size
    · simp [hlt]
    · simp [hlt]
  · have hnumber : s.number ≠ other.number := fun h => hsame (congrArg Session.mk h.symm)
    rw [Array.getElem?_setIfInBounds_ne hnumber]
    simp [hsame]

theorem closed_release (s : Session) (server : Server) : (s.release server).closed = server.closed := by
  unfold release
  split <;> rfl

end Session

/-- Only the root's session is there when the server is made. -/
theorem Server.sessions_ofSpecs (clock : Nat → DateTime) (specs : List TableSpec) :
    (ofSpecs clock specs).closed = #[false] ∧ (ofSpecs clock specs).openSessions = 0 := by
  have hfold : ∀ server : Server, (specs.foldl define server).closed = server.closed ∧
      (specs.foldl define server).openSessions = server.openSessions := by
    induction specs with
    | nil => exact fun server => ⟨rfl, rfl⟩
    | cons spec specs ih => exact fun server => ih (server.define spec)
  exact hfold _

namespace Site

section Lists

variable (events : List Event) (e : Event)

theorem openedIn_append : openedIn (events ++ [e]) = openedIn events ++ e.opened?.toList := by
  rw [openedIn, List.filterMap_append, ← openedIn]
  cases h : e.opened? <;> simp [h]

theorem shutIn_append : shutIn (events ++ [e]) = shutIn events ++ e.shut?.toList := by
  rw [shutIn, List.filterMap_append, ← shutIn]
  cases h : e.shut? <;> simp [h]

variable {events e} {s : Session}

theorem openedIn_append_of_none (h : e.opened? = none) : openedIn (events ++ [e]) = openedIn events := by
  simp [openedIn_append, h]

theorem shutIn_append_of_none (h : e.shut? = none) : shutIn (events ++ [e]) = shutIn events := by
  simp [shutIn_append, h]

theorem mem_unclosed : s ∈ unclosed events ↔ s ∈ openedIn events ∧ s ∉ shutIn events := by
  simp [unclosed]

theorem unclosed_opened (fresh : s ∉ shutIn events) :
    unclosed (events ++ [.opened s]) = unclosed events ++ [s] := by
  rw [unclosed, openedIn_append, shutIn_append]
  simp [Event.opened?, Event.shut?, unclosed, fresh]

/-- A close counts once, and only if its session was opened. -/
theorem unclosed_shut (distinct : (openedIn events).Nodup) (s : Session) :
    unclosed (events ++ [.shut s]) = (unclosed events).erase s := by
  have hopened : openedIn (events ++ [.shut s]) = openedIn events := openedIn_append_of_none rfl
  have hshut : shutIn (events ++ [.shut s]) = shutIn events ++ [s] := by simp [shutIn_append, Event.shut?]
  rw [unclosed, unclosed, hopened, hshut, (distinct.filter _).erase_eq_filter, List.filter_filter]
  refine List.filter_congr fun other _ => ?_
  rw [Bool.eq_iff_iff]
  simp [and_comm]

end Lists

/-- The places of the sessions, their flags, and the count. -/
structure Balanced (events : List Event) (p : Site) : Prop where
  rooted : p.server.Rooted
  opened : openedIn events = (List.range (p.server.closed.size - 1)).map fun i => ⟨i + 1⟩
  clients_lt : ∀ s ∈ p.clients, s.number < p.server.closed.size
  shut_lt : ∀ s ∈ shutIn events, s.number < p.server.closed.size
  flags : ∀ s : Session,
    s.isClosed p.server = true ↔ s ∈ shutIn events ∨ p.server.closed.size ≤ s.number
  releasing_ne : ∀ s ∈ p.releasing, s ≠ .root
  count : p.server.openSessions = (unclosed events).length + p.releasing.length

namespace Balanced

variable {events : List Event} {p next : Site} {e : Event} {s : Session}

theorem mem_opened (h : p.Balanced events) :
    s ∈ openedIn events ↔ s ≠ .root ∧ s.number < p.server.closed.size := by
  have hrooted : 0 < p.server.closed.size := h.rooted
  obtain ⟨n⟩ := s
  simp only [h.opened, List.mem_map, List.mem_range, Session.root, ne_eq, Session.mk.injEq]
  constructor
  · rintro ⟨i, hi, rfl⟩
    omega
  · rintro ⟨hzero, hlt⟩
    exact ⟨n - 1, by omega, by omega⟩

theorem distinct (h : p.Balanced events) : (openedIn events).Nodup := by
  rw [h.opened]
  refine List.nodup_range.map fun i j hij => ?_
  simpa using hij

/-- A client of a site finds its session closed if there was a close of it. -/
theorem isClosed_iff (h : p.Balanced events) (client : s ∈ p.clients) :
    s.isClosed p.server = true ↔ s ∈ shutIn events := by
  rw [h.flags, or_iff_left (Nat.not_le.2 (h.clients_lt s client))]

theorem mem_unclosed_iff (h : p.Balanced events) (client : s ∈ p.clients) :
    s ∈ unclosed events ↔ s ≠ .root ∧ s.isClosed p.server = false := by
  rw [mem_unclosed, h.mem_opened, and_iff_left (h.clients_lt s client), ← h.isClosed_iff client,
    Bool.not_eq_true]

theorem openSessions_pos (h : p.Balanced events) (pending : s ∈ p.releasing) : 0 < p.server.openSessions := by
  rw [h.count]
  exact Nat.add_pos_right _ (List.length_pos_of_mem pending)

theorem initially (clock : Nat → DateTime) (specs : List TableSpec) : (Site.start clock specs).Balanced [] := by
  obtain ⟨hclosed, hcount⟩ := Server.sessions_ofSpecs clock specs
  have hsize : (Site.start clock specs).server.closed.size = 1 := congrArg Array.size hclosed
  constructor
  · rw [Server.Rooted, hsize]
    exact Nat.one_pos
  · rw [hsize]
    rfl
  · rw [hsize]
    intro s hs
    rw [List.mem_singleton.1 hs]
    exact Nat.one_pos
  · simp [shutIn]
  · intro s
    rw [hsize, Session.isClosed, Array.getD_eq_getD_getElem?]
    obtain ⟨n⟩ := s
    cases n with
    | zero => simp [Site.start, hclosed, shutIn]
    | succ n => simp [Site.start, hclosed, shutIn]
  · simp [Site.start]
  · rw [show (Site.start clock specs).server.openSessions = 0 from hcount]
    rfl

/-- A step that sets no flag: the count stays that of the unclosed sessions and the pending closes. -/
theorem of_same (h : p.Balanced events) (hopened : e.opened? = none) (hshut : e.shut? = none)
    (hclosed : next.server.closed = p.server.closed) (hclients : next.clients ⊆ p.clients)
    (hreleasing : next.releasing ⊆ p.releasing)
    (hcount : next.server.openSessions + p.releasing.length =
      p.server.openSessions + next.releasing.length) : next.Balanced (events ++ [e]) := by
  have hopenedIn : openedIn (events ++ [e]) = openedIn events := openedIn_append_of_none hopened
  have hshutIn : shutIn (events ++ [e]) = shutIn events := shutIn_append_of_none hshut
  constructor
  · rw [Server.Rooted, hclosed]
    exact h.rooted
  · rw [hopenedIn, hclosed, h.opened]
  · rw [hclosed]
    exact fun s hs => h.clients_lt s (hclients hs)
  · rw [hshutIn, hclosed]
    exact h.shut_lt
  · intro s
    rw [Session.isClosed, hclosed, ← Session.isClosed, hshutIn, h.flags]
  · exact fun s hs => h.releasing_ne s (hreleasing hs)
  · have hbefore := h.count
    rw [unclosed, hopenedIn, hshutIn, ← unclosed]
    omega

theorem step_opened (h : p.Balanced events) :
    Balanced (events ++ [.opened (Session.openNew p.server).1])
      { p with
        server := (Session.openNew p.server).2
        clients := (Session.openNew p.server).1 :: p.clients } := by
  have hrooted : 0 < p.server.closed.size := h.rooted
  have hsize : (Session.openNew p.server).2.closed.size = p.server.closed.size + 1 := by
    simp [Session.openNew]
  have hshutIn : shutIn (events ++ [.opened (Session.openNew p.server).1]) = shutIn events :=
    shutIn_append_of_none rfl
  have fresh : (Session.openNew p.server).1 ∉ shutIn events := fun hmem =>
    Nat.lt_irrefl _ (h.shut_lt _ hmem)
  constructor
  · rw [Server.Rooted, hsize]
    omega
  · have hlast : p.server.closed.size = p.server.closed.size - 1 + 1 := by omega
    rw [openedIn_append, h.opened, hsize, Nat.add_sub_cancel]
    conv_rhs => rw [hlast, List.range_succ, List.map_append]
    simp [Event.opened?, Session.openNew, ← hlast]
  · rw [hsize]
    intro s hs
    rcases List.mem_cons.1 hs with rfl | hs
    · exact Nat.lt_succ_self _
    · exact (h.clients_lt s hs).trans (Nat.lt_succ_self _)
  · rw [hshutIn, hsize]
    exact fun s hs => (h.shut_lt s hs).trans (Nat.lt_succ_self _)
  · intro s
    rw [Session.isClosed_openNew_iff, hshutIn, hsize, h.flags]
    constructor
    · rintro ⟨hmem | hbeyond, hne⟩
      · exact .inl hmem
      · exact .inr (by omega)
    · rintro (hmem | hbeyond)
      · exact ⟨.inl hmem, (h.shut_lt s hmem).ne⟩
      · exact ⟨.inr (by omega), by omega⟩
  · exact h.releasing_ne
  · have hcount := h.count
    rw [unclosed_opened fresh, List.length_append, List.length_singleton]
    change p.server.openSessions + 1 = _ + p.releasing.length
    omega

theorem step_shut (h : p.Balanced events) (client : s ∈ p.clients) :
    Balanced (events ++ [.shut s])
      { p with
        server := (s.shut p.server).2
        releasing := if (s.shut p.server).1 ∧ s ≠ .root then s :: p.releasing else p.releasing } := by
  have hopenedIn : openedIn (events ++ [.shut s]) = openedIn events := openedIn_append_of_none rfl
  have hshutIn : shutIn (events ++ [.shut s]) = shutIn events ++ [s] := by simp [shutIn_append, Event.shut?]
  have hsize := Session.size_shut s p.server
  -- Exactly the close that goes on to the count takes its session from the unclosed ones.
  have hfirst : ((s.shut p.server).1 = true ∧ s ≠ .root) ↔ s ∈ unclosed events := by
    rw [h.mem_unclosed_iff client, and_comm]
    simp [Session.shut]
  constructor
  · rw [Server.Rooted, hsize]
    exact h.rooted
  · rw [hopenedIn, hsize, h.opened]
  · rw [hsize]
    exact h.clients_lt
  · rw [hshutIn, hsize]
    intro other hother
    rcases List.mem_append.1 hother with hother | hother
    · exact h.shut_lt other hother
    · rw [List.mem_singleton.1 hother]
      exact h.clients_lt s client
  · intro other
    rw [Session.isClosed_shut_iff, hshutIn, hsize, h.flags, List.mem_append, List.mem_singleton]
    tauto
  · intro other hother
    dsimp only at hother
    split at hother
    case isTrue counted =>
      rcases List.mem_cons.1 hother with rfl | hother
      · exact counted.2
      · exact h.releasing_ne other hother
    case isFalse => exact h.releasing_ne other hother
  · have hcount := h.count
    rw [unclosed_shut h.distinct]
    change p.server.openSessions = _
    by_cases counted : s ∈ unclosed events
    · have hpos := List.length_pos_of_mem counted
      rw [if_pos (hfirst.2 counted), List.length_erase_of_mem counted, List.length_cons]
      omega
    · rw [if_neg (fun hgo => counted (hfirst.1 hgo)), List.erase_of_not_mem counted]
      exact hcount

theorem step_released (h : p.Balanced events) (pending : s ∈ p.releasing) :
    Balanced (events ++ [.released s])
      { p with server := s.release p.server, releasing := p.releasing.erase s } := by
  refine h.of_same rfl rfl (Session.closed_release s p.server) (List.Subset.refl _) List.erase_subset ?_
  have hcount := h.openSessions_pos pending
  have hlength := List.length_pos_of_mem pending
  rw [Session.release, if_neg (h.releasing_ne s pending)]
  simp only [List.length_erase_of_mem pending]
  omega

theorem step (h : p.Balanced events) (hstep : Step p e next) : next.Balanced (events ++ [e]) := by
  cases hstep with
  | opened _ => exact h.step_opened
  | shut client => exact h.step_shut client
  | released pending => exact h.step_released pending
  | cloned client =>
    exact h.of_same rfl rfl rfl (List.cons_subset.2 ⟨client, List.Subset.refl _⟩) (List.Subset.refl _) rfl
  | worked =>
    rename_i s statement before after waiting
    obtain ⟨hclosed, hcount⟩ := statement.keepsSessions p.server
    refine h.of_same rfl rfl hclosed (List.Subset.refl _) (List.Subset.refl _) ?_
    exact congrArg (· + p.releasing.length) hcount
  | refused | admitted | defined | failing =>
    exact h.of_same rfl rfl rfl (List.Subset.refl _) (List.Subset.refl _) rfl

theorem run {clock : Nat → DateTime} {specs : List TableSpec} (h : Runs (Site.start clock specs) events p) :
    p.Balanced events := by
  induction h with
  | nil => exact initially clock specs
  | snoc _ step ih => exact ih.step step

end Balanced

/-- A close without steps of others in between is its two steps, or the first alone. -/
theorem runs_close {p : Site} {s : Session} (client : s ∈ p.clients) :
    ∃ events, Runs p events { p with server := s.close p.server } := by
  have hshut := Runs.nil.snoc (Step.shut client)
  by_cases counted : (s.shut p.server).1 ∧ s ≠ .root
  · have hpending : s ∈ s :: p.releasing := List.mem_cons_self
    rw [if_pos counted] at hshut
    have hreleased := hshut.snoc (Step.released hpending)
    have hclose : s.close p.server = s.release (s.shut p.server).2 := by
      rw [Session.close]
      rcases hflag : s.shut p.server with ⟨_ | _, next⟩
      · rw [hflag] at counted
        cases counted.1
      · rfl
    rw [hclose]
    simp only [List.erase_cons_head] at hreleased
    exact ⟨_, hreleased⟩
  · rw [if_neg counted] at hshut
    have hclose : s.close p.server = (s.shut p.server).2 := by
      rw [Session.close]
      rcases hflag : s.shut p.server with ⟨_ | _, next⟩
      · rfl
      · have hroot : s = .root := by simpa [hflag] using counted
        exact if_pos hroot
    rw [hclose]
    exact ⟨_, hshut⟩

/-- What holds of a site after what was done there. -/
structure Accounted (events : List Event) (p : Site) : Prop where
  /-- No close finds the count at zero. -/
  lowered : ∀ s ∈ p.releasing, (s.release p.server).openSessions + 1 = p.server.openSessions
  distinct : (openedIn events).Nodup
  count : p.server.openSessions = (unclosed events).length + p.releasing.length
  /-- A closed session's clients are turned away, and nothing has changed. -/
  refuses : ∀ s ∈ p.clients, s ∈ shutIn events → ∀ statement : Statement,
    (statement.through s).perform p.server = (.error .sessionClosed, p.server) ∧
      ∀ next, ¬Step p (.admitted s statement) next
  works : ∀ s ∈ p.clients, s ∉ shutIn events → ∀ statement : Statement,
    (statement.through s).perform p.server = statement.work p.server ∧
      ∃ next, Step p (.admitted s statement) next
  /-- A close that nobody comes between leaves the server as its steps do. -/
  closes : ∀ s ∈ p.clients, ∃ steps, Runs p steps { p with server := s.close p.server }

/-- Whatever the clients do and in whichever order their steps come, the count is that of the sessions that were
opened and never closed, and of the closes that have yet to lower it. Clients of closed sessions get nothing
done, and all others do. -/
theorem accounted {clock : Nat → DateTime} {specs : List TableSpec} {events : List Event} {p : Site}
    (run : Runs (start clock specs) events p) : p.Accounted events := by
  have h := Balanced.run run
  constructor
  · intro s pending
    have hpos := h.openSessions_pos pending
    rw [Session.release, if_neg (h.releasing_ne s pending)]
    exact Nat.sub_add_cancel hpos
  · exact h.distinct
  · exact h.count
  · intro s client hshut statement
    have hclosed := (h.isClosed_iff client).2 hshut
    refine ⟨?_, fun next step => ?_⟩
    · rw [Session.perform_through, Session.run_of_closed hclosed]
    · cases step with
      | admitted _ _ isOpen =>
        rw [hclosed] at isOpen
        cases isOpen
  · intro s client hshut statement
    have hopen : s.isClosed p.server = false := by
      rwa [← h.isClosed_iff client, Bool.not_eq_true] at hshut
    refine ⟨?_, _, .admitted client statement hopen⟩
    rw [Session.perform_through, Session.run_of_open hopen]
  · exact fun s client => runs_close client

/-- A session, two closes of it through two clients, and another session that is opened while the first close
is between its steps. -/
def closedTwice : List Event :=
  [.opened ⟨1⟩, .cloned ⟨1⟩, .shut ⟨1⟩, .opened ⟨2⟩, .shut ⟨1⟩, .released ⟨1⟩]

theorem accounted_closedTwice : ∃ p, Runs (start Server.still []) closedTwice p ∧
    p.server.openSessions = 1 ∧
    (Statement.commit.through ⟨1⟩).perform p.server = (.error .sessionClosed, p.server) ∧
    (Statement.commit.through ⟨2⟩).perform p.server = Statement.commit.work p.server := by
  have cloned : Runs (start Server.still []) [.opened ⟨1⟩, .cloned ⟨1⟩] ⟨_, [⟨1⟩, ⟨1⟩, .root], [], []⟩ :=
    (Runs.nil.snoc (.opened List.mem_cons_self)).snoc (.cloned List.mem_cons_self)
  have between : Runs (start Server.still []) [.opened ⟨1⟩, .cloned ⟨1⟩, .shut ⟨1⟩, .opened ⟨2⟩]
      ⟨_, [⟨2⟩, ⟨1⟩, ⟨1⟩, .root], [⟨1⟩], []⟩ :=
    (cloned.snoc (.shut List.mem_cons_self)).snoc (.opened List.mem_cons_self)
  have run : Runs (start Server.still []) closedTwice ⟨_, [⟨2⟩, ⟨1⟩, ⟨1⟩, .root], [], []⟩ :=
    (between.snoc (.shut (List.mem_cons_of_mem _ List.mem_cons_self))).snoc (.released List.mem_cons_self)
  have haccounted := accounted run
  refine ⟨_, run, haccounted.count, ?_, ?_⟩
  · exact (haccounted.refuses ⟨1⟩ (by simp) (by decide) .commit).1
  · exact (haccounted.works ⟨2⟩ (by simp) (by decide) .commit).1

end Site
end ReadingBench.Store
