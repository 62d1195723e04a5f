import ReadingBench.Proofs.Store.Action
import ReadingBench.Store.Run

namespace ReadingBench.Store

open Sql Outcome

namespace Run

variable {α β : Type}

theorem ofAction_eq_ok {action : Action α} {server next : Server} {a : α} :
    ofAction action server = (.ok a, next) ↔ action server = (.ok a, next) := by
  unfold ofAction
  rcases action server with ⟨e | a, last⟩
  · constructor <;> intro h <;> cases (Prod.mk.inj h).1
  · constructor
    all_goals
      intro h
      obtain ⟨ha, rfl⟩ := Prod.mk.inj h
      obtain rfl := Except.ok.inj ha
      rfl

theorem ofExcept_eq_ok {result : Except RunError α} {server next : Server} {a : α} :
    ofExcept result server = (.ok a, next) ↔ result = .ok a ∧ server = next := by
  cases result with
  | error e =>
    constructor
    · intro h
      cases (Prod.mk.inj h).1
    · rintro ⟨h, -⟩
      cases h
  | ok a =>
    rw [Except.ok.injEq]
    exact pure_apply_eq_ok

end Run

namespace Session

/-- A session is closed where the work in it comes back. -/
def leave {α : Type} (s : Session) (result : Except Halt α) (server : Server) : Server :=
  if Returned result then s.close server else server

theorem leave_tables {α : Type} (s : Session) (result : Except Halt α) (server : Server) :
    (s.leave result server).tables = server.tables := by
  unfold leave
  split
  · exact s.close_tables server
  · rfl

end Session

namespace Run

/-- Work with a session of its own. -/
def withSession (work : Session → Run α) : Run α := fun server =>
  let (session, server) := Session.openNew server
  let (result, server) := work session server
  (result, session.leave result server)

theorem withSession_apply (work : Session → Run α) (server : Server) : withSession work server =
    ((work (Session.openNew server).1 (Session.openNew server).2).1,
      (Session.openNew server).1.leave (work (Session.openNew server).1 (Session.openNew server).2).1
        (work (Session.openNew server).1 (Session.openNew server).2).2) := rfl

theorem exists_withSession_eq_ok {work : Session → Run α} {server : Server} {a : α}
    (h : ∃ last, work (Session.openNew server).1 (Session.openNew server).2 = (.ok a, last)) :
    ∃ next, withSession work server = (.ok a, next) := by
  obtain ⟨last, hwork⟩ := h
  rw [withSession_apply, hwork]
  exact ⟨_, rfl⟩

/-- Opening and closing a session leaves tables alone. -/
theorem withSession_eq_ok {work : Session → Run α} {server next : Server} {a : α}
    (h : withSession work server = (.ok a, next)) : ∃ opened last,
      opened.tables = server.tables ∧ next.tables = last.tables ∧
        work (Session.openNew server).1 opened = (.ok a, last) := by
  unfold withSession at h
  obtain ⟨hwork, rfl⟩ := Prod.mk.inj h
  exact ⟨(Session.openNew server).2, _, rfl, Session.leave_tables _ _ _, Prod.ext hwork rfl⟩

theorem liftState_apply (work : StateM Server α) (server : Server) :
    (liftM work : Run α) server = (.ok (work server).1, (work server).2) := rfl

end Run

namespace Session

variable {s : Session} {server : Server}

theorem number_lt_of_open (h : s.isClosed server = false) : s.number < server.closed.size := by
  unfold isClosed at h
  by_contra hbeyond
  rw [Array.getD_eq_getD_getElem?, Array.getElem?_eq_none (by omega)] at h
  cases h

theorem isClosed_openNew_self (server : Server) : (openNew server).1.isClosed (openNew server).2 = false := by
  simp [isClosed, openNew]

theorem isClosed_openNew (h : s.isClosed server = false) : s.isClosed (openNew server).2 = false := by
  have hlt := number_lt_of_open h
  simp only [isClosed, openNew, Array.getD_eq_getD_getElem?] at h ⊢
  rw [Array.getElem?_push_lt hlt]
  rwa [Array.getElem?_eq_getElem hlt] at h

theorem number_openNew_ne (h : s.isClosed server = false) : (openNew server).1.number ≠ s.number :=
  (number_lt_of_open h).ne'

/-- Closing a session closes no other. -/
theorem isClosed_close {other : Session} (hother : other.number ≠ s.number) :
    s.isClosed (other.close server) = s.isClosed server := by
  simp only [Session.close_eq, isClosed, Array.getD_eq_getD_getElem?]
  rw [Array.getElem?_setIfInBounds_ne hother]

end Session

namespace Server

/-- All tables but one are the same. -/
def SameBut (ref : TableRef) (server next : Server) : Prop :=
  ∀ key ≠ ref.key, next.tables[key]? = server.tables[key]?

variable {ref : TableRef} {server mid next : Server}

theorem SameBut.of_tables (h : next.tables = server.tables) : SameBut ref server next := by
  intro key _
  rw [h]

theorem SameBut.trans (h : SameBut ref server mid) (h' : SameBut ref mid next) :
    SameBut ref server next := fun key hkey => (h' key hkey).trans (h key hkey)

theorem SameBut.of_insert {t : Table} (h : next.tables = server.tables.insert ref.key t) :
    SameBut ref server next := by
  intro key hkey
  rw [h, Std.TreeMap.getElem?_insert]
  simp [Ne.symm hkey]

theorem SameBut.table? (h : SameBut ref server next) {other : TableRef} (hother : other.key ≠ ref.key) :
    next.table? other = server.table? other := h _ hother

theorem table?_of_insert {t : Table} (h : next.tables = server.tables.insert ref.key t) :
    next.table? ref = some t := by
  rw [Server.table?, h]
  simp

end Server
end ReadingBench.Store

namespace ReadingBench.Sql

theorem Row.requireText_eq_ok_iff {row : Row} {keyspace : Keyspace} {column s : String} :
    row.requireText keyspace column = .ok s ↔ row.getText? column = some s := by
  unfold Row.requireText
  cases row.getText? column with
  | none => simp
  | some found => simp

end ReadingBench.Sql
