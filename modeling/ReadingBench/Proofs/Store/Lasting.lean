import ReadingBench.Proofs.Store.Operation
import ReadingBench.Proofs.Store.Run

namespace ReadingBench.Store

open Sql

/-- A relation that work cannot break. A statement opens and closes no session, and takes waiting failures
from the front only. -/
structure Lasting where
  holds : Server → Server → Prop
  refl : ∀ server, holds server server
  trans : ∀ {server mid next}, holds server mid → holds mid next → holds server next
  statement : ∀ {server next}, next.closed = server.closed → next.openSessions = server.openSessions →
    next.failures <:+ server.failures → holds server next

/-- Sessions that work opens for itself do not break the relation either, whether they are closed or not. -/
class Lasting.Spans (R : Lasting) : Prop where
  opened : ∀ {server last}, R.holds (Session.openNew server).2 last → R.holds server last
  closed : ∀ {server last}, R.holds (Session.openNew server).2 last →
    R.holds server ((Session.openNew server).1.close last)

/-- The server after the work is related to the one before it, whether the work fails or not. -/
def Respects (R : Lasting) {ε α : Type} (work : ExceptT ε (StateM Server) α) : Prop :=
  ∀ server, R.holds server (work server).2

section Parts

variable {R : Lasting} {ε α β : Type}

theorem respects_pure (a : α) : Respects R (pure a : ExceptT ε (StateM Server) α) :=
  fun server => R.refl server

theorem respects_throw (e : ε) : Respects R (throw e : ExceptT ε (StateM Server) α) :=
  fun server => R.refl server

theorem respects_lift (x : Except ε α) : Respects R (liftM x : ExceptT ε (StateM Server) α) := by
  intro server
  rw [lift_apply]
  exact R.refl server

theorem respects_get : Respects R (get : ExceptT ε (StateM Server) Server) := fun server => R.refl server

theorem Respects.bind {work : ExceptT ε (StateM Server) α} {rest : α → ExceptT ε (StateM Server) β}
    (h : Respects R work) (hrest : ∀ a, Respects R (rest a)) : Respects R (work >>= rest) := by
  intro server
  have hwork := h server
  rw [bind_apply]
  rcases hresult : work server with ⟨e | a, next⟩
  all_goals rw [hresult] at hwork
  · exact hwork
  · exact R.trans hwork (hrest a next)

theorem Respects.tryCatch {work : ExceptT ε (StateM Server) α} {handler : ε → ExceptT ε (StateM Server) α}
    (h : Respects R work) (hhandler : ∀ e, Respects R (handler e)) :
    Respects R (tryCatch work handler) := by
  intro server
  have hwork := h server
  rw [tryCatch_apply]
  rcases hresult : work server with ⟨e | a, next⟩
  all_goals rw [hresult] at hwork
  · exact R.trans hwork (hhandler e next)
  · exact hwork

theorem Respects.mapM {f : α → ExceptT ε (StateM Server) β} (h : ∀ a, Respects R (f a)) (as : List α) :
    Respects R (as.mapM f) := by
  induction as with
  | nil => exact respects_pure _
  | cons a as ih =>
    rw [List.mapM_cons]
    exact (h a).bind fun _ => ih.bind fun _ => respects_pure _

theorem Respects.forM {f : α → ExceptT ε (StateM Server) Unit} (h : ∀ a, Respects R (f a)) (as : List α) :
    Respects R (as.forM f) := by
  induction as with
  | nil => exact respects_pure _
  | cons a as ih => exact (h a).bind fun _ => ih

theorem Respects.ofAction {action : Action α} (h : Respects R action) : Respects R (Run.ofAction action) := by
  intro server
  have haction := h server
  unfold Run.ofAction
  rcases hresult : action server with ⟨e | a, next⟩
  all_goals
    rw [hresult] at haction
    exact haction

theorem respects_ofExcept (x : Except RunError α) : Respects R (Run.ofExcept x) := by
  cases x with
  | error e => exact respects_throw _
  | ok a => exact respects_pure a

theorem Respects.withSession [R.Spans] {work : Session → Run α} (h : ∀ session, Respects R (work session)) :
    Respects R (Run.withSession work) := by
  intro server
  have hwork := h (Session.openNew server).1 (Session.openNew server).2
  rw [Run.withSession_apply]
  unfold Session.leave
  split
  · exact Lasting.Spans.closed hwork
  · exact Lasting.Spans.opened hwork

end Parts

section Statements

variable {R : Lasting} {ε α : Type}

/-- Sessions and waiting failures stay as they are. -/
theorem respects_of_same {work : ExceptT ε (StateM Server) α} (h : ∀ server,
    (work server).2.closed = server.closed ∧ (work server).2.openSessions = server.openSessions ∧
      (work server).2.failures = server.failures) : Respects R work := by
  intro server
  obtain ⟨hclosed, hcount, hfailures⟩ := h server
  exact R.statement hclosed hcount (hfailures ▸ List.suffix_refl _)

theorem respects_receive (session : Session) (sql : String) : Respects R (session.receive sql) := by
  intro server
  obtain ⟨-, -, -, hclosed, hcount⟩ := session.receive_snd sql server
  refine R.statement hclosed hcount ?_
  rw [Session.receive_apply]
  split
  · exact List.suffix_refl _
  · rw [Action.begin_apply]
    split
    · exact List.suffix_refl _
    · next e rest hfailures => exact hfailures ▸ List.suffix_cons e rest

theorem respects_table (ref : TableRef) : Respects R (Action.table ref) := by
  refine respects_of_same fun server => ?_
  rw [Action.table_snd]
  exact ⟨rfl, rfl, rfl⟩

theorem respects_setTable (ref : TableRef) (t : Table) : Respects R (Action.setTable ref t) :=
  respects_of_same fun _ => ⟨rfl, rfl, rfl⟩

theorem respects_applyInsert (s : Insert) : Respects R (Action.applyInsert s) := by
  refine respects_of_same fun server => ?_
  obtain ⟨e, hinsert⟩ | ⟨affected, t, hinsert⟩ := Action.applyInsert_cases s server
  all_goals
    rw [hinsert]
    exact ⟨rfl, rfl, rfl⟩

theorem respects_insert (session : Session) (s : Insert) : Respects R (session.insert s) := by
  rw [Session.insert_eq]
  exact (respects_receive session _).bind fun _ => respects_applyInsert s

theorem respects_select (session : Session) (s : Select) : Respects R (session.select s) := by
  rw [Session.select_eq]
  exact (respects_receive session _).bind fun _ => (respects_table _).bind fun t => respects_lift (t.select s)

theorem respects_delete (session : Session) (d : Delete) : Respects R (session.delete d) := by
  rw [Session.delete_eq]
  refine (respects_receive session _).bind fun _ => (respects_table _).bind fun t => ?_
  refine (respects_setTable _ _).bind fun _ => (respects_lift _).bind fun u => ?_
  exact (respects_setTable _ u).bind fun _ => respects_pure _

theorem respects_execute (session : Session) (sql : String) : Respects R (session.execute sql) := by
  rw [Session.execute_eq]
  refine (respects_receive session _).bind fun _ => (respects_lift _).bind fun statement => ?_
  cases statement with
  | none => exact respects_pure 0
  | some s => exact respects_applyInsert s

theorem respects_commit (session : Session) : Respects R session.commit := by
  rw [Session.commit_eq]
  exact (respects_receive session _).bind fun _ => respects_of_same fun _ => ⟨rfl, rfl, rfl⟩

end Statements

end ReadingBench.Store
