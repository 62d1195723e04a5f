import ReadingBench.Proofs.Store.Run

namespace ReadingBench.Store

open Sql

variable {α β : Type} {server : Server} {sessions : OpenSessions}

/-- It does not matter in which order sessions are closed. -/
theorem Session.close_comm (s s' : Session) (server : Server) :
    s.close (s'.close server) = s'.close (s.close server) := by
  by_cases hsame : s.number = s'.number
  · obtain rfl : s = s' := congrArg Session.mk hsame
    rfl
  have hs : s.isClosed (s'.close server) = s.isClosed server := isClosed_close (Ne.symm hsame)
  have hs' : s'.isClosed (s.close server) = s'.isClosed server := isClosed_close hsame
  rw [close_eq s (s'.close server), close_eq s' (s.close server), hs, hs', close_eq s server, close_eq s' server]
  dsimp only
  rw [Array.setIfInBounds_comm _ _ hsame, Nat.sub_right_comm]

namespace OpenSessions

theorem closeAll_close (s : Session) (server : Server) :
    sessions.closeAll (s.close server) = s.close (sessions.closeAll server) := by
  induction sessions generalizing server with
  | nil => rfl
  | cons entry sessions ih => exact (congrArg _ (entry.2.close_comm s server)).trans (ih _)

/-- What is on the list is closed where the work comes back. -/
def leave (sessions : OpenSessions) (result : Except Halt α) (server : Server) : Server :=
  if Returned result then sessions.closeAll server else server

theorem leave_nil (result : Except Halt α) (server : Server) : leave [] result server = server :=
  ite_self _

theorem leave_cons (entry : Keyspace × Session) (left : OpenSessions) (result : Except Halt α)
    (server : Server) :
    leave (entry :: left) result server = entry.2.leave result (left.leave result server) := by
  unfold leave Session.leave
  split
  · exact closeAll_close entry.2 server
  · rfl

end OpenSessions

namespace Opening

theorem bind_apply (work : Opening α) (rest : α → Opening β) (sessions : OpenSessions) (server : Server) :
    (work >>= rest) sessions server =
      match work sessions server with
      | ((.ok a, sessions), server) => rest a sessions server
      | ((.error e, sessions), server) => ((.error e, sessions), server) := by
  simp only [bind, ExceptT.bind, ExceptT.mk, StateT.bind]
  rcases work sessions server with ⟨⟨e | a, sessions⟩, server⟩ <;> rfl

theorem close_of_last {ks : Keyspace} {s : Session} (new : ∀ entry ∈ sessions, entry.1 ≠ ks) (server : Server) :
    close ks (sessions ++ [(ks, s)]) server = ((.ok (), sessions), s.close server) := by
  have hfind : (sessions ++ [(ks, s)]).find? (·.1 = ks) = some (ks, s) := by
    rw [List.find?_append, List.find?_eq_none.2 (by simpa using new)]
    simp
  have herase : (sessions ++ [(ks, s)]).eraseP (·.1 = ks) = sessions := by
    rw [List.eraseP_append_right _ (by simpa using new)]
    simp
  unfold close
  rw [hfind, herase]

/-- What work does with a list, other work does by sessions that enclose one another: it comes to the same
result, and to the server on which the sessions that the list has gained are closed as well. -/
def Brackets (sessions : OpenSessions) (work : Opening α) (enclosed : Run α) : Prop :=
  ∀ server, ∃ left, (work sessions server).1 = ((enclosed server).1, sessions ++ left) ∧
    (enclosed server).2 = left.leave (enclosed server).1 (work sessions server).2

/-- Where the work succeeds, it has closed its sessions itself. -/
def Closes (sessions : OpenSessions) (work : Opening α) (enclosed : Run α) : Prop :=
  Brackets sessions work enclosed ∧
    ∀ server a, (enclosed server).1 = .ok a → (work sessions server).1.2 = sessions

theorem closes_ofRun (work : Run α) : Closes sessions (ofRun work) work :=
  ⟨fun _ => ⟨[], by rw [List.append_nil]; rfl, (OpenSessions.leave_nil _ _).symm⟩, fun _ _ _ => rfl⟩

theorem closes_pure (a : α) : Closes sessions (pure a) (pure a) := closes_ofRun (pure a)

theorem closes_lift (result : Except Halt α) : Closes sessions (liftM result) (liftM result) := by
  cases result with
  | error e => exact closes_ofRun (throw e)
  | ok a => exact closes_pure a

theorem closes_liftState (work : StateM Server α) : Closes sessions (liftM work) (liftM work) :=
  closes_ofRun (liftM work)

theorem Closes.brackets {work : Opening α} {enclosed : Run α} (h : Closes sessions work enclosed) :
    Brackets sessions work enclosed := h.1

theorem Closes.of_ok {work : Opening α} {enclosed : Run α} (h : Closes sessions work enclosed) {a : α}
    {next : Server} (hok : enclosed server = (.ok a, next)) : work sessions server = ((.ok a, sessions), next) := by
  obtain ⟨left, hwork, hserver⟩ := h.1 server
  have hclean := h.2 server a (congrArg Prod.fst hok)
  rw [hwork] at hclean
  obtain rfl : left = [] := List.append_right_eq_self.1 hclean
  rw [OpenSessions.leave_nil] at hserver
  rw [hok] at hwork hserver
  exact Prod.ext (by rw [hwork, List.append_nil]) hserver.symm

theorem Brackets.of_error {work : Opening α} {enclosed : Run α} (h : Brackets sessions work enclosed)
    {halt : Halt} {next : Server} (hhalt : enclosed server = (.error halt, next)) : ∃ left last,
      work sessions server = ((.error halt, sessions ++ left), last) ∧
        next = left.leave (.error halt : Except Halt α) last := by
  obtain ⟨left, hwork, hserver⟩ := h server
  rw [hhalt] at hwork hserver
  exact ⟨left, _, Prod.ext hwork rfl, hserver⟩

theorem Closes.bind {work : Opening α} {rest : α → Opening β} {enclosed : Run α} {enclosed' : α → Run β}
    (h : Closes sessions work enclosed) (hrest : ∀ a, Closes sessions (rest a) (enclosed' a)) :
    Closes sessions (work >>= rest) (enclosed >>= enclosed') := by
  constructor
  · intro server
    rw [bind_apply, Store.bind_apply]
    rcases hok : enclosed server with ⟨halt | a, next⟩
    · obtain ⟨left, last, hwork, hnext⟩ := h.1.of_error hok
      rw [hwork]
      refine ⟨left, rfl, hnext.trans ?_⟩
      cases halt <;> rfl
    · rw [h.of_ok hok]
      exact (hrest a).1 next
  · intro server b hb
    rw [bind_apply]
    rw [Store.bind_apply] at hb
    rcases hok : enclosed server with ⟨halt | a, next⟩
    · rw [hok] at hb
      cases hb
    · rw [hok] at hb
      rw [h.of_ok hok]
      exact (hrest a).2 next b hb

/-- A session that stays open encloses all that follows. -/
theorem Brackets.session {ks : Keyspace} {work : Session → Opening α} {enclosed : Session → Run α}
    (h : ∀ s, Brackets (sessions ++ [(ks, s)]) (work s) (enclosed s)) :
    Brackets sessions (session ks >>= work) (Run.withSession enclosed) := by
  intro server
  obtain ⟨left, hwork, hserver⟩ := h (Session.openNew server).1 (Session.openNew server).2
  refine ⟨(ks, (Session.openNew server).1) :: left, ?_, ?_⟩
  · rw [List.append_cons]
    exact hwork
  · rw [OpenSessions.leave_cons, Run.withSession_apply, hserver]
    rfl

/-- A session that is closed after work encloses this work. -/
theorem closes_early {ks : Keyspace} (new : ∀ entry ∈ sessions, entry.1 ≠ ks) (work : Session → Run α) :
    Closes sessions (do
      let s ← session ks
      let a ← ofRun (work s)
      close ks
      return a) (Run.withSession work) := by
  have hopened : ∀ server, (do
      let s ← session ks
      let a ← ofRun (work s)
      close ks
      return a : Opening α) sessions server =
        match work (Session.openNew server).1 (Session.openNew server).2 with
        | (.ok a, last) => ((.ok a, sessions), (Session.openNew server).1.close last)
        | (.error halt, last) =>
          ((.error halt, sessions ++ [(ks, (Session.openNew server).1)]), last) := by
    intro server
    change ((ofRun (work (Session.openNew server).1) >>= fun a => close ks >>= fun _ => pure a : Opening α)
      (sessions ++ [(ks, (Session.openNew server).1)]) (Session.openNew server).2) = _
    rw [bind_apply]
    unfold ofRun
    rcases work (Session.openNew server).1 (Session.openNew server).2 with ⟨halt | a, last⟩
    · rfl
    · dsimp only
      rw [bind_apply, close_of_last new]
      rfl
  constructor
  · intro server
    rw [hopened, Run.withSession_apply]
    rcases work (Session.openNew server).1 (Session.openNew server).2 with ⟨halt | a, last⟩
    · exact ⟨[(ks, (Session.openNew server).1)], rfl, rfl⟩
    · exact ⟨[], by rw [List.append_nil], (OpenSessions.leave_nil _ _).symm⟩
  · intro server a ha
    rw [hopened]
    rw [Run.withSession_apply] at ha
    rcases hwork : work (Session.openNew server).1 (Session.openNew server).2 with ⟨halt | b, last⟩
    · rw [hwork] at ha
      cases ha
    · rfl

/-- A run that keeps a list closes what enclosing sessions would. -/
theorem Brackets.withSessions_eq {work : Opening α} {enclosed : Run α} (h : Brackets [] work enclosed) :
    Run.withSessions work = enclosed := by
  funext server
  obtain ⟨left, hwork, hserver⟩ := h server
  rcases hended : work [] server with ⟨⟨result, sessions⟩, last⟩
  rw [hended] at hwork hserver
  obtain ⟨rfl, rfl⟩ := Prod.mk.inj hwork
  unfold Run.withSessions
  rw [hended]
  exact Prod.ext rfl hserver.symm

end Opening
end ReadingBench.Store
