import ReadingBench.Proofs.Store.Lasting
import ReadingBench.Proofs.Store.Opening

namespace ReadingBench.Store

open Sql

namespace Session

theorem isClosed_openNew_eq (s : Session) (server : Server) : s.isClosed (openNew server).2 =
    if s.number = server.closed.size then false else s.isClosed server := by
  simp only [isClosed, openNew, Array.getD_eq_getD_getElem?, Array.getElem?_push]
  split <;> rfl

theorem isClosed_close_eq (s other : Session) (server : Server) :
    s.isClosed (other.close server) = true ↔ s = other ∨ s.isClosed server = true := by
  by_cases hsame : s = other
  · subst hsame
    simp only [close_eq, isClosed, Array.getD_eq_getD_getElem?, Array.getElem?_setIfInBounds, if_true]
    split <;> simp
  · rw [isClosed_close fun hnumber => hsame (congrArg Session.mk hnumber.symm)]
    simp [hsame]

theorem isClosed_of_size_le {s : Session} {server : Server} (h : server.closed.size ≤ s.number) :
    s.isClosed server = true := by
  rw [isClosed, Array.getD_eq_getD_getElem?, Array.getElem?_eq_none h]
  rfl

end Session

/-- No session is opened and none is closed. -/
def sameSessions : Lasting where
  holds server next := next.closed = server.closed ∧ next.openSessions = server.openSessions
  refl _ := ⟨rfl, rfl⟩
  trans h h' := ⟨h'.1.trans h.1, h'.2.trans h.2⟩
  statement hclosed hcount _ := ⟨hclosed, hcount⟩

/-- The root has its place among the sessions, so no new one takes it. -/
def Server.Rooted (server : Server) : Prop := 0 < server.closed.size

/-- The sessions that were opened in between are closed, all others are as they were, and so is the
count. -/
structure Server.Tidied (server next : Server) : Prop where
  count : next.openSessions = server.openSessions
  closed : ∃ opened : Nat, next.closed = server.closed ++ Array.replicate opened true

/-- What a list says of the sessions that were opened since: those on it are open, and the others are closed. -/
structure Server.Bookkept (server : Server) (sessions : OpenSessions) (next : Server) : Prop where
  count : next.openSessions = server.openSessions + sessions.length
  nodup : (sessions.map (·.2)).Nodup
  later : ∀ s ∈ sessions.map (·.2), server.closed.size ≤ s.number
  size : server.closed.size ≤ next.closed.size
  kept : ∀ s : Session, s.number < server.closed.size → s.isClosed next = s.isClosed server
  isOpen : ∀ s : Session, server.closed.size ≤ s.number →
    (s.isClosed next = false ↔ s ∈ sessions.map (·.2))

namespace Server

variable {server mid next : Server} {sessions : OpenSessions}

theorem size_close (s : Session) (server : Server) : (s.close server).closed.size = server.closed.size := by
  rw [Session.close_eq]
  exact Array.size_setIfInBounds

theorem rooted_step (op : Operation) (rooted : Rooted server) : Rooted (server.step op) := by
  have hstatement {α : Type} {action : Action α} (f : α → Answer) (h : Respects sameSessions action) :
      Rooted ((do return f (← action) : Action Answer) server).2 := by
    rw [Rooted, (h.bind fun a => respects_pure (f a)) server |>.1]
    exact rooted
  cases op with
  | define | failNext => exact rooted
  | openSession => exact Nat.lt_of_lt_of_eq (Nat.succ_pos _) (Array.size_push ..).symm
  | close s => exact Nat.lt_of_lt_of_eq rooted (size_close s server).symm
  | select s statement => exact hstatement .rows (respects_select s statement)
  | insert s statement => exact hstatement .affected (respects_insert s statement)
  | delete s statement => exact hstatement .affected (respects_delete s statement)
  | execute s sql => exact hstatement .affected (respects_execute s sql)
  | commit s => exact hstatement (fun _ => .done) (respects_commit s)

/-- Whatever is asked of a store, its root stays. -/
theorem Reachable.rooted (h : server.Reachable) : Rooted server := by
  obtain ⟨clock, ops, rfl⟩ := h
  have hstart : Rooted (empty clock) := Nat.one_pos
  generalize empty clock = start at hstart
  induction ops generalizing start with
  | nil => exact hstart
  | cons op ops ih => exact ih _ (rooted_step op hstart)

namespace Bookkept

theorem start (server : Server) : Bookkept server [] server where
  count := rfl
  nodup := List.nodup_nil
  later s hs := by cases hs
  size := le_rfl
  kept _ _ := rfl
  isOpen s hs := by simp [Session.isClosed_of_size_le hs]

theorem of_same (h : Bookkept server sessions mid) (hclosed : next.closed = mid.closed)
    (hcount : next.openSessions = mid.openSessions) : Bookkept server sessions next := by
  have hsame : ∀ s : Session, s.isClosed next = s.isClosed mid := fun s => by
    rw [Session.isClosed, hclosed]
    rfl
  exact {
    count := hcount.trans h.count
    nodup := h.nodup
    later := h.later
    size := hclosed ▸ h.size
    kept s hs := (hsame s).trans (h.kept s hs)
    isOpen s hs := hsame s ▸ h.isOpen s hs }

theorem openNew (h : Bookkept server sessions mid) (ks : Keyspace) :
    Bookkept server (sessions ++ [(ks, (Session.openNew mid).1)]) (Session.openNew mid).2 := by
  have hnew : (Session.openNew mid).1 ∉ sessions.map (·.2) := fun hmem => by
    have hopen := (h.isOpen _ (h.later _ hmem)).2 hmem
    have hclosed : (Session.openNew mid).1.isClosed mid = true :=
      Session.isClosed_of_size_le (le_refl mid.closed.size)
    rw [hclosed] at hopen
    cases hopen
  have hmap : (sessions ++ [(ks, (Session.openNew mid).1)]).map (·.2) =
      sessions.map (·.2) ++ [(Session.openNew mid).1] := by simp
  refine ⟨?_, ?_, ?_, ?_, ?_, ?_⟩
  · rw [List.length_append, ← Nat.add_assoc, ← h.count]
    rfl
  · rw [hmap, ← List.concat_eq_append]
    exact h.nodup.concat hnew
  · rw [hmap]
    intro s hs
    rcases List.mem_append.1 hs with hs | hs
    · exact h.later s hs
    · rw [List.mem_singleton.1 hs]
      exact h.size
  · exact h.size.trans (Nat.le_of_lt (Nat.lt_of_lt_of_eq (Nat.lt_succ_self _) (Array.size_push ..).symm))
  · intro s hs
    rw [Session.isClosed_openNew_eq, if_neg (Nat.ne_of_lt (hs.trans_le h.size))]
    exact h.kept s hs
  · intro s hs
    rw [hmap, Session.isClosed_openNew_eq, List.mem_append, List.mem_singleton]
    split
    · next hlast => exact iff_of_true rfl (.inr (congrArg Session.mk hlast))
    · next hother =>
      rw [h.isOpen s hs]
      exact ⟨.inl, fun hmem => hmem.resolve_right fun hlast => hother (congrArg Session.number hlast)⟩

/-- Any of the sessions may be closed, and leaves the list. -/
theorem close (rooted : Rooted server) (h : Bookkept server sessions mid) {entry : Keyspace × Session}
    {rest : OpenSessions} (perm : sessions.Perm (entry :: rest)) : Bookkept server rest (entry.2.close mid) := by
  have hperm : (sessions.map (·.2)).Perm (entry.2 :: rest.map (·.2)) := perm.map _
  have hnodup := List.nodup_cons.1 (hperm.nodup_iff.1 h.nodup)
  have hlater := h.later entry.2 (hperm.mem_iff.2 List.mem_cons_self)
  have hopen := (h.isOpen entry.2 hlater).2 (hperm.mem_iff.2 List.mem_cons_self)
  have hcounted : entry.2 ≠ .root := fun hroot => by
    rw [hroot] at hlater
    exact absurd (rooted.trans_le hlater) (lt_irrefl _)
  refine ⟨?_, hnodup.2, ?_, ?_, ?_, ?_⟩
  · have hcount := h.count
    rw [perm.length_eq, List.length_cons] at hcount
    rw [Session.close_eq, if_neg (by simp [hopen, hcounted])]
    dsimp only
    omega
  · exact fun s hs => h.later s (hperm.mem_iff.2 (List.mem_cons_of_mem _ hs))
  · rw [size_close]
    exact h.size
  · intro s hs
    rw [Session.isClosed_close fun hnumber => by omega]
    exact h.kept s hs
  · intro s hs
    have hmem := h.isOpen s hs
    rw [hperm.mem_iff, List.mem_cons] at hmem
    rw [← Bool.not_eq_true, Session.isClosed_close_eq, not_or, Bool.not_eq_true, hmem]
    exact ⟨fun hkeeps => hkeeps.2.resolve_left hkeeps.1,
      fun hrest => ⟨fun hsame => hnodup.1 (hsame ▸ hrest), .inr hrest⟩⟩

theorem closeAll (rooted : Rooted server) (h : Bookkept server sessions mid) :
    Bookkept server [] (sessions.closeAll mid) := by
  induction sessions generalizing mid with
  | nil => exact h
  | cons entry sessions ih => exact ih (h.close rooted (.refl _))

theorem tidied (h : Bookkept server [] next) : Tidied server next := by
  refine ⟨h.count, next.closed.size - server.closed.size, ?_⟩
  have hsize := h.size
  apply Array.ext
  · rw [Array.size_append, Array.size_replicate]
    omega
  · intro n hn hn'
    have hflag : (⟨n⟩ : Session).isClosed next = next.closed[n] := by
      rw [Session.isClosed, Array.getD_eq_getD_getElem?, Array.getElem?_eq_getElem hn]
      rfl
    rw [← hflag]
    by_cases hold : n < server.closed.size
    · rw [Array.getElem_append_left hold, h.kept ⟨n⟩ hold, Session.isClosed, Array.getD_eq_getD_getElem?,
        Array.getElem?_eq_getElem hold]
      rfl
    · rw [Array.getElem_append_right (by omega), Array.getElem_replicate]
      have hclosed := (h.isOpen ⟨n⟩ (not_lt.1 hold)).not.2 (by simp)
      simpa using hclosed

end Bookkept
end Server

namespace Opening

variable {α β : Type}

/-- Work keeps its list up to date, whether it goes on or stops. -/
def KeepsBooks (work : Opening α) : Prop :=
  ∀ server sessions mid, Server.Rooted server → server.Bookkept sessions mid →
    server.Bookkept (work sessions mid).1.2 (work sessions mid).2

theorem keepsBooks_ofRun {work : Run α} (h : Respects sameSessions work) : KeepsBooks (ofRun work) :=
  fun _ _ mid _ hkept => hkept.of_same (h mid).1 (h mid).2

theorem keepsBooks_pure (a : α) : KeepsBooks (pure a) := fun _ _ _ _ hkept => hkept

theorem keepsBooks_lift (result : Except Halt α) : KeepsBooks (liftM result) := by
  cases result <;> exact fun _ _ _ _ hkept => hkept

theorem keepsBooks_session (ks : Keyspace) : KeepsBooks (session ks) := fun _ _ _ _ hkept => hkept.openNew ks

theorem keepsBooks_close (ks : Keyspace) : KeepsBooks (close ks) := by
  intro server sessions mid rooted hkept
  unfold close
  cases hfind : sessions.find? (·.1 = ks) with
  | none => exact hkept
  | some entry =>
    obtain ⟨hentry, before, after, rfl, hbefore⟩ := List.find?_eq_some_iff_append.1 hfind
    have herase : (before ++ entry :: after).eraseP (·.1 = ks) = before ++ after := by
      rw [List.eraseP_append_right _ (by simpa using hbefore)]
      exact congrArg (before ++ ·) (List.eraseP_cons_of_pos hentry)
    dsimp only
    rw [herase]
    exact hkept.close rooted List.perm_middle

theorem KeepsBooks.bind {work : Opening α} {rest : α → Opening β} (h : KeepsBooks work)
    (hrest : ∀ a, KeepsBooks (rest a)) : KeepsBooks (work >>= rest) := by
  intro server sessions mid rooted hkept
  have hwork := h server sessions mid rooted hkept
  rw [bind_apply]
  rcases hended : work sessions mid with ⟨⟨e | a, sessions'⟩, mid'⟩
  all_goals rw [hended] at hwork
  · exact hwork
  · exact hrest a server sessions' mid' rooted hwork

/-- A run that comes back has closed the sessions that it opened. -/
theorem KeepsBooks.tidied {work : Opening α} (h : KeepsBooks work) {server next : Server}
    (rooted : server.Rooted) {result : Except Halt α} (hrun : Run.withSessions work server = (result, next))
    (returned : Returned result) : server.Tidied next := by
  have hkept := h server [] server rooted (.start server)
  unfold Run.withSessions at hrun
  obtain ⟨rfl, rfl⟩ := Prod.mk.inj hrun
  rw [if_pos returned]
  exact (hkept.closeAll rooted).tidied

end Opening
end ReadingBench.Store
