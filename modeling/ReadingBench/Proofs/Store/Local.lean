import ReadingBench.Proofs.Store.Calm

namespace ReadingBench.Store

open Sql Server

/-- The server is still calm, only one table may have changed, and this is what the table is now. -/
structure Server.Arrives (session : Session) (ref : TableRef) (server next : Server) (u : Table) : Prop where
  calm : Calm session next
  others : SameBut ref server next
  found : next.table? ref = some u

/-- Work ended with an error, or with a result and a table. -/
def Comes (session : Session) (ref : TableRef) (server : Server) {ε α : Type}
    (done : Except ε α × Server) (outcome : Except ε (α × Table)) : Prop :=
  match outcome with
  | .error e => done.1 = .error e
  | .ok (a, u) => done.1 = .ok a ∧ Arrives session ref server done.2 u

/-- What the work comes to is determined by the one table. -/
def Local (ref : TableRef) {ε α : Type} (work : Session → ExceptT ε (StateM Server) α) : Prop :=
  ∃ outcome : Table → Except ε (α × Table), ∀ session server t, Calm session server →
    server.table? ref = some t → Comes session ref server (work session server) (outcome t)

section Local

variable {session : Session} {ref : TableRef} {server mid next : Server} {t u v : Table} {ε α β : Type}

theorem Server.Arrives.trans (h : Arrives session ref server mid u) (h' : Arrives session ref mid next v) :
    Arrives session ref server next v := ⟨h'.calm, h.others.trans h'.others, h'.found⟩

theorem Server.Arrives.of_tables (calm : Calm session next) (ht : server.table? ref = some t)
    (h : next.tables = server.tables) : Arrives session ref server next t :=
  ⟨calm, .of_tables h, (table?_of_tables h ref).trans ht⟩

theorem Comes.of_error {done : Except ε α × Server} {e : ε}
    (h : Comes session ref server done (.error e)) : done.1 = .error e := h

theorem Comes.of_ok {result : Except ε α} {a : α} (h : Comes session ref server (result, next) (.ok (a, u))) :
    result = .ok a ∧ Arrives session ref server next u := h

theorem Comes.bind_of_error {work : ExceptT ε (StateM Server) α} {e : ε}
    (h : Comes session ref server (work server) (.error e)) (rest : α → ExceptT ε (StateM Server) β) :
    ((work >>= rest) server).1 = .error e := by
  rw [bind_apply]
  rcases hwork : work server with ⟨result, mid⟩
  rw [hwork] at h
  obtain rfl := h.of_error
  rfl

theorem Comes.bind_of_ok {work : ExceptT ε (StateM Server) α} {a : α}
    (h : Comes session ref server (work server) (.ok (a, u))) (rest : α → ExceptT ε (StateM Server) β) :
    (work >>= rest) server = rest a (work server).2 := by
  rw [bind_apply]
  rcases hwork : work server with ⟨result, mid⟩
  rw [hwork] at h
  obtain ⟨rfl, -⟩ := h.of_ok
  rfl

theorem local_pure (a : α) : Local ref fun _ => (pure a : ExceptT ε (StateM Server) α) :=
  ⟨fun t => .ok (a, t), fun _ _ _ calm ht => ⟨rfl, .of_tables calm ht rfl⟩⟩

theorem local_throw (e : ε) : Local ref fun _ => (throw e : ExceptT ε (StateM Server) α) :=
  ⟨fun _ => .error e, fun _ _ _ _ _ => rfl⟩

theorem local_lift (x : Except ε α) : Local ref fun _ => (liftM x : ExceptT ε (StateM Server) α) := by
  cases x with
  | error e => exact local_throw e
  | ok a => exact local_pure a

/-- Work that changes no table and does not fail. -/
theorem local_of_tables {work : Session → ExceptT ε (StateM Server) α} (a : α)
    (h : ∀ session server, Calm session server → (work session server).1 = .ok a ∧
      Calm session (work session server).2 ∧ (work session server).2.tables = server.tables) :
    Local ref work := by
  refine ⟨fun t => .ok (a, t), fun session server t calm ht => ?_⟩
  obtain ⟨hresult, hcalm, htables⟩ := h session server calm
  exact ⟨hresult, .of_tables hcalm ht htables⟩

/-- What follows starts from the table that was left. -/
theorem Local.bind {work : Session → ExceptT ε (StateM Server) α}
    {rest : α → Session → ExceptT ε (StateM Server) β} (h : Local ref work)
    (hrest : ∀ a, Local ref (rest a)) : Local ref fun session => work session >>= fun a => rest a session := by
  obtain ⟨first, hfirst⟩ := h
  choose later hlater using hrest
  refine ⟨fun t => match first t with
    | .error e => .error e
    | .ok (a, u) => later a u, fun session server t calm ht => ?_⟩
  have hcomes := hfirst session server t calm ht
  dsimp only
  cases hends : first t with
  | error e =>
    rw [hends] at hcomes
    exact hcomes.bind_of_error _
  | ok r =>
    rw [hends] at hcomes
    have hmid := hcomes.2
    have hthen := hlater r.1 session _ r.2 hmid.calm hmid.found
    rw [hcomes.bind_of_ok]
    dsimp only
    cases hlast : later r.1 r.2 with
    | error e =>
      rw [hlast] at hthen
      exact hthen
    | ok r' =>
      rw [hlast] at hthen
      exact ⟨hthen.1, hmid.trans hthen.2⟩

theorem Local.forM {γ : Type} {use : γ → Session → ExceptT ε (StateM Server) Unit}
    (h : ∀ c, Local ref (use c)) (cs : List γ) :
    Local ref fun session => forM cs fun c => use c session := by
  induction cs with
  | nil => exact local_pure ()
  | cons c cs ih =>
    simp only [List.forM_cons]
    exact (h c).bind fun _ => ih

theorem Local.ofAction {action : Session → Action α} (h : Local ref action) :
    Local ref fun session => Run.ofAction (action session) := by
  obtain ⟨outcome, houtcome⟩ := h
  refine ⟨fun t => (outcome t).mapError fun e => .failed (.sql e), fun session server t calm ht => ?_⟩
  have hcomes := houtcome session server t calm ht
  rcases haction : action session server with ⟨result, next⟩
  rw [haction] at hcomes
  dsimp only [Run.ofAction]
  rw [haction]
  cases hends : outcome t with
  | error e =>
    rw [hends] at hcomes
    obtain rfl := hcomes.of_error
    rfl
  | ok r =>
    rw [hends] at hcomes
    obtain ⟨rfl, hnext⟩ := hcomes.of_ok
    exact ⟨rfl, hnext⟩

theorem local_receive (sql : String) : Local ref fun session => session.receive sql := by
  refine local_of_tables ⟨⟩ fun session server calm => ?_
  rw [calm.receive]
  exact ⟨rfl, calm.logged sql, rfl⟩

theorem local_commit : Local ref fun session => session.commit := by
  refine local_of_tables ⟨⟩ fun session server calm => ?_
  obtain ⟨next, hcommit, htables⟩ := calm.commit
  have hkept := (respects_commit session).keepsCalm server calm
  rw [hcommit] at hkept ⊢
  exact ⟨rfl, hkept, htables⟩

/-- Without a stamp an insert does not see the clock. -/
theorem local_applyInsert {s : Insert} (unstamped : s.stamp = none) :
    Local s.table fun _ => Action.applyInsert s := by
  refine ⟨fun t => (t.applyAll s.columns s.onConflict none s.rows).map Prod.swap,
    fun session server t calm ht => ?_⟩
  have hkept := (respects_applyInsert s).keepsCalm server calm
  dsimp only
  rw [Action.applyInsert_apply, ht] at hkept ⊢
  dsimp only at hkept ⊢
  rw [Table.insert_unstamped unstamped] at hkept ⊢
  cases happly : t.applyAll s.columns s.onConflict none s.rows with
  | error e => rfl
  | ok r =>
    rw [happly] at hkept
    exact ⟨rfl, hkept, .of_insert rfl, table?_of_insert rfl⟩

theorem local_insert {s : Insert} (unstamped : s.stamp = none) :
    Local s.table fun session => session.insert s := by
  simp only [Session.insert_eq]
  exact (local_receive _).bind fun _ => local_applyInsert unstamped

end Local

end ReadingBench.Store
