import ReadingBench.Proofs.Store.Joined

namespace ReadingBench.Store

open Sql Outcome Server

section Agree

variable {session session' : Session} {ε α β : Type}

theorem Agree.tryCatch {work work' : ExceptT ε (StateM Server) α}
    {handler handler' : ε → ExceptT ε (StateM Server) α} (h : Agree session session' work work')
    (hhandler : ∀ e, Agree session session' (handler e) (handler' e)) :
    Agree session session' (tryCatch work handler) (tryCatch work' handler') := by
  intro server other paired
  obtain ⟨hsame, hpaired⟩ := h server other paired
  rw [tryCatch_apply, tryCatch_apply]
  rcases hwork : work server with ⟨e | a, next⟩
  all_goals
    rcases hwork' : work' other with ⟨e' | a', next'⟩
    all_goals rw [hwork, hwork'] at hsame hpaired
  · obtain rfl := Except.error.inj hsame
    exact hhandler e next next' hpaired
  · cases hsame
  · cases hsame
  · exact ⟨hsame, hpaired⟩

theorem agree_throw (e : ε) :
    Agree session session' (throw e : ExceptT ε (StateM Server) α) (throw e) :=
  fun _ _ paired => ⟨rfl, paired⟩

theorem agree_ofExcept (x : Except RunError α) :
    Agree session session' (Run.ofExcept x) (Run.ofExcept x) := by
  cases x with
  | error e => exact agree_throw _
  | ok a => exact agree_pure a

theorem agree_table (ref : TableRef) : Agree session session' (Action.table ref) (Action.table ref) := by
  intro server other paired
  rw [Action.table_apply, Action.table_apply, paired.alike.table? ref]
  cases other.table? ref with
  | none => exact ⟨rfl, paired⟩
  | some t => exact ⟨rfl, paired⟩

theorem agree_setTable (ref : TableRef) (t : Table) :
    Agree session session' (Action.setTable ref t) (Action.setTable ref t) := fun server other paired =>
  ⟨rfl, (respects_setTable ref t).keepsCalm server paired.left,
    (respects_setTable ref t).keepsCalm other paired.right, paired.alike.insert rfl rfl⟩

theorem agree_select (s : Select) : Agree session session' (session.select s) (session'.select s) := by
  rw [Session.select_eq, Session.select_eq]
  exact (agree_receive _).bind fun _ => (agree_table _).bind fun t => agree_lift (t.select s)

theorem agree_delete (d : Delete) : Agree session session' (session.delete d) (session'.delete d) := by
  rw [Session.delete_eq, Session.delete_eq]
  refine (agree_receive _).bind fun _ => (agree_table _).bind fun t => ?_
  refine (agree_setTable _ _).bind fun _ => (agree_lift _).bind fun u => ?_
  exact (agree_setTable _ u).bind fun _ => agree_pure _

end Agree

/-- Where the one succeeds so does the other, from some budget on in the same way, with a result that is
related and with the same tables. -/
def Follows (session session' : Session) {α β : Type} (R : α → β → Prop) (work : Run α)
    (work' : Nat → Run β) : Prop :=
  ∀ ⦃server other next : Server⦄ ⦃a : α⦄, Paired session session' server other →
    work server = (.ok a, next) → ∃ enough b last,
      (∀ budget, enough ≤ budget → work' budget other = (.ok b, last)) ∧ R a b ∧
        Paired session session' next last

section Follows

variable {session session' : Session} {α β γ δ : Type} {R : α → β → Prop} {S : γ → δ → Prop}

theorem Agree.follows {work work' : Run α} (h : Agree session session' work work') :
    Follows session session' Eq work fun _ => work' := by
  intro server other next a paired hwork
  obtain ⟨hsame, hpaired⟩ := h server other paired
  rw [hwork] at hsame hpaired
  exact ⟨0, a, (work' other).2, fun _ _ => Prod.ext hsame.symm rfl, rfl, hpaired⟩

theorem follows_pure {a : α} {b : β} (h : R a b) :
    Follows session session' R (pure a) fun _ => pure b := by
  intro server other next a' paired hwork
  obtain ⟨rfl, rfl⟩ := pure_apply_eq_ok.1 hwork
  exact ⟨0, b, other, fun _ _ => rfl, h, paired⟩

theorem Follows.bind {work : Run α} {work' : Nat → Run β} {rest : α → Run γ}
    {rest' : Nat → β → Run δ} (h : Follows session session' R work work')
    (hrest : ∀ a b, R a b → Follows session session' S (rest a) (rest' · b)) :
    Follows session session' S (work >>= rest) fun budget => work' budget >>= rest' budget := by
  intro server other next c paired hwork
  obtain ⟨a, mid, hfirst, hsecond⟩ := bind_apply_eq_ok.1 hwork
  obtain ⟨enough, b, mid', hfirst', hrelated, hpaired⟩ := h paired hfirst
  obtain ⟨enough', d, last, hsecond', hrelated', hpaired'⟩ := hrest a b hrelated hpaired hsecond
  refine ⟨max enough enough', d, last, fun budget hbudget => ?_, hrelated', hpaired'⟩
  exact bind_apply_eq_ok.2 ⟨b, mid', hfirst' budget (le_of_max_le_left hbudget),
    hsecond' budget (le_of_max_le_right hbudget)⟩

/-- The same in sessions of their own. -/
theorem Follows.inSession {work : Session → Run α} {work' : Nat → Session → Run β}
    {server other next : Server} {a : α}
    (h : ∀ inner inner', Follows inner inner' R (work inner) fun budget => work' budget inner')
    (quiet : server.failures = []) (quiet' : other.failures = []) (alike : Alike server other)
    (hwork : Run.withSession work server = (.ok a, next)) : ∃ enough b last,
      (∀ budget, enough ≤ budget → Run.withSession (work' budget) other = (.ok b, last)) ∧ R a b ∧
        Alike next last := by
  rw [Run.withSession_apply] at hwork
  obtain ⟨hdone, rfl⟩ := Prod.mk.inj hwork
  have hinner : Paired (Session.openNew server).1 (Session.openNew other).1 (Session.openNew server).2
      (Session.openNew other).2 := ⟨calm_openNew quiet, calm_openNew quiet', alike⟩
  obtain ⟨enough, b, last, hfollows, hrelated, hpaired⟩ := h _ _ hinner (Prod.ext hdone rfl)
  refine ⟨enough, b, (Session.openNew other).1.close last, fun budget hbudget => ?_, hrelated, ?_⟩
  · have hlast := hfollows budget hbudget
    dsimp only at hlast
    rw [Run.withSession_apply, hlast]
    rfl
  · exact hpaired.alike.of_tables (Session.leave_tables _ _ _) (Session.close_tables _ _)

/-- Sessions of their own leave the outer ones as they were. -/
theorem Follows.withSession {work : Session → Run α} {work' : Nat → Session → Run β}
    (h : ∀ inner inner', Follows inner inner' R (work inner) fun budget => work' budget inner')
    (lasts : ∀ inner, Respects (staysCalm session) (work inner))
    (lasts' : ∀ budget inner, Respects (staysCalm session') (work' budget inner)) :
    Follows session session' R (Run.withSession work) fun budget => Run.withSession (work' budget) := by
  intro server other next a paired hwork
  obtain ⟨enough, b, last, hdone, hrelated, halike⟩ :=
    Follows.inSession h paired.left.failures paired.right.failures paired.alike hwork
  exact ⟨enough, b, last, hdone, hrelated,
    (Respects.withSession lasts).keepsCalm.after paired.left hwork,
    (Respects.withSession (lasts' enough)).keepsCalm.after paired.right (hdone enough le_rfl), halike⟩

end Follows

section Inserts

variable {ρ : Type} {session session' : Session} {ref : TableRef} {columns : List String}
  {onConflict : OnConflict} {toRow : ρ → Tuple} {work work' : List ρ → Run Nat}

/-- The same rows in other batches are inserted with the same effect. -/
theorem Inserts.follows (h : Inserts session ref columns onConflict toRow work)
    (h' : Inserts session' ref columns onConflict toRow work') {batches others : List (List ρ)}
    (same : others.flatten = batches.flatten) (full : ∀ batch ∈ batches, batch ≠ [])
    (full' : ∀ batch ∈ others, batch ≠ []) :
    Follows session session' (fun counts counts' : List Nat => counts'.sum = counts.sum)
      (batches.mapM work) fun _ => others.mapM work' := by
  intro server other next counts paired hdone
  by_cases hnone : batches = []
  · obtain rfl := hnone
    obtain rfl : others = [] := by
      rw [List.eq_nil_iff_forall_not_mem]
      intro batch hbatch
      exact full' batch hbatch (List.flatten_eq_nil_iff.1 same batch hbatch)
    obtain ⟨rfl, rfl⟩ := pure_apply_eq_ok.1 hdone
    exact ⟨0, [], other, fun _ _ => rfl, rfl, paired⟩
  · obtain ⟨t, ⟨u, n⟩, ht, hall⟩ := h.mapM_accepted full hnone paired.left hdone
    obtain ⟨counts₁, next₁, hdone₁, rfl, hcalm, hu, hothers⟩ := h.mapM_accepts paired.left ht hall
    obtain ⟨hcounts, rfl⟩ := Prod.mk.inj (hdone₁.symm.trans hdone)
    obtain rfl := Except.ok.inj hcounts
    rw [← same] at hall
    obtain ⟨counts', last, hdone', hsum, hcalm', hu', hothers'⟩ :=
      h'.mapM_accepts paired.right ((paired.alike.table? ref).symm.trans ht) hall
    refine ⟨0, counts', last, fun _ _ => hdone', hsum, hcalm, hcalm', fun key => ?_⟩
    by_cases hkey : key = ref.key
    · rw [hkey]
      exact hu.trans hu'.symm
    · rw [hothers key hkey, hothers' key hkey]
      exact paired.alike key

end Inserts

end ReadingBench.Store
