import ReadingBench.Proofs.Store.Indexed

namespace ReadingBench.Store.Table

open Sql Outcome

/-- The tables before and after each tuple that an insert applies. -/
def tupleSteps (columns : List String) (onConflict : OnConflict) (stamp : Option Stamp) :
    List (List Value) → Table → List (Table × Table)
  | [], _ => []
  | values :: rows, t =>
    match t.apply columns onConflict stamp values with
    | .ok (t', _) => (t, t') :: tupleSteps columns onConflict stamp rows t'
    | .error _ => []

/-- The stamp of an insert at a time. -/
def resolveStamp (t : Table) (now : DateTime) (s : Insert) : Except Error (Option Stamp) :=
  s.stamp.mapM fun column => return ⟨← t.spec.position column, .dateTime now⟩

def insertSteps (t : Table) (now : DateTime) (s : Insert) : List (Table × Table) :=
  match t.resolveStamp now s with
  | .ok stamp => tupleSteps s.columns s.onConflict stamp s.rows t
  | .error _ => []

theorem insert_eq_ok {t : Table} {now : DateTime} {s : Insert} {r : Table × Nat} :
    t.insert now s = .ok r ↔ ∃ stamp, t.resolveStamp now s = .ok stamp ∧
      t.applyAll s.columns s.onConflict stamp s.rows = .ok r := bind_eq_ok

/-- Tuples are applied one after the other; their counts add up. -/
theorem applyAll_cons (t : Table) (columns : List String) (onConflict : OnConflict)
    (stamp : Option Stamp) (values : List Value) (rows : List (List Value)) :
    t.applyAll columns onConflict stamp (values :: rows) = (do
      let (u, applied) ← t.apply columns onConflict stamp values
      let (t', affected) ← u.applyAll columns onConflict stamp rows
      return (t', applied.affected + affected)) := by
  simp only [applyAll, List.foldlM_cons]
  cases t.apply columns onConflict stamp values with
  | error e => rfl
  | ok r =>
    simp only [ok_bind, pure_bind, Nat.zero_add]
    exact foldlM_tally (fun t values => t.apply columns onConflict stamp values) Applied.affected
      rows r.1 r.2.affected 0

theorem mem_tupleSteps {columns : List String} {onConflict : OnConflict} {stamp : Option Stamp}
    {rows : List (List Value)} {t : Table} {p : Table × Table}
    (h : p ∈ tupleSteps columns onConflict stamp rows t) :
    ∃ values applied, p.1.apply columns onConflict stamp values = .ok (p.2, applied) := by
  induction rows generalizing t with
  | nil => simp [tupleSteps] at h
  | cons values rows ih =>
    rw [tupleSteps] at h
    cases happly : t.apply columns onConflict stamp values with
    | error e => simp [happly] at h
    | ok r =>
      simp only [happly, List.mem_cons] at h
      rcases h with rfl | h
      · exact ⟨values, r.2, happly⟩
      · exact ih h

/-- What every tuple keeps holds at every tuple and at the end. -/
theorem applyAll_steps {columns : List String} {onConflict : OnConflict} {stamp : Option Stamp}
    {rows : List (List Value)} {t : Table} {P : Table → Prop} (start : P t)
    (step : ∀ p ∈ tupleSteps columns onConflict stamp rows t, P p.1 → P p.2) :
    (∀ p ∈ tupleSteps columns onConflict stamp rows t, P p.1 ∧ P p.2) ∧
      ∀ t' affected, t.applyAll columns onConflict stamp rows = .ok (t', affected) → P t' := by
  induction rows generalizing t with
  | nil =>
    refine ⟨by simp [tupleSteps], fun t' affected h => ?_⟩
    obtain ⟨rfl, -⟩ := Prod.mk.inj (pure_eq_ok.1 h)
    exact start
  | cons values rows ih =>
    rw [tupleSteps] at step ⊢
    rw [applyAll_cons]
    cases happly : t.apply columns onConflict stamp values with
    | error e => simp [error_bind]
    | ok r =>
      obtain ⟨u, applied⟩ := r
      simp only [happly, List.mem_cons, forall_eq_or_imp] at step ⊢
      have hu := step.1 start
      obtain ⟨hsteps, hend⟩ := ih hu step.2
      refine ⟨⟨⟨start, hu⟩, hsteps⟩, fun t' affected h => ?_⟩
      rw [ok_bind] at h
      obtain ⟨⟨t'', n⟩, hrest, h⟩ := bind_eq_ok.1 h
      obtain ⟨rfl, -⟩ := Prod.mk.inj (pure_eq_ok.1 h)
      exact hend t'' n hrest

theorem spec_applyAll {columns : List String} {onConflict : OnConflict} {stamp : Option Stamp}
    {rows : List (List Value)} {t t' : Table} {affected : Nat}
    (h : t.applyAll columns onConflict stamp rows = .ok (t', affected)) : t'.spec = t.spec := by
  refine (applyAll_steps (P := fun u => u.spec = t.spec) rfl ?_).2 t' affected h
  intro p hp hspec
  obtain ⟨values, applied, happly⟩ := mem_tupleSteps hp
  exact (apply_frame happly).1.trans hspec

theorem sound_applyAll {columns : List String} {onConflict : OnConflict} {stamp : Option Stamp}
    {rows : List (List Value)} {t t' : Table} {affected : Nat} (ht : t.Sound)
    (h : t.applyAll columns onConflict stamp rows = .ok (t', affected)) : t'.Sound := by
  refine (applyAll_steps ht ?_).2 t' affected h
  intro p hp hsound
  obtain ⟨values, applied, happly⟩ := mem_tupleSteps hp
  exact sound_apply hsound happly

theorem insert_steps {t : Table} {now : DateTime} {s : Insert} {P : Table → Prop} (start : P t)
    (step : ∀ p ∈ t.insertSteps now s, P p.1 → P p.2) :
    (∀ p ∈ t.insertSteps now s, P p.1 ∧ P p.2) ∧
      ∀ t' affected, t.insert now s = .ok (t', affected) → P t' := by
  simp only [insertSteps, insert_eq_ok] at step ⊢
  cases hstamp : t.resolveStamp now s with
  | error e => simp
  | ok stamp =>
    simp only [hstamp] at step ⊢
    obtain ⟨hsteps, hend⟩ := applyAll_steps start step
    refine ⟨hsteps, ?_⟩
    rintro t' affected ⟨stamp', hstamp', h⟩
    obtain rfl := Except.ok.inj hstamp'
    exact hend t' affected h

theorem mem_insertSteps {t : Table} {now : DateTime} {s : Insert} {p : Table × Table}
    (h : p ∈ t.insertSteps now s) : ∃ stamp values applied,
      p.1.apply s.columns s.onConflict stamp values = .ok (p.2, applied) := by
  unfold insertSteps at h
  split at h
  · exact ⟨_, mem_tupleSteps h⟩
  · simp at h

theorem sound_insert {t t' : Table} {now : DateTime} {s : Insert} {affected : Nat} (ht : t.Sound)
    (h : t.insert now s = .ok (t', affected)) : t'.Sound := by
  obtain ⟨stamp, -, hall⟩ := insert_eq_ok.1 h
  exact sound_applyAll ht hall

theorem indexed_insert {t : Table} {now : DateTime} {s : Insert} (ht : t.Indexed)
    (apart : ∀ p ∈ t.insertSteps now s, ¬Collision p.1 p.2) :
    (∀ p ∈ t.insertSteps now s, p.1.Indexed ∧ p.2.Indexed) ∧
      ∀ t' affected, t.insert now s = .ok (t', affected) → t'.Indexed := by
  refine insert_steps ht ?_
  intro p hp hindexed
  obtain ⟨stamp, values, applied, happly⟩ := mem_insertSteps hp
  exact indexed_apply hindexed happly (apart p hp)

end ReadingBench.Store.Table
