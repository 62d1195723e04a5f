import Mathlib

namespace ReadingBench.Outcome

variable {ε α β γ : Type}

theorem bind_eq_ok {x : Except ε α} {f : α → Except ε β} {b : β} :
    x >>= f = .ok b ↔ ∃ a, x = .ok a ∧ f a = .ok b := by
  cases x <;> simp [bind, Except.bind]

theorem pure_eq_ok {a b : α} : (pure a : Except ε α) = .ok b ↔ a = b := by
  simp [pure, Except.pure]

theorem ok_bind (a : α) (f : α → Except ε β) : (.ok a : Except ε α) >>= f = f a := rfl

theorem error_bind (e : ε) (f : α → Except ε β) : (.error e : Except ε α) >>= f = .error e := rfl

/-- What succeeds, without the error where it fails. -/
theorem toOption_bind (x : Except ε α) (f : α → Except ε β) :
    (x >>= f).toOption = x.toOption.bind fun a => (f a).toOption := by
  cases x <;> rfl

theorem toOption_eq_some {x : Except ε α} {a : α} : x.toOption = some a ↔ x = .ok a := by
  cases x <;> simp [Except.toOption]

theorem exists_eq_ok {x : Except ε α} (h : x.toOption.isSome) : ∃ a, x = .ok a := by
  cases x with
  | error e => cases h
  | ok a => exact ⟨a, rfl⟩

theorem mapM_eq_ok {f : α → Except ε β} {xs : List α} {ys : List β} :
    xs.mapM f = .ok ys ↔ List.Forall₂ (fun x y => f x = .ok y) xs ys := by
  induction xs generalizing ys with
  | nil => rw [List.mapM_nil, pure_eq_ok, List.forall₂_nil_left_iff, eq_comm]
  | cons x xs ih =>
    simp only [List.mapM_cons, bind_eq_ok, pure_eq_ok, ih, List.forall₂_cons_left_iff]
    constructor
    · rintro ⟨y, hy, zs, hzs, rfl⟩
      exact ⟨y, zs, hy, hzs, rfl⟩
    · rintro ⟨y, zs, hy, hzs, rfl⟩
      exact ⟨y, hy, zs, hzs, rfl⟩

theorem mapM_eq_some {f : α → Option β} {xs : List α} {ys : List β} :
    xs.mapM f = some ys ↔ List.Forall₂ (fun x y => f x = some y) xs ys := by
  induction xs generalizing ys with
  | nil => rw [List.mapM_nil, Option.pure_def, Option.some_inj, List.forall₂_nil_left_iff, eq_comm]
  | cons x xs ih =>
    simp only [List.mapM_cons, Option.bind_eq_bind, Option.bind_eq_some_iff, Option.pure_def,
      Option.some.injEq, ih, List.forall₂_cons_left_iff]
    constructor
    · rintro ⟨y, hy, zs, hzs, rfl⟩
      exact ⟨y, zs, hy, hzs, rfl⟩
    · rintro ⟨y, zs, hy, hzs, rfl⟩
      exact ⟨y, hy, zs, hzs, rfl⟩

theorem exists_of_mem_mapM {f : α → Except ε β} {xs : List α} {ys : List β} (h : xs.mapM f = .ok ys)
    {y : β} (hy : y ∈ ys) : ∃ x ∈ xs, f x = .ok y := by
  have hall := mapM_eq_ok.1 h
  induction hall with
  | nil => cases hy
  | cons hfirst hrest ih =>
    rcases List.mem_cons.1 hy with rfl | hy
    · exact ⟨_, List.mem_cons_self, hfirst⟩
    · obtain ⟨x, hx, hok⟩ := ih (mapM_eq_ok.2 hrest) hy
      exact ⟨x, List.mem_cons_of_mem _ hx, hok⟩

theorem exists_mapM_eq_ok {f : α → Except ε β} {xs : List α} (h : ∀ x ∈ xs, ∃ y, f x = .ok y) :
    ∃ ys, xs.mapM f = .ok ys := by
  induction xs with
  | nil => exact ⟨[], rfl⟩
  | cons x xs ih =>
    obtain ⟨y, hy⟩ := h x (by simp)
    obtain ⟨ys, hys⟩ := ih fun z hz => h z (by simp [hz])
    exact ⟨y :: ys, by simp only [List.mapM_cons, hy, hys]; rfl⟩

/-- What holds of the start and is kept by every step holds at the end. The property may speak of
the elements already taken. -/
theorem foldlM_invariant {f : β → α → Except ε β} {P : List α → β → Prop} {xs : List α} {a b : β}
    (h : xs.foldlM f a = .ok b) (start : P [] a)
    (step : ∀ done x rest c d, xs = done ++ x :: rest → P done c → f c x = .ok d → P (done ++ [x]) d) :
    P xs b := by
  induction xs generalizing P a with
  | nil =>
    rw [List.foldlM_nil, pure_eq_ok] at h
    exact h ▸ start
  | cons x xs ih =>
    rw [List.foldlM_cons, bind_eq_ok] at h
    obtain ⟨c, hc, h⟩ := h
    refine ih (P := fun done => P (x :: done)) h (step [] x xs a c rfl start hc) ?_
    intro done y rest c d hxs hp hd
    exact step (x :: done) y rest c d (by simp [hxs]) hp hd

/-- A fold whose every step succeeds succeeds. -/
theorem exists_foldlM_eq_ok {f : β → α → Except ε β} {P : β → Prop} {xs : List α} {a : β} (start : P a)
    (step : ∀ x ∈ xs, ∀ c, P c → ∃ d, f c x = .ok d ∧ P d) : ∃ b, xs.foldlM f a = .ok b ∧ P b := by
  induction xs generalizing a with
  | nil => exact ⟨a, rfl, start⟩
  | cons x xs ih =>
    obtain ⟨c, hc, hp⟩ := step x (by simp) a start
    obtain ⟨b, hb, hq⟩ := ih hp fun y hy => step y (by simp [hy])
    exact ⟨b, by rw [List.foldlM_cons, hc, ok_bind, hb], hq⟩

/-- A fold that counts on the way may start its count anywhere. -/
theorem foldlM_tally (f : β → α → Except ε (β × γ)) (count : γ → Nat) (xs : List α) (b : β) (m n : Nat) :
    xs.foldlM (fun (b, total) x => do
      let (b, c) ← f b x
      return (b, total + count c)) (b, m + n) =
    (do
      let (b, total) ← xs.foldlM (fun (b, total) x => do
        let (b, c) ← f b x
        return (b, total + count c)) (b, n)
      return (b, m + total)) := by
  induction xs generalizing b n with
  | nil => rfl
  | cons x xs ih =>
    simp only [List.foldlM_cons]
    cases f b x with
    | error e => rfl
    | ok r =>
      simp only [ok_bind, pure_bind, Nat.add_assoc]
      exact ih r.1 (n + count r.2)

end ReadingBench.Outcome
