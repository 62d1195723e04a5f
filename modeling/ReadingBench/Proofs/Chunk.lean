import ReadingBench.Chunk

namespace ReadingBench

/-- Consecutive groups, none of them empty. -/
structure Cut {α : Type} (xs : List α) (groups : List (List α)) : Prop where
  joined : groups.flatten = xs
  full : ∀ group ∈ groups, group ≠ []

theorem Cut.chunks {α : Type} (size : Nat) (xs : List α) : Cut xs (chunks size xs) where
  joined := flatten_chunks size xs
  full := by
    fun_induction ReadingBench.chunks size xs with
    | case1 xs empty => simp
    | case2 xs some ih =>
      intro group hgroup
      rcases List.mem_cons.1 hgroup with rfl | hgroup
      · simp_all [List.take_eq_nil_iff]
      · exact ih group hgroup

theorem Cut.map {α β : Type} {xs : List α} {groups : List (List α)} (cut : Cut xs groups) (f : α → β) :
    Cut (xs.map f) (groups.map (·.map f)) where
  joined := by rw [← cut.joined, List.map_flatten]
  full := by
    intro mapped hmapped
    obtain ⟨group, hgroup, rfl⟩ := List.mem_map.1 hmapped
    exact mt List.map_eq_nil_iff.1 (cut.full group hgroup)

/-- Every place of the list is in one of the groups. -/
theorem exists_group {α : Type} {groups : List (List α)} {i : Nat} (h : i < groups.flatten.length) :
    ∃ before group after, groups = before ++ group :: after ∧ before.flatten.length ≤ i ∧
      i < before.flatten.length + group.length := by
  induction groups generalizing i with
  | nil => cases h
  | cons group groups ih =>
    rw [List.flatten_cons, List.length_append] at h
    by_cases hfirst : i < group.length
    · exact ⟨[], group, groups, rfl, Nat.zero_le i, by simpa using hfirst⟩
    · obtain ⟨before, own, after, rfl, hle, hlt⟩ := ih (i := i - group.length) (by omega)
      refine ⟨group :: before, own, after, rfl, ?_, ?_⟩
      all_goals
        rw [List.flatten_cons, List.length_append]
        omega

/-- Every group is as long as it may be, but for the last one. -/
theorem length_of_chunks_eq {α : Type} {size : Nat} {xs group : List α} {before after : List (List α)}
    (h : chunks size xs = before ++ group :: after) :
    group.length ≤ max size 1 ∧ (after ≠ [] → group.length = max size 1) := by
  fun_induction chunks size xs generalizing before with
  | case1 xs empty => simp at h
  | case2 xs some ih =>
    cases before with
    | cons first before => exact ih (List.cons.inj h).2
    | nil =>
      obtain ⟨rfl, hafter⟩ := List.cons.inj h
      refine ⟨List.length_take_le _ _, fun hmore => ?_⟩
      -- What is left for the other groups stands behind a full one.
      have hrest : xs.drop (max size 1) ≠ [] := by
        intro hnone
        rw [hnone, chunks] at hafter
        exact hmore hafter.symm
      have hlong := mt List.drop_eq_nil_of_le hrest
      rw [List.length_take]
      omega

end ReadingBench
