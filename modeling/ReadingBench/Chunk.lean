namespace ReadingBench

/-- Groups of `size` in order, the last one possibly shorter. Size 0 counts as 1. -/
def chunks {α : Type} (size : Nat) (xs : List α) : List (List α) :=
  if xs.isEmpty then [] else xs.take (max size 1) :: chunks size (xs.drop (max size 1))
termination_by xs.length
decreasing_by
  have : 0 < xs.length := List.length_pos_iff.2 (by simp_all)
  simp only [List.length_drop]
  omega

theorem flatten_chunks {α : Type} (size : Nat) (xs : List α) : (chunks size xs).flatten = xs := by
  fun_induction chunks size xs with
  | case1 xs empty => simp_all
  | case2 xs _ ih => simp [ih]

end ReadingBench
