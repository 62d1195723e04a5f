import ReadingBench.Proofs.Store.Sound

namespace ReadingBench.Store.Table

open Sql Outcome

theorem getD_set_ne {row : Tuple} {i j : Nat} {value : Value} (h : j ≠ i) :
    (row.set j value).getD i .null = row.getD i .null := by
  rw [List.getD_eq_getElem?_getD, List.getElem?_set_ne h, ← List.getD_eq_getElem?_getD]

theorem getD_overwrite_of_notMem {source row : Tuple} {targets : List Nat} {i : Nat}
    (h : i ∉ targets) : (overwrite source targets row).getD i .null = row.getD i .null := by
  unfold overwrite
  induction targets generalizing row with
  | nil => rfl
  | cons j targets ih =>
    obtain ⟨hij, hi⟩ := not_or.1 (List.mem_cons.not.1 h)
    rw [List.foldl_cons, ih hi]
    split
    · exact getD_set_ne (Ne.symm hij)
    · rfl

theorem getD_overwrite_of_mem {source row : Tuple} {targets : List Nat} {i : Nat} (h : i ∈ targets)
    (hi : i < row.length) (hsame : ∀ v, v == source.getD i .null → v = source.getD i .null) :
    (overwrite source targets row).getD i .null = source.getD i .null := by
  induction targets generalizing row with
  | nil => exact absurd h List.not_mem_nil
  | cons j targets ih =>
    have hstep : overwrite source (j :: targets) row = overwrite source targets
        (if row.getD j .null != source.getD j .null then row.set j (source.getD j .null) else row) :=
      rfl
    rw [hstep]
    by_cases hlater : i ∈ targets
    · exact ih hlater (by split <;> simpa using hi)
    · obtain rfl : i = j := (List.mem_cons.1 h).resolve_right hlater
      rw [getD_overwrite_of_notMem hlater]
      split
      · simp [hi]
      · rename_i hequal
        exact hsame _ (by simpa [bne] using hequal)

/-- Each column of the row stays or is taken over. -/
theorem getD_overwrite_eq_or (source : Tuple) (targets : List Nat) (row : Tuple) (i : Nat) :
    (overwrite source targets row).getD i .null = row.getD i .null ∨
      i ∈ targets ∧ (overwrite source targets row).getD i .null = source.getD i .null := by
  unfold overwrite
  induction targets generalizing row with
  | nil => exact .inl rfl
  | cons j targets ih =>
    rw [List.foldl_cons]
    split
    · rcases ih (row.set j (source.getD j .null)) with hkept | ⟨hi, htaken⟩
      · by_cases hij : j = i
        · subst hij
          by_cases hj : j < row.length
          · exact .inr ⟨List.mem_cons_self, hkept.trans (by simp [hj])⟩
          · exact .inl (hkept.trans (by rw [List.set_eq_of_length_le (not_lt.1 hj)]))
        · exact .inl (hkept.trans (getD_set_ne hij))
      · exact .inr ⟨List.mem_cons_of_mem _ hi, htaken⟩
    · rcases ih row with hkept | ⟨hi, htaken⟩
      · exact .inl hkept
      · exact .inr ⟨List.mem_cons_of_mem _ hi, htaken⟩

/-- A column that differed has its new value. -/
theorem getD_overwrite_of_bne {source row : Tuple} {targets : List Nat} {i : Nat} (h : i ∈ targets)
    (hi : i < row.length) (hne : row.getD i .null != source.getD i .null) :
    (overwrite source targets row).getD i .null = source.getD i .null := by
  induction targets generalizing row with
  | nil => cases h
  | cons j targets ih =>
    have hstep : overwrite source (j :: targets) row = overwrite source targets
        (if row.getD j .null != source.getD j .null then row.set j (source.getD j .null) else row) := rfl
    rw [hstep]
    by_cases hij : j = i
    · subst hij
      have hset : (row.set j (source.getD j .null)).getD j .null = source.getD j .null := by simp [hi]
      rw [if_pos hne]
      rcases getD_overwrite_eq_or source targets (row.set j (source.getD j .null)) j with
        hkept | ⟨-, htaken⟩
      · exact hkept.trans hset
      · exact htaken
    · have hrest := (List.mem_cons.1 h).resolve_left (Ne.symm hij)
      split
      · exact ih hrest (by rw [List.length_set]; exact hi) (by rwa [getD_set_ne hij])
      · exact ih hrest hi hne

theorem overwrite_self (row : Tuple) (targets : List Nat) : overwrite row targets row = row := by
  unfold overwrite
  induction targets with
  | nil => rfl
  | cons j targets ih =>
    have hset : row.set j (row.getD j .null) = row := by
      by_cases hj : j < row.length
      · simp [hj]
      · exact List.set_eq_of_length_le (not_lt.1 hj)
    rw [List.foldl_cons, hset, ite_self]
    exact ih

/-- Where no target differs there is nothing to write. -/
theorem overwrite_eq_self {source row : Tuple} {targets : List Nat}
    (h : ¬(targets.any fun i => row.getD i .null != source.getD i .null)) :
    overwrite source targets row = row := by
  unfold overwrite
  induction targets with
  | nil => rfl
  | cons j targets ih =>
    simp only [List.any_cons, Bool.or_eq_true, not_or] at h
    rw [List.foldl_cons, if_neg h.1]
    exact ih h.2

/-- An update that leaves its row's keys alone is a write of the row, also where nothing changes. -/
theorem update_eq_set {t t' : Table} (ht : t.Sound) {pos : Nat} (hpos : pos < t.rows.size)
    {source row : Tuple} {columns : List String} {stamp : Option Stamp} {applied : Applied}
    {targets : List Nat} (htargets : columns.mapM t.spec.position = .ok targets)
    (hrow : row = overwrite source (targets ++ (stamp.map (·.column)).toList) (t.rows.getD pos []))
    (hkeys : t.spec.keysOf row = t.spec.keysOf (t.rows.getD pos []))
    (h : t.update pos source columns stamp = .ok (t', applied)) :
    t' = { t with rows := t.rows.setIfInBounds pos row } := by
  have hold : t.rows.setIfInBounds pos (t.rows.getD pos []) = t.rows := by
    simp [Array.getD, Array.setIfInBounds, hpos]
  simp only [update, htargets, ok_bind, bind_eq_ok, ← hrow] at h
  generalize t.rows.getD pos [] = old at *
  obtain ⟨before, hbefore, h⟩ := h
  rw [hkeys, hbefore] at h
  have hindexes : List.zipWith (fun keys index => Index.move pos keys.1 keys.2 index)
      (before.zip before) t.indexes = t.indexes := by
    have hlen : before.length = t.indexes.length := by
      rw [TableSpec.length_keysOf hbefore, ht.indexes_length]
    apply List.ext_getElem
    · simp [hlen]
    · intro n _ _
      simp [Index.move]
  split at h
  · simp only [ok_bind, pure_eq_ok, Prod.mk.injEq] at h
    rw [← h.1]
    exact congrArg (fun indexes => (⟨t.spec, t.rows.setIfInBounds pos row, indexes⟩ : Table)) hindexes
  · rename_i hequal
    obtain ⟨rfl, -⟩ := Prod.mk.inj (pure_eq_ok.1 h)
    rw [hrow, overwrite_eq_self hequal, hold]

end ReadingBench.Store.Table
