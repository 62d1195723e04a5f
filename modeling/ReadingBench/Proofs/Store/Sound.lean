import ReadingBench.Proofs.Store.Key

namespace ReadingBench.Store.Table

open Sql Outcome

structure Sound (t : Table) : Prop where
  width : ∀ row ∈ t.rows, row.length = t.spec.columns.length
  readable : ∀ row ∈ t.rows, ∃ keys, t.spec.keysOf row = .ok keys
  indexes_length : t.indexes.length = t.spec.uniqueKeys.length
  bounded : ∀ index ∈ t.indexes, ∀ (k : String) (pos : Nat), index[k]? = some pos → pos < t.rows.size

theorem sound_empty (spec : TableSpec) : (empty spec).Sound where
  width := by simp [empty]
  readable := by simp [empty]
  indexes_length := by simp [empty]
  bounded := by
    intro index hi k pos h
    obtain ⟨key, -, rfl⟩ := List.mem_map.1 hi
    simp at h

theorem holder_eq_none {spec : TableSpec} {row : Tuple} {keyed : List (List String × Index)}
    (h : holder spec row keyed = .ok none) :
    ∀ p ∈ keyed, ∃ k, spec.keyOf row p.1 = .ok k ∧ k.bind (p.2[·]?) = none := by
  induction keyed with
  | nil => simp
  | cons p keyed ih =>
    obtain ⟨key, index⟩ := p
    rw [holder, bind_eq_ok] at h
    obtain ⟨k, hk, h⟩ := h
    cases hf : k.bind (index[·]?) with
    | some pos => simp [hf, pure_eq_ok] at h
    | none =>
      simp only [hf] at h
      intro q hq
      rcases List.mem_cons.1 hq with rfl | hq
      · exact ⟨k, hk, hf⟩
      · exact ih h q hq

theorem holder_eq_some {spec : TableSpec} {row : Tuple} {keyed : List (List String × Index)} {pos : Nat}
    (h : holder spec row keyed = .ok (some pos)) :
    ∃ p ∈ keyed, ∃ k, spec.keyOf row p.1 = .ok (some k) ∧ p.2[k]? = some pos := by
  induction keyed with
  | nil => simp [holder, pure_eq_ok] at h
  | cons p keyed ih =>
    obtain ⟨key, index⟩ := p
    rw [holder, bind_eq_ok] at h
    obtain ⟨k, hk, h⟩ := h
    cases hf : k.bind (index[·]?) with
    | some found =>
      simp only [hf, pure_eq_ok, Option.some.injEq] at h
      obtain ⟨s, rfl, hs⟩ := Option.bind_eq_some_iff.1 hf
      exact ⟨(key, index), by simp, s, hk, h ▸ hs⟩
    | none =>
      simp only [hf] at h
      obtain ⟨q, hq, s, hs, hpos⟩ := ih h
      exact ⟨q, by simp [hq], s, hs, hpos⟩

theorem conflict_lt {t : Table} (ht : t.Sound) {row : Tuple} {pos : Nat}
    (h : t.conflict row = .ok (some pos)) : pos < t.rows.size := by
  obtain ⟨p, hp, k, -, hpos⟩ := holder_eq_some h
  exact ht.bounded p.2 (List.of_mem_zip hp).2 k pos hpos

theorem append_eq_ok {t t' : Table} {row : Tuple} :
    t.append row = .ok t' ↔ ∃ keys, t.spec.keysOf row = .ok keys ∧
      t' = { t with
        rows := t.rows.push row
        indexes := List.zipWith (Index.enter t.rows.size) keys t.indexes } := by
  simp only [append, bind_eq_ok, pure_eq_ok, eq_comm (b := t')]

theorem sound_append {t t' : Table} {row : Tuple} (ht : t.Sound)
    (hrow : row.length = t.spec.columns.length) (h : t.append row = .ok t') : t'.Sound := by
  obtain ⟨keys, hkeys, rfl⟩ := append_eq_ok.1 h
  refine ⟨?_, ?_, ?_, ?_⟩
  · intro r hr
    rcases Array.mem_push.1 hr with hr | rfl
    · exact ht.width r hr
    · exact hrow
  · intro r hr
    rcases Array.mem_push.1 hr with hr | rfl
    · exact ht.readable r hr
    · exact ⟨keys, hkeys⟩
  · simp [TableSpec.length_keysOf hkeys, ht.indexes_length]
  · intro index hi k pos hpos
    obtain ⟨n, hn, rfl⟩ := List.getElem_of_mem hi
    simp only [List.getElem_zipWith, Index.getElem?_enter] at hpos
    rw [Array.size_push]
    split at hpos
    · simp only [Option.some.injEq] at hpos
      omega
    · have := ht.bounded _ (List.getElem_mem _) k pos hpos
      omega

theorem length_overwrite (source : Tuple) (targets : List Nat) (row : Tuple) :
    (overwrite source targets row).length = row.length := by
  unfold overwrite
  induction targets generalizing row with
  | nil => rfl
  | cons i targets ih =>
    rw [List.foldl_cons, ih]
    split <;> simp

/-- What an update can do: nothing, or it sets the row and moves its index entries. -/
theorem update_eq_ok {t t' : Table} {pos : Nat} {source : Tuple} {columns : List String}
    {stamp : Option Stamp} {applied : Applied}
    (h : t.update pos source columns stamp = .ok (t', applied)) :
    (t' = t ∧ applied = .unchanged) ∨
    ∃ before targets after,
      t.spec.keysOf (t.rows.getD pos []) = .ok before ∧
      columns.mapM t.spec.position = .ok targets ∧
      t.spec.keysOf (overwrite source (targets ++ (stamp.map (·.column)).toList)
        (t.rows.getD pos [])) = .ok after ∧
      t' = { t with
        rows := t.rows.setIfInBounds pos
          (overwrite source (targets ++ (stamp.map (·.column)).toList) (t.rows.getD pos []))
        indexes := List.zipWith (fun (old, new) index => Index.move pos old new index)
          (before.zip after) t.indexes } ∧
      applied = .updated := by
  simp only [update, bind_eq_ok] at h
  obtain ⟨before, hbefore, targets, htargets, h⟩ := h
  split at h
  · simp only [bind_eq_ok, pure_eq_ok, Prod.mk.injEq] at h
    obtain ⟨after, hafter, rfl, rfl⟩ := h
    exact .inr ⟨before, targets, after, hbefore, htargets, hafter, rfl, rfl⟩
  · simp only [pure_eq_ok, Prod.mk.injEq] at h
    exact .inl ⟨h.1.symm, h.2.symm⟩

theorem sound_update {t t' : Table} {pos : Nat} {source : Tuple} {columns : List String}
    {stamp : Option Stamp} {applied : Applied} (ht : t.Sound) (hpos : pos < t.rows.size)
    (h : t.update pos source columns stamp = .ok (t', applied)) : t'.Sound := by
  rcases update_eq_ok h with ⟨rfl, -⟩ | ⟨before, targets, after, hbefore, -, hafter, rfl, -⟩
  · exact ht
  · have hold : t.rows.getD pos [] = t.rows[pos] := by simp [Array.getD, hpos]
    refine ⟨?_, ?_, ?_, ?_⟩
    · intro r hr
      rcases Array.mem_or_eq_of_mem_setIfInBounds hr with hr | rfl
      · exact ht.width r hr
      · rw [length_overwrite, hold]
        exact ht.width _ (Array.getElem_mem hpos)
    · intro r hr
      rcases Array.mem_or_eq_of_mem_setIfInBounds hr with hr | rfl
      · exact ht.readable r hr
      · exact ⟨after, hafter⟩
    · simp [TableSpec.length_keysOf hbefore, TableSpec.length_keysOf hafter, ht.indexes_length]
    · intro index hi k p hp
      obtain ⟨n, hn, rfl⟩ := List.getElem_of_mem hi
      simp only [List.getElem_zipWith, List.getElem_zip, Index.getElem?_move] at hp
      rw [Array.size_setIfInBounds]
      have hlt : n < t.indexes.length := by simp at hn; omega
      have hbound : ∀ q, t.indexes[n][k]? = some q → q < t.rows.size :=
        fun q hq => ht.bounded _ (List.getElem_mem hlt) k q hq
      split at hp
      · exact hbound p hp
      split at hp
      · simp only [Option.some.injEq] at hp
        omega
      split at hp
      · simp at hp
      · exact hbound p hp

theorem length_stamped (stamp : Option Stamp) (row : Tuple) :
    (stamped stamp row).length = row.length := by
  unfold stamped
  split
  · split <;> simp
  · rfl

/-- What one tuple can do: its keys are free and it is appended, or a row is found and the tuple is
dropped or updates it. -/
theorem apply_eq_ok {t t' : Table} {columns : List String} {onConflict : OnConflict}
    {stamp : Option Stamp} {values : List Value} {applied : Applied}
    (h : t.apply columns onConflict stamp values = .ok (t', applied)) :
    ∃ row, t.spec.fullRow columns values = .ok row ∧
      ((t.conflict (stamped stamp row) = .ok none ∧ t.append (stamped stamp row) = .ok t' ∧
          applied = .inserted) ∨
        ∃ pos, t.conflict (stamped stamp row) = .ok (some pos) ∧
          ((onConflict = .ignore ∧ t' = t ∧ applied = .skipped) ∨
            ∃ targets, onConflict = .update targets ∧
              t.update pos (stamped stamp row) targets stamp = .ok (t', applied))) := by
  simp only [apply, bind_eq_ok] at h
  obtain ⟨row, hrow, found, hfound, h⟩ := h
  refine ⟨row, hrow, ?_⟩
  cases found with
  | none =>
    simp only [bind_eq_ok, pure_eq_ok, Prod.mk.injEq] at h
    obtain ⟨u, hu, rfl, rfl⟩ := h
    exact .inl ⟨hfound, hu, rfl⟩
  | some pos =>
    refine .inr ⟨pos, hfound, ?_⟩
    cases onConflict with
    | fail => simp [throw, throwThe, MonadExceptOf.throw] at h
    | ignore =>
      simp only [pure_eq_ok, Prod.mk.injEq] at h
      exact .inl ⟨rfl, h.1.symm, h.2.symm⟩
    | update targets => exact .inr ⟨targets, rfl, h⟩

theorem sound_apply {t t' : Table} {columns : List String} {onConflict : OnConflict}
    {stamp : Option Stamp} {values : List Value} {applied : Applied} (ht : t.Sound)
    (h : t.apply columns onConflict stamp values = .ok (t', applied)) : t'.Sound := by
  obtain ⟨row, hrow, h⟩ := apply_eq_ok h
  rcases h with ⟨-, hu, -⟩ | ⟨pos, hpos, ⟨-, rfl, -⟩ | ⟨targets, -, hu⟩⟩
  · exact sound_append ht (by rw [length_stamped, TableSpec.length_fullRow hrow]) hu
  · exact ht
  · exact sound_update ht (conflict_lt ht hpos) hu

/-- Entering rows into indexes is what appending them to a table does to its indexes. -/
theorem foldlM_append_eq (rows : List Tuple) (t : Table) :
    rows.foldlM append t = (do
      let indexes ← indexFrom t.spec t.rows.size rows t.indexes
      return { t with rows := t.rows ++ rows.toArray, indexes }) := by
  induction rows generalizing t with
  | nil => simp [indexFrom]
  | cons row rows ih =>
    rw [List.foldlM_cons, indexFrom, append]
    cases hkeys : t.spec.keysOf row with
    | error e => rfl
    | ok keys =>
      simp only [ok_bind, pure_bind]
      rw [ih { t with
        rows := t.rows.push row
        indexes := List.zipWith (Index.enter t.rows.size) keys t.indexes }]
      simp

/-- Making the indexes anew is appending all rows to the empty table. -/
theorem reindex_eq (t : Table) : t.reindex = t.rows.toList.foldlM append (empty t.spec) := by
  rw [foldlM_append_eq t.rows.toList (empty t.spec)]
  simp [reindex, empty]

theorem foldlM_append_rows {rows : List Tuple} {t t' : Table} (h : rows.foldlM append t = .ok t') :
    t'.spec = t.spec ∧ t'.rows = t.rows ++ rows.toArray := by
  rw [foldlM_append_eq, bind_eq_ok] at h
  obtain ⟨indexes, -, h⟩ := h
  rw [← pure_eq_ok.1 h]
  exact ⟨rfl, rfl⟩

/-- The indexes of a sound table can always be made anew. -/
theorem exists_reindex {t : Table} (width : ∀ row ∈ t.rows, row.length = t.spec.columns.length)
    (readable : ∀ row ∈ t.rows, ∃ keys, t.spec.keysOf row = .ok keys) :
    ∃ t', t.reindex = .ok t' ∧ t'.spec = t.spec ∧ t'.rows = t.rows ∧ t'.Sound := by
  have hstep : ∀ row ∈ t.rows.toList, ∀ u : Table, (u.spec = t.spec ∧ u.Sound) →
      ∃ u', u.append row = .ok u' ∧ u'.spec = t.spec ∧ u'.Sound := by
    rintro row hrow u ⟨hspec, hu⟩
    obtain ⟨keys, hkeys⟩ := readable row (Array.mem_toList_iff.1 hrow)
    have happend := append_eq_ok.2 ⟨keys, hspec ▸ hkeys, rfl⟩
    refine ⟨_, happend, hspec, sound_append hu ?_ happend⟩
    rw [hspec, width row (Array.mem_toList_iff.1 hrow)]
  obtain ⟨t', h, hspec, ht'⟩ := exists_foldlM_eq_ok (P := fun u : Table => u.spec = t.spec ∧ u.Sound)
    (a := empty t.spec) ⟨rfl, sound_empty t.spec⟩ hstep
  refine ⟨t', by rw [reindex_eq, h], hspec, ?_, ht'⟩
  rw [(foldlM_append_rows h).2]
  simp [empty]

theorem mem_dropFirst {t : Table} {count : Nat} {row : Tuple} (h : row ∈ (t.dropFirst count).rows) :
    row ∈ t.rows := by
  simp only [dropFirst, Array.mem_extract_iff_getElem] at h
  obtain ⟨i, hi, rfl⟩ := h
  exact Array.getElem_mem _

theorem exists_reindex_dropFirst {t : Table} (ht : t.Sound) (count : Nat) :
    ∃ t', (t.dropFirst count).reindex = .ok t' ∧ t'.spec = t.spec ∧
      t'.rows = t.rows.extract count t.rows.size ∧ t'.Sound :=
  exists_reindex (t := t.dropFirst count) (fun row hrow => ht.width row (mem_dropFirst hrow))
    fun row hrow => ht.readable row (mem_dropFirst hrow)

end ReadingBench.Store.Table
