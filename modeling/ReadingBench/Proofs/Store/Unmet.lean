import ReadingBench.Proofs.Seeding.Firsts

namespace ReadingBench.Store

open Sql Outcome

namespace TableSpec

/-- No unique key of the one row is a key of the other. -/
def KeysDiffer (spec : TableSpec) (row other : Tuple) : Prop :=
  ∀ key ∈ spec.uniqueKeys, ∀ k, spec.keyOf row key = .ok (some k) → spec.keyOf other key ≠ .ok (some k)

end TableSpec

namespace Table

variable {t : Table} {columns : List String} {onConflict : OnConflict} {row : Tuple} {rows : List Tuple}

/-- The search for a taken key reads the keys of the tuple, and nothing else. -/
theorem exists_conflict {keys : List (Option String)} (h : t.spec.keysOf row = .ok keys) :
    ∃ found, t.conflict row = .ok found := by
  have hread : ∀ key ∈ t.spec.uniqueKeys, ∃ k, t.spec.keyOf row key = .ok k := by
    intro key hkey
    obtain ⟨n, hn⟩ := List.getElem?_of_mem hkey
    obtain ⟨k, -, hk⟩ := TableSpec.getElem?_keysOf h hn
    exact ⟨k, hk⟩
  have hholder : ∀ keyed : List (List String × Index), (∀ p ∈ keyed, p.1 ∈ t.spec.uniqueKeys) →
      ∃ found, holder t.spec row keyed = .ok found := by
    intro keyed hkeyed
    induction keyed with
    | nil => exact ⟨none, rfl⟩
    | cons p keyed ih =>
      obtain ⟨key, index⟩ := p
      obtain ⟨k, hk⟩ := hread key (hkeyed _ List.mem_cons_self)
      rw [holder, hk, ok_bind]
      cases k.bind (index[·]?) with
      | some pos => exact ⟨some pos, rfl⟩
      | none => exact ih fun p hp => hkeyed p (List.mem_cons_of_mem _ hp)
  exact hholder _ fun p hp => (List.of_mem_zip hp).1

/-- A tuple whose keys no row has is appended. -/
theorem Indexed.apply_unmet (ht : t.Indexed) (onConflict : OnConflict)
    (full : t.spec.fullRow columns row = .ok row) (readable : ∃ keys, t.spec.keysOf row = .ok keys)
    (differs : ∀ stored ∈ t.rows.toList, t.spec.KeysDiffer stored row) :
    ∃ u, t.apply columns onConflict none row = .ok (u, .inserted) ∧ u.Indexed ∧ u.spec = t.spec ∧
      u.rows.toList = t.rows.toList ++ [row] := by
  obtain ⟨keys, hkeys⟩ := readable
  obtain ⟨found, hfound⟩ := exists_conflict hkeys
  obtain rfl : found = none := by
    cases found with
    | none => rfl
    | some pos =>
      obtain ⟨key, hkey, k, hk, hpos⟩ := ht.taken hfound
      obtain ⟨stored, hstored, hsame⟩ := keyAt_eq_some.1 hpos
      rw [← Array.getElem?_toList] at hstored
      exact absurd hk (differs stored (List.mem_of_getElem? hstored) key hkey k hsame)
  obtain ⟨u, hu⟩ : ∃ u, t.append row = .ok u := ⟨_, append_eq_ok.2 ⟨keys, hkeys, rfl⟩⟩
  have happly : t.apply columns onConflict none row = .ok (u, .inserted) := by
    have hstamped : stamped none row = row := rfl
    simp only [apply, full, ok_bind, hstamped, hfound, hu]
    rfl
  have hindexed := indexed_append ht (TableSpec.length_fullRow full)
    (fun key hkey k p hk => ht.free hfound hkey hk p) hu
  refine ⟨u, happly, hindexed, ?_, ?_⟩
  all_goals
    obtain ⟨_, -, rfl⟩ := append_eq_ok.1 hu
    simp

/-- Rows that share no key with each other or with those stored are appended, all of them. -/
theorem Indexed.applyAll_unmet (ht : t.Indexed) (columns : List String) (onConflict : OnConflict)
    (rows : List Tuple) (full : ∀ row ∈ rows, t.spec.fullRow columns row = .ok row)
    (readable : ∀ row ∈ rows, ∃ keys, t.spec.keysOf row = .ok keys)
    (differ : (t.rows.toList ++ rows).Pairwise t.spec.KeysDiffer) :
    ∃ u, t.applyAll columns onConflict none rows = .ok (u, rows.length) ∧ u.Indexed ∧
      u.spec = t.spec ∧ u.rows.toList = t.rows.toList ++ rows := by
  induction rows generalizing t with
  | nil => exact ⟨t, rfl, ht, rfl, (List.append_nil _).symm⟩
  | cons row rows ih =>
    have hfirst : ∀ stored ∈ t.rows.toList, t.spec.KeysDiffer stored row := fun stored hstored =>
      (List.pairwise_append.1 differ).2.2 stored hstored row List.mem_cons_self
    obtain ⟨v, happly, hv, hspec, hrows⟩ := ht.apply_unmet onConflict
      (full row List.mem_cons_self) (readable row List.mem_cons_self) hfirst
    have hdiffer : (v.rows.toList ++ rows).Pairwise v.spec.KeysDiffer := by
      rw [hspec, hrows, List.append_assoc]
      exact differ
    obtain ⟨u, hall, hu, hspec', hrows'⟩ := ih hv
      (fun row hrow => by rw [hspec, full row (List.mem_cons_of_mem _ hrow)])
      (fun row hrow => by rw [hspec]; exact readable row (List.mem_cons_of_mem _ hrow)) hdiffer
    refine ⟨u, ?_, hu, hspec'.trans hspec, ?_⟩
    · simp only [applyAll_cons, happly, ok_bind, hall, List.length_cons, Nat.add_comm rows.length]
      rfl
    · rw [hrows', hrows, List.append_assoc]
      rfl

/-- Where tuples are dropped that meet a taken key, any tuples can be inserted. -/
theorem exists_applyAll_ignore (t : Table) (columns : List String) (rows : List Tuple)
    (full : ∀ row ∈ rows, t.spec.fullRow columns row = .ok row)
    (readable : ∀ row ∈ rows, ∃ keys, t.spec.keysOf row = .ok keys) :
    ∃ r, t.applyAll columns .ignore none rows = .ok r := by
  induction rows generalizing t with
  | nil => exact ⟨_, rfl⟩
  | cons row rows ih =>
    obtain ⟨keys, hkeys⟩ := readable row List.mem_cons_self
    obtain ⟨found, hfound⟩ := exists_conflict hkeys
    have hstamped : stamped none row = row := rfl
    obtain ⟨u, applied, happly, hspec⟩ : ∃ u applied,
        t.apply columns .ignore none row = .ok (u, applied) ∧ u.spec = t.spec := by
      simp only [apply, full row List.mem_cons_self, ok_bind, hstamped, hfound]
      cases found with
      | some pos => exact ⟨t, .skipped, rfl, rfl⟩
      | none =>
        have happend := append_eq_ok.2 ⟨keys, hkeys, rfl⟩
        rw [happend]
        exact ⟨_, .inserted, rfl, rfl⟩
    obtain ⟨r, hrest⟩ := ih u (fun row hrow => by rw [hspec, full row (List.mem_cons_of_mem _ hrow)])
      fun row hrow => by rw [hspec]; exact readable row (List.mem_cons_of_mem _ hrow)
    simp only [applyAll_cons, happly, ok_bind, hrest]
    exact ⟨_, rfl⟩

end Table

end ReadingBench.Store
