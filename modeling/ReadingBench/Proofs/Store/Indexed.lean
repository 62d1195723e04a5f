import ReadingBench.Proofs.Store.Sound

namespace ReadingBench.Store.Table

open Sql Outcome

/-- Each index maps the keys without NULL of all stored rows to the rows' positions, and nothing else. -/
structure Indexed (t : Table) : Prop extends t.Sound where
  agrees : ∀ (n : Nat) (key : List String) (index : Index),
    t.spec.uniqueKeys[n]? = some key → t.indexes[n]? = some index →
      ∀ (k : String) (pos : Nat), index[k]? = some pos ↔ t.keyAt key pos = some k

theorem indexed_empty (spec : TableSpec) : (empty spec).Indexed where
  toSound := sound_empty spec
  agrees := by
    intro n key index _ hn k pos
    simp only [empty, List.getElem?_map, Option.map_eq_some_iff] at hn
    obtain ⟨_, -, rfl⟩ := hn
    simp [keyAt, empty]

/-- Without rows no index has an entry. -/
theorem Sound.indexed {t : Table} (ht : t.Sound) (vacant : t.rows = #[]) : t.Indexed where
  toSound := ht
  agrees := by
    intro n key index hn hindex k pos
    constructor
    · intro hpos
      have hlt := ht.bounded index (List.mem_of_getElem? hindex) k pos hpos
      simp [vacant] at hlt
    · intro hpos
      obtain ⟨row, hrow, -⟩ := keyAt_eq_some.1 hpos
      simp [vacant] at hrow

/-- A unique key's index, with its place among the others. -/
theorem Indexed.exists_index {t : Table} (ht : t.Indexed) {key : List String}
    (hkey : key ∈ t.spec.uniqueKeys) : ∃ (n : Nat) (index : Index),
      t.spec.uniqueKeys[n]? = some key ∧ t.indexes[n]? = some index ∧
        (key, index) ∈ t.spec.uniqueKeys.zip t.indexes := by
  obtain ⟨n, hn, rfl⟩ := List.getElem_of_mem hkey
  have hi : n < t.indexes.length := by rw [ht.indexes_length]; exact hn
  refine ⟨n, t.indexes[n], List.getElem?_eq_getElem hn, List.getElem?_eq_getElem hi, ?_⟩
  have hzip : n < (t.spec.uniqueKeys.zip t.indexes).length := by simp [hn, hi]
  rw [← List.getElem_zip (h := hzip)]
  exact List.getElem_mem hzip

theorem Indexed.distinct {t : Table} (ht : t.Indexed) : t.Distinct := by
  apply distinct_of_eq
  intro key hkey i j k hi hj
  obtain ⟨n, index, hn, hindex, -⟩ := ht.exists_index hkey
  have hi' := (ht.agrees n key index hn hindex k i).2 hi
  have hj' := (ht.agrees n key index hn hindex k j).2 hj
  simpa [hi'] using hj'

/-- Where an insert finds no row, no row has any of the tuple's keys. -/
theorem Indexed.free {t : Table} (ht : t.Indexed) {row : Tuple} (h : t.conflict row = .ok none)
    {key : List String} (hkey : key ∈ t.spec.uniqueKeys) {k : String}
    (hk : t.spec.keyOf row key = .ok (some k)) (pos : Nat) : t.keyAt key pos ≠ some k := by
  intro hpos
  obtain ⟨n, index, hn, hindex, hmem⟩ := ht.exists_index hkey
  obtain ⟨k', hk', hnone⟩ := holder_eq_none h _ hmem
  rw [hk] at hk'
  obtain rfl := Except.ok.inj hk'
  rw [Option.bind_some, (ht.agrees n key index hn hindex k pos).2 hpos] at hnone
  simp at hnone

theorem keyAt_append {t t' : Table} {row : Tuple} (h : t.append row = .ok t') (key : List String)
    (pos : Nat) : t'.keyAt key pos =
      if pos = t.rows.size then (t.spec.keyOf row key).toOption.join else t.keyAt key pos := by
  obtain ⟨keys, -, rfl⟩ := append_eq_ok.1 h
  simp only [keyAt, Array.getElem?_push]
  by_cases hpos : pos = t.rows.size
  · simp [hpos]
  · simp [hpos]

theorem indexed_append {t t' : Table} {row : Tuple} (ht : t.Indexed)
    (hrow : row.length = t.spec.columns.length)
    (free : ∀ key ∈ t.spec.uniqueKeys, ∀ k pos, t.spec.keyOf row key = .ok (some k) →
      t.keyAt key pos ≠ some k)
    (h : t.append row = .ok t') : t'.Indexed where
  toSound := sound_append ht.toSound hrow h
  agrees := by
    intro n key index hn hindex k pos
    rw [keyAt_append h]
    obtain ⟨keys, hkeys, rfl⟩ := append_eq_ok.1 h
    obtain ⟨k', hk', hkey⟩ := TableSpec.getElem?_keysOf hkeys hn
    obtain ⟨a, old, ha, hold, rfl⟩ := List.getElem?_zipWith_eq_some.1 hindex
    rw [hk', Option.some.injEq] at ha
    subst ha
    have hkeyAt : (t.spec.keyOf row key).toOption.join = k' := by rw [hkey]; rfl
    have vacant : t.keyAt key t.rows.size = none := by simp [keyAt]
    rw [hkeyAt, Index.getElem?_enter_iff (ht.agrees n key old hn hold) vacant]
    intro s p hs
    exact free key (List.mem_of_getElem? hn) s p (hs ▸ hkey)

theorem keyAt_set {t t' : Table} {pos : Nat} {row : Tuple} (hpos : pos < t.rows.size)
    (hspec : t'.spec = t.spec) (hrows : t'.rows = t.rows.setIfInBounds pos row) (key : List String)
    (p : Nat) : t'.keyAt key p =
      if p = pos then (t.spec.keyOf row key).toOption.join else t.keyAt key p := by
  simp only [keyAt, hspec, hrows, Array.getElem?_setIfInBounds]
  by_cases hp : p = pos
  · subst hp
    simp [hpos]
  · simp [hp, Ne.symm hp]

theorem indexed_update {t t' : Table} {pos : Nat} {source : Tuple} {columns : List String}
    {stamp : Option Stamp} {applied : Applied} (ht : t.Indexed) (hpos : pos < t.rows.size)
    (h : t.update pos source columns stamp = .ok (t', applied)) (apart : ¬Collision t t') :
    t'.Indexed := by
  have hsound := sound_update ht.toSound hpos h
  rcases update_eq_ok h with ⟨rfl, -⟩ | ⟨before, targets, after, hbefore, -, hafter, ht', -⟩
  · exact ht
  refine ⟨hsound, ?_⟩
  intro n key index hn hindex k p
  set row := overwrite source (targets ++ (stamp.map (·.column)).toList) (t.rows.getD pos [])
  have hspec : t'.spec = t.spec := by rw [ht']
  have hrows : t'.rows = t.rows.setIfInBounds pos row := by rw [ht']
  rw [hspec] at hn
  have hold : t.keyAt key pos = (t.spec.keyOf (t.rows.getD pos []) key).toOption.join := by
    simp [keyAt, Array.getD, hpos]
  obtain ⟨old, hold', hkold⟩ := TableSpec.getElem?_keysOf hbefore hn
  obtain ⟨new, hnew', hknew⟩ := TableSpec.getElem?_keysOf hafter hn
  rw [hkold] at hold
  replace hold : t.keyAt key pos = old := hold
  have hkeyAt := keyAt_set hpos hspec hrows key
  simp only [hknew, Except.toOption, Option.join_some] at hkeyAt
  have hnewAt : t'.keyAt key pos = new := by simp [hkeyAt]
  rw [ht'] at hindex
  obtain ⟨a, own, ha, hown, rfl⟩ := List.getElem?_zipWith_eq_some.1 hindex
  obtain ⟨b, c⟩ := a
  rw [List.getElem?_zip_eq_some, hold', hnew'] at ha
  obtain ⟨hb, hc⟩ := ha
  simp only [Option.some.injEq] at hb hc
  subst hb hc
  rw [hkeyAt, ← hold, Index.getElem?_move_iff (ht.agrees n key own hn hown)]
  intro hchanged s q hs hq hother
  refine apart ⟨key, List.mem_of_getElem? hn, pos, hpos, q, lt_of_keyAt hother, hq, ?_, ?_, ?_⟩
  · simp [hnewAt, hs]
  · rwa [hnewAt]
  · rw [hother, hnewAt, hs]

/-- A tuple changes at most one stored row. -/
theorem apply_frame {t t' : Table} {columns : List String} {onConflict : OnConflict}
    {stamp : Option Stamp} {values : List Value} {applied : Applied}
    (h : t.apply columns onConflict stamp values = .ok (t', applied)) :
    t'.spec = t.spec ∧ t.rows.size ≤ t'.rows.size ∧
      ∃ pos, ∀ p < t.rows.size, p ≠ pos → t'.rows[p]? = t.rows[p]? := by
  obtain ⟨row, -, h⟩ := apply_eq_ok h
  rcases h with ⟨-, hu, -⟩ | ⟨pos, -, ⟨-, rfl, -⟩ | ⟨targets, -, hu⟩⟩
  · obtain ⟨keys, -, rfl⟩ := append_eq_ok.1 hu
    refine ⟨rfl, by simp, 0, fun p hp _ => ?_⟩
    simp only [Array.getElem?_push]
    rw [if_neg (by omega)]
  · exact ⟨rfl, le_refl _, 0, fun _ _ _ => rfl⟩
  · rcases update_eq_ok hu with ⟨rfl, -⟩ | ⟨before, indices, after, -, -, -, rfl, -⟩
    · exact ⟨rfl, le_refl _, 0, fun _ _ _ => rfl⟩
    · refine ⟨rfl, by simp, pos, fun p _ hne => ?_⟩
      simp [Ne.symm hne]

theorem indexed_apply {t t' : Table} {columns : List String} {onConflict : OnConflict}
    {stamp : Option Stamp} {values : List Value} {applied : Applied} (ht : t.Indexed)
    (h : t.apply columns onConflict stamp values = .ok (t', applied)) (apart : ¬Collision t t') :
    t'.Indexed := by
  obtain ⟨row, hrow, h⟩ := apply_eq_ok h
  rcases h with ⟨hfree, hu, -⟩ | ⟨pos, hpos, ⟨-, rfl, -⟩ | ⟨targets, -, hu⟩⟩
  · refine indexed_append ht (by rw [length_stamped, TableSpec.length_fullRow hrow]) ?_ hu
    intro key hkey k p hk
    exact ht.free hfree hkey hk p
  · exact ht
  · exact indexed_update ht (conflict_lt ht.toSound hpos) hu apart

/-- After a collision two rows share a key. -/
theorem not_distinct_of_collision {t t' : Table} {columns : List String} {onConflict : OnConflict}
    {stamp : Option Stamp} {values : List Value} {applied : Applied}
    (h : t.apply columns onConflict stamp values = .ok (t', applied)) (hc : Collision t t') :
    ¬t'.Distinct := by
  intro hd
  obtain ⟨hspec, hsize, changed, frame⟩ := apply_frame h
  obtain ⟨key, hkey, pos, hpos, other, hother, hne, hsome, hnew, hshared⟩ := hc
  obtain ⟨k, hk⟩ := Option.isSome_iff_exists.1 hsome
  have hat : pos = changed := by
    by_contra hat
    exact hnew (keyAt_congr key hspec (frame pos hpos hat))
  have hkept : t'.keyAt key other = t.keyAt key other :=
    keyAt_congr key hspec (frame other hother (hat ▸ hne))
  have heq := hd.eq (hspec ▸ hkey) hk (by rw [hkept, hshared, hk])
  exact hne heq.symm

theorem keyAt_dropFirst (t : Table) (count : Nat) (key : List String) (pos : Nat) :
    (t.dropFirst count).keyAt key pos = t.keyAt key (count + pos) := by
  apply keyAt_congr key (show (t.dropFirst count).spec = t.spec from rfl)
  simp only [dropFirst, Array.getElem?_extract]
  split
  · rfl
  · rw [eq_comm, Array.getElem?_eq_none_iff]
    omega

theorem distinct_dropFirst {t : Table} (ht : t.Distinct) (count : Nat) :
    (t.dropFirst count).Distinct := by
  apply distinct_of_eq
  intro key hkey i j k hi hj
  rw [keyAt_dropFirst] at hi hj
  have := ht.eq hkey hi hj
  omega

/-- Indexes made anew are exact where no two rows share a key. -/
theorem indexed_reindex {t t' : Table} (ht : t.Distinct)
    (width : ∀ row ∈ t.rows, row.length = t.spec.columns.length) (h : t.reindex = .ok t') :
    t'.Indexed := by
  rw [reindex_eq] at h
  let P := fun (done : List Tuple) (u : Table) => u.spec = t.spec ∧ u.rows.toList = done ∧ u.Indexed
  suffices hP : P t.rows.toList t' from hP.2.2
  refine foldlM_invariant h ⟨rfl, rfl, indexed_empty t.spec⟩ ?_
  rintro done row rest u u' hrows ⟨hspec, hdone, hu⟩ happend
  have hmem : row ∈ t.rows := by
    rw [← Array.mem_toList_iff, hrows]
    simp
  have hsize : u.rows.size = done.length := by rw [← hdone, Array.length_toList]
  have hfront : ∀ p < done.length, u.rows[p]? = t.rows[p]? := by
    intro p hp
    rw [← Array.getElem?_toList, ← Array.getElem?_toList, hdone, hrows,
      List.getElem?_append_left hp]
  have hlast : t.rows[done.length]? = some row := by
    rw [← Array.getElem?_toList, hrows]
    simp
  obtain ⟨keys, hkeys, hu'⟩ := append_eq_ok.1 happend
  refine ⟨by rw [hu', hspec], by simp [hu', hdone], ?_⟩
  refine indexed_append hu (by rw [hspec, width row hmem]) ?_ happend
  intro key hkey k pos hk hpos
  have hlt : pos < done.length := hsize ▸ lt_of_keyAt hpos
  rw [hspec] at hkey hk
  have hhere : t.keyAt key done.length = some k := keyAt_eq_some.2 ⟨row, hlast, hk⟩
  rw [keyAt_congr key hspec (hfront pos hlt)] at hpos
  have := ht.eq hkey hpos hhere
  omega

end ReadingBench.Store.Table
