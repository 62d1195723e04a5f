import ReadingBench.Proofs.Outcome
import ReadingBench.Store.Table

namespace ReadingBench.Store

open Sql Outcome

namespace TableSpec

theorem keysOf_eq_ok {spec : TableSpec} {row : Tuple} {keys : List (Option String)} :
    spec.keysOf row = .ok keys ↔
      List.Forall₂ (fun key k => spec.keyOf row key = .ok k) spec.uniqueKeys keys := mapM_eq_ok

theorem length_keysOf {spec : TableSpec} {row : Tuple} {keys : List (Option String)}
    (h : spec.keysOf row = .ok keys) : keys.length = spec.uniqueKeys.length :=
  (keysOf_eq_ok.1 h).length_eq.symm

theorem getElem?_keysOf {spec : TableSpec} {row : Tuple} {keys : List (Option String)}
    (h : spec.keysOf row = .ok keys) {n : Nat} {key : List String}
    (hn : spec.uniqueKeys[n]? = some key) : ∃ k, keys[n]? = some k ∧ spec.keyOf row key = .ok k := by
  obtain ⟨hlt, rfl⟩ := List.getElem?_eq_some_iff.1 hn
  have hk : n < keys.length := by rw [length_keysOf h]; exact hlt
  exact ⟨keys[n], List.getElem?_eq_getElem hk, (keysOf_eq_ok.1 h).get hlt hk⟩

theorem length_fullRow {spec : TableSpec} {columns : List String} {values : List Value} {row : Tuple}
    (h : spec.fullRow columns values = .ok row) : row.length = spec.columns.length := by
  refine foldlM_invariant (P := fun _ row => row.length = spec.columns.length) h (by simp) ?_
  rintro _ ⟨column, value⟩ _ old new _ hlen hnew
  obtain ⟨i, -, hnew⟩ := bind_eq_ok.1 hnew
  rw [← pure_eq_ok.1 hnew, List.length_set]
  exact hlen

/-- The key of a single column. -/
def keyText : Value → Option String
  | .null => none
  | v => some v.literal

theorem keyOf_single {spec : TableSpec} {column : String} {i : Nat}
    (h : spec.position column = .ok i) (row : Tuple) :
    spec.keyOf row [column] = .ok (keyText (row.getD i .null)) := by
  rw [keyOf, keyParts, h, ok_bind]
  cases row.getD i .null <;>
    simp [keyParts, keyText, pure, Except.pure, bind, Except.bind, String.intercalate_singleton]

theorem position_of_nodup {spec : TableSpec} (distinct : spec.columns.Nodup)
    {before after : List String} {column : String} (h : spec.columns = before ++ column :: after) :
    spec.position column = .ok before.length := by
  have hfirst : column ∉ before := by
    rw [h, List.nodup_append] at distinct
    exact fun hmem => distinct.2.2 column hmem column (by simp) rfl
  have hidx : spec.columns.idxOf? column = some before.length := by
    rw [h, List.idxOf?_eq_some_iff]
    refine ⟨by simp, by simp, ?_⟩
    intro j hj hcolumn
    rw [List.getElem_append_left hj] at hcolumn
    exact hfirst (hcolumn ▸ List.getElem_mem hj)
  rw [position, hidx]

/-- Puts a value into its column. -/
def place (spec : TableSpec) (row : Tuple) (p : String × Value) : Except Error Tuple :=
  return row.set (← spec.position p.1) p.2

theorem fullRow_eq (spec : TableSpec) (columns : List String) (values : List Value) :
    spec.fullRow columns values =
      (columns.zip values).foldlM spec.place (List.replicate spec.columns.length .null) := rfl

/-- Values in the order of the columns are the row. -/
theorem fullRow_self {spec : TableSpec} (distinct : spec.columns.Nodup) {values : List Value}
    (width : values.length = spec.columns.length) : spec.fullRow spec.columns values = .ok values := by
  -- The columns before have their values, those after are still NULL.
  have hfold : ∀ (after before : List String) (rest done : List Value),
      spec.columns = before ++ after → done.length = before.length → rest.length = after.length →
      (after.zip rest).foldlM spec.place (done ++ List.replicate after.length .null) =
        .ok (done ++ rest) := by
    intro after
    induction after with
    | nil =>
      intro before rest done _ _ hrest
      rw [List.length_eq_zero_iff.1 hrest]
      rfl
    | cons column after ih =>
      intro before rest done hcolumns hdone hrest
      cases rest with
      | nil => cases hrest
      | cons value rest =>
        have hset : (done ++ List.replicate (after.length + 1) Value.null).set before.length value =
            (done ++ [value]) ++ List.replicate after.length .null := by
          simp [← hdone, List.replicate_succ]
        have hnext := ih (before ++ [column]) rest (done ++ [value]) (by simpa using hcolumns)
          (by simpa using hdone) (by simpa using hrest)
        rw [List.zip_cons_cons, List.foldlM_cons, List.length_cons]
        simp only [place, position_of_nodup distinct hcolumns, ok_bind, pure_bind, hset]
        exact hnext.trans (congrArg Except.ok (List.append_assoc done [value] rest))
  rw [fullRow_eq]
  exact hfold spec.columns [] values [] rfl rfl width

end TableSpec

namespace Index

theorem getElem?_enter (pos : Nat) (key : Option String) (index : Index) (k : String) :
    (enter pos key index)[k]? = if key = some k then some pos else index[k]? := by
  cases key with
  | none => simp [enter]
  | some key => simp [enter, Std.TreeMap.getElem?_insert]

theorem getElem?_move (pos : Nat) (old new : Option String) (index : Index) (k : String) :
    (move pos old new index)[k]? =
      if new = old then index[k]?
      else if new = some k then some pos
      else if old = some k ∧ index[k]? = some pos then none
      else index[k]? := by
  unfold move
  by_cases hsame : new = old
  · simp [hsame]
  · rw [if_neg hsame, if_neg hsame, getElem?_enter]
    congr 1
    cases old with
    | none => simp
    | some key =>
      by_cases hown : index[key]? = some pos
      · by_cases hk : key = k
        · subst hk
          simp [hown]
        · simp [hown, hk, Std.TreeMap.getElem?_erase]
      · have hne : ¬(key = k ∧ index[k]? = some pos) := by
          rintro ⟨rfl, h⟩
          exact hown h
        simp [hown, hne]

variable {index : Index} {held : Nat → Option String} {pos : Nat}

theorem getElem?_enter_iff (h : ∀ k p, index[k]? = some p ↔ held p = some k) {key : Option String}
    (vacant : held pos = none) (free : ∀ k p, key = some k → held p ≠ some k) (k : String)
    (p : Nat) : (enter pos key index)[k]? = some p ↔ (if p = pos then key else held p) = some k := by
  rw [getElem?_enter]
  by_cases hkey : key = some k
  · have hfree := free k p hkey
    by_cases hp : p = pos
    · simp [hp, hkey]
    · simp [hp, hkey, hfree, Ne.symm hp]
  · rw [if_neg hkey, h]
    by_cases hp : p = pos
    · simp [hp, hkey, vacant]
    · simp [hp]

theorem getElem?_move_iff (h : ∀ k p, index[k]? = some p ↔ held p = some k) {new : Option String}
    (free : new ≠ held pos → ∀ k p, new = some k → p ≠ pos → held p ≠ some k) (k : String)
    (p : Nat) :
    (move pos (held pos) new index)[k]? = some p ↔ (if p = pos then new else held p) = some k := by
  rw [getElem?_move]
  by_cases hsame : new = held pos
  · -- The key did not change, so neither did the index.
    rw [if_pos hsame, h]
    by_cases hp : p = pos
    · rw [if_pos hp, hp, hsame]
    · rw [if_neg hp]
  rw [if_neg hsame]
  by_cases hk : new = some k
  · -- The position takes `k`, which no other has.
    rw [if_pos hk]
    by_cases hp : p = pos
    · simp [hp, hk]
    · simp [hp, Ne.symm hp, free hsame k p hk hp]
  rw [if_neg hk]
  by_cases hleft : held pos = some k
  · -- The position gives `k` up, and no other had it.
    have hat : index[k]? = some pos := (h k pos).2 hleft
    rw [if_pos ⟨hleft, hat⟩]
    by_cases hp : p = pos
    · simp [hp, hk]
    · have hnot : held p ≠ some k := by
        intro hother
        rw [← h, hat, Option.some.injEq] at hother
        exact hp hother.symm
      simp [hp, hnot]
  · rw [if_neg fun both => hleft both.1, h]
    by_cases hp : p = pos
    · simp [hp, hk, hleft]
    · rw [if_neg hp]

end Index

namespace Table

/-- The encoded key of the row at `pos`, if there is a row and no part of its key is NULL. -/
def keyAt (t : Table) (key : List String) (pos : Nat) : Option String :=
  match t.rows[pos]? with
  | some row => (t.spec.keyOf row key).toOption.join
  | none => none

theorem keyAt_eq_some {t : Table} {key : List String} {pos : Nat} {k : String} :
    t.keyAt key pos = some k ↔ ∃ row, t.rows[pos]? = some row ∧ t.spec.keyOf row key = .ok (some k) := by
  unfold keyAt
  cases t.rows[pos]? with
  | none => simp
  | some row => cases hk : t.spec.keyOf row key <;> simp [Except.toOption, hk]

theorem lt_of_keyAt {t : Table} {key : List String} {pos : Nat} {k : String}
    (h : t.keyAt key pos = some k) : pos < t.rows.size := by
  obtain ⟨row, hrow, -⟩ := keyAt_eq_some.1 h
  exact (Array.getElem?_eq_some_iff.1 hrow).1

/-- Tables of one shape with the same row at `pos` have the same key there. -/
theorem keyAt_congr {t t' : Table} {pos pos' : Nat} (key : List String) (hspec : t'.spec = t.spec)
    (hrow : t'.rows[pos']? = t.rows[pos]?) : t'.keyAt key pos' = t.keyAt key pos := by
  simp only [keyAt, hspec, hrow]

/-- No two rows share a key without NULL. -/
def Distinct (t : Table) : Prop :=
  ∀ key ∈ t.spec.uniqueKeys, ∀ i < t.rows.size, ∀ j < t.rows.size,
    (t.keyAt key i).isSome → t.keyAt key i = t.keyAt key j → i = j

instance (t : Table) : Decidable t.Distinct := by unfold Distinct; infer_instance

theorem Distinct.eq {t : Table} (h : t.Distinct) {key : List String} (hkey : key ∈ t.spec.uniqueKeys)
    {i j : Nat} {k : String} (hi : t.keyAt key i = some k) (hj : t.keyAt key j = some k) : i = j :=
  h key hkey i (lt_of_keyAt hi) j (lt_of_keyAt hj) (by simp [hi]) (hi.trans hj.symm)

theorem distinct_of_eq {t : Table} (h : ∀ key ∈ t.spec.uniqueKeys, ∀ i j k,
    t.keyAt key i = some k → t.keyAt key j = some k → i = j) : t.Distinct := by
  intro key hkey i _ j _ hi hij
  obtain ⟨k, hk⟩ := Option.isSome_iff_exists.1 hi
  exact h key hkey i j k hk (hij ▸ hk)

/-- Between the two tables a stored row was given a key that another stored row held. -/
def Collision (t t' : Table) : Prop :=
  ∃ key ∈ t.spec.uniqueKeys, ∃ pos < t.rows.size, ∃ other < t.rows.size, other ≠ pos ∧
    (t'.keyAt key pos).isSome ∧ t'.keyAt key pos ≠ t.keyAt key pos ∧
    t.keyAt key other = t'.keyAt key pos

instance (t t' : Table) : Decidable (Collision t t') := by unfold Collision; infer_instance

end Table
end ReadingBench.Store
