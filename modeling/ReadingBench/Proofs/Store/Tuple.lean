import ReadingBench.Proofs.Store.Insertion
import ReadingBench.Proofs.Store.Overwrite

namespace ReadingBench.Store

open Sql Outcome

namespace TableSpec

/-- What a tuple has for column `i`: the last value that it names for it, NULL if it names none. -/
def given (spec : TableSpec) (columns : List String) (values : List Value) (i : Nat) : Value :=
  (((columns.zip values).filter fun (column, _) => spec.columns.idxOf? column = some i).map (·.2)).getLastD
    .null

/-- The row of full width that a tuple makes, with the time in the stamp's column if it is NULL. -/
def made (spec : TableSpec) (now : DateTime) (s : Insert) (values : List Value) : Tuple :=
  (List.range spec.columns.length).map fun i =>
    if (spec.given s.columns values i).isNull ∧ s.stamp.bind spec.columns.idxOf? = some i then .dateTime now
    else spec.given s.columns values i

/-- The columns that an insert may change in a row that is there: those of its upsert and the stamp's. -/
def touched (spec : TableSpec) (s : Insert) : List Nat :=
  match s.onConflict with
  | .update columns => (columns ++ s.stamp.toList).filterMap spec.columns.idxOf?
  | _ => []

variable {spec : TableSpec}

theorem position_eq_ok {column : String} {i : Nat} :
    spec.position column = .ok i ↔ spec.columns.idxOf? column = some i := by
  rw [position]
  cases spec.columns.idxOf? column <;> simp

theorem lt_of_idxOf? {column : String} {i : Nat} (h : spec.columns.idxOf? column = some i) :
    i < spec.columns.length := by
  rw [List.idxOf?, List.findIdx?_eq_some_iff_getElem] at h
  exact h.1

theorem lt_of_mem_touched {s : Insert} {i : Nat} (h : i ∈ spec.touched s) :
    i < spec.columns.length := by
  rw [TableSpec.touched] at h
  split at h
  · obtain ⟨column, -, hcolumn⟩ := List.mem_filterMap.1 h
    exact lt_of_idxOf? hcolumn
  · cases h

/-- After the values are put in place, a column has the last one for it, or what it had. -/
theorem getD_place {pairs : List (String × Value)} {start row : Tuple}
    (width : start.length = spec.columns.length) (h : pairs.foldlM spec.place start = .ok row) (i : Nat) :
    row.getD i .null = ((pairs.filter fun (column, _) => spec.columns.idxOf? column = some i).map
      (·.2)).getLastD (start.getD i .null) := by
  induction pairs generalizing start with
  | nil =>
    obtain rfl := pure_eq_ok.1 h
    rfl
  | cons p pairs ih =>
    obtain ⟨column, value⟩ := p
    rw [List.foldlM_cons, bind_eq_ok] at h
    obtain ⟨next, hnext, h⟩ := h
    obtain ⟨j, hj, hnext⟩ := bind_eq_ok.1 hnext
    obtain rfl := pure_eq_ok.1 hnext
    rw [position_eq_ok] at hj
    rw [ih (by rw [List.length_set, width]) h, List.filter_cons]
    by_cases hij : j = i
    · subst hij
      have hset : (start.set j value).getD j .null = value := by simp [width, lt_of_idxOf? hj]
      rw [if_pos (by simpa using hj), List.map_cons, List.getLastD_cons, hset]
    · rw [if_neg (by simpa [hj] using hij), Table.getD_set_ne hij]

theorem getD_fullRow {columns : List String} {values : List Value} {row : Tuple}
    (h : spec.fullRow columns values = .ok row) (i : Nat) :
    row.getD i .null = spec.given columns values i := by
  have hnull : (List.replicate spec.columns.length Value.null).getD i .null = .null := by
    rw [List.getD_eq_getElem?_getD, List.getElem?_replicate]
    split <;> rfl
  rw [fullRow_eq] at h
  rw [getD_place List.length_replicate h, hnull]
  rfl

theorem length_made (spec : TableSpec) (now : DateTime) (s : Insert) (values : List Value) :
    (spec.made now s values).length = spec.columns.length := by
  simp [made]

theorem getD_made {now : DateTime} {s : Insert} {values : List Value} {i : Nat}
    (hi : i < spec.columns.length) : (spec.made now s values).getD i .null =
      if (spec.given s.columns values i).isNull ∧ s.stamp.bind spec.columns.idxOf? = some i then
        .dateTime now
      else spec.given s.columns values i := by
  simp [made, hi]

end TableSpec

theorem Tuple.ext_getD {row other : Tuple} (hlength : row.length = other.length)
    (h : ∀ i < row.length, row.getD i .null = other.getD i .null) : row = other := by
  refine List.ext_getElem hlength fun i hi hi' => ?_
  rw [← List.getD_eq_getElem _ .null hi, ← List.getD_eq_getElem _ .null hi', h i hi]

namespace Table

variable {t u : Table} {now : DateTime} {s : Insert} {stamp : Option Stamp} {values : List Value}

theorem resolveStamp_of_spec (h : u.spec = t.spec) : u.resolveStamp now s = t.resolveStamp now s := by
  rw [resolveStamp, resolveStamp, h]

theorem resolveStamp_of_none (h : s.stamp = none) : t.resolveStamp now s = .ok none := by
  rw [resolveStamp, h]
  rfl

theorem resolveStamp_of_some {column : String} (h : s.stamp = some column) : t.resolveStamp now s = .ok stamp ↔
    ∃ i, t.spec.columns.idxOf? column = some i ∧ stamp = some ⟨i, .dateTime now⟩ := by
  have hmapM : t.resolveStamp now s = (do
      let i ← t.spec.position column
      return some ⟨i, .dateTime now⟩) := by
    rw [resolveStamp, h]
    cases hposition : t.spec.position column <;> simp [Option.mapM, hposition]
  simp only [hmapM, bind_eq_ok, pure_eq_ok, TableSpec.position_eq_ok, eq_comm (b := stamp)]

theorem getD_stamped {c : Nat} {now : Value} {row : Tuple} (hc : c < row.length) (i : Nat) :
    (stamped (some ⟨c, now⟩) row).getD i .null =
      if (row.getD i .null).isNull ∧ c = i then now else row.getD i .null := by
  rw [stamped]
  by_cases hnull : (row.getD c .null).isNull
  · rw [if_pos hnull]
    by_cases hci : c = i
    · subst hci
      rw [if_pos ⟨hnull, rfl⟩]
      simp [hc]
    · rw [if_neg (fun h => hci h.2), getD_set_ne hci]
  · rw [if_neg hnull, if_neg]
    rintro ⟨hi, rfl⟩
    exact hnull hi

theorem stamped_eq_made (hstamp : t.resolveStamp now s = .ok stamp) {row : Tuple}
    (h : t.spec.fullRow s.columns values = .ok row) : stamped stamp row = t.spec.made now s values := by
  have hlength := TableSpec.length_fullRow h
  refine Tuple.ext_getD (by rw [length_stamped, hlength, TableSpec.length_made]) fun i hi => ?_
  rw [length_stamped, hlength] at hi
  rw [TableSpec.getD_made hi]
  cases hs : s.stamp with
  | none =>
    obtain rfl := Except.ok.inj ((resolveStamp_of_none hs).symm.trans hstamp)
    rw [if_neg (by simp)]
    exact TableSpec.getD_fullRow h i
  | some column =>
    obtain ⟨c, hc, rfl⟩ := (resolveStamp_of_some hs).1 hstamp
    rw [getD_stamped (hlength ▸ TableSpec.lt_of_idxOf? hc), TableSpec.getD_fullRow h]
    simp only [Option.bind_some, hc, Option.some.injEq]

theorem touched_eq (hstamp : t.resolveStamp now s = .ok stamp) {columns : List String} {targets : List Nat}
    (hupdate : s.onConflict = .update columns) (htargets : columns.mapM t.spec.position = .ok targets) :
    t.spec.touched s = targets ++ (stamp.map (·.column)).toList := by
  have hcolumns : columns.filterMap t.spec.columns.idxOf? = targets := by
    have hall := mapM_eq_ok.1 htargets
    clear htargets hupdate
    induction hall with
    | nil => rfl
    | cons hfirst _ ih => rw [List.filterMap_cons, TableSpec.position_eq_ok.1 hfirst, ih]
  rw [TableSpec.touched, hupdate]
  dsimp only
  rw [List.filterMap_append, hcolumns]
  cases hs : s.stamp with
  | none =>
    obtain rfl := Except.ok.inj ((resolveStamp_of_none hs).symm.trans hstamp)
    rfl
  | some column =>
    obtain ⟨c, hc, rfl⟩ := (resolveStamp_of_some hs).1 hstamp
    simp [hc]

end Table
end ReadingBench.Store
