import ReadingBench.Proofs.Sql.Literal
import ReadingBench.Proofs.Store.Insertion
import ReadingBench.Proofs.Store.Overwrite
import ReadingBench.Rollup

namespace ReadingBench

open Sql Store Outcome

namespace Sql.Value

/-- An integer or text: a value that equals itself and nothing else. -/
def IsPlain (v : Value) : Prop := (∃ n, v = int n) ∨ ∃ s, v = text s

theorem IsPlain.eq_of_beq {v w : Value} (hw : w.IsPlain) (h : v == w) : v = w := by
  rcases hw with ⟨n, rfl⟩ | ⟨s, rfl⟩ <;> cases v <;> simp_all [BEq.beq, instBEqValue.beq]

end Sql.Value

/-- A stored row's value in a column. -/
def Keyspace.cell (keyspace : Keyspace) (row : Tuple) (column : String) : Value :=
  row.getD (keyspace.spec.columns.idxOf column) .null

/-- The values of the statistics' columns. -/
def ReadStats.values (s : ReadStats) : List Value :=
  BeRead.listColumns s.readUids ++ BeRead.listColumns s.commentUids ++
    BeRead.listColumns s.agreeUids ++ BeRead.listColumns s.shareUids

namespace Rollup

/-- The row that the upsert of a rollup finds: by its id if a row has that, else by its aid. -/
def found (t : Table) (b : BeRead) : Option Nat := (t.conflict (b.toRow ++ [.null])).toOption.join

/-- The aid and the statistics that a row shows. -/
def entry (row : Tuple) : Value × List Value :=
  (Keyspace.beRead.cell row "aid", Keyspace.updateColumns.map (Keyspace.beRead.cell row))

theorem cell_aid (row : Tuple) : Keyspace.beRead.cell row "aid" = row.getD 1 .null := rfl

/-- The places of the columns that an upsert overwrites, the stamp's at the end. -/
def targets : List Nat := [3, 4, 5, 6, 7, 8, 9, 10]

theorem stats_eq (row : Tuple) :
    Keyspace.updateColumns.map (Keyspace.beRead.cell row) = targets.map fun i => row.getD i .null := rfl

section Row

variable (b : BeRead) (now : Value) (old : Tuple)

def overwritten : Tuple := Table.overwrite (b.toRow ++ [now]) (targets ++ [11]) old

theorem getD_overwritten {i : Nat} (hi : i < 3) :
    (overwritten b now old).getD i .null = old.getD i .null :=
  Table.getD_overwrite_of_notMem (by simp [targets]; omega)

theorem isPlain_toRow {i : Nat} (hi : i ∈ targets) :
    ((b.toRow ++ [now]).getD i .null).IsPlain := by
  have hplain : ∀ v ∈ b.toRow, v.IsPlain := by
    simp [BeRead.toRow, BeRead.listColumns, Value.IsPlain, Value.ofUInt64]
  have hlt : i < b.toRow.length := by
    simp [targets, BeRead.toRow, BeRead.listColumns] at hi ⊢
    omega
  rw [List.getD_eq_getElem?_getD, List.getElem?_append_left hlt, List.getElem?_eq_getElem hlt]
  exact hplain _ (List.getElem_mem hlt)

theorem entry_overwritten (hwidth : old.length = 12) :
    entry (overwritten b now old) = ((entry old).1, b.stats.values) := by
  have htaken : ∀ i ∈ targets,
      (overwritten b now old).getD i .null = (b.toRow ++ [now]).getD i .null := by
    intro i hi
    have hlt : i < old.length := by
      simp [targets] at hi
      omega
    exact Table.getD_overwrite_of_mem (List.mem_append_left _ hi) hlt fun v =>
      (isPlain_toRow b now hi).eq_of_beq
  have hstats : targets.map (fun i => (b.toRow ++ [now]).getD i .null) = b.stats.values := rfl
  rw [entry, entry, stats_eq, List.map_congr_left htaken, hstats, cell_aid, cell_aid,
    getD_overwritten b now old (by decide)]

end Row

theorem id_ne {b c : BeRead} (hid : c.id ≠ b.id) :
    some (Value.ofUInt64 b.id).literal ≠ some (Value.ofUInt64 c.id).literal := fun h =>
  hid (Value.ofUInt64_literal (Option.some.inj h)).symm

section Table

variable {t t' : Table} (ht : t.Sound) (hspec : t.spec = Keyspace.beRead.spec)

include hspec

theorem conflict_eq {ids aids : Index} (hindexes : t.indexes = [ids, aids]) (row : Tuple) :
    t.conflict row = .ok (((TableSpec.keyText (row.getD 0 .null)).bind (ids[·]?)).or
      ((TableSpec.keyText (row.getD 1 .null)).bind (aids[·]?))) := by
  have hid := TableSpec.keyOf_single (show Keyspace.beRead.spec.position "id" = .ok 0 from rfl) row
  have haid := TableSpec.keyOf_single (show Keyspace.beRead.spec.position "aid" = .ok 1 from rfl) row
  rw [Table.conflict, hindexes, hspec]
  change Table.holder _ row [(["id"], ids), (["aid"], aids)] = _
  rw [Table.holder, hid, ok_bind]
  cases (TableSpec.keyText (row.getD 0 .null)).bind (ids[·]?) with
  | some pos => rfl
  | none =>
    simp only [Table.holder, haid, ok_bind]
    cases (TableSpec.keyText (row.getD 1 .null)).bind (aids[·]?) <;> rfl

theorem found_eq {ids aids : Index} (hindexes : t.indexes = [ids, aids]) (b : BeRead) :
    found t b = (ids[(Value.ofUInt64 b.id).literal]?).or (aids[(Value.text b.aid).literal]?) := by
  rw [found, conflict_eq hspec hindexes]
  rfl

theorem keysOf_eq (row : Tuple) : t.spec.keysOf row =
    .ok [TableSpec.keyText (row.getD 0 .null), TableSpec.keyText (row.getD 1 .null)] := by
  have hid := TableSpec.keyOf_single (show Keyspace.beRead.spec.position "id" = .ok 0 from rfl) row
  have haid := TableSpec.keyOf_single (show Keyspace.beRead.spec.position "aid" = .ok 1 from rfl) row
  rw [hspec, TableSpec.keysOf]
  change [["id"], ["aid"]].mapM _ = _
  simp only [List.mapM_cons, List.mapM_nil, hid, haid]
  rfl

/-- An appended rollup is entered under its id and under its aid. -/
theorem found_of_append {b : BeRead} {now : Value} (h : t.append (b.toRow ++ [now]) = .ok t')
    {ids aids : Index} (hindexes : t.indexes = [ids, aids]) (c : BeRead) : found t' c =
      ((ids.enter t.rows.size (some (Value.ofUInt64 b.id).literal))[(Value.ofUInt64 c.id).literal]?).or
        ((aids.enter t.rows.size (some (Value.text b.aid).literal))[(Value.text c.aid).literal]?) := by
  obtain ⟨keys, hkeys, ht'⟩ := Table.append_eq_ok.1 h
  rw [keysOf_eq hspec, Except.ok.injEq] at hkeys
  subst hkeys
  refine found_eq (by rw [ht', hspec]) ?_ c
  rw [ht', hindexes]
  rfl

include ht

theorem exists_indexes : ∃ ids aids, t.indexes = [ids, aids] := by
  have hlen : t.indexes.length = 2 := by
    rw [ht.indexes_length, hspec]
    rfl
  exact List.length_eq_two.1 hlen

theorem conflict_eq_found (b : BeRead) (now : Value) :
    t.conflict (b.toRow ++ [now]) = .ok (found t b) := by
  obtain ⟨ids, aids, hindexes⟩ := exists_indexes ht hspec
  rw [found, conflict_eq hspec hindexes, conflict_eq hspec hindexes]
  rfl

section Append

variable {b : BeRead} {now : Value} (h : t.append (b.toRow ++ [now]) = .ok t')

include h

theorem found_appended : found t' b = some t.rows.size := by
  obtain ⟨ids, aids, hindexes⟩ := exists_indexes ht hspec
  rw [found_of_append hspec h hindexes, Index.getElem?_enter, if_pos rfl, Option.some_or]

/-- An appended rollup is found by those with its id or its aid, and nothing else changes. -/
theorem found_append {c : BeRead} (hid : c.id ≠ b.id) (haid : c.aid ≠ b.aid) :
    found t' c = found t c := by
  obtain ⟨ids, aids, hindexes⟩ := exists_indexes ht hspec
  have haids : some (Value.text b.aid).literal ≠ some (Value.text c.aid).literal := fun h =>
    haid (Value.text_literal (Option.some.inj h)).symm
  rw [found_of_append hspec h hindexes, found_eq hspec hindexes, Index.getElem?_enter,
    Index.getElem?_enter, if_neg (id_ne hid), if_neg haids]

/-- A rollup that found a row still finds it. One with the appended aid had found it by its id. -/
theorem found_append_of_found (hfree : found t b = none) {c : BeRead} (hid : c.id ≠ b.id) {pos : Nat}
    (hc : found t c = some pos) : found t' c = some pos := by
  obtain ⟨ids, aids, hindexes⟩ := exists_indexes ht hspec
  by_cases haid : c.aid = b.aid
  · rw [found_eq hspec hindexes, Option.or_eq_none_iff] at hfree
    rw [found_eq hspec hindexes, haid, hfree.2, Option.or_none] at hc
    rw [found_of_append hspec h hindexes, Index.getElem?_enter, if_neg (id_ne hid), hc, Option.some_or]
  · rwa [found_append ht hspec h hid haid]

end Append

/-- What one upsert does: it appends its rollup, or the row that it finds takes the statistics. -/
theorem apply_upsert {b : BeRead} {now : Value} {applied : Applied}
    (h : t.apply Keyspace.beRead.columns (.update Keyspace.updateColumns) (some ⟨11, now⟩) b.toRow =
      .ok (t', applied)) :
    (found t b = none ∧ t.append (b.toRow ++ [now]) = .ok t') ∨
      ∃ pos, found t b = some pos ∧ pos < t.rows.size ∧
        t' = { t with rows := t.rows.setIfInBounds pos (overwritten b now (t.rows.getD pos [])) } ∧
        entry (overwritten b now (t.rows.getD pos [])) =
          ((entry (t.rows.getD pos [])).1, b.stats.values) := by
  obtain ⟨row, hrow, h⟩ := Table.apply_eq_ok h
  have hfull : t.spec.fullRow Keyspace.beRead.columns b.toRow = .ok (b.toRow ++ [.null]) := by
    rw [hspec]
    rfl
  obtain rfl := Except.ok.inj (hrow.symm.trans hfull)
  have hstamped : Table.stamped (some ⟨11, now⟩) (b.toRow ++ [.null]) = b.toRow ++ [now] := rfl
  simp only [hstamped, conflict_eq_found ht hspec, Except.ok.injEq] at h
  rcases h with ⟨hfree, happend, -⟩ | ⟨pos, hpos, ⟨hignore, -⟩ | ⟨targets, htargets, hupdate⟩⟩
  · exact .inl ⟨hfree, happend⟩
  · cases hignore
  obtain rfl := OnConflict.update.inj htargets
  have hlt : pos < t.rows.size :=
    Table.conflict_lt ht ((conflict_eq_found ht hspec b now).trans (congrArg _ hpos))
  have hwidth : (t.rows.getD pos []).length = 12 := by
    have hmem : t.rows.getD pos [] ∈ t.rows := by simp [hlt]
    rw [ht.width _ hmem, hspec]
    rfl
  have hkeys : t.spec.keysOf (overwritten b now (t.rows.getD pos [])) =
      t.spec.keysOf (t.rows.getD pos []) := by
    rw [keysOf_eq hspec, keysOf_eq hspec, getD_overwritten _ _ _ (by decide),
      getD_overwritten _ _ _ (by decide)]
  have hcolumns : Keyspace.updateColumns.mapM t.spec.position = .ok targets := by
    rw [hspec]
    rfl
  have hrow : overwritten b now (t.rows.getD pos []) = Table.overwrite (b.toRow ++ [now])
      (targets ++ ((some ⟨11, now⟩ : Option Stamp).map (·.column)).toList) (t.rows.getD pos []) := rfl
  have ht' := Table.update_eq_set ht hlt hcolumns hrow hkeys hupdate
  exact .inr ⟨pos, hpos, hlt, ht', entry_overwritten b now _ hwidth⟩

/-- An upsert of a rollup never fails. -/
theorem exists_apply_upsert (b : BeRead) (now : Value) : ∃ r,
    t.apply Keyspace.beRead.columns (.update Keyspace.updateColumns) (some ⟨11, now⟩) b.toRow = .ok r := by
  have hfull : t.spec.fullRow Keyspace.beRead.columns b.toRow = .ok (b.toRow ++ [.null]) := by
    rw [hspec]
    rfl
  have hcolumns : Keyspace.updateColumns.mapM t.spec.position = .ok targets := by
    rw [hspec]
    rfl
  have hstamped : Table.stamped (some ⟨11, now⟩) (b.toRow ++ [.null]) = b.toRow ++ [now] := rfl
  rw [Table.apply, hfull, ok_bind, hstamped]
  dsimp only
  rw [conflict_eq_found ht hspec, ok_bind]
  cases found t b with
  | none =>
    simp only [Table.append, keysOf_eq hspec, ok_bind]
    exact ⟨_, rfl⟩
  | some pos =>
    simp only [Table.update, keysOf_eq hspec, hcolumns, ok_bind]
    split <;> exact ⟨_, rfl⟩

end Table
end Rollup
end ReadingBench
