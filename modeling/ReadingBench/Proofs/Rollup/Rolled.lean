import ReadingBench.Proofs.Rollup.Upserted

namespace ReadingBench.Rollup

open Sql Store Outcome

/-- What the row at `pos` shows after upserts: the statistics of the last one that found it, or what it
showed before. -/
def shown (t : Table) (done : List BeRead) (pos : Nat) : List Value :=
  (done.filter fun b => found t b = some pos).getLast?.elim (entry (t.rows.getD pos [])).2
    (·.stats.values)

/-- The rollups that find no row. -/
def fresh (t : Table) (done : List BeRead) : List BeRead := done.filter fun b => found t b = none

/-- Rollups that no row can serve together. -/
def Apart (b c : BeRead) : Prop := b.id ≠ c.id ∧ b.aid ≠ c.aid

/-- The table `u` is what upserts of `done` make of `t`. -/
structure Rolled (t : Table) (done : List BeRead) (u : Table) : Prop where
  sound : u.Sound
  spec : u.spec = Keyspace.beRead.spec
  finds : ∀ c, (∀ b ∈ done, Apart b c) → found u c = found t c
  entries : u.rows.toList.map entry =
    (List.range t.rows.size).map (fun pos => ((entry (t.rows.getD pos [])).1, shown t done pos)) ++
      (fresh t done).map fun b => (.text b.aid, b.stats.values)

theorem found_lt {t : Table} (ht : t.Sound) (hspec : t.spec = Keyspace.beRead.spec) {b : BeRead}
    {pos : Nat} (h : found t b = some pos) : pos < t.rows.size :=
  Table.conflict_lt ht ((conflict_eq_found ht hspec b .null).trans (congrArg _ h))

theorem rolled_nil {t : Table} (ht : t.Sound) (hspec : t.spec = Keyspace.beRead.spec) :
    Rolled t [] t where
  sound := ht
  spec := hspec
  finds _ _ := rfl
  entries := by
    have hrows : t.rows.toList = (List.range t.rows.size).map fun pos => t.rows.getD pos [] := by
      apply List.ext_getElem
      · simp
      · intro n h _
        simp only [Array.length_toList] at h
        simp [h]
    rw [hrows]
    simp [fresh, shown, Function.comp_def]

theorem shown_append (t : Table) (done : List BeRead) (b : BeRead) (pos : Nat) :
    shown t (done ++ [b]) pos = if found t b = some pos then b.stats.values else shown t done pos := by
  unfold shown
  by_cases h : found t b = some pos <;> simp [h]

theorem fresh_append (t : Table) (done : List BeRead) (b : BeRead) :
    fresh t (done ++ [b]) = fresh t done ++ if found t b = none then [b] else [] := by
  unfold fresh
  by_cases h : found t b = none <;> simp [h]

/-- Rows that were there keep their aid. -/
theorem Rolled.aid_eq {t u : Table} {done : List BeRead} (hu : Rolled t done u) {pos : Nat}
    (hpos : pos < t.rows.size) (hlt : pos < u.rows.size) :
    (entry (u.rows.getD pos [])).1 = (entry (t.rows.getD pos [])).1 := by
  have hentry := congrArg (·[pos]?) hu.entries
  simp only [List.getElem?_map, Array.getElem?_toList] at hentry
  rw [List.getElem?_append_left (by simpa using hpos), List.getElem?_map, List.getElem?_range hpos,
    Array.getElem?_eq_getElem hlt, Option.map_some, Option.map_some, Option.some.injEq] at hentry
  have hrow : u.rows.getD pos [] = u.rows[pos] := by simp [hlt]
  rw [hrow, hentry]

theorem map_range_set {α : Type} (n : Nat) (g : Nat → α) (pos : Nat) (a : α) :
    ((List.range n).map g).set pos a = (List.range n).map fun q => if q = pos then a else g q := by
  apply List.ext_getElem
  · simp
  · intro q _ _
    simp only [List.getElem_set, List.getElem_map, List.getElem_range, eq_comm (a := pos)]

theorem rolled_apply {t u u' : Table} (ht : t.Sound) (hspec : t.spec = Keyspace.beRead.spec)
    {done : List BeRead} (hu : Rolled t done u) {b : BeRead} (hb : ∀ d ∈ done, Apart d b) {now : Value}
    {applied : Applied}
    (h : u.apply Keyspace.beRead.columns (.update Keyspace.updateColumns) (some ⟨11, now⟩) b.toRow =
      .ok (u', applied)) : Rolled t (done ++ [b]) u' := by
  have hsound := Table.sound_apply hu.sound h
  have hfound := hu.finds b hb
  rcases apply_upsert hu.sound hu.spec h with ⟨hfree, happend⟩ | ⟨pos, hpos, hlt, rfl, hrow⟩
  · rw [hfound] at hfree
    obtain ⟨keys, -, hu'⟩ := Table.append_eq_ok.1 happend
    refine ⟨hsound, by rw [hu', hu.spec], ?_, ?_⟩
    · intro c hc
      have hbc := hc b (by simp)
      rw [found_append hu.sound hu.spec happend hbc.1.symm hbc.2.symm]
      exact hu.finds c fun d hd => hc d (by simp [hd])
    · have hentry : entry (b.toRow ++ [now]) = (.text b.aid, b.stats.values) := rfl
      simp only [hu', Array.toList_push, List.map_append, hu.entries, shown_append, fresh_append, hfree]
      simp [hentry]
  · rw [hfound] at hpos
    refine ⟨hsound, hu.spec, fun c hc => hu.finds c fun d hd => hc d (by simp [hd]), ?_⟩
    have hsize := found_lt ht hspec hpos
    have hfresh : fresh t (done ++ [b]) = fresh t done := by simp [fresh_append, hpos]
    rw [hfresh, Array.toList_setIfInBounds, List.map_set, hu.entries,
      List.set_append_left _ _ (by simpa using hsize), map_range_set, hrow, hu.aid_eq hsize hlt]
    congr 1
    apply List.map_congr_left
    intro q _
    rw [shown_append, hpos]
    by_cases hq : q = pos
    · rw [if_pos hq, if_pos (congrArg some hq.symm), hq]
    · rw [if_neg hq, if_neg fun h => hq (Option.some.inj h).symm]

theorem Upserted.rolled {t u : Table} (ht : t.Sound) (hspec : t.spec = Keyspace.beRead.spec)
    {done : List BeRead} (h : Upserted t done u) (apart : done.Pairwise Apart) : Rolled t done u := by
  induction h with
  | nil => exact rolled_nil ht hspec
  | snoc _ happly ih =>
    obtain ⟨hdone, -, hb⟩ := List.pairwise_append.1 apart
    exact rolled_apply ht hspec (ih hdone) (fun d hd => hb d hd _ (by simp)) happly

/-- The statistics in the rows with an aid. -/
def statsAt (t : Table) (aid : String) : List (List Value) :=
  ((t.rows.toList.map entry).filter (·.1 == .text aid)).map (·.2)

/-- The places of the rows with an aid. -/
def holders (t : Table) (aid : String) : List Nat :=
  (List.range t.rows.size).filter fun pos => (entry (t.rows.getD pos [])).1 == .text aid

/-- The condition, on the table before a run, for a rollup to be the one that its aid has after the run.
If it finds no row, none may have the aid. If it finds one, a single row has the aid, and the last of the
rollups that find this row, or the row itself, must have the same statistics. -/
def Served (t : Table) (rollups : List BeRead) (b : BeRead) : Prop :=
  match found t b with
  | none => holders t b.aid = []
  | some _ => ∃ pos, holders t b.aid = [pos] ∧ shown t rollups pos = b.stats.values

theorem filter_aid {done : List BeRead} (apart : done.Pairwise Apart) {b : BeRead} (hb : b ∈ done) :
    done.filter (·.aid == b.aid) = [b] := by
  induction done with
  | nil => exact absurd hb List.not_mem_nil
  | cons c done ih =>
    obtain ⟨hc, hdone⟩ := List.pairwise_cons.1 apart
    rcases List.mem_cons.1 hb with rfl | hmem
    · have hothers : done.filter (·.aid == b.aid) = [] := by
        rw [List.filter_eq_nil_iff]
        intro d hd hsame
        exact (hc d hd).2 (beq_iff_eq.1 hsame).symm
      rw [List.filter_cons_of_pos (by simp), hothers]
    · rw [List.filter_cons_of_neg (by simpa using (hc b hmem).2), ih hdone hmem]

theorem Rolled.statsAt_eq {t u : Table} {done : List BeRead} (hu : Rolled t done u)
    (apart : done.Pairwise Apart) {b : BeRead} (hb : b ∈ done) :
    statsAt u b.aid = (holders t b.aid).map (shown t done) ++
      if found t b = none then [b.stats.values] else [] := by
  have hfresh : (fresh t done).filter (·.aid == b.aid) = if found t b = none then [b] else [] := by
    rw [fresh, List.filter_comm, filter_aid apart hb]
    by_cases h : found t b = none <;> simp [h]
  have htext : (fun c : BeRead => Value.text c.aid == Value.text b.aid) = fun c => c.aid == b.aid := rfl
  rw [statsAt, hu.entries, List.filter_append, List.map_append, List.filter_map, List.filter_map,
    List.map_map, List.map_map]
  congr 1
  simp only [Function.comp_def, htext, hfresh]
  split <;> rfl

/-- A rollup's row is the only one with its aid and shows its statistics exactly where the condition
holds. -/
theorem Rolled.statsAt_iff {t u : Table} {done : List BeRead} (hu : Rolled t done u)
    (apart : done.Pairwise Apart) {b : BeRead} (hb : b ∈ done) :
    statsAt u b.aid = [b.stats.values] ↔ Served t done b := by
  rw [hu.statsAt_eq apart hb, Served]
  cases found t b with
  | none => simp
  | some pos =>
    simp only [reduceCtorEq, if_false, List.append_nil, List.map_eq_singleton_iff]

/-- A table without rows serves all. -/
theorem served_of_empty {t : Table} (ht : t.Sound) (hspec : t.spec = Keyspace.beRead.spec)
    (hempty : t.rows.size = 0) (rollups : List BeRead) (b : BeRead) : Served t rollups b := by
  rw [Served]
  cases hfound : found t b with
  | none =>
    rw [holders, hempty]
    rfl
  | some pos =>
    have hlt := found_lt ht hspec hfound
    omega

end ReadingBench.Rollup
