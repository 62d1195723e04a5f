import ReadingBench.Proofs.Rollup.Rolled

namespace ReadingBench.Rollup

open Sql Store Outcome

/-- Further upserts of these rollups find a row each and write what it shows in the end. -/
structure Settled (done : List BeRead) (t : Table) : Prop where
  finds : ∀ b ∈ done, (found t b).isSome
  shows : ∀ pos, shown t done pos = (entry (t.rows.getD pos [])).2

/-- The values of a row's columns, without the time of its last change. -/
def untimed (row : Tuple) : List Value := Keyspace.beRead.columns.map (Keyspace.beRead.cell row)

theorem untimed_eq (row : Tuple) :
    untimed row = (List.range 3).map (fun i => row.getD i .null) ++ (entry row).2 := rfl

variable {t u v : Table} {done : List BeRead}

theorem shown_congr (hfound : ∀ b ∈ done, found v b = found u b) {pos : Nat}
    (hrow : v.rows.getD pos [] = u.rows.getD pos []) : shown v done pos = shown u done pos := by
  have hfilter : done.filter (fun b => found v b = some pos) = done.filter fun b => found u b = some pos :=
    List.filter_congr fun b hb => by rw [hfound b hb]
  rw [shown, shown, hfilter, hrow]

theorem getD_set (rows : Array Tuple) {pos : Nat} (hlt : pos < rows.size) (row : Tuple) (q : Nat) :
    (rows.setIfInBounds pos row).getD q [] = if q = pos then row else rows.getD q [] := by
  simp only [Array.getD_eq_getD_getElem?]
  split
  case isTrue h => simp [h, hlt]
  case isFalse h => rw [Array.getElem?_setIfInBounds_ne (Ne.symm h)]

theorem getD_push (rows : Array Tuple) (row : Tuple) (q : Nat) :
    (rows.push row).getD q [] = if q = rows.size then row else rows.getD q [] := by
  rw [Array.getD_eq_getD_getElem?, Array.getElem?_push, Array.getD_eq_getD_getElem?]
  split <;> rfl

theorem Settled.append (h : Settled done u) (hu : u.Sound) (hspec : u.spec = Keyspace.beRead.spec)
    {b : BeRead} (hid : ∀ d ∈ done, d.id ≠ b.id) (hfree : found u b = none) {now : Value}
    (happend : u.append (b.toRow ++ [now]) = .ok v) : Settled (done ++ [b]) v := by
  have hnew := found_appended hu hspec happend
  have hold : ∀ d ∈ done, found v d = found u d := by
    intro d hd
    obtain ⟨pos, hpos⟩ := Option.isSome_iff_exists.1 (h.finds d hd)
    rw [hpos, found_append_of_found hu hspec happend hfree (hid d hd) hpos]
  obtain ⟨keys, -, rfl⟩ := Table.append_eq_ok.1 happend
  constructor
  · intro d hd
    rcases List.mem_append.1 hd with hd | hd
    · rw [hold d hd]
      exact h.finds d hd
    · rw [List.mem_singleton.1 hd, hnew]
      rfl
  · intro pos
    rw [shown_append, hnew]
    dsimp only
    rw [getD_push]
    by_cases hpos : pos = u.rows.size
    · rw [if_pos (congrArg some hpos.symm), if_pos hpos]
      rfl
    · rw [if_neg fun heq => hpos (Option.some.inj heq).symm, if_neg hpos, ← h.shows pos]
      refine shown_congr hold ?_
      dsimp only
      rw [getD_push, if_neg hpos]

theorem Settled.overwrite (h : Settled done u) {b : BeRead} {pos : Nat} (hpos : found u b = some pos)
    (hlt : pos < u.rows.size) {row : Tuple} (hrow : (entry row).2 = b.stats.values) :
    Settled (done ++ [b]) { u with rows := u.rows.setIfInBounds pos row } := by
  -- Where a rollup is found hangs on the indexes alone.
  have hfound : ∀ d, found { u with rows := u.rows.setIfInBounds pos row } d = found u d := fun _ => rfl
  constructor
  · intro d hd
    rw [hfound]
    rcases List.mem_append.1 hd with hd | hd
    · exact h.finds d hd
    · rw [List.mem_singleton.1 hd, hpos]
      rfl
  · intro q
    rw [shown_append, hfound, hpos]
    dsimp only
    rw [getD_set _ hlt]
    by_cases hq : q = pos
    · rw [if_pos (congrArg some hq.symm), if_pos hq, hrow]
    · rw [if_neg fun heq => hq (Option.some.inj heq).symm, if_neg hq, ← h.shows q]
      refine shown_congr (fun d _ => hfound d) ?_
      dsimp only
      rw [getD_set _ hlt, if_neg hq]

/-- Upserts with different ids settle a table. -/
theorem Upserted.settled (h : Upserted t done u) (ht : t.Sound) (hspec : t.spec = Keyspace.beRead.spec)
    (ids : (done.map (·.id)).Nodup) : Settled done u := by
  induction h with
  | nil => exact ⟨by simp, fun _ => rfl⟩
  | @snoc done b u v now applied before last ih =>
    rw [List.map_append, List.nodup_append] at ids
    obtain ⟨hdone, -, hapart⟩ := ids
    have hid : ∀ d ∈ done, d.id ≠ b.id := fun d hd => hapart _ (List.mem_map_of_mem hd) _ (by simp)
    rcases apply_upsert (before.sound ht) (before.spec_eq.trans hspec) last with
      ⟨hfree, happend⟩ | ⟨pos, hpos, hlt, rfl, hentry⟩
    · exact (ih hdone).append (before.sound ht) (before.spec_eq.trans hspec) hid hfree happend
    · exact (ih hdone).overwrite hpos hlt (congrArg Prod.snd hentry)

/-- What upserts of these rollups, which all find rows, make of `t`: a row keeps its keys and its category,
and shows the statistics of the last one that finds it. -/
structure Rewritten (t : Table) (done : List BeRead) (u : Table) : Prop where
  indexes : u.indexes = t.indexes
  size : u.rows.size = t.rows.size
  keeps : ∀ pos, ∀ i < 3, (u.rows.getD pos []).getD i .null = (t.rows.getD pos []).getD i .null
  shows : ∀ pos, (entry (u.rows.getD pos [])).2 = shown t done pos

theorem Upserted.rewritten (h : Upserted t done u) (ht : t.Sound) (hspec : t.spec = Keyspace.beRead.spec)
    (finds : ∀ b ∈ done, (found t b).isSome) : Rewritten t done u := by
  induction h with
  | nil => exact ⟨rfl, rfl, fun _ _ _ => rfl, fun _ => rfl⟩
  | @snoc done b u v now applied before last ih =>
    have hu := ih fun d hd => finds d (by simp [hd])
    have hsame : found u b = found t b := by
      obtain ⟨ids, aids, hindexes⟩ := exists_indexes ht hspec
      rw [found_eq (before.spec_eq.trans hspec) (hu.indexes.trans hindexes), found_eq hspec hindexes]
    rcases apply_upsert (before.sound ht) (before.spec_eq.trans hspec) last with
      ⟨hfree, -⟩ | ⟨pos, hpos, hlt, rfl, hentry⟩
    · have hfinds := finds b (by simp)
      rw [← hsame, hfree] at hfinds
      cases hfinds
    · refine ⟨hu.indexes, by simp [hu.size], fun q i hi => ?_, fun q => ?_⟩
      · dsimp only
        rw [getD_set _ hlt]
        by_cases hq : q = pos
        · rw [if_pos hq, getD_overwritten _ _ _ hi, hu.keeps pos i hi, hq]
        · rw [if_neg hq, hu.keeps q i hi]
      · dsimp only
        rw [getD_set _ hlt, shown_append, ← hsame, hpos]
        by_cases hq : q = pos
        · rw [if_pos hq, if_pos (congrArg some hq.symm), hentry]
        · rw [if_neg hq, if_neg fun heq => hq (Option.some.inj heq).symm, hu.shows q]

/-- Upserts that have settled a table change no row of it, but for the times. -/
theorem Settled.unchanged (h : Settled done t) (ht : t.Sound) (hspec : t.spec = Keyspace.beRead.spec)
    (hu : Upserted t done u) : u.rows.toList.map untimed = t.rows.toList.map untimed := by
  have hrewritten := hu.rewritten ht hspec h.finds
  have hrow : ∀ pos, untimed (u.rows.getD pos []) = untimed (t.rows.getD pos []) := by
    intro pos
    rw [untimed_eq, untimed_eq, hrewritten.shows, h.shows]
    congr 1
    exact List.map_congr_left fun i hi => hrewritten.keeps pos i (List.mem_range.1 hi)
  apply List.ext_getElem
  · simp [hrewritten.size]
  · intro pos hpos hpos'
    simp only [List.length_map, Array.length_toList] at hpos hpos'
    have hcells := hrow pos
    simp only [Array.getD, hpos, hpos', dif_pos] at hcells
    simpa using hcells

end ReadingBench.Rollup
