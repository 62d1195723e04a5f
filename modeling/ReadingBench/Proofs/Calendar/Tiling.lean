import ReadingBench.Proofs.Calendar.Bucket

namespace ReadingBench.Granularity

open Date

variable {g : Granularity} {a b d final initial : Date} {as : List Date}

/-- An anchor is the anchor of its own bucket. -/
theorem anchorOf?_anchor (h : g.anchorOf? d = some a) : g.anchorOf? a = some a := by
  cases g with
  | daily => rfl
  | weekly =>
    have hanchor := weekStart?_eq_some.1 h
    refine weekStart?_eq_some.2 ?_
    omega
  | monthly =>
    obtain rfl := Option.some.inj h
    rfl

/-- The day after the bucket at one anchor is the other anchor. -/
def Adjoins (g : Granularity) (a b : Date) : Prop :=
  ∃ edge, g.upperEdge? a = some edge ∧ edge.addDays? 1 = some b

theorem head?_anchorsFrom (most : Nat) (h : b ≤ final) :
    (g.anchorsFrom final (most + 1) (some b)).head? = some b := by
  rw [anchorsFrom, if_pos h, List.head?_cons]

theorem mem_head?_anchorsFrom {most : Nat} (h : b ∈ (g.anchorsFrom final most (some a)).head?) : b = a := by
  cases most with
  | zero => cases h
  | succ most =>
    rw [anchorsFrom] at h
    split at h
    · exact (Option.some.inj h).symm
    · cases h

/-- Each anchor that the list goes on to is the day after the bucket before it. -/
theorem isChain_anchorsFrom (most : Nat) (inner : final.Inner) (hd : d.Inner) (hfinal : d ≤ final)
    (ha : g.anchorOf? d = some a) : (g.anchorsFrom final most (some a)).IsChain g.Adjoins := by
  induction most generalizing a d with
  | zero => exact .nil
  | succ most ih =>
    obtain ⟨edge, hspans⟩ := exists_spans hd ha
    obtain ⟨had, hde⟩ := (hspans.holds d hd).1 ha
    rw [le_def] at had hde hfinal
    rw [anchorsFrom, if_pos (le_def.2 (had.trans hfinal))]
    cases hnext : g.nextAnchor? a with
    | none =>
      rw [anchorsFrom_none]
      exact .singleton a
    | some b =>
      obtain ⟨hb, hanchor⟩ := hspans.next b hnext
      refine List.isChain_cons.2 ⟨fun c hc => ?_, ?_⟩
      · obtain rfl := mem_head?_anchorsFrom hc
        exact ⟨edge, hspans.upper, addDays?_eq_some.2 hb⟩
      · by_cases hend : b ≤ final
        · -- Only anchors up to the last date are known to be inside the calendar.
          have hinner : b.Inner := by
            obtain ⟨hlow, -⟩ := hd
            obtain ⟨-, hhigh⟩ := inner
            rw [le_def] at hend
            exact ⟨by omega, by omega⟩
          exact ih hinner hend hanchor
        · rw [anchorsFrom_of_lt (lt_def.2 (not_le.1 hend))]
          exact .nil

/-- Buckets that tile the dates from one to another. -/
structure Tiles (g : Granularity) (initial final : Date) (as : List Date) : Prop where
  nonempty : as ≠ []
  ordered : as.Pairwise (· < ·)
  first : as.head? = g.anchorOf? initial
  own : ∀ a ∈ as, g.anchorOf? a = some a
  adjoined : as.IsChain g.Adjoins
  last : ∃ a edge, as.getLast? = some a ∧ g.upperEdge? a = some edge ∧ a ≤ final ∧ final ≤ edge
  /-- A date of the range lies in one listed bucket and in no other, and that is the one it belongs to. -/
  holds : ∀ d, initial ≤ d → d ≤ final → ∃ a, g.anchorOf? d = some a ∧
    ∀ b, (b ∈ as ∧ ∃ edge, g.upperEdge? b = some edge ∧ b ≤ d ∧ d ≤ edge) ↔ b = a

section Covers

variable (inner : initial.Inner) (inner' : final.Inner)

include inner inner'

theorem Covers.holds (h : g.Covers initial final as) (hlow : initial ≤ d) (hhigh : d ≤ final) :
    ∃ a, g.anchorOf? d = some a ∧
      ∀ b, (b ∈ as ∧ ∃ edge, g.upperEdge? b = some edge ∧ b ≤ d ∧ d ≤ edge) ↔ b = a := by
  have hd : d.Inner := ⟨inner.1.trans hlow, (Int.add_le_add_right hhigh 30).trans inner'.2⟩
  obtain ⟨a, edge, ha, hspans⟩ := g.exists_anchorOf? hd
  refine ⟨a, ha, fun b => ⟨?_, ?_⟩⟩
  · rintro ⟨hb, edge', hedge', hin⟩
    obtain ⟨_, edge'', -, -, -, -, hspans'⟩ := h.exists_edge inner inner' hb
    obtain rfl := Option.some.inj (hspans'.upper.symm.trans hedge')
    exact Option.some.inj (((hspans'.holds d hd).2 hin).symm.trans ha)
  · rintro rfl
    exact ⟨(h.mem_iff b).2 ⟨d, hlow, hhigh, ha⟩, edge, hspans.upper, (hspans.holds d hd).1 ha⟩

theorem Covers.last (h : g.Covers initial final as) (hle : initial ≤ final) (nonempty : as ≠ []) :
    ∃ a edge, as.getLast? = some a ∧ g.upperEdge? a = some edge ∧ a ≤ final ∧ final ≤ edge := by
  have hlast : as.getLast? = some (as.getLast nonempty) := List.getLast?_eq_some_getLast nonempty
  obtain ⟨d, edge, hhigh, had, -, -, hspans⟩ :=
    h.exists_edge inner inner' (List.getLast_mem nonempty)
  exact ⟨_, edge, hlast, hspans.upper, le_def.2 ((le_def.1 had).trans hhigh),
    h.final_le_edge inner inner' hle hlast hspans.upper⟩

end Covers

/-- Dates that are not at the ends of the calendar are tiled by the buckets that are listed for them. -/
theorem anchors?_tile (g : Granularity) (inner : initial.Inner) (inner' : final.Inner)
    (hle : initial ≤ final) : ∃ as, g.anchors? initial final = some as ∧ g.Tiles initial final as := by
  obtain ⟨a, edge, ha, hspans⟩ := g.exists_anchorOf? inner
  obtain ⟨as, hcovers⟩ := g.exists_covers inner inner' hle
  have hfrom : as = g.anchorsFrom final ((final.dayNumber - initial.dayNumber).toNat + 2) (some a) := by
    have hanchors := hcovers.anchors
    have hnot : ¬final < initial := not_lt.2 (le_def.1 hle)
    rw [anchors?, if_neg hnot, ha] at hanchors
    exact (Option.some.inj hanchors).symm
  have hhead : as.head? = some a := by
    rw [hfrom]
    exact head?_anchorsFrom _ (le_def.2 ((le_def.1 ((hspans.holds initial inner).1 ha).1).trans hle))
  have nonempty : as ≠ [] := by
    rintro rfl
    cases hhead
  refine ⟨as, hcovers.anchors, nonempty, hcovers.ordered, hhead.trans ha.symm, fun x hx => ?_, ?_,
    hcovers.last inner inner' hle nonempty, fun d => hcovers.holds inner inner'⟩
  · obtain ⟨d, -, -, hd⟩ := (hcovers.mem_iff x).1 hx
    exact anchorOf?_anchor hd
  · rw [hfrom]
    exact isChain_anchorsFrom _ inner' inner hle ha

/-- Months from December over a leap day. -/
def december : Date := ⟨2015, 12, 31, by decide, by decide, by decide, by decide, by decide, by decide⟩

def leapDay : Date := ⟨2016, 2, 29, by decide, by decide, by decide, by decide, by decide, by decide⟩

theorem anchors?_tile_leapDay : december.Inner ∧ leapDay.Inner ∧ december ≤ leapDay ∧
    ∃ as, monthly.anchors? december leapDay = some as ∧ as.length = 3 ∧
      monthly.Tiles december leapDay as := by
  have inner : december.Inner := by decide +kernel
  have inner' : leapDay.Inner := by decide +kernel
  have hle : december ≤ leapDay := by decide +kernel
  obtain ⟨as, hanchors, htiles⟩ := anchors?_tile monthly inner inner' hle
  have hlength : (monthly.anchors? december leapDay).map (·.length) = some 3 := by decide +kernel
  rw [hanchors] at hlength
  exact ⟨inner, inner', hle, as, hanchors, Option.some.inj hlength, htiles⟩

end ReadingBench.Granularity
