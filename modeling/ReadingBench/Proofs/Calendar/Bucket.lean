import ReadingBench.Calendar.Bucket
import ReadingBench.Proofs.Calendar.Date

namespace ReadingBench

open Calendar

namespace Date

theorem le_def {a b : Date} : a ≤ b ↔ a.dayNumber ≤ b.dayNumber := Iff.rfl

theorem lt_def {a b : Date} : a < b ↔ a.dayNumber < b.dayNumber := Iff.rfl

theorem dayNumber_monthStart (d : Date) : d.monthStart.dayNumber + d.day = d.dayNumber + 1 := by
  rw [dayNumber_eq, dayNumber_eq]
  dsimp only [monthStart]
  omega

def monthEnd (d : Date) : Date :=
  ⟨d.year, d.month, daysInMonth d.year d.month, d.year_ge, d.year_le, d.month_pos, d.month_le,
    daysInMonth_pos _ _, le_rfl⟩

theorem dayNumber_monthEnd (d : Date) : d.monthEnd.dayNumber + 1 =
    daysBeforeYear d.year + daysBeforeMonth d.year (d.month + 1) := by
  rw [dayNumber_eq, daysBeforeMonth_succ d.month_pos]
  dsimp only [monthEnd]
  push_cast
  omega

/-- A month holds the dates from its first day to its last. -/
theorem monthStart_eq_iff {a d : Date} (first_day : a.day = 1) :
    d.monthStart = a ↔ a ≤ d ∧ d ≤ a.monthEnd := by
  rw [le_def, le_def]
  constructor
  · rintro rfl
    have hstart := d.dayNumber_monthStart
    have hend := d.dayNumber_monthEnd
    have hday := d.day_pos
    have hlast := d.day_le
    rw [daysBeforeMonth_succ d.month_pos] at hend
    have hnumber := d.dayNumber_eq
    change _ ∧ d.dayNumber ≤ d.monthEnd.dayNumber
    omega
  · rintro ⟨hlow, hhigh⟩
    have hyear' : d.year ≤ a.monthEnd.year := year_le_of_dayNumber_le hhigh
    have hyear : d.year = a.year := le_antisymm hyear' (year_le_of_dayNumber_le hlow)
    have hmonth' : d.month ≤ a.monthEnd.month := month_le_of_dayNumber_le hyear hhigh
    have hmonth : d.month = a.month :=
      le_antisymm hmonth' (month_le_of_dayNumber_le hyear.symm hlow)
    apply dayNumber_injective
    have hstart := d.dayNumber_monthStart
    rw [dayNumber_eq] at hstart ⊢
    rw [dayNumber_eq d] at hstart
    rw [dayNumber_eq a, first_day, ← hyear, ← hmonth]
    dsimp only [monthStart] at hstart ⊢

theorem nextMonth?_eq_some {d e : Date} (h : d.nextMonth? = some e) :
    e.dayNumber = d.monthEnd.dayNumber + 1 ∧ e.day = 1 := by
  rw [dayNumber_monthEnd, dayNumber_eq]
  unfold nextMonth? at h
  split at h
  · rename_i hmonth
    obtain ⟨hyear, hfirst, hday⟩ := ofParts?_eq_some.1 h
    refine ⟨?_, hday⟩
    rw [hyear, hfirst, hday, hmonth, daysBeforeMonth_thirteen, daysBeforeYear_succ]
    simp [daysBeforeMonth]
  · obtain ⟨hyear, hnext, hday⟩ := ofParts?_eq_some.1 h
    refine ⟨?_, hday⟩
    rw [hyear, hnext, hday]
    push_cast
    omega

/-- Only the last month of the calendar has no next one. -/
theorem nextMonth?_eq_none {d : Date} (h : d.nextMonth? = none) : d.year = lastYear ∧ d.month = 12 := by
  unfold nextMonth? at h
  have hyear := d.year_ge
  have hyear' := d.year_le
  have hmonth := d.month_pos
  have hmonth' := d.month_le
  split at h
  · rename_i htwelve
    refine ⟨?_, htwelve⟩
    by_contra hearlier
    unfold ofParts? at h
    rw [dif_pos ⟨by omega, by decide, le_rfl, daysInMonth_pos _ _⟩] at h
    cases h
  · unfold ofParts? at h
    rw [dif_pos ⟨⟨hyear, hyear'⟩, by omega, le_rfl, daysInMonth_pos _ _⟩] at h
    cases h

/-- At least thirty days from both ends of the calendar. -/
def Inner (d : Date) : Prop :=
  first.dayNumber + 30 ≤ d.dayNumber ∧ d.dayNumber + 30 ≤ last.dayNumber

instance (d : Date) : Decidable d.Inner := inferInstanceAs (Decidable (_ ∧ _))

end Date

open Date

namespace Granularity

theorem weekStart?_eq_some {d a : Date} :
    d.weekStart? = some a ↔ a.dayNumber = d.dayNumber - d.dayNumber % 7 := by
  unfold weekStart? weekday
  rw [addDays?_eq_some]
  omega

/-- The bucket at `anchor` ends with `edge`, and the next one starts the day after. -/
structure Spans (g : Granularity) (anchor edge : Date) : Prop where
  upper : g.upperEdge? anchor = some edge
  holds : ∀ d : Date, d.Inner → (g.anchorOf? d = some anchor ↔ anchor ≤ d ∧ d ≤ edge)
  next : ∀ b, g.nextAnchor? anchor = some b →
    b.dayNumber = edge.dayNumber + 1 ∧ g.anchorOf? b = some b
  final : g.nextAnchor? anchor = none → ∀ d : Date, d.Inner → d ≤ edge

theorem spans_daily (a : Date) : daily.Spans a a where
  upper := rfl
  holds d _ := by
    rw [le_def, le_def, anchorOf?, Option.some_inj, ← dayNumber_inj]
    omega
  next b h := ⟨addDays?_eq_some.1 h, rfl⟩
  final h d inner := by
    by_contra hlater
    rw [le_def] at hlater
    have hfirst := a.first_le
    have hlast := inner.2
    obtain ⟨b, hb, -⟩ := exists_dayNumber_eq (n := a.dayNumber + 1) (by omega) (by omega)
    exact absurd (hb.symm.trans h) (by simp)

theorem spans_weekly {a d : Date} (inner : d.Inner) (h : weekly.anchorOf? d = some a) :
    ∃ e, weekly.Spans a e := by
  have hanchor := weekStart?_eq_some.1 h
  obtain ⟨hfirst, hlast⟩ := inner
  obtain ⟨e, he, hend⟩ := exists_dayNumber_eq (n := a.dayNumber + 6) (by omega) (by omega)
  refine ⟨e, he, fun d' _ => ?_, fun b hb => ?_, fun hnone d' inner' => ?_⟩
  · rw [anchorOf?, weekStart?_eq_some, le_def, le_def]
    omega
  · have hnext := addDays?_eq_some.1 hb
    refine ⟨by omega, ?_⟩
    rw [anchorOf?, weekStart?_eq_some]
    omega
  · obtain ⟨b, hb, -⟩ := exists_dayNumber_eq (n := a.dayNumber + 7) (by omega) (by omega)
    exact absurd (hb.symm.trans hnone) (by simp)

theorem spans_monthly {a : Date} (first_day : a.day = 1) : ∃ e, monthly.Spans a e := by
  cases hnext : a.nextMonth? with
  | some b =>
    obtain ⟨hnumber, hday⟩ := nextMonth?_eq_some hnext
    have hedge : monthly.upperEdge? a = some a.monthEnd := by
      have hback : b.addDays? (-1) = some a.monthEnd := addDays?_eq_some.2 (by omega)
      rw [upperEdge?, hnext, Option.bind_some, hback, Option.getD_some]
    refine ⟨_, hedge, fun d _ => ?_, fun b' hb' => ?_, fun hnone => ?_⟩
    · rw [anchorOf?, Option.some_inj, monthStart_eq_iff first_day]
    · obtain rfl := Option.some.inj (hnext.symm.trans hb')
      refine ⟨hnumber, ?_⟩
      rw [anchorOf?, Option.some_inj, monthStart_eq_iff hday, le_def, le_def]
      have hend := b.dayNumber_monthEnd
      have hpos := daysInMonth_pos b.year b.month
      rw [daysBeforeMonth_succ b.month_pos] at hend
      have hstart := b.dayNumber_eq
      omega
    · exact absurd (hnext.symm.trans hnone) (by simp)
  | none =>
    -- December of the last year: no inner date comes after its first day.
    obtain ⟨hyear, hmonth⟩ := nextMonth?_eq_none hnext
    have hstart : a.dayNumber + 30 = last.dayNumber := by
      rw [dayNumber_eq, hyear, hmonth, first_day]
      decide
    have hedge : monthly.upperEdge? a = some a := by rw [upperEdge?, hnext]; rfl
    have hfinal : ∀ d : Date, d.Inner → d ≤ a := fun d inner => by
      have hlast := inner.2
      rw [le_def]
      omega
    refine ⟨a, hedge, fun d inner => ?_, fun b hb => ?_, fun _ => hfinal⟩
    · have hle := hfinal d inner
      rw [anchorOf?, Option.some_inj, monthStart_eq_iff first_day]
      have hend : a ≤ a.monthEnd := (monthStart_eq_iff first_day).1 ?_ |>.2
      · rw [le_def] at hle hend ⊢
        rw [le_def, le_def]
        omega
      · apply dayNumber_injective
        have hstart := a.dayNumber_monthStart
        rw [first_day] at hstart
        omega
    · exact absurd (hnext.symm.trans hb) (by simp)

/-- Inner dates are in buckets. -/
theorem exists_anchorOf? (g : Granularity) {d : Date} (inner : d.Inner) :
    ∃ a e, g.anchorOf? d = some a ∧ g.Spans a e := by
  cases g with
  | daily => exact ⟨d, d, rfl, spans_daily d⟩
  | weekly =>
    obtain ⟨hfirst, hlast⟩ := id inner
    obtain ⟨a, -, ha⟩ :=
      exists_dayNumber_eq (n := d.dayNumber - d.dayNumber % 7) (by omega) (by omega)
    have hanchor : weekly.anchorOf? d = some a := weekStart?_eq_some.2 ha
    obtain ⟨e, he⟩ := spans_weekly inner hanchor
    exact ⟨a, e, hanchor, he⟩
  | monthly =>
    obtain ⟨e, he⟩ := spans_monthly (a := d.monthStart) rfl
    exact ⟨d.monthStart, e, rfl, he⟩

theorem exists_spans {g : Granularity} {d a : Date} (inner : d.Inner) (h : g.anchorOf? d = some a) :
    ∃ e, g.Spans a e := by
  obtain ⟨a', e, ha', he⟩ := g.exists_anchorOf? inner
  obtain rfl := Option.some.inj (h.symm.trans ha')
  exact ⟨e, he⟩

variable {g : Granularity} {a b d e final : Date}

/-- Later dates have later anchors. -/
theorem anchorOf?_mono {d' a' : Date} (hd : d.Inner) (hd' : d'.Inner) (hle : d ≤ d')
    (h : g.anchorOf? d = some a) (h' : g.anchorOf? d' = some a') : a ≤ a' := by
  obtain ⟨e, he⟩ := exists_spans hd h
  obtain ⟨e', he'⟩ := exists_spans hd' h'
  obtain ⟨had, -⟩ := (he.holds d hd).1 h
  obtain ⟨-, hde'⟩ := (he'.holds d' hd').1 h'
  simp only [le_def] at hle had hde' ⊢
  by_contra hbefore
  have hsame := (he'.holds d hd).2 ⟨show a'.dayNumber ≤ d.dayNumber by omega, hle.trans hde'⟩
  obtain rfl := Option.some.inj (h.symm.trans hsame)
  exact hbefore le_rfl

theorem anchorsFrom_of_lt (h : final < b) (most : Nat) : g.anchorsFrom final most (some b) = [] := by
  cases most with
  | zero => rfl
  | succ most =>
    rw [anchorsFrom, if_neg]
    rw [lt_def] at h
    rw [le_def]
    omega

theorem anchorsFrom_none (most : Nat) : g.anchorsFrom final most none = [] := by cases most <;> rfl

theorem length_anchorsFrom_le (most : Nat) (anchor : Option Date) :
    (g.anchorsFrom final most anchor).length ≤ most := by
  induction most generalizing anchor with
  | zero => cases anchor <;> exact le_rfl
  | succ most ih =>
    cases anchor with
    | none => exact Nat.zero_le _
    | some a =>
      rw [anchorsFrom]
      split
      · have hrest := ih (g.nextAnchor? a)
        rw [List.length_cons]
        omega
      · exact Nat.zero_le _

theorem length_anchors?_le {first last : Date} {anchors : List Date}
    (h : g.anchors? first last = some anchors) :
    anchors.length ≤ (last.dayNumber - first.dayNumber).toNat + 2 := by
  rw [anchors?] at h
  split at h
  · obtain rfl : [] = anchors := Option.some.inj h
    exact Nat.zero_le _
  · obtain ⟨anchor, -, h⟩ := Option.bind_eq_some_iff.1 h
    obtain rfl := Option.some.inj h
    exact length_anchorsFrom_le _ _

/-- Anchors are those of all dates from `d` on. -/
theorem anchorsFrom_spec (most : Nat) (inner : final.Inner) (hd : d.Inner) (hfinal : d ≤ final)
    (ha : g.anchorOf? d = some a) (enough : final.dayNumber - d.dayNumber < most) :
    (g.anchorsFrom final most (some a)).Pairwise (· < ·) ∧
      ∀ x, x ∈ g.anchorsFrom final most (some a) ↔
        ∃ d', d ≤ d' ∧ d' ≤ final ∧ g.anchorOf? d' = some x := by
  have between : ∀ {d d' : Date}, d.Inner → d ≤ d' → d' ≤ final → d'.Inner := by
    intro d d' hd hlow hhigh
    exact ⟨hd.1.trans hlow, (Int.add_le_add_right hhigh 30).trans inner.2⟩
  induction most generalizing a d with
  | zero =>
    rw [le_def] at hfinal
    omega
  | succ most ih =>
    obtain ⟨e, he⟩ := exists_spans hd ha
    obtain ⟨had, hde⟩ := (he.holds d hd).1 ha
    simp only [le_def, lt_def] at had hde hfinal ih ⊢
    rw [anchorsFrom, if_pos (show a ≤ final from had.trans hfinal)]
    cases hnext : g.nextAnchor? a with
    | none =>
      rw [anchorsFrom_none]
      refine ⟨List.pairwise_singleton _ _, fun x => ?_⟩
      rw [List.mem_singleton]
      constructor
      · rintro rfl
        exact ⟨d, le_rfl, hfinal, ha⟩
      · rintro ⟨d', hlow, hhigh, hx⟩
        have hd' := between hd hlow hhigh
        have ha' := (he.holds d' hd').2 ⟨had.trans hlow, he.final hnext d' hd'⟩
        exact Option.some.inj (hx.symm.trans ha')
    | some b =>
      obtain ⟨hb, hanchor⟩ := he.next b hnext
      have hrest : (g.anchorsFrom final most (some b)).Pairwise (fun x y => x.dayNumber < y.dayNumber) ∧
          ∀ x, x ∈ g.anchorsFrom final most (some b) ↔
            ∃ d', b.dayNumber ≤ d'.dayNumber ∧ d'.dayNumber ≤ final.dayNumber ∧
              g.anchorOf? d' = some x := by
        by_cases hend : b.dayNumber ≤ final.dayNumber
        · exact ih (between hd (show d.dayNumber ≤ b.dayNumber by omega) hend) hend hanchor (by omega)
        · rw [anchorsFrom_of_lt (lt_def.2 (by omega))]
          refine ⟨.nil, fun x => ⟨by simp, ?_⟩⟩
          rintro ⟨d', hlow, hhigh, -⟩
          omega
      have later : ∀ d', d.dayNumber ≤ d'.dayNumber → d'.dayNumber ≤ final.dayNumber →
          ∀ x, g.anchorOf? d' = some x → x = a ∨ b.dayNumber ≤ d'.dayNumber := by
        intro d' hlow hhigh x hx
        by_cases hsame : d'.dayNumber ≤ e.dayNumber
        · have ha' := (he.holds d' (between hd hlow hhigh)).2 ⟨had.trans hlow, hsame⟩
          exact .inl (Option.some.inj (hx.symm.trans ha'))
        · exact .inr (by omega)
      refine ⟨List.pairwise_cons.2 ⟨fun x hx => ?_, hrest.1⟩, fun x => ?_⟩
      · obtain ⟨d', hlow, hhigh, hx⟩ := (hrest.2 x).1 hx
        have hbd := between hd (show d.dayNumber ≤ b.dayNumber by omega) (hlow.trans hhigh)
        have hbx := anchorOf?_mono hbd (between hbd hlow hhigh) hlow hanchor hx
        rw [le_def] at hbx
        omega
      · rw [List.mem_cons, hrest.2]
        constructor
        · rintro (rfl | ⟨d', hlow, hhigh, hx⟩)
          · exact ⟨d, le_rfl, hfinal, ha⟩
          · exact ⟨d', by omega, hhigh, hx⟩
        · rintro ⟨d', hlow, hhigh, hx⟩
          rcases later d' hlow hhigh x hx with rfl | hnew
          · exact .inl rfl
          · exact .inr ⟨d', hnew, hhigh, hx⟩

/-- The anchors of the buckets that hold the dates of a range, each once and in order. -/
structure Covers (g : Granularity) (initial final : Date) (as : List Date) : Prop where
  anchors : g.anchors? initial final = some as
  ordered : as.Pairwise (· < ·)
  mem_iff : ∀ x, x ∈ as ↔ ∃ d, initial ≤ d ∧ d ≤ final ∧ g.anchorOf? d = some x

section Covers

variable {initial x y edge edge' : Date} {as : List Date}

theorem exists_covers (g : Granularity) (inner : initial.Inner) (inner' : final.Inner)
    (hle : initial ≤ final) : ∃ as, g.Covers initial final as := by
  obtain ⟨a, e, ha, -⟩ := g.exists_anchorOf? inner
  have hle' := hle
  rw [le_def] at hle'
  have hnot : ¬ final < initial := by
    rw [lt_def]
    omega
  obtain ⟨ordered, mem_iff⟩ := anchorsFrom_spec
    ((final.dayNumber - initial.dayNumber).toNat + 2) inner' inner hle ha (by omega)
  refine ⟨_, ?_, ordered, mem_iff⟩
  simp only [anchors?, if_neg hnot, ha]
  rfl

variable (inner : initial.Inner) (inner' : final.Inner)

include inner inner'

theorem Covers.exists_edge (h : g.Covers initial final as) (hx : x ∈ as) :
    ∃ d edge, d ≤ final ∧ x ≤ d ∧ d ≤ edge ∧ d.Inner ∧ g.Spans x edge := by
  obtain ⟨d, hlow, hhigh, hanchor⟩ := (h.mem_iff x).1 hx
  have hd : d.Inner := ⟨inner.1.trans hlow, (Int.add_le_add_right hhigh 30).trans inner'.2⟩
  obtain ⟨edge, hedge⟩ := exists_spans hd hanchor
  obtain ⟨hxd, hde⟩ := (hedge.holds d hd).1 hanchor
  exact ⟨d, edge, hhigh, hxd, hde, hd, hedge⟩

/-- The last bucket reaches to the end of the range. -/
theorem Covers.final_le_edge (h : g.Covers initial final as) (hle : initial ≤ final)
    (hx : as.getLast? = some x) (hedge : g.upperEdge? x = some edge) : final ≤ edge := by
  obtain ⟨front, rfl⟩ := List.getLast?_eq_some_iff.1 hx
  obtain ⟨d, e, hhigh, hxd, hde, hd, hspan⟩ := h.exists_edge inner inner' (x := x) (by simp)
  obtain rfl := Option.some.inj (hspan.upper.symm.trans hedge)
  obtain ⟨y, e', hy, hspan'⟩ := g.exists_anchorOf? inner'
  have hxy : x ≤ y :=
    anchorOf?_mono hd inner' hhigh ((hspan.holds d hd).2 ⟨hxd, hde⟩) hy
  have hmem := (h.mem_iff y).2 ⟨final, hle, le_def.2 le_rfl, hy⟩
  rcases List.mem_append.1 hmem with hfront | hlast
  · have hbefore := (List.pairwise_append.1 h.ordered).2.2 y hfront x (by simp)
    rw [lt_def] at hbefore
    rw [le_def] at hxy
    omega
  · obtain rfl := List.mem_singleton.1 hlast
    exact ((hspan.holds final inner').1 hy).2

end Covers

end Granularity
end ReadingBench
