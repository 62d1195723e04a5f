import ReadingBench.Calendar.Date
import ReadingBench.Population.Attribute

namespace ReadingBench

namespace Date

/-- Weeks run from Monday to Sunday. Those at the ends of the calendar may reach outside it. -/
def weekStart? (d : Date) : Option Date := d.addDays? (-(d.weekday : Int))

def monthStart (d : Date) : Date :=
  ⟨d.year, d.month, 1, d.year_ge, d.year_le, d.month_pos, d.month_le, by decide, by
    unfold Calendar.daysInMonth; split <;> split <;> omega⟩

/-- The first day of the next month. -/
def nextMonth? (d : Date) : Option Date :=
  if d.month = 12 then ofParts? (d.year + 1) 1 1 else ofParts? d.year (d.month + 1) 1

end Date

namespace Granularity

/-- The anchor of the bucket that holds a date. -/
def anchorOf? : Granularity → Date → Option Date
  | daily, d => some d
  | weekly, d => d.weekStart?
  | monthly, d => some d.monthStart

/-- The last day of the bucket at `anchor`. The last month of the calendar has no next month to end
before; there the anchor itself counts. -/
def upperEdge? : Granularity → Date → Option Date
  | daily, anchor => some anchor
  | weekly, anchor => anchor.addDays? 6
  | monthly, anchor => some ((anchor.nextMonth?.bind (·.addDays? (-1))).getD anchor)

def nextAnchor? : Granularity → Date → Option Date
  | daily, anchor => anchor.addDays? 1
  | weekly, anchor => anchor.addDays? 7
  | monthly, anchor => anchor.nextMonth?

/-- Anchors from one on, up to the date `last`, and at most `most`. -/
def anchorsFrom (g : Granularity) (last : Date) : Nat → Option Date → List Date
  | most + 1, some anchor =>
    if anchor ≤ last then anchor :: g.anchorsFrom last most (g.nextAnchor? anchor) else []
  | _, _ => []

/-- The anchors of all buckets that hold dates from `first` to `last`. There are none if `last` comes
before `first`, and no more than days in between and one before. -/
def anchors? (g : Granularity) (first last : Date) : Option (List Date) := do
  if last < first then return []
  let anchor ← g.anchorOf? first
  return g.anchorsFrom last ((last.dayNumber - first.dayNumber).toNat + 2) (some anchor)

end Granularity
end ReadingBench
