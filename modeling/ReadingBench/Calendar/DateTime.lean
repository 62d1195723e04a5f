import ReadingBench.Calendar.Date

namespace ReadingBench

def nanosPerSecond : Nat := 1000000000

/-- A time of day on a date, without a zone. A leap second is the last second of a minute with a nanosecond
count of a whole second or more. -/
structure DateTime where
  date : Date
  /-- Seconds since midnight. -/
  second : Nat
  nano : Nat
  second_lt : second < 86400
  nano_lt : nano < nanosPerSecond ∨ nano < 2 * nanosPerSecond ∧ second % 60 = 59
  deriving DecidableEq

namespace DateTime

def midnight (date : Date) : DateTime := ⟨date, 0, 0, by decide, .inl (by decide)⟩

/-- `second` 59 with a nanosecond count of a second or more is a leap second. -/
def ofParts? (date : Date) (hour minute second nano : Nat) : Option DateTime :=
  let total := 3600 * hour + 60 * minute + second
  if h : (hour < 24 ∧ minute < 60 ∧ second < 60) ∧
      (nano < nanosPerSecond ∨ nano < 2 * nanosPerSecond ∧ second = 59) then
    some ⟨date, total, nano, by omega, by omega⟩
  else none

def hour (t : DateTime) : Nat := t.second / 3600

def minute (t : DateTime) : Nat := t.second / 60 % 60

def secondOfMinute (t : DateTime) : Nat := t.second % 60

def isLeapSecond (t : DateTime) : Bool := nanosPerSecond ≤ t.nano

/-- The time `seconds` later, or earlier when negative; `none` outside the calendar. Moving away from
a leap second first leaves it, towards the side moved to. -/
def addSeconds? (t : DateTime) (seconds : Int) : Option DateTime :=
  if seconds = 0 then some t
  else
    let start : Int := if t.isLeapSecond ∧ seconds < 0 then t.second + 1 else t.second
    let total := start + seconds
    (t.date.addDays? (total / 86400)).map fun date =>
      ⟨date, (total % 86400).toNat, t.nano % nanosPerSecond, by omega,
        .inl (Nat.mod_lt _ (by decide))⟩

def addMinutes? (t : DateTime) (minutes : Int) : Option DateTime := t.addSeconds? (60 * minutes)

def addHours? (t : DateTime) (hours : Int) : Option DateTime := t.addSeconds? (3600 * hours)

def addDays? (t : DateTime) (days : Int) : Option DateTime := t.addSeconds? (86400 * days)

end DateTime
end ReadingBench
