import ReadingBench.Calendar.DateTime
import ReadingBench.Decimal.Digits
import ReadingBench.Text.Blank

namespace ReadingBench

open Text Decimal

namespace Calendar

/-- Four digits for the years 0 to 9999; others carry a sign. -/
def yearText (year : Int) : List Char :=
  if 0 ≤ year ∧ year ≤ 9999 then padded 4 year.toNat
  else (if year < 0 then '-' else '+') :: padded 4 year.natAbs

/-- What may stand before a mark such as the dashes of a date. -/
inductive Spacing where
  | tight
  | loose

/-- The rest after `mark`. -/
def Spacing.mark? (spacing : Spacing) (mark : Char) (cs : List Char) : Option (List Char) :=
  let cs := match spacing with
    | .tight => cs
    | .loose => skipBlank cs
  match cs with
  | c :: rest => if c = mark then some rest else none
  | [] => none

/-- At least one digit and at most `most`; the number and the rest. -/
def readDigits? (most : Nat) (cs : List Char) : Option (Nat × List Char) :=
  let ds := (cs.take most).takeWhile isDigit
  if ds.isEmpty then none else some (value ds, cs.drop ds.length)

/-- A number of one or two digits, after optional white space. -/
def readPair? (cs : List Char) : Option (Nat × List Char) := readDigits? 2 (skipBlank cs)

/-- A year: any number of digits after a sign, else one to four. -/
def readYear? (cs : List Char) : Option (Int × List Char) :=
  match skipBlank cs with
  | '-' :: rest => (readDigits? rest.length rest).map fun (n, rest) => (-(n : Int), rest)
  | '+' :: rest => (readDigits? rest.length rest).map fun (n, rest) => ((n : Int), rest)
  | rest => (readDigits? 4 rest).map fun (n, rest) => ((n : Int), rest)

/-- A fraction of a second, in nanoseconds: digits after the ninth are dropped. -/
def readFraction? (cs : List Char) : Option (Nat × List Char) :=
  match cs with
  | '.' :: rest =>
    (readDigits? 9 rest).map fun (n, after) =>
      (n * Nat.pow 10 (9 - (rest.length - after.length)), after.dropWhile isDigit)
  | _ => some (0, cs)

end Calendar

open Calendar

namespace Date

def chars (d : Date) : List Char :=
  yearText d.year ++ '-' :: padded 2 d.month ++ '-' :: padded 2 d.day

/-- `YYYY-MM-DD`. -/
def text (d : Date) : String := String.ofList d.chars

def read? (spacing : Spacing) (cs : List Char) : Option (Date × List Char) := do
  let (year, cs) ← readYear? cs
  let cs ← spacing.mark? '-' cs
  let (month, cs) ← readPair? cs
  let cs ← spacing.mark? '-' cs
  let (day, cs) ← readPair? cs
  let date ← ofParts? year month day
  return (date, cs)

/-- Reads the whole text as a date of the column form. -/
def ofText? (s : String) : Option Date := do
  let (date, rest) ← read? .tight s.toList
  if rest.isEmpty then some date else none

/-- Reads the whole text as a date of the record form. -/
def ofRecordText? (s : String) : Option Date := do
  let (date, rest) ← read? .loose s.toList
  if (skipBlank rest).isEmpty then some date else none

end Date

namespace DateTime

def shownSecond (t : DateTime) : Nat :=
  if t.isLeapSecond then t.secondOfMinute + 1 else t.secondOfMinute

def timeChars (t : DateTime) : List Char :=
  padded 2 t.hour ++ ':' :: padded 2 t.minute ++ ':' :: padded 2 t.shownSecond

def chars (t : DateTime) : List Char := t.date.chars ++ ' ' :: t.timeChars

/-- `YYYY-MM-DD HH:MM:SS`. -/
def text (t : DateTime) : String := String.ofList t.chars

/-- The fraction in 3, 6 or 9 digits, the least number that is exact, and nothing when it is zero. -/
def fractionChars (t : DateTime) : List Char :=
  let nano := t.nano % nanosPerSecond
  if nano = 0 then []
  else if nano % 1000000 = 0 then '.' :: padded 3 (nano / 1000000)
  else if nano % 1000 = 0 then '.' :: padded 6 (nano / 1000)
  else '.' :: padded 9 nano

/-- `YYYY-MM-DDTHH:MM:SS` and the fraction. -/
def recordText (t : DateTime) : String :=
  String.ofList (t.date.chars ++ 'T' :: t.timeChars ++ t.fractionChars)

/-- Second 60 is the leap second after second 59. -/
def ofShown? (date : Date) (hour minute second nano : Nat) : Option DateTime :=
  if second = 60 then ofParts? date hour minute 59 (nanosPerSecond + nano)
  else ofParts? date hour minute second nano

def readTime? (spacing : Spacing) (cs : List Char) : Option ((Nat × Nat × Nat) × List Char) := do
  let (hour, cs) ← readPair? cs
  let cs ← spacing.mark? ':' cs
  let (minute, cs) ← readPair? cs
  let cs ← spacing.mark? ':' cs
  let (second, cs) ← readPair? cs
  return ((hour, minute, second), cs)

/-- Reads the whole text as a time of the column form. Any amount of white space, also none, stands
between date and time. -/
def ofText? (s : String) : Option DateTime := do
  let (date, cs) ← Date.read? .tight s.toList
  let ((hour, minute, second), cs) ← readTime? .tight (skipBlank cs)
  if cs.isEmpty then ofShown? date hour minute second 0 else none

/-- Reads the whole text as a time of the record form. -/
def ofRecordText? (s : String) : Option DateTime := do
  let (date, cs) ← Date.read? .loose s.toList
  let cs ← Spacing.loose.mark? 'T' cs
  let ((hour, minute, second), cs) ← readTime? .loose cs
  let (nano, cs) ← readFraction? cs
  if (skipBlank cs).isEmpty then ofShown? date hour minute second nano else none

end DateTime
end ReadingBench
