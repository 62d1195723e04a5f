import ReadingBench.Calendar.Text
import ReadingBench.Decimal.Shortest

namespace ReadingBench.Sql

inductive Value where
  | null
  | int (n : Int64)
  | float (x : Float)
  | text (s : String)
  | dateTime (t : DateTime)
  | date (d : Date)
  deriving BEq, Inhabited

namespace Value

def isNull : Value → Bool
  | null => true
  | _ => false

def typeName : Value → String
  | null => "Null"
  | int _ => "Int"
  | float _ => "Float"
  | text _ => "Text"
  | dateTime _ => "DateTime"
  | date _ => "Date"

def asText? : Value → Option String
  | text s => some s
  | _ => none

def asInt? : Value → Option Int64
  | int n => some n
  | _ => none

/-- Times written through statement text are kept as text, and read back from it. -/
def asDateTime? : Value → Option DateTime
  | dateTime t => some t
  | text s => DateTime.ofText? s
  | _ => none

def asDate? : Value → Option Date
  | date d => some d
  | dateTime t => some t.date
  | text s => Date.ofText? s
  | _ => none

def chars : Value → List Char
  | null => ['N', 'U', 'L', 'L']
  | int n => Decimal.signed n.toInt
  | float x => floatChars x
  | text s => s.toList
  | dateTime t => t.chars
  | date d => d.chars

def display (v : Value) : String := String.ofList v.chars

/-- Absent text is NULL. -/
def ofText? : Option String → Value
  | some s => text s
  | none => null

/-- Unsigned numbers beyond the signed range wrap. -/
def ofUInt64 (n : UInt64) : Value := int n.toInt64

def ofUInt32 (n : UInt32) : Value := ofUInt64 n.toUInt64

def ofUInt8 (n : UInt8) : Value := ofUInt64 n.toUInt64

end Value

/-- A fetched row: values with the names of the selected columns, in select order. -/
structure Row where
  columns : List String
  values : List Value
  deriving BEq

namespace Row

/-- The value of the first column of that name. -/
def get? (row : Row) (column : String) : Option Value :=
  (row.columns.zip row.values).lookup column

def getText? (row : Row) (column : String) : Option String := row.get? column >>= Value.asText?

def getInt? (row : Row) (column : String) : Option Int64 := row.get? column >>= Value.asInt?

def getDateTime? (row : Row) (column : String) : Option DateTime :=
  row.get? column >>= Value.asDateTime?

def getDate? (row : Row) (column : String) : Option Date := row.get? column >>= Value.asDate?

end Row
end ReadingBench.Sql
