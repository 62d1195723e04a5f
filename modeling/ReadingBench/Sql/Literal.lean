import ReadingBench.Sql.Statement

namespace ReadingBench.Sql

def quoteText (s : String) : String := String.ofList (Text.quote '\'' s.toList)

/-- Backslashes stand for themselves. -/
def Value.literalChars : Value → List Char
  | null => ['N', 'U', 'L', 'L']
  | int n => Decimal.signed n.toInt
  | float x => floatChars x
  | text s => Text.quote '\'' s.toList
  | dateTime t => Text.quote '\'' t.chars
  | date d => Text.quote '\'' d.chars

def Value.literal (v : Value) : String := String.ofList v.literalChars

/-- `(v1, v2)`. -/
def tupleText (values : List Value) : String := "(" ++ ", ".intercalate (values.map Value.literal) ++ ")"

/-- `INSERT IGNORE` with its values in the text. -/
structure RawInsert where
  table : TableRef
  columns : List String
  rows : List (List Value)

namespace RawInsert

def head (s : RawInsert) : String :=
  "INSERT IGNORE INTO " ++ s.table.sql ++ "\n(" ++ quoteIdents s.columns ++ ") VALUES "

/-- There is no statement without rows. -/
def sql? (s : RawInsert) : Option String :=
  if s.rows.isEmpty then none else some (s.head ++ ",\n".intercalate (s.rows.map tupleText))

end RawInsert
end ReadingBench.Sql
