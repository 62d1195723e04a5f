import ReadingBench.Text.Quoted

namespace ReadingBench.Text

def hexDigit (n : Nat) : Char := if n < 10 then Char.ofNat (48 + n) else Char.ofNat (87 + n)

/-- A character inside a JSON string. The quote, the backslash and the control characters below 0x20
are escaped, by their short forms where they have one. -/
def jsonChar (c : Char) : List Char :=
  match c with
  | '"' => ['\\', '"']
  | '\\' => ['\\', '\\']
  | '\x08' => ['\\', 'b']
  | '\t' => ['\\', 't']
  | '\n' => ['\\', 'n']
  | '\x0c' => ['\\', 'f']
  | '\r' => ['\\', 'r']
  | c =>
    if c.toNat < 0x20 then ['\\', 'u', '0', '0', hexDigit (c.toNat / 16), hexDigit (c.toNat % 16)]
    else [c]

def jsonString (s : String) : List Char := '"' :: (s.toList.flatMap jsonChar ++ ['"'])

def jsonStrings : List String → List Char
  | [] => []
  | [s] => jsonString s
  | s :: t :: ss => jsonString s ++ ',' :: jsonStrings (t :: ss)

/-- `["a","b"]`. -/
def encodeList (ss : List String) : String := String.ofList ('[' :: (jsonStrings ss ++ [']']))

end ReadingBench.Text
