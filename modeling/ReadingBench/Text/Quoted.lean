namespace ReadingBench.Text

/-- The text with every `mark` doubled. -/
def quotedBody (mark : Char) : List Char → List Char
  | [] => []
  | c :: cs => if c = mark then mark :: mark :: quotedBody mark cs else c :: quotedBody mark cs

def quote (mark : Char) (cs : List Char) : List Char := mark :: (quotedBody mark cs ++ [mark])

/-- Reads on from the opening mark: the text and what stands behind the closing mark, if there is a
closing mark. -/
def readBody? (mark : Char) : List Char → Option (List Char × List Char)
  | [] => none
  | [c] => if c = mark then some ([], []) else none
  | c :: d :: cs =>
    if c = mark then
      if d = mark then (readBody? mark cs).map fun (text, rest) => (mark :: text, rest)
      else some ([], d :: cs)
    else (readBody? mark (d :: cs)).map fun (text, rest) => (c :: text, rest)

theorem readBody?_mark_mark (mark : Char) (cs : List Char) :
    readBody? mark (mark :: mark :: cs) =
      (readBody? mark cs).map fun (text, rest) => (mark :: text, rest) := by
  simp [readBody?]

theorem readBody?_cons {mark c : Char} (h : c ≠ mark) (cs : List Char) :
    readBody? mark (c :: cs) = (readBody? mark cs).map fun (text, rest) => (c :: text, rest) := by
  cases cs <;> simp [readBody?, h]

theorem readBody?_body (mark : Char) (cs : List Char) {rest : List Char}
    (h : rest.head? ≠ some mark) :
    readBody? mark (quotedBody mark cs ++ mark :: rest) = some (cs, rest) := by
  induction cs with
  | nil =>
    cases rest with
    | nil => simp [quotedBody, readBody?]
    | cons d rest => simp_all [quotedBody, readBody?]
  | cons c cs ih =>
    by_cases hc : c = mark
    · simp [quotedBody, hc, readBody?_mark_mark, ih]
    · simp [quotedBody, hc, readBody?_cons hc, ih]

end ReadingBench.Text
