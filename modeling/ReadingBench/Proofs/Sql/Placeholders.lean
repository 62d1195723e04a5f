import Mathlib
import ReadingBench.Proofs.Chunk
import ReadingBench.Sql.Statement

namespace ReadingBench.Sql

/-- The question marks in a text. -/
def questionMarks (text : String) : Nat := text.toList.count '?'

theorem questionMarks_append (a b : String) : questionMarks (a ++ b) = questionMarks a + questionMarks b := by
  rw [questionMarks, String.toList_append, List.count_append]
  rfl

theorem count_intercalate {α : Type} [BEq α] [LawfulBEq α] {a : α} {gap : List α} (hgap : a ∉ gap)
    (xs : List (List α)) : (gap.intercalate xs).count a = (xs.map (List.count a)).sum := by
  induction xs with
  | nil => rfl
  | cons x xs ih =>
    cases xs with
    | nil => simp [List.intercalate]
    | cons y xs =>
      rw [List.intercalate_cons_cons, List.count_append, List.count_append, ih, List.count_eq_zero.2 hgap]
      simp

theorem questionMarks_intercalate {gap : String} (hgap : '?' ∉ gap.toList) (texts : List String) :
    questionMarks (gap.intercalate texts) = (texts.map questionMarks).sum := by
  rw [questionMarks, String.toList_intercalate, count_intercalate hgap, List.map_map]
  rfl

theorem count_quotedBody {mark c : Char} (h : c ≠ mark) (cs : List Char) :
    (Text.quotedBody mark cs).count c = cs.count c := by
  induction cs with
  | nil => rfl
  | cons d cs ih =>
    rw [Text.quotedBody]
    split
    · subst d
      simp [List.count_cons_of_ne h.symm, ih]
    · simp [List.count_cons, ih]

/-- Quotes are not question marks. -/
theorem questionMarks_quoteIdent (name : String) : questionMarks (quoteIdent name) = questionMarks name := by
  rw [questionMarks, quoteIdent, String.toList_ofList, Text.quote, List.count_cons_of_ne (by decide),
    List.count_append, count_quotedBody (by decide)]
  rfl

theorem questionMarks_quoteIdents (names : List String) :
    questionMarks (quoteIdents names) = (names.map questionMarks).sum := by
  rw [quoteIdents, questionMarks_intercalate (by decide), List.map_map]
  simp only [Function.comp_def, questionMarks_quoteIdent]

namespace TableRef

def identifiers (t : TableRef) : List String := t.keyspace.toList ++ [t.name]

theorem questionMarks_sql (t : TableRef) : questionMarks t.sql = (t.identifiers.map questionMarks).sum := by
  obtain ⟨keyspace, name⟩ := t
  cases keyspace with
  | none => simp [sql, identifiers, questionMarks_quoteIdent]
  | some keyspace =>
    have hdot : questionMarks "." = 0 := by decide
    simp [sql, identifiers, questionMarks_append, questionMarks_quoteIdent, hdot]

end TableRef

namespace Insert

variable (s : Insert)

/-- The names in the clause of an upsert. -/
def updated : List String :=
  match s.onConflict with
  | .update columns => columns ++ s.stamp.toList
  | _ => []

/-- All names in the statement's text. -/
def identifiers : List String := s.table.identifiers ++ s.columns ++ s.updated

theorem questionMarks_placeholders : questionMarks s.placeholders = s.columns.length := by
  have hopen : questionMarks "(" = 0 := by decide
  have hclose : questionMarks ")" = 0 := by decide
  have hone : questionMarks "?" = 1 := by decide
  rw [placeholders, questionMarks_append, questionMarks_append, questionMarks_intercalate (by decide),
    hopen, hclose, List.map_replicate, hone]
  simp

theorem questionMarks_verb : questionMarks s.verb = 0 := by
  rw [verb]
  split <;> decide

/-- No mark comes from the clause of an upsert but those of its names. -/
theorem questionMarks_updateClause (plain : ∀ name ∈ s.updated, questionMarks name = 0) :
    questionMarks s.updateClause = 0 := by
  rw [updateClause]
  rw [updated] at plain
  split
  case h_2 => decide
  case h_1 columns hcolumns =>
    rw [hcolumns] at plain
    dsimp only at plain
    have hvalues : questionMarks " = VALUES(" = 0 := by decide
    have hclose : questionMarks ")" = 0 := by decide
    have hnow : questionMarks " = CURRENT_TIMESTAMP" = 0 := by decide
    have hclause : questionMarks " ON DUPLICATE KEY UPDATE " = 0 := by decide
    rw [questionMarks_append, hclause, questionMarks_intercalate (by decide), Nat.zero_add, assignments,
      hcolumns]
    dsimp only
    refine List.sum_eq_zero fun n hn => ?_
    obtain ⟨text, htext, rfl⟩ := List.mem_map.1 hn
    rcases List.mem_append.1 htext with htext | htext
    · obtain ⟨name, hname, rfl⟩ := List.mem_map.1 htext
      have hplain := plain name (List.mem_append_left _ hname)
      simp [questionMarks_append, questionMarks_quoteIdent, hplain, hvalues, hclose]
    · rw [Option.mem_toList, Option.map_eq_some_iff] at htext
      obtain ⟨name, hname, rfl⟩ := htext
      have hplain := plain name (List.mem_append_right _ (Option.mem_toList.2 hname))
      simp [questionMarks_append, questionMarks_quoteIdent, hplain, hnow]

/-- Names without question marks leave those that stand for values. -/
theorem questionMarks_sqlFor (plain : ∀ name ∈ s.identifiers, questionMarks name = 0) (rows : Nat) :
    questionMarks (s.sqlFor rows) = rows * s.columns.length := by
  have hzero : ∀ names : List String, (∀ name ∈ names, name ∈ s.identifiers) →
      (names.map questionMarks).sum = 0 := by
    intro names hnames
    refine List.sum_eq_zero fun n hn => ?_
    obtain ⟨name, hname, rfl⟩ := List.mem_map.1 hn
    exact plain name (hnames name hname)
  have htable := hzero s.table.identifiers (fun name h => by simp [identifiers, h])
  have hcolumns := hzero s.columns (fun name h => by simp [identifiers, h])
  have hclause := s.questionMarks_updateClause fun name h => plain name (by simp [identifiers, h])
  have htuples : questionMarks (", ".intercalate (List.replicate rows s.placeholders)) =
      rows * s.columns.length := by
    rw [questionMarks_intercalate (by decide), List.map_replicate, questionMarks_placeholders]
    simp
  have hspace : questionMarks " " = 0 := by decide
  have hopen : questionMarks " (" = 0 := by decide
  have hvalues : questionMarks ") VALUES " = 0 := by decide
  simp only [sqlFor, questionMarks_append, questionMarks_verb, TableRef.questionMarks_sql,
    questionMarks_quoteIdents, htable, hcolumns, hclause, htuples, hspace, hopen, hvalues]
  omega

theorem rowsPerStatement_eq {s : Insert} (some_column : 0 < s.columns.length)
    (fits : s.columns.length ≤ maxPlaceholders) :
    max s.rowsPerStatement 1 = maxPlaceholders / s.columns.length := by
  have hone : 0 < maxPlaceholders / s.columns.length := Nat.div_pos fits some_column
  rw [rowsPerStatement, Nat.max_eq_left some_column]
  omega

/-- The rows of an insert of any width that one row can have are cut into statements as few as the limit
allows: each is within it, and all but the last one would not be with one row more. -/
theorem statementChunks_fit (s : Insert) (some_column : 0 < s.columns.length)
    (fits : s.columns.length ≤ maxPlaceholders) :
    Cut s.rows s.statementChunks ∧
    (∀ chunk ∈ s.statementChunks, chunk.length * s.columns.length ≤ maxPlaceholders) ∧
    (∀ before chunk after, s.statementChunks = before ++ chunk :: after → after ≠ [] →
      maxPlaceholders < (chunk.length + 1) * s.columns.length) ∧
    ((∀ name ∈ s.identifiers, '?' ∉ name.toList) → ∀ chunk ∈ s.statementChunks,
      (s.sqlFor chunk.length).toList.count '?' = chunk.length * s.columns.length) := by
  have hsize := rowsPerStatement_eq some_column fits
  refine ⟨.chunks s.rowsPerStatement s.rows, ?_, ?_, ?_⟩
  · intro chunk hchunk
    obtain ⟨before, after, hsplit⟩ := List.append_of_mem hchunk
    have hle := (length_of_chunks_eq hsplit).1
    rw [hsize] at hle
    exact (Nat.le_div_iff_mul_le some_column).1 hle
  · intro before chunk after hsplit hmore
    rw [(length_of_chunks_eq hsplit).2 hmore, hsize]
    exact Nat.lt_mul_of_div_lt (Nat.lt_succ_self _) some_column
  · intro plain chunk _
    exact s.questionMarks_sqlFor (fun name hname => List.count_eq_zero.2 (plain name hname)) chunk.length

/-- So wide that no two rows fit into one statement. -/
def wide : Insert where
  table := ⟨some "k`s", "t"⟩
  columns := List.replicate 32768 "c"
  rows := [List.replicate 32768 (.int 1), List.replicate 32768 .null]
  onConflict := .update ["c"]
  stamp := some "at"

theorem statementChunks_fit_wide : 0 < wide.columns.length ∧ wide.columns.length ≤ maxPlaceholders ∧
    wide.statementChunks = [[List.replicate 32768 (.int 1)], [List.replicate 32768 .null]] ∧
    maxPlaceholders < (1 + 1) * wide.columns.length ∧ (∀ name ∈ wide.identifiers, '?' ∉ name.toList) ∧
    ∀ chunk ∈ wide.statementChunks,
      (wide.sqlFor chunk.length).toList.count '?' = chunk.length * wide.columns.length := by
  have hlength : wide.columns.length = 32768 := List.length_replicate
  have some_column : 0 < wide.columns.length := by omega
  have fits : wide.columns.length ≤ maxPlaceholders := by rw [hlength, maxPlaceholders]; decide
  have hchunks : wide.statementChunks = [[List.replicate 32768 (.int 1)], [List.replicate 32768 .null]] := by
    have hsize : wide.rowsPerStatement = 1 := by rw [rowsPerStatement, hlength, maxPlaceholders]; rfl
    rw [statementChunks, hsize, wide, chunks, chunks, chunks]
    rfl
  have plain : ∀ name ∈ wide.identifiers, '?' ∉ name.toList := by
    intro name hname
    rw [identifiers, List.mem_append, List.mem_append] at hname
    rcases hname with (hname | hname) | hname
    · simp only [wide, TableRef.identifiers, Option.toList_some, List.singleton_append, List.mem_cons,
        List.not_mem_nil, or_false] at hname
      rcases hname with rfl | rfl <;> decide
    · obtain rfl := List.eq_of_mem_replicate hname
      decide
    · simp only [wide, updated, Option.toList_some, List.singleton_append, List.mem_cons,
        List.not_mem_nil, or_false] at hname
      rcases hname with rfl | rfl <;> decide
  obtain ⟨-, -, hlast, hmarks⟩ := statementChunks_fit wide some_column fits
  have hfirst := hlast [] [List.replicate 32768 (.int 1)] [[List.replicate 32768 .null]] hchunks
    (List.cons_ne_nil _ _)
  rw [List.length_singleton] at hfirst
  exact ⟨some_column, fits, hchunks, hfirst, plain, hmarks plain⟩

end Insert
end ReadingBench.Sql
