import ReadingBench.Proofs.Sql.Reader

namespace ReadingBench.Sql

open Text Reader

namespace Value

/-- The value that is read where this one was written. -/
def written : Value → Value
  | dateTime t => text t.text
  | date d => text d.text
  | v => v

/-- Floats are left out: their text is not promised to give the same float. -/
def isExact : Value → Bool
  | float _ => false
  | _ => true

theorem visible_literalChars {v : Value} (hv : v.isExact) : Visible v.literalChars := by
  cases v with
  | float x => exact absurd hv Bool.false_ne_true
  | null => exact ⟨'N', _, rfl, by decide⟩
  | int n =>
    simp only [literalChars, Decimal.signed]
    split
    · exact ⟨'-', _, rfl, by decide⟩
    · cases hdigits : Decimal.digits n.toInt.natAbs with
      | nil => exact absurd hdigits (Decimal.digits_ne_nil _)
      | cons c tail =>
        have hc : c ∈ Decimal.digits n.toInt.natAbs := hdigits ▸ List.mem_cons_self
        exact ⟨c, tail, rfl, Decimal.not_isBlank_of_isDigit (Decimal.isDigit_of_mem_digits hc)⟩
  | text _ | dateTime _ | date _ => exact ⟨'\'', _, rfl, by decide⟩

theorem literal_literalChars {v : Value} (hv : v.isExact) {cs rest : List Char}
    (hrest : rest.head? = some ',' ∨ rest.head? = some ')')
    (h : skipBlank cs = v.literalChars ++ rest) : Reader.literal cs = .ok (v.written, rest) := by
  have hquote : rest.head? ≠ some '\'' := by rcases hrest with hrest | hrest <;> simp [hrest]
  cases v with
  | float x => exact absurd hv Bool.false_ne_true
  | null => exact literal_null (by rcases hrest with hrest | hrest <;> rw [hrest] <;> decide) h
  | int n => exact literal_signed n (by rcases hrest with hrest | hrest <;> rw [hrest] <;> decide) h
  | text s =>
    have hread := literal_quote s.toList hquote h
    rwa [String.ofList_toList] at hread
  | dateTime t => exact literal_quote t.chars hquote h
  | date d => exact literal_quote d.chars hquote h

end Value

theorem toList_tupleText (values : List Value) : (tupleText values).toList =
    '(' :: ([',', ' '].intercalate (values.map Value.literalChars) ++ [')']) := by
  simp [tupleText, String.toList_intercalate, Value.literal, Function.comp_def]

/-- A tuple is read back value by value. -/
theorem tuple_tupleText {values : List Value} (hvalues : values ≠ [])
    (hexact : ∀ v ∈ values, v.isExact) {most : Nat} (hmost : values.length ≤ most) {cs rest : List Char}
    (h : skipBlank cs = (tupleText values).toList ++ rest) :
    tuple most cs = .ok (values.map Value.written, rest) := by
  have hgap : ∀ c ∈ [' '], isBlank c := List.forall_mem_singleton.2 (by decide)
  have hvisible : ∀ v ∈ values, Visible v.literalChars :=
    fun v hv => Value.visible_literalChars (hexact v hv)
  refine bracketed_intercalate hgap hvalues hvisible ?_ hmost ?_
  · intro v hv cs tail htail hcs
    exact Value.literal_literalChars (hexact v hv) htail hcs
  · rw [h, toList_tupleText]
    simp

theorem toList_quoteIdent (name : String) : (quoteIdent name).toList = quote '`' name.toList := by
  simp [quoteIdent]

theorem visible_quote (name : String) : Visible (quote '`' name.toList) := ⟨'`', _, rfl, by decide⟩

theorem visible_sql (t : TableRef) : Visible t.sql.toList := by
  obtain ⟨keyspace, name⟩ := t
  cases keyspace with
  | none => exact toList_quoteIdent name ▸ visible_quote name
  | some keyspace =>
    simp only [TableRef.sql, String.toList_append, toList_quoteIdent, List.append_assoc]
    exact (visible_quote keyspace).append _

/-- A table's name is read back with its keyspace. -/
theorem tableRef_sql (t : TableRef) {cs rest : List Char} (hmark : rest.head? ≠ some '`')
    (hpoint : rest.head? ≠ some '.') (h : skipBlank cs = t.sql.toList ++ rest) :
    tableRef cs = .ok (t, rest) := by
  obtain ⟨keyspace, name⟩ := t
  cases keyspace with
  | none =>
    rw [TableRef.sql, toList_quoteIdent] at h
    rw [tableRef, ok_bind_run (ident_quote name hmark h), get_bind_run]
    refine (congrFun ?_ _).trans (rfl : (pure ⟨none, name⟩ : Reader TableRef) rest = _)
    split
    · exact absurd rfl hpoint
    · rfl
  | some keyspace =>
    simp only [TableRef.sql, String.toList_append, toList_quoteIdent, List.append_assoc] at h
    have hdot : ('.' :: (quote '`' name.toList ++ rest)).head? ≠ some '`' := by simp
    have hfirst := ident_quote keyspace hdot h
    have hsecond := ident_quote name hmark ((visible_quote name).skipBlank_append rest)
    rw [tableRef, ok_bind_run hfirst, get_bind_run]
    simp only [set_bind_run]
    rw [ok_bind_run hsecond]
    rfl

namespace RawInsert

def columnChars (s : RawInsert) : List Char :=
  [',', ' '].intercalate (s.columns.map fun name => quote '`' name.toList)

def rowChars (s : RawInsert) : List Char :=
  [',', '\n'].intercalate (s.rows.map fun row => (tupleText row).toList)

/-- From the end of the columns on. -/
def valueChars (s : RawInsert) : List Char := ' ' :: ("VALUES".toList ++ ' ' :: s.rowChars)

/-- From the table's name on. -/
def targetChars (s : RawInsert) : List Char :=
  ' ' :: (s.table.sql.toList ++ '\n' :: '(' :: (s.columnChars ++ ')' :: s.valueChars))

def chars (s : RawInsert) : List Char :=
  "INSERT".toList ++ ' ' :: ("IGNORE".toList ++ ' ' :: ("INTO".toList ++ s.targetChars))

-- Lean takes long to find this equation by itself: it evaluates the words.
theorem chars_eq (s : RawInsert) : s.chars =
    "INSERT".toList ++ ' ' :: ("IGNORE".toList ++ ' ' :: ("INTO".toList ++ s.targetChars)) := rfl

theorem toList_quoteIdents (s : RawInsert) : (quoteIdents s.columns).toList = s.columnChars := by
  have hcomma : ", ".toList = [',', ' '] := by simp
  rw [quoteIdents, String.toList_intercalate, hcomma, List.map_map, columnChars]
  simp only [Function.comp_def, toList_quoteIdent]

theorem toList_tuples (s : RawInsert) :
    (",\n".intercalate (s.rows.map tupleText)).toList = s.rowChars := by
  have hcomma : ",\n".toList = [',', '\n'] := by simp
  rw [String.toList_intercalate, hcomma, List.map_map, rowChars]
  rfl

theorem toList_sql {s : RawInsert} {text : String} (h : s.sql? = some text) :
    text.toList = s.chars := by
  unfold sql? at h
  split at h
  · simp at h
  · obtain rfl := Option.some.inj h
    have hhead : s.head = "INSERT IGNORE INTO " ++ s.table.sql ++ "\n(" ++ quoteIdents s.columns ++
        ") VALUES " := rfl
    have hfirst : "INSERT IGNORE INTO ".toList =
        "INSERT".toList ++ ' ' :: ("IGNORE".toList ++ ' ' :: ("INTO".toList ++ [' '])) := by simp
    have hopen : "\n(".toList = ['\n', '('] := by simp
    have hvalues : ") VALUES ".toList = ')' :: ' ' :: ("VALUES".toList ++ [' ']) := by simp
    rw [hhead]
    simp only [String.toList_append, toList_quoteIdents, toList_tuples]
    rw [hfirst, hopen, hvalues, chars_eq, targetChars, valueChars]
    simp only [List.append_assoc, List.cons_append, List.nil_append]

theorem visible_tupleText (row : List Value) : Visible (tupleText row).toList :=
  ⟨'(', _, toList_tupleText row, by decide⟩

theorem length_columns_le (s : RawInsert) : s.columns.length ≤ s.chars.length := by
  have hcolumns : s.columns.length ≤ s.columnChars.length :=
    length_le_intercalate fun name _ => visible_quote name
  simp only [chars_eq, targetChars, List.length_append, List.length_cons]
  omega

theorem length_rows_le (s : RawInsert) : s.rows.length ≤ s.chars.length := by
  have hrows : s.rows.length ≤ s.rowChars.length :=
    length_le_intercalate fun row _ => visible_tupleText row
  simp only [chars_eq, targetChars, valueChars, List.length_append, List.length_cons]
  omega

theorem not_word_space (cs : List Char) : ¬(' ' :: cs).head?.any isWordChar := by
  change ¬isWordChar ' '
  decide

theorem reader_chars {s : RawInsert} (hcolumns : s.columns ≠ []) (hrows : s.rows ≠ [])
    (width : ∀ row ∈ s.rows, row.length = s.columns.length)
    (exact : ∀ row ∈ s.rows, ∀ v ∈ row, v.isExact) {most : Nat} (hmost : s.chars.length ≤ most) :
    InsertText.reader most s.chars =
      .ok (⟨true, s.table, s.columns, s.rows.map (·.map Value.written)⟩, []) := by
  have hcolumnsMost := s.length_columns_le.trans hmost
  have hinsert : expectWord "INSERT" s.chars =
      .ok ((), ' ' :: ("IGNORE".toList ++ ' ' :: ("INTO".toList ++ s.targetChars))) :=
    expectWord_hit (afterWord?_append (by decide) (not_word_space _))
  have hignore : eatWord "IGNORE" (' ' :: ("IGNORE".toList ++ ' ' :: ("INTO".toList ++ s.targetChars))) =
      .ok (true, ' ' :: ("INTO".toList ++ s.targetChars)) :=
    eatWord_hit (afterWord?_append (by decide) (not_word_space _))
  have hinto : expectWord "INTO" (' ' :: ("INTO".toList ++ s.targetChars)) =
      .ok ((), s.targetChars) :=
    expectWord_hit (afterWord?_append (by decide) (not_word_space _))
  have htable : tableRef s.targetChars =
      .ok (s.table, '\n' :: '(' :: (s.columnChars ++ ')' :: s.valueChars)) :=
    tableRef_sql s.table (by simp) (by simp) ((visible_sql s.table).skipBlank_append _)
  have hnames : bracketed ident most ('\n' :: '(' :: (s.columnChars ++ ')' :: s.valueChars)) =
      .ok (s.columns, s.valueChars) := by
    have hgap : ∀ c ∈ [' '], isBlank c := List.forall_mem_singleton.2 (by decide)
    have hname : ∀ name ∈ s.columns, ∀ cs tail, tail.head? = some ',' ∨ tail.head? = some ')' →
        skipBlank cs = quote '`' name.toList ++ tail → ident cs = .ok (id name, tail) := by
      intro name _ cs tail htail hcs
      exact ident_quote name (by rcases htail with htail | htail <;> simp [htail]) hcs
    have hopen : skipBlank ('\n' :: '(' :: (s.columnChars ++ ')' :: s.valueChars)) =
        '(' :: (s.columnChars ++ ')' :: s.valueChars) := rfl
    have hread := bracketed_intercalate hgap hcolumns (fun name _ => visible_quote name) hname
      hcolumnsMost hopen
    rwa [List.map_id] at hread
  have hvalues : expectWord "VALUES" s.valueChars = .ok ((), ' ' :: s.rowChars) :=
    expectWord_hit (afterWord?_append (by decide) (not_word_space _))
  have htuples : tuples most (' ' :: s.rowChars) = .ok (s.rows.map (·.map Value.written), []) := by
    have hgap : ∀ c ∈ ['\n'], isBlank c := List.forall_mem_singleton.2 (by decide)
    have hend : (skipBlank []).head? ≠ some ',' := by decide
    refine separated_intercalate hgap hrows (fun row _ => visible_tupleText row) hend ?_
      (s.length_rows_le.trans hmost) ?_
    · intro row hrow cs tail _ hcs
      have hlen := width row hrow
      have hne : row ≠ [] := by
        rintro rfl
        exact hcolumns (List.eq_nil_of_length_eq_zero hlen.symm)
      exact tuple_tupleText hne (exact row hrow) (hlen ▸ hcolumnsMost) hcs
    · have hrow : Visible s.rowChars := visible_intercalate hrows fun row _ => visible_tupleText row
      have hskip := hrow.skipBlank_append []
      rw [List.append_nil] at hskip ⊢
      have hblank : ∀ c ∈ [' '], isBlank c := List.forall_mem_singleton.2 (by decide)
      exact (skipBlank_append hblank s.rowChars).trans hskip
  rw [InsertText.reader, ok_bind_run hinsert, ok_bind_run hignore, ok_bind_run hinto,
    ok_bind_run htable, ok_bind_run hnames, ok_bind_run hvalues, ok_bind_run htuples]
  rfl

/-- What is written is read: the mark of `IGNORE`, the table, the columns and all values. -/
theorem read_sql {s : RawInsert} (hcolumns : s.columns ≠ []) (hrows : s.rows ≠ [])
    (width : ∀ row ∈ s.rows, row.length = s.columns.length)
    (exact : ∀ row ∈ s.rows, ∀ v ∈ row, v.isExact) :
    ∃ text, s.sql? = some text ∧ InsertText.read text =
      .ok ⟨true, s.table, s.columns, s.rows.map (·.map Value.written)⟩ := by
  obtain ⟨text, htext⟩ : ∃ text, s.sql? = some text := by
    rw [sql?, if_neg (by simpa using hrows)]
    exact ⟨_, rfl⟩
  refine ⟨text, htext, ?_⟩
  have hmost : s.chars.length ≤ text.toList.length + 1 := by rw [toList_sql htext]; omega
  have hread := reader_chars hcolumns hrows width exact hmost
  have hwidth : (s.rows.map (·.map Value.written)).find? (·.length ≠ s.columns.length) = none := by
    rw [List.find?_eq_none]
    intro row hrow
    obtain ⟨values, hvalues, rfl⟩ := List.mem_map.1 hrow
    simp [width values hvalues]
  rw [toList_sql htext] at hread
  rw [InsertText.read, Reader.run, toList_sql htext, hread]
  dsimp only
  rw [Outcome.ok_bind]
  dsimp only
  rw [hwidth]
  rfl

def leapDay : Date := (Date.ofParts? 2024 2 29).get (by decide)

def lastSecond : DateTime := (DateTime.ofParts? leapDay 23 59 59 0).get (by decide)

/-- Names and values full of marks, and a day and a time. -/
def marked : RawInsert where
  table := ⟨some "k`.s", "VALUES ("⟩
  columns := ["", "a`, `b"]
  rows := [[.text "it's '", .null], [.int Int64.minValue, .text "1), (2\n"],
    [.date leapDay, .dateTime lastSecond]]

theorem read_sql_marked : ∃ text, marked.sql? = some text ∧ InsertText.read text =
    .ok ⟨true, marked.table, marked.columns,
      [[.text "it's '", .null], [.int Int64.minValue, .text "1), (2\n"],
        [.text "2024-02-29", .text "2024-02-29 23:59:59"]]⟩ := by
  have hday : leapDay.text = "2024-02-29" := by decide +kernel
  have htime : lastSecond.text = "2024-02-29 23:59:59" := by decide +kernel
  rw [← hday, ← htime]
  exact read_sql (s := marked) (by decide) (by decide) (by decide) (by decide)

end RawInsert
end ReadingBench.Sql
