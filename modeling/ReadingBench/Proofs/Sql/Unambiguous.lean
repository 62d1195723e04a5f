import Mathlib
import ReadingBench.Proofs.Sql.RawInsert

namespace ReadingBench

namespace Text

/-- Two quotes end at the same place if the mark follows neither. -/
theorem quote_append_inj {mark : Char} {a b r r' : List Char} (hr : r.head? ≠ some mark)
    (hr' : r'.head? ≠ some mark) (h : quote mark a ++ r = quote mark b ++ r') : a = b ∧ r = r' := by
  have hbody : quotedBody mark a ++ mark :: r = quotedBody mark b ++ mark :: r' := by
    simpa [quote] using h
  have hread := readBody?_body mark a hr
  rw [hbody, readBody?_body mark b hr'] at hread
  obtain ⟨hba, hrest⟩ := Prod.mk.inj (Option.some.inj hread)
  exact ⟨hba.symm, hrest.symm⟩

end Text

namespace Sql

open Text

section Delimits

variable {α : Type}

/-- The text of a thing fixes the thing and its own end, where what stands behind it is as `Rest` says. -/
def Delimits (text : α → List Char) (Rest : List Char → Prop) : Prop :=
  ∀ ⦃a b : α⦄ ⦃r r' : List Char⦄, Rest r → Rest r' → text a ++ r = text b ++ r' → a = b ∧ r = r'

/-- The items of a list from the second on, each behind its comma. -/
def laterChars (text : α → List Char) (as : List α) : List Char :=
  as.flatMap fun a => ',' :: ' ' :: text a

theorem intercalate_cons_eq (text : α → List Char) (a : α) (as : List α) :
    [',', ' '].intercalate ((a :: as).map text) = text a ++ laterChars text as := by
  induction as generalizing a with
  | nil => simp [laterChars]
  | cons b as ih =>
    rw [List.map_cons, List.map_cons, List.intercalate_cons_cons, ← List.map_cons, ih b]
    simp [laterChars]

variable {text : α → List Char} {Rest Item : List Char → Prop}

/-- What may stand behind an item is a comma or what may stand behind the list. -/
theorem item_laterChars (comma : ∀ r, Item (',' :: r)) (last : ∀ r, Rest r → Item r) (as : List α)
    {r : List Char} (hr : Rest r) : Item (laterChars text as ++ r) := by
  cases as with
  | nil => exact last r hr
  | cons a as => exact comma _

theorem Delimits.later (item : Delimits text Item) (comma : ∀ r, Item (',' :: r))
    (last : ∀ r, Rest r → Item r) (stop : ∀ r, Rest r → r.head? ≠ some ',') :
    Delimits (laterChars text) Rest := by
  intro as bs r r' hr hr' h
  induction as generalizing bs with
  | nil =>
    cases bs with
    | nil => exact ⟨rfl, h⟩
    | cons b bs => exact absurd (congrArg List.head? h) (stop r hr)
  | cons a as ih =>
    cases bs with
    | nil => exact absurd (congrArg List.head? h.symm) (stop r' hr')
    | cons b bs =>
      have hitems : text a ++ (laterChars text as ++ r) = text b ++ (laterChars text bs ++ r') := by
        simpa [laterChars] using h
      obtain ⟨rfl, hlater⟩ := item (item_laterChars comma last as hr) (item_laterChars comma last bs hr') hitems
      obtain ⟨rfl, hrest⟩ := ih hlater
      exact ⟨rfl, hrest⟩

/-- A list fixes its items and their number, if neither a comma nor an item can stand behind it. -/
theorem Delimits.list (item : Delimits text Item) (comma : ∀ r, Item (',' :: r))
    (last : ∀ r, Rest r → Item r) (stop : ∀ r, Rest r → r.head? ≠ some ',')
    (start : ∀ a r r', Rest r → r ≠ text a ++ r') :
    Delimits (fun as : List α => [',', ' '].intercalate (as.map text)) Rest := by
  intro as bs r r' hr hr' h
  cases as with
  | nil =>
    cases bs with
    | nil => exact ⟨rfl, h⟩
    | cons b bs =>
      dsimp only at h
      rw [intercalate_cons_eq, List.append_assoc] at h
      exact absurd h (start b _ _ hr)
  | cons a as =>
    cases bs with
    | nil =>
      dsimp only at h
      rw [intercalate_cons_eq, List.append_assoc] at h
      exact absurd h.symm (start a _ _ hr')
    | cons b bs =>
      dsimp only at h
      rw [intercalate_cons_eq, intercalate_cons_eq, List.append_assoc, List.append_assoc] at h
      obtain ⟨rfl, hlater⟩ := item (item_laterChars comma last as hr) (item_laterChars comma last bs hr') h
      obtain ⟨rfl, hrest⟩ := item.later comma last stop hr hr' hlater
      exact ⟨rfl, hrest⟩

end Delimits

theorem delimits_quoteIdent :
    Delimits (fun name => (quoteIdent name).toList) fun r => r.head? ≠ some '`' := by
  intro a b r r' hr hr' h
  simp only [toList_quoteIdent] at h
  obtain ⟨hname, hrest⟩ := quote_append_inj hr hr' h
  exact ⟨String.toList_inj.1 hname, hrest⟩

theorem toList_qualified (keyspace name : String) : (TableRef.mk (some keyspace) name).sql.toList =
    (quoteIdent keyspace).toList ++ '.' :: (quoteIdent name).toList := by
  have hpoint : ".".toList = ['.'] := by simp
  rw [TableRef.sql]
  simp only [String.toList_append, hpoint, List.append_assoc, List.singleton_append]

/-- Neither a quote nor a point follows. -/
theorem delimits_table :
    Delimits (fun t : TableRef => t.sql.toList) fun r => r.head? ≠ some '`' ∧ r.head? ≠ some '.' := by
  intro s t r r' hr hr' h
  have hpoint : ∀ cs : List Char, ('.' :: cs).head? ≠ some '`' := by simp
  obtain ⟨keyspace, name⟩ := s
  obtain ⟨keyspace', name'⟩ := t
  cases keyspace with
  | none =>
    cases keyspace' with
    | none =>
      obtain ⟨rfl, hrest⟩ := delimits_quoteIdent hr.1 hr'.1 h
      exact ⟨rfl, hrest⟩
    | some keyspace' =>
      simp only [toList_qualified, List.append_assoc, List.cons_append] at h
      obtain ⟨-, rfl⟩ := delimits_quoteIdent hr.1 (hpoint _) h
      exact absurd rfl hr.2
  | some keyspace =>
    cases keyspace' with
    | none =>
      simp only [toList_qualified, List.append_assoc, List.cons_append] at h
      obtain ⟨-, rfl⟩ := delimits_quoteIdent (hpoint _) hr'.1 h
      exact absurd rfl hr'.2
    | some keyspace' =>
      simp only [toList_qualified, List.append_assoc, List.cons_append] at h
      obtain ⟨rfl, hnames⟩ := delimits_quoteIdent (hpoint _) (hpoint _) h
      obtain ⟨rfl, hrest⟩ := delimits_quoteIdent hr.1 hr'.1 (List.cons.inj hnames).2
      exact ⟨rfl, hrest⟩

theorem delimits_quoteIdents : Delimits (fun names => (quoteIdents names).toList) fun r =>
    r.head? ≠ some '`' ∧ r.head? ≠ some ',' := by
  have hlist : ∀ names, (quoteIdents names).toList =
      [',', ' '].intercalate (names.map fun name => (quoteIdent name).toList) := by
    intro names
    simp [quoteIdents, String.toList_intercalate, Function.comp_def]
  simp only [hlist]
  refine delimits_quoteIdent.list (by simp) (fun r hr => hr.1) (fun r hr => hr.2) ?_
  rintro name r r' hr rfl
  exact hr.1 (by simp [toList_quoteIdent, quote])

namespace Select

/-- From the table's name on. -/
def filterChars (s : Select) : List Char :=
  match s.filter with
  | some (column, _) => " WHERE ".toList ++ ((quoteIdent column).toList ++ " = ?".toList)
  | none => []

theorem toList_sql (s : Select) : s.sql.toList =
    "SELECT ".toList ++ ((quoteIdents s.columns).toList ++
      (" FROM ".toList ++ (s.table.sql.toList ++ s.filterChars))) := by
  rw [sql, filterChars]
  cases s.filter with
  | none => simp only [String.toList_append, List.append_assoc, List.append_nil]
  | some f => simp only [String.toList_append, List.append_assoc]

theorem filterChars_inj {s t : Select} (h : s.filterChars = t.filterChars) :
    s.filter.map (·.1) = t.filter.map (·.1) := by
  unfold filterChars at h
  cases hs : s.filter with
  | none =>
    cases ht : t.filter with
    | none => rfl
    | some g => simp [hs, ht] at h
  | some f =>
    cases ht : t.filter with
    | none => simp [hs, ht] at h
    | some g =>
      rw [hs, ht] at h
      obtain ⟨hcolumn, -⟩ := delimits_quoteIdent (by simp) (by simp) (List.append_cancel_left h)
      exact congrArg some hcolumn

theorem sql_eq_iff (s t : Select) : s.sql = t.sql ↔
    s.table = t.table ∧ s.columns = t.columns ∧ s.filter.map (·.1) = t.filter.map (·.1) := by
  constructor
  · intro h
    have hchars := congrArg String.toList h
    rw [toList_sql, toList_sql] at hchars
    have hbehind : ∀ u : Select, u.filterChars.head? ≠ some '`' ∧ u.filterChars.head? ≠ some '.' := by
      intro u
      rw [filterChars]
      split <;> simp
    have hnames := List.append_cancel_left hchars
    obtain ⟨hcolumns, hfrom⟩ := delimits_quoteIdents (by simp) (by simp) hnames
    have htables := List.append_cancel_left hfrom
    obtain ⟨htable, hfilter⟩ := delimits_table (hbehind s) (hbehind t) htables
    exact ⟨htable, hcolumns, filterChars_inj hfilter⟩
  · rintro ⟨htable, hcolumns, hfilter⟩
    rw [sql, sql, htable, hcolumns]
    cases hs : s.filter <;> cases ht : t.filter <;> simp_all

end Select

namespace Delete

def limitChars (s : Delete) : List Char :=
  match s.limit with
  | some limit => " LIMIT ".toList ++ Decimal.digits limit
  | none => []

theorem toList_sql (s : Delete) :
    s.sql.toList = "DELETE FROM ".toList ++ (s.table.sql.toList ++ s.limitChars) := by
  rw [sql, limitChars]
  cases s.limit with
  | none => simp only [String.toList_append, List.append_nil]
  | some limit => simp only [String.toList_append, String.toList_ofList, List.append_assoc]

theorem limitChars_inj {s t : Delete} (h : s.limitChars = t.limitChars) : s.limit = t.limit := by
  unfold limitChars at h
  cases hs : s.limit with
  | none =>
    cases ht : t.limit with
    | none => rfl
    | some n => simp [hs, ht] at h
  | some m =>
    cases ht : t.limit with
    | none => simp [hs, ht] at h
    | some n =>
      rw [hs, ht] at h
      have hvalue := congrArg Decimal.value (List.append_cancel_left h)
      rw [Decimal.value_digits, Decimal.value_digits] at hvalue
      exact congrArg some hvalue

theorem sql_eq_iff (s t : Delete) : s.sql = t.sql ↔ s.table = t.table ∧ s.limit = t.limit := by
  constructor
  · intro h
    have hchars := congrArg String.toList h
    rw [toList_sql, toList_sql] at hchars
    have hbehind : ∀ u : Delete, u.limitChars.head? ≠ some '`' ∧ u.limitChars.head? ≠ some '.' := by
      intro u
      rw [limitChars]
      split <;> simp
    have htables := List.append_cancel_left hchars
    obtain ⟨htable, hlimit⟩ := delimits_table (hbehind s) (hbehind t) htables
    exact ⟨htable, limitChars_inj hlimit⟩
  · rintro ⟨htable, hlimit⟩
    rw [sql, sql, htable, hlimit]

end Delete

namespace Insert

variable {s t : Insert}

/-- An assignment of an upsert: of a tuple's value or of the time. -/
inductive Assignment where
  | value (column : String)
  | time (column : String)

def Assignment.chars : Assignment → List Char
  | value column => (quoteIdent column).toList ++
      (" = VALUES(".toList ++ ((quoteIdent column).toList ++ ")".toList))
  | time column => (quoteIdent column).toList ++ " = CURRENT_TIMESTAMP".toList

theorem Assignment.delimits : Delimits Assignment.chars fun _ => True := by
  intro a b r r' _ _ h
  cases a with
  | value column =>
    cases b with
    | value column' =>
      simp only [chars, List.append_assoc] at h
      obtain ⟨rfl, hvalues⟩ := delimits_quoteIdent (by simp) (by simp) h
      exact ⟨rfl, List.append_cancel_left (List.append_cancel_left (List.append_cancel_left hvalues))⟩
    | time column' =>
      simp only [chars, List.append_assoc] at h
      obtain ⟨-, hvalues⟩ := delimits_quoteIdent (by simp) (by simp) h
      simp at hvalues
  | time column =>
    cases b with
    | value column' =>
      simp only [chars, List.append_assoc] at h
      obtain ⟨-, hvalues⟩ := delimits_quoteIdent (by simp) (by simp) h
      simp at hvalues
    | time column' =>
      simp only [chars, List.append_assoc] at h
      obtain ⟨rfl, htime⟩ := delimits_quoteIdent (by simp) (by simp) h
      exact ⟨rfl, List.append_cancel_left htime⟩

/-- The assignments of an upsert of `columns`, the stamp's last. -/
def assigned (s : Insert) (columns : List String) : List Assignment :=
  columns.map .value ++ s.stamp.toList.map .time

theorem toList_updateClause {columns : List String} (h : s.onConflict = .update columns) :
    s.updateClause.toList = " ON DUPLICATE KEY UPDATE ".toList ++
      [',', ' '].intercalate ((s.assigned columns).map Assignment.chars) := by
  have htexts : s.assignments.map String.toList = (s.assigned columns).map Assignment.chars := by
    simp only [assignments, assigned, h, List.map_append, List.map_map]
    cases s.stamp <;> simp [Assignment.chars, Function.comp_def]
  rw [updateClause, h]
  simp only [String.toList_append, String.toList_intercalate, htexts]
  congr 2

theorem updateClause_of_ne (h : ∀ columns, s.onConflict ≠ .update columns) : s.updateClause = "" := by
  unfold updateClause
  split
  · exact absurd ‹_› (h _)
  · rfl

theorem eq_of_assigned_eq {columns columns' : List String} (h : s.assigned columns = t.assigned columns') :
    columns = columns' ∧ s.stamp = t.stamp := by
  unfold assigned at h
  induction columns generalizing columns' with
  | nil =>
    cases columns' with
    | nil =>
      refine ⟨rfl, ?_⟩
      cases hs : s.stamp <;> cases ht : t.stamp <;> simp_all
    | cons c columns' => cases hs : s.stamp <;> simp [hs] at h
  | cons c columns ih =>
    cases columns' with
    | nil => cases ht : t.stamp <;> simp [ht] at h
    | cons c' columns' =>
      simp only [List.map_cons, List.cons_append, List.cons.injEq, Assignment.value.injEq] at h
      obtain ⟨rfl, hlater⟩ := h
      obtain ⟨rfl, hstamp⟩ := ih hlater
      exact ⟨rfl, hstamp⟩

/-- The end of the text shows an upsert with its columns and its stamp, and nothing of another insert. -/
theorem updateClause_inj (h : s.updateClause.toList = t.updateClause.toList) {columns : List String}
    (hs : s.onConflict = .update columns) : t.onConflict = .update columns ∧ s.stamp = t.stamp := by
  rw [toList_updateClause hs] at h
  cases ht : t.onConflict with
  | update columns' =>
    rw [toList_updateClause ht] at h
    have hlist : Delimits (fun as : List Assignment => [',', ' '].intercalate (as.map Assignment.chars))
        fun r => r = [] := by
      refine Assignment.delimits.list (fun _ => trivial) (fun _ _ => trivial) (by simp) ?_
      rintro (c | c) r r' rfl <;> simp [Assignment.chars, toList_quoteIdent, quote]
    have hparts : [',', ' '].intercalate ((s.assigned columns).map Assignment.chars) ++ [] =
        [',', ' '].intercalate ((t.assigned columns').map Assignment.chars) ++ [] :=
      congrArg (· ++ []) (List.append_cancel_left h)
    obtain ⟨hassigned, -⟩ := hlist rfl rfl hparts
    obtain ⟨rfl, hstamp⟩ := eq_of_assigned_eq hassigned
    exact ⟨rfl, hstamp⟩
  | _ => simp [updateClause, ht] at h

theorem verb_append_inj {r r' : List Char} (h : s.verb.toList ++ r = t.verb.toList ++ r') :
    (s.onConflict = .ignore ↔ t.onConflict = .ignore) ∧ r = r' := by
  cases hs : s.onConflict <;> cases ht : t.onConflict <;> simp_all [verb]

/-- From the first tuple on. -/
def tupleChars (s : Insert) (rows : Nat) : List Char :=
  [',', ' '].intercalate ((List.replicate rows ()).map fun _ => s.placeholders.toList) ++
    s.updateClause.toList

theorem toList_sqlFor (s : Insert) (rows : Nat) : (s.sqlFor rows).toList =
    s.verb.toList ++ (" ".toList ++ (s.table.sql.toList ++ (" (".toList ++ ((quoteIdents s.columns).toList ++
      (") VALUES ".toList ++ s.tupleChars rows))))) := by
  simp [sqlFor, tupleChars, String.toList_intercalate]

theorem tupleChars_inj (hcolumns : s.columns = t.columns) {m n : Nat} (h : s.tupleChars m = t.tupleChars n) :
    m = n ∧ s.updateClause.toList = t.updateClause.toList := by
  have hsame : s.placeholders = t.placeholders := by rw [placeholders, placeholders, hcolumns]
  have hunit : Delimits (fun _ : Unit => t.placeholders.toList) fun _ => True :=
    fun a b r r' _ _ heq => ⟨rfl, List.append_cancel_left heq⟩
  have hlist : Delimits (fun units : List Unit => [',', ' '].intercalate (units.map fun _ =>
      t.placeholders.toList)) fun r => r.head? ≠ some ',' ∧ r.head? ≠ some '(' := by
    refine hunit.list (fun _ => trivial) (fun _ _ => trivial) (fun _ hr => hr.1) ?_
    rintro _ r r' hr rfl
    simp [placeholders] at hr
  have hbehind : ∀ u : Insert, u.updateClause.toList.head? ≠ some ',' ∧
      u.updateClause.toList.head? ≠ some '(' := by
    intro u
    rw [updateClause]
    split <;> simp
  unfold tupleChars at h
  rw [hsame] at h
  obtain ⟨hrows, hclause⟩ := hlist (hbehind s) (hbehind t) h
  exact ⟨by simpa using congrArg List.length hrows, hclause⟩

theorem sqlFor_eq_iff (s t : Insert) (m n : Nat) : s.sqlFor m = t.sqlFor n ↔
    s.table = t.table ∧ s.columns = t.columns ∧ m = n ∧ s.onConflict = t.onConflict ∧
      (s.stamp = t.stamp ∨ ∀ columns, s.onConflict ≠ .update columns) := by
  constructor
  · intro h
    have hchars := congrArg String.toList h
    rw [toList_sqlFor, toList_sqlFor] at hchars
    obtain ⟨hignore, hverb⟩ := verb_append_inj hchars
    have htables := List.append_cancel_left hverb
    obtain ⟨htable, hopen⟩ := delimits_table (by simp) (by simp) htables
    have hnames := List.append_cancel_left hopen
    obtain ⟨hcolumns, hclose⟩ := delimits_quoteIdents (by simp) (by simp) hnames
    have htuples := List.append_cancel_left hclose
    obtain ⟨hrows, hclause⟩ := tupleChars_inj hcolumns htuples
    refine ⟨htable, hcolumns, hrows, ?_⟩
    cases hs : s.onConflict with
    | update columns =>
      obtain ⟨ht, hstamp⟩ := updateClause_inj hclause hs
      exact ⟨ht.symm, .inl hstamp⟩
    | ignore => exact ⟨(hignore.1 hs).symm, .inr (by simp)⟩
    | fail =>
      refine ⟨?_, .inr (by simp)⟩
      cases ht : t.onConflict with
      | fail => rfl
      | ignore => exact absurd (hs.symm.trans (hignore.2 ht)) (by simp)
      | update columns => exact absurd (hs.symm.trans (updateClause_inj hclause.symm ht).1) (by simp)
  · rintro ⟨htable, hcolumns, rfl, hconflict, hstamp⟩
    have hverb : s.verb = t.verb := by rw [verb, verb, hconflict]
    have hplaceholders : s.placeholders = t.placeholders := by rw [placeholders, placeholders, hcolumns]
    have hclause : s.updateClause = t.updateClause := by
      rcases hstamp with hstamp | hother
      · simp only [updateClause, assignments, hconflict, hstamp]
      · rw [updateClause_of_ne hother, updateClause_of_ne (hconflict ▸ hother)]
    rw [sqlFor, sqlFor, hverb, htable, hcolumns, hplaceholders, hclause]

end Insert

/-- Equal texts come from statements with the same parts: a fetch's table, columns and filtered column, a
delete's table and limit, an insert's table, columns, number of tuples, way with conflicts and, where it is an
upsert, columns to update and stamp. No two kinds of statements share a text. -/
theorem sql_unambiguous :
    (∀ s t : Select, s.sql = t.sql ↔
      s.table = t.table ∧ s.columns = t.columns ∧ s.filter.map (·.1) = t.filter.map (·.1)) ∧
    (∀ s t : Delete, s.sql = t.sql ↔ s.table = t.table ∧ s.limit = t.limit) ∧
    (∀ s t : Insert, s.sql = t.sql ↔
      s.table = t.table ∧ s.columns = t.columns ∧ s.rows.length = t.rows.length ∧ s.onConflict = t.onConflict ∧
        (s.stamp = t.stamp ∨ ∀ columns, s.onConflict ≠ .update columns)) ∧
    ∀ (s : Select) (i : Insert) (d : Delete), s.sql ≠ i.sql ∧ s.sql ≠ d.sql ∧ i.sql ≠ d.sql := by
  refine ⟨Select.sql_eq_iff, Delete.sql_eq_iff, fun s t => s.sqlFor_eq_iff t _ _, fun s i d => ?_⟩
  -- The first letter says which kind it is.
  have hselect : s.sql.toList.head? = some 'S' := by simp [Select.toList_sql]
  have hinsert : i.sql.toList.head? = some 'I' := by
    rw [Insert.sql, Insert.toList_sqlFor, Insert.verb]
    split <;> simp
  have hdelete : d.sql.toList.head? = some 'D' := by simp [Delete.toList_sql]
  refine ⟨fun h => ?_, fun h => ?_, fun h => ?_⟩
  · simp [h, hinsert] at hselect
  · simp [h, hdelete] at hselect
  · simp [h, hdelete] at hinsert

end Sql
end ReadingBench
