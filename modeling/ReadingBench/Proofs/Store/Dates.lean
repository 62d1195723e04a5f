import ReadingBench.Proofs.Sql.ReadBack
import ReadingBench.Proofs.Store.Written

namespace ReadingBench

open Sql Store Outcome

namespace Sql

namespace Value

def isDateTime : Value → Bool
  | dateTime _ => true
  | _ => false

theorem asDate?_written_iff (v : Value) : v.written.asDate? = v.asDate? ↔ v.isDateTime = false := by
  cases v with
  | dateTime t => simp [written, asDate?, isDateTime, Date.ofText?_dateTime]
  | date d => simp [written, asDate?, isDateTime, Date.ofText?_text]
  | _ => exact iff_of_true rfl rfl

/-- What the getters make of a value and of what was read where it was written. -/
structure ReadsBack (v w : Value) : Prop where
  int : w.asInt? = v.asInt?
  dateTime : w.asDateTime? = v.asDateTime?
  date : w.asDate? = v.asDate? ↔ v.isDateTime = false

theorem readsBack_written {v : Value} (whole : v.isWhole) : v.ReadsBack v.written :=
  ⟨v.asInt?_written, asDateTime?_written whole, v.asDate?_written_iff⟩

theorem readsBack_of_reread? {v w : Value} (h : v.reread? = some w) (exact : v.isExact) (whole : v.isWhole) :
    v.ReadsBack w := by
  rw [reread?_of_exact exact] at h
  exact Option.some.inj h ▸ readsBack_written whole

end Value

/-- A tuple is read if it has no float without digits, and then all its values are. -/
theorem readValues_tupleText {values : List Value} (hvalues : values ≠ []) {rows : List (List Value)} :
    readValues (tupleText values) = .ok rows ↔
      ∃ found, rows = [found] ∧ List.Forall₂ (fun v w => v.reread? = some w) values found := by
  rw [← toOption_eq_some, toOption_readValues hvalues, Option.map_eq_some_iff]
  simp only [mapM_eq_some, eq_comm (a := [_]), and_comm]

theorem exists_reread?_iff {values : List Value} :
    (∃ found, List.Forall₂ (fun v w => v.reread? = some w) values found) ↔ ∀ v ∈ values, v.isFinite := by
  induction values with
  | nil => simp
  | cons v values ih =>
    rw [List.forall_mem_cons, ← ih, ← Value.isSome_reread?, Option.isSome_iff_exists]
    simp only [List.forall₂_cons_left_iff]
    constructor
    · rintro ⟨_, w, found, hw, hfound, rfl⟩
      exact ⟨⟨w, hw⟩, found, hfound⟩
    · rintro ⟨⟨w, hw⟩, found, hfound⟩
      exact ⟨w :: found, w, found, hw, hfound, rfl⟩

/-- The date of a column is kept unless the column holds a time. -/
theorem Row.getDate?_written_iff (columns : List String) (values : List Value) (column : String) :
    (Row.mk columns (values.map Value.written)).getDate? column = (Row.mk columns values).getDate? column ↔
      ∀ time, (Row.mk columns values).get? column ≠ some (.dateTime time) := by
  simp only [getDate?, get?_map]
  cases hv : (Row.mk columns values).get? column with
  | none => simp
  | some v =>
    refine (Value.asDate?_written_iff v).trans ?_
    cases v <;> simp [Value.isDateTime]

end Sql

namespace Store

/-- Rows of which those from position `n` on were written as text, against the rows with bound values. -/
structure Reread (n : Nat) (written bound : List Row) : Prop where
  length_eq : written.length = bound.length
  alike : ∀ (i : Nat) (row row' : Row), written[i]? = some row → bound[i]? = some row' → row.Alike row'
  date : ∀ (i : Nat) (row row' : Row), written[i]? = some row → bound[i]? = some row' → ∀ column,
    row.getDate? column = row'.getDate? column ↔
      i < n ∨ ∀ time, row'.get? column ≠ some (.dateTime time)

theorem Table.date_writtenFrom {n i : Nat} {t : Table} {row row' : Row}
    (hrow : ((t.writtenFrom n).rows.toList.map fun row => Row.mk t.spec.columns row)[i]? = some row)
    (hrow' : (t.rows.toList.map fun row => Row.mk t.spec.columns row)[i]? = some row') (column : String) :
    row.getDate? column = row'.getDate? column ↔
      i < n ∨ ∀ time, row'.get? column ≠ some (.dateTime time) := by
  simp only [List.getElem?_map, Array.getElem?_toList, writtenFrom, Array.getElem?_mapIdx,
    Option.map_map, Option.map_eq_some_iff] at hrow hrow'
  obtain ⟨values, hvalues, rfl⟩ := hrow
  obtain ⟨values', hvalues', rfl⟩ := hrow'
  obtain rfl := Option.some.inj (hvalues.symm.trans hvalues')
  by_cases hi : i < n
  · simp [hi]
  · simp only [Function.comp_apply, hi, if_false, false_or]
    exact Row.getDate?_written_iff _ _ _

theorem Server.rows_eq_ok_iff {server : Server} {table : TableRef} {rows : List Row} :
    server.rows table = .ok rows ↔ ∃ t, server.table? table = some t ∧
      t.rows.toList.map (fun row => ⟨t.spec.columns, row⟩) = rows := by
  unfold Server.rows
  cases server.table? table <;> simp

namespace Session

variable {session : Session} {server : Server} {s : RawInsert} {t : Table} {text : String}

theorem Agrees.reread (h : session.Agrees server s t text) (whole : ∀ row ∈ s.rows, ∀ v ∈ row, v.isWhole) :
    ∃ rows rows', (session.execute text server).2.rows s.table = .ok rows ∧
      (session.insert s.bound server).2.rows s.table = .ok rows' ∧ Reread t.rows.size rows rows' := by
  obtain ⟨rows, rows', hrows, hrows', halike⟩ := h.readings whole
  refine ⟨rows, rows', hrows, hrows', halike.length_eq, ?_, ?_⟩
  · intro i row row' hi hi'
    obtain ⟨hlt, rfl⟩ := List.getElem?_eq_some_iff.1 hi
    obtain ⟨hlt', rfl⟩ := List.getElem?_eq_some_iff.1 hi'
    exact halike.get hlt hlt'
  · intro i row row' hi hi' column
    obtain ⟨u, hu, rfl⟩ := Server.rows_eq_ok_iff.1 hrows
    obtain ⟨u', hu', rfl⟩ := Server.rows_eq_ok_iff.1 hrows'
    have htable := h.table
    rw [hu, hu', Option.map_some] at htable
    obtain rfl := Option.some.inj htable
    exact Table.date_writtenFrom hi hi' column

/-- All values of a tuple are read back where its floats have digits. Numbers and times are what they were;
a date is too exactly if the value was no time. So it is with the columns that an insert stores when it is
sent as text, against those of the same insert with bound values. -/
theorem getters_reread {values : List Value} (hvalues : values ≠ []) :
    ((∃ rows, readValues (tupleText values) = .ok rows) ↔ ∀ v ∈ values, v.isFinite) ∧
    (∀ rows, readValues (tupleText values) = .ok rows → ∃ found, rows = [found] ∧
      List.Forall₂ (fun v w => v.isExact → v.isWhole → v.ReadsBack w) values found) ∧
    ∀ (server : Server) (session : Session) (s : RawInsert) (t : Table), server.failures = [] → s.Regular →
      (∀ row ∈ s.rows, ∀ v ∈ row, v.isWhole) → server.table? s.table = some t →
        ∃ text rows rows', s.sql? = some text ∧ (session.execute text server).2.rows s.table = .ok rows ∧
          (session.insert s.bound server).2.rows s.table = .ok rows' ∧ Reread t.rows.size rows rows' := by
  refine ⟨?_, ?_, ?_⟩
  · rw [← exists_reread?_iff]
    constructor
    · rintro ⟨rows, hread⟩
      obtain ⟨found, -, hfound⟩ := (readValues_tupleText hvalues).1 hread
      exact ⟨found, hfound⟩
    · rintro ⟨found, hfound⟩
      exact ⟨_, (readValues_tupleText hvalues).2 ⟨found, rfl, hfound⟩⟩
  · intro rows hread
    obtain ⟨found, hrows, hfound⟩ := (readValues_tupleText hvalues).1 hread
    exact ⟨found, hrows, hfound.imp fun v w hw exact whole => Value.readsBack_of_reread? hw exact whole⟩
  · intro server session s t quiet regular whole ht
    obtain ⟨text, htext, hagrees⟩ := agrees quiet regular ht
    obtain ⟨rows, rows', hrows, hrows', hreread⟩ := hagrees.reread whole
    exact ⟨text, rows, rows', htext, hrows, hrows', hreread⟩

/-- A day, and a time in the note. -/
def timed : RawInsert :=
  ⟨dated.table, ["day", "note"], [[.date defaultBaseTime.date, .dateTime defaultBaseTime]]⟩

theorem getters_reread_timed :
    (∃ found, readValues (tupleText [.date defaultBaseTime.date, .dateTime defaultBaseTime]) = .ok [found] ∧
      List.Forall₂ (fun v w : Value => v.isExact → v.isWhole → v.ReadsBack w)
        [.date defaultBaseTime.date, .dateTime defaultBaseTime] found) ∧
    ∃ text rows rows', timed.sql? = some text ∧
      (Session.root.execute text ((Server.empty Server.still).define dated)).2.rows dated.table = .ok rows ∧
      (Session.root.insert timed.bound ((Server.empty Server.still).define dated)).2.rows dated.table =
        .ok rows' ∧ Reread 0 rows rows' := by
  obtain ⟨hread, hfound, hinserts⟩ := getters_reread
    (List.cons_ne_nil (Value.date defaultBaseTime.date) [.dateTime defaultBaseTime])
  constructor
  · obtain ⟨rows, hrows⟩ := hread.2 (by simp [Value.isFinite])
    obtain ⟨found, rfl, hall⟩ := hfound rows hrows
    exact ⟨found, hrows, hall⟩
  · have regular : timed.Regular := ⟨by decide, by decide, by decide, by decide⟩
    have defined : ((Server.empty Server.still).define dated).table? timed.table = some (.empty dated) := by
      simp [Server.define, Server.table?, timed]
    exact hinserts _ Session.root timed (.empty dated) rfl regular (by decide) defined

/-- The text of a time is read back as a time, but its date is lost. -/
theorem not_readsBack_date :
    readValues (tupleText [.dateTime defaultBaseTime]) = .ok [[.text defaultBaseTime.text]] ∧
      (Value.text defaultBaseTime.text).asDateTime? = (Value.dateTime defaultBaseTime).asDateTime? ∧
      (Value.text defaultBaseTime.text).asDate? ≠ (Value.dateTime defaultBaseTime).asDate? := by
  refine ⟨?_, DateTime.ofText?_text _ (by decide), ?_⟩
  · exact (readValues_tupleText (List.cons_ne_nil _ [])).2 ⟨[.text defaultBaseTime.text], rfl, .cons rfl .nil⟩
  · have hlost : (Value.text defaultBaseTime.text).asDate? = none := Date.ofText?_dateTime _
    rw [hlost]
    simp [Value.asDate?]

end Session
end Store
end ReadingBench
