import ReadingBench.Proofs.Calendar.Text
import ReadingBench.Proofs.Sql.RawInsert
import ReadingBench.Proofs.Store.UniqueKeys
import ReadingBench.Record.Read

namespace ReadingBench

open Sql Store Outcome

namespace Sql

namespace Value

theorem literal_written (v : Value) : v.written.literal = v.literal := by
  cases v with
  | dateTime t => simp [written, literal, literalChars, DateTime.text]
  | date d => simp [written, literal, literalChars, Date.text]
  | _ => rfl

/-- No part of a second is lost in the text. -/
def isWhole : Value → Bool
  | dateTime t => t.nano % nanosPerSecond = 0
  | _ => true

theorem asInt?_written (v : Value) : v.written.asInt? = v.asInt? := by
  cases v <;> rfl

theorem asDateTime?_written {v : Value} (hv : v.isWhole) : v.written.asDateTime? = v.asDateTime? := by
  cases v with
  | dateTime t => exact DateTime.ofText?_text t (of_decide_eq_true hv)
  | date d => exact DateTime.ofText?_date d
  | _ => rfl

theorem getD_map_written (row : List Value) (i : Nat) :
    (row.map written).getD i .null = (row.getD i .null).written := by
  simp only [List.getD_eq_getElem?_getD, List.getElem?_map]
  cases row[i]? <;> rfl

end Value

/-- Numbers and times read the same from both rows. -/
def Row.Alike (row row' : Row) : Prop :=
  ∀ column, row.getInt? column = row'.getInt? column ∧ row.getDateTime? column = row'.getDateTime? column

theorem Row.alike_refl (row : Row) : row.Alike row := fun _ => ⟨rfl, rfl⟩

theorem Row.get?_map (f : Value → Value) (columns : List String) (values : List Value) (column : String) :
    (Row.mk columns (values.map f)).get? column = ((Row.mk columns values).get? column).map f := by
  simp only [get?]
  induction columns generalizing values with
  | nil => rfl
  | cons c columns ih =>
    cases values with
    | nil => rfl
    | cons v values =>
      simp only [List.map_cons, List.zip_cons_cons, List.lookup_cons]
      cases column == c with
      | true => rfl
      | false => exact ih values

theorem Row.get?_mem {columns : List String} {values : List Value} {column : String} {v : Value}
    (h : (Row.mk columns values).get? column = some v) : v ∈ values := by
  simp only [get?] at h
  induction columns generalizing values with
  | nil => cases h
  | cons c columns ih =>
    cases values with
    | nil => cases h
    | cons w values =>
      simp only [List.zip_cons_cons, List.lookup_cons] at h
      cases hc : column == c with
      | true =>
        rw [hc] at h
        exact Option.some.inj h ▸ List.mem_cons_self
      | false =>
        rw [hc] at h
        exact List.mem_cons_of_mem w (ih h)

theorem Row.alike_written (columns : List String) {values : List Value} (h : ∀ v ∈ values, v.isWhole) :
    (Row.mk columns (values.map Value.written)).Alike ⟨columns, values⟩ := by
  intro column
  simp only [getInt?, getDateTime?, get?_map]
  cases hv : (Row.mk columns values).get? column with
  | none => exact ⟨rfl, rfl⟩
  | some v => exact ⟨v.asInt?_written, Value.asDateTime?_written (h v (get?_mem hv))⟩

namespace RawInsert

/-- Some columns and some tuples, each of full width and without floats. -/
structure Regular (s : RawInsert) : Prop where
  columns : s.columns ≠ []
  rows : s.rows ≠ []
  width : ∀ row ∈ s.rows, row.length = s.columns.length
  exact : ∀ row ∈ s.rows, ∀ v ∈ row, v.isExact

/-- The same insert with its values bound. -/
def bound (s : RawInsert) : Insert :=
  { table := s.table, columns := s.columns, rows := s.rows, onConflict := .ignore }

/-- The tuples as they are read back. -/
def writtenRows (s : RawInsert) : List (List Value) := s.rows.map (·.map Value.written)

end RawInsert
end Sql

namespace Store

namespace TableSpec

variable (spec : TableSpec)

theorem keyParts_written (row : Tuple) (key : List String) :
    spec.keyParts (row.map Value.written) key = spec.keyParts row key := by
  induction key with
  | nil => rfl
  | cons column key ih =>
    simp only [keyParts, ih]
    cases spec.position column with
    | error e => rfl
    | ok i =>
      simp only [ok_bind, Value.getD_map_written]
      cases row.getD i .null with
      | dateTime t => simp only [Value.written, ← Value.literal_written (.dateTime t)]
      | date d => simp only [Value.written, ← Value.literal_written (.date d)]
      | _ => rfl

theorem keyOf_written (row : Tuple) (key : List String) :
    spec.keyOf (row.map Value.written) key = spec.keyOf row key := by
  rw [keyOf, keyOf, keyParts_written]

theorem keysOf_written (row : Tuple) : spec.keysOf (row.map Value.written) = spec.keysOf row := by
  simp only [keysOf, funext (spec.keyOf_written row)]

theorem fullRow_written (columns : List String) (values : List Value) :
    spec.fullRow columns (values.map Value.written) =
      (spec.fullRow columns values).map (·.map Value.written) := by
  have hfold : ∀ row : Tuple,
      (columns.zip (values.map Value.written)).foldlM (spec.place) (row.map Value.written) =
      ((columns.zip values).foldlM spec.place row).map (·.map Value.written) := by
    induction columns generalizing values with
    | nil => exact fun row => rfl
    | cons column columns ih =>
      intro row
      cases values with
      | nil => rfl
      | cons value values =>
        simp only [List.map_cons, List.zip_cons_cons, List.foldlM_cons, place]
        cases spec.position column with
        | error e => rfl
        | ok i =>
          simp only [ok_bind, pure_bind, ← List.map_set]
          exact ih values (row.set i value)
  have hnulls : List.replicate spec.columns.length Value.null =
      (List.replicate spec.columns.length Value.null).map Value.written := by
    rw [List.map_replicate]
    rfl
  have hfull := hfold (List.replicate spec.columns.length .null)
  rwa [← hnulls] at hfull

/-- A full row holds NULL and values of the tuple. -/
theorem mem_fullRow {columns : List String} {values : List Value} {row : Tuple}
    (h : spec.fullRow columns values = .ok row) : ∀ v ∈ row, v = .null ∨ v ∈ values := by
  have hzip : ∀ p ∈ columns.zip values, p.2 ∈ values := fun p hp => (List.of_mem_zip hp).2
  refine foldlM_invariant (P := fun _ row => ∀ v ∈ row, v = .null ∨ v ∈ values) h ?_ ?_
  · intro v hv
    exact .inl (List.eq_of_mem_replicate hv)
  · rintro done ⟨column, value⟩ rest old new hsplit hold hnew v hv
    obtain ⟨i, -, hnew⟩ := bind_eq_ok.1 hnew
    rw [← pure_eq_ok.1 hnew] at hv
    rcases List.mem_or_eq_of_mem_set hv with hv | rfl
    · exact hold v hv
    · exact .inr (hzip (column, v) (by rw [hsplit]; simp))

end TableSpec

namespace Table

/-- The table with its rows from position `n` on written and read back. -/
def writtenFrom (n : Nat) (t : Table) : Table :=
  { t with rows := t.rows.mapIdx fun i row => if i < n then row else row.map Value.written }

theorem writtenFrom_size (t : Table) : t.writtenFrom t.rows.size = t := by
  have hrows : (t.rows.mapIdx fun i row => if i < t.rows.size then row else row.map Value.written) =
      t.rows := by
    refine Array.ext (by simp) ?_
    intro i hi _
    have hlt : i < t.rows.size := by simpa using hi
    simp [hlt]
  rw [writtenFrom, hrows]

/-- What becomes of each tuple of an insert, with the table after the last. -/
def fates (columns : List String) (onConflict : OnConflict) (stamp : Option Stamp) :
    List (List Value) → Table → Except Error (Table × List Applied)
  | [], t => return (t, [])
  | values :: rows, t => do
    let (t, applied) ← t.apply columns onConflict stamp values
    let (t, rest) ← fates columns onConflict stamp rows t
    return (t, applied :: rest)

def affected (fates : List Applied) : Nat := (fates.map Applied.affected).sum

theorem applyAll_eq (columns : List String) (onConflict : OnConflict) (stamp : Option Stamp)
    (rows : List (List Value)) (t : Table) : t.applyAll columns onConflict stamp rows =
      (fates columns onConflict stamp rows t).map fun (u, fates) => (u, affected fates) := by
  induction rows generalizing t with
  | nil => rfl
  | cons values rows ih =>
    rw [applyAll_cons, fates]
    rcases t.apply columns onConflict stamp values with e | ⟨u, applied⟩
    · rfl
    · simp only [ok_bind, ih]
      rcases fates columns onConflict stamp rows u with e | ⟨v, rest⟩ <;> rfl

variable {n : Nat} {t : Table}

/-- A tuple that is dropped leaves the table, one that is taken is appended. -/
theorem apply_ignore_eq_ok {u : Table} {columns : List String} {values : List Value} {applied : Applied}
    (h : t.apply columns .ignore none values = .ok (u, applied)) :
    u = t ∨ ∃ row, t.spec.fullRow columns values = .ok row ∧ t.append row = .ok u := by
  obtain ⟨row, hrow, h⟩ := bind_eq_ok.1 h
  obtain ⟨found, -, h⟩ := bind_eq_ok.1 h
  cases found with
  | none =>
    obtain ⟨u', happend, h⟩ := bind_eq_ok.1 h
    obtain ⟨rfl, -⟩ := Prod.mk.inj (pure_eq_ok.1 h)
    exact .inr ⟨row, hrow, happend⟩
  | some pos =>
    obtain ⟨rfl, -⟩ := Prod.mk.inj (pure_eq_ok.1 h)
    exact .inl rfl

theorem conflict_written (row : Tuple) :
    (t.writtenFrom n).conflict (row.map Value.written) = t.conflict row := by
  have hholder : ∀ keyed, holder t.spec (row.map Value.written) keyed = holder t.spec row keyed := by
    intro keyed
    induction keyed with
    | nil => rfl
    | cons p keyed ih => simp only [holder, TableSpec.keyOf_written, ih]
  exact hholder _

theorem writtenFrom_push (hn : n ≤ t.rows.size) (row : Tuple) (indexes : List Index) :
    writtenFrom n { t with rows := t.rows.push row, indexes } =
      { t.writtenFrom n with rows := (t.writtenFrom n).rows.push (row.map Value.written), indexes } := by
  have hlast : ¬t.rows.size < n := by omega
  simp [writtenFrom, Array.mapIdx_push, hlast]

theorem append_written (hn : n ≤ t.rows.size) (row : Tuple) :
    (t.writtenFrom n).append (row.map Value.written) = (t.append row).map (writtenFrom n) := by
  have hspec : (t.writtenFrom n).spec = t.spec := rfl
  have hindexes : (t.writtenFrom n).indexes = t.indexes := rfl
  have hsize : (t.writtenFrom n).rows.size = t.rows.size := by simp [writtenFrom]
  rw [append, append, hspec, hindexes, hsize, TableSpec.keysOf_written]
  cases t.spec.keysOf row with
  | error e => rfl
  | ok keys => exact congrArg Except.ok (writtenFrom_push hn row _).symm

theorem apply_written (hn : n ≤ t.rows.size) (columns : List String) (values : List Value) :
    (t.writtenFrom n).apply columns .ignore none (values.map Value.written) =
      (t.apply columns .ignore none values).map fun (u, applied) => (u.writtenFrom n, applied) := by
  have hspec : (t.writtenFrom n).spec = t.spec := rfl
  rw [apply, apply, hspec, TableSpec.fullRow_written]
  cases t.spec.fullRow columns values with
  | error e => rfl
  | ok row =>
    simp only [Except.map, ok_bind, stamped, conflict_written]
    rcases t.conflict row with e | _ | pos
    · rfl
    · simp only [ok_bind, append_written hn]
      cases t.append row <;> rfl
    · rfl

theorem size_le_apply_ignore {u : Table} {columns : List String} {values : List Value}
    {applied : Applied} (h : t.apply columns .ignore none values = .ok (u, applied)) :
    t.rows.size ≤ u.rows.size := by
  rcases apply_ignore_eq_ok h with rfl | ⟨row, -, happend⟩
  · exact le_rfl
  · obtain ⟨keys, -, rfl⟩ := append_eq_ok.1 happend
    simp

/-- Written tuples meet the fates of the bound ones. -/
theorem fates_written (columns : List String) (rows : List (List Value)) (hn : n ≤ t.rows.size) :
    fates columns .ignore none (rows.map (·.map Value.written)) (t.writtenFrom n) =
      (fates columns .ignore none rows t).map fun (u, fates) => (u.writtenFrom n, fates) := by
  induction rows generalizing t with
  | nil => rfl
  | cons values rows ih =>
    rw [List.map_cons, fates, fates, apply_written hn]
    rcases happly : t.apply columns .ignore none values with e | ⟨u, applied⟩
    · rfl
    · simp only [Except.map, ok_bind, ih (hn.trans (size_le_apply_ignore happly))]
      rcases fates columns .ignore none rows u with e | ⟨v, rest⟩ <;> rfl

/-- The rows from position `n` on hold NULL and values that satisfy `p`. -/
def HoldsFrom (n : Nat) (p : Value → Bool) (t : Table) : Prop :=
  ∀ i, n ≤ i → ∀ row, t.rows[i]? = some row → ∀ v ∈ row, p v

theorem holdsFrom_apply {p : Value → Bool} (hnull : p .null) (ht : t.HoldsFrom n p) {u : Table}
    {columns : List String} {values : List Value} {applied : Applied} (hvalues : ∀ v ∈ values, p v)
    (h : t.apply columns .ignore none values = .ok (u, applied)) : u.HoldsFrom n p := by
  rcases apply_ignore_eq_ok h with rfl | ⟨new, hnew, happend⟩
  · exact ht
  · obtain ⟨keys, -, rfl⟩ := append_eq_ok.1 happend
    intro i hi row hrow v hv
    rw [Array.getElem?_push] at hrow
    split at hrow
    · obtain rfl := Option.some.inj hrow
      rcases t.spec.mem_fullRow hnew v hv with rfl | hv
      · exact hnull
      · exact hvalues v hv
    · exact ht i hi row hrow v hv

theorem holdsFrom_fates {p : Value → Bool} (hnull : p .null) (ht : t.HoldsFrom n p) {u : Table}
    {columns : List String} {rows : List (List Value)} {applied : List Applied}
    (hrows : ∀ row ∈ rows, ∀ v ∈ row, p v) (h : fates columns .ignore none rows t = .ok (u, applied)) :
    u.HoldsFrom n p := by
  induction rows generalizing t applied with
  | nil =>
    obtain ⟨rfl, -⟩ := Prod.mk.inj (pure_eq_ok.1 h)
    exact ht
  | cons values rows ih =>
    obtain ⟨⟨v, first⟩, hfirst, h⟩ := bind_eq_ok.1 h
    obtain ⟨⟨w, rest⟩, hrest, h⟩ := bind_eq_ok.1 h
    obtain ⟨rfl, -⟩ := Prod.mk.inj (pure_eq_ok.1 h)
    have hv := holdsFrom_apply hnull ht (hrows values (by simp)) hfirst
    exact ih hv (fun row hrow => hrows row (by simp [hrow])) hrest

theorem alike_rows (ht : t.HoldsFrom n Value.isWhole) : List.Forall₂ Row.Alike
    ((t.writtenFrom n).rows.toList.map fun row => ⟨t.spec.columns, row⟩)
    (t.rows.toList.map fun row => ⟨t.spec.columns, row⟩) := by
  refine List.forall₂_iff_get.2 ⟨by simp [writtenFrom], ?_⟩
  intro i hi hi'
  have hlt : i < t.rows.size := by simpa using hi'
  simp only [List.get_eq_getElem, List.getElem_map, Array.getElem_toList, writtenFrom,
    Array.getElem_mapIdx]
  split
  · exact Row.alike_refl _
  · rename_i hlate
    exact Row.alike_written _ (ht i (by omega) _ (Array.getElem?_eq_getElem hlt))

theorem insert_unstamped {s : Insert} (h : s.stamp = none) (now : DateTime) :
    t.insert now s = t.applyAll s.columns s.onConflict none s.rows := by
  rw [insert, h]
  rfl

end Table

theorem reading_sql {s : RawInsert} (h : s.Regular) : ∃ text, s.sql? = some text ∧
    Action.reading text = .ok (some { s.bound with rows := s.writtenRows }) := by
  obtain ⟨text, htext⟩ : ∃ text, s.sql? = some text := by
    rw [RawInsert.sql?, if_neg (by simpa using h.rows)]
    exact ⟨_, rfl⟩
  have hchars := RawInsert.toList_sql htext
  have hskip : Text.skipBlank s.chars = s.chars := rfl
  have hword : Action.verb s.chars = "INSERT" := rfl
  have hread := RawInsert.reader_chars h.columns h.rows h.width h.exact (Nat.le_succ s.chars.length)
  have hwidth : s.writtenRows.find? (·.length ≠ s.columns.length) = none := by
    rw [List.find?_eq_none]
    intro row hrow
    obtain ⟨values, hvalues, rfl⟩ := List.mem_map.1 hrow
    simp [h.width values hvalues]
  refine ⟨text, htext, ?_⟩
  have hinsert : InsertText.read (String.ofList s.chars) =
      .ok ⟨true, s.table, s.columns, s.writtenRows⟩ := by
    rw [InsertText.read, Reader.run, String.toList_ofList, hread]
    dsimp only
    rw [ok_bind]
    dsimp only
    rw [← RawInsert.writtenRows, hwidth]
    rfl
  simp only [Action.reading, hchars, hskip, hword, hinsert]
  rfl

namespace Session

variable {session : Session} {server : Server}

theorem execute_insert {sql : String} {insert : Insert} (h : Action.reading sql = .ok (some insert)) :
    session.execute sql = (do session.receive sql; Action.applyInsert insert) := by
  rw [execute_eq, h]
  rfl

/-- An unstamped insert on an open session, with no failure waiting. -/
theorem receive_applyInsert (hopen : session.isClosed server = false) (quiet : server.failures = [])
    (sql : String) {insert : Insert} (unstamped : insert.stamp = none) {t : Table}
    (ht : server.table? insert.table = some t) :
    (do session.receive sql; Action.applyInsert insert) server =
      match Table.fates insert.columns insert.onConflict none insert.rows t with
      | .error e => (.error e, { server with log := server.log.push sql })
      | .ok (u, fates) => (.ok (Table.affected fates), { server with
          log := server.log.push sql, tables := server.tables.insert insert.table.key u }) := by
  have htable : Server.table? { server with log := server.log.push sql } insert.table = some t := ht
  rw [bind_apply, receive_apply, hopen, Action.begin_apply, quiet]
  simp only [Bool.false_eq_true, if_false, Action.applyInsert_apply]
  rw [quiet] at htable
  simp only [htable, Table.insert_unstamped unstamped, Table.applyAll_eq]
  rcases Table.fates insert.columns insert.onConflict none insert.rows t with e | ⟨u, fates⟩ <;> rfl

/-- An insert that is sent as `text` does what the insert of its bound values does to the table `t`. -/
structure Agrees (session : Session) (server : Server) (s : RawInsert) (t : Table) (text : String) :
    Prop where
  /-- The count or the error. -/
  answer : (session.execute text server).1 = (session.insert s.bound server).1
  /-- The bound tuples' fates are what the statement does, and the written tuples meet the same. -/
  fates : Table.fates s.columns .ignore none s.writtenRows t =
    (Table.fates s.columns .ignore none s.rows t).map fun (u, fates) =>
      (u.writtenFrom t.rows.size, fates)
  counted : session.isClosed server = false → (session.insert s.bound server).1 =
    (Table.fates s.columns .ignore none s.rows t).map fun (_, fates) => Table.affected fates
  table : (session.execute text server).2.table? s.table =
    ((session.insert s.bound server).2.table? s.table).map (Table.writtenFrom t.rows.size)
  others : ∀ key ≠ s.table.key,
    (session.execute text server).2.tables[key]? = (session.insert s.bound server).2.tables[key]?
  readings : (∀ row ∈ s.rows, ∀ v ∈ row, v.isWhole) → ∃ rows rows',
    (session.execute text server).2.rows s.table = .ok rows ∧
      (session.insert s.bound server).2.rows s.table = .ok rows' ∧ List.Forall₂ Row.Alike rows rows'

variable {s : RawInsert} {t : Table} {text : String}

theorem fates_writtenRows (s : RawInsert) (t : Table) :
    Table.fates s.columns .ignore none s.writtenRows t =
      (Table.fates s.columns .ignore none s.rows t).map fun (u, fates) =>
        (u.writtenFrom t.rows.size, fates) := by
  have hfates := Table.fates_written s.columns s.rows (le_refl t.rows.size)
  rwa [Table.writtenFrom_size] at hfates

/-- Both fail, and neither touches a table. -/
theorem agrees_of_error (ht : server.table? s.table = some t) {e : Error} {next next' : Server}
    (hraw : session.execute text server = (.error e, next)) (hnext : next.tables = server.tables)
    (hbound : session.insert s.bound server = (.error e, next')) (hnext' : next'.tables = server.tables)
    (hcounted : session.isClosed server = false →
      (Table.fates s.columns .ignore none s.rows t).map (Table.affected ·.2) = .error e) :
    session.Agrees server s t text := by
  have htable : next.table? s.table = some t := by rw [Server.table?, hnext]; exact ht
  have htable' : next'.table? s.table = some t := by rw [Server.table?, hnext']; exact ht
  refine ⟨by rw [hraw, hbound], fates_writtenRows s t, fun hopen => ?_, ?_, fun key _ => ?_, fun _ => ?_⟩
  · rw [hbound]
    exact (hcounted hopen).symm
  · rw [hraw, hbound, htable, htable', Option.map_some, Table.writtenFrom_size]
  · rw [hraw, hbound, hnext, hnext']
  · rw [hraw, hbound, Server.rows, Server.rows, htable, htable']
    exact ⟨_, _, rfl, rfl, List.forall₂_same.2 fun row _ => row.alike_refl⟩

/-- Both succeed, and the tables that they leave differ by the writing of the new rows. -/
theorem agrees_of_ok {u : Table} {fates : List Applied} {log log' : Array String}
    (hfates : Table.fates s.columns .ignore none s.rows t = .ok (u, fates))
    (hraw : session.execute text server = (.ok (Table.affected fates), { server with
      log, tables := server.tables.insert s.table.key (u.writtenFrom t.rows.size) }))
    (hbound : session.insert s.bound server = (.ok (Table.affected fates), { server with
      log := log', tables := server.tables.insert s.table.key u })) :
    session.Agrees server s t text := by
  refine ⟨by rw [hraw, hbound], fates_writtenRows s t, fun _ => ?_, ?_, fun key hkey => ?_, fun h => ?_⟩
  · rw [hbound, hfates]
    rfl
  · rw [hraw, hbound]
    simp [Server.table?]
  · rw [hraw, hbound]
    simp [Std.TreeMap.getElem?_insert, Ne.symm hkey]
  · -- The table was as it is in both before its new rows.
    have hstart : t.HoldsFrom t.rows.size Value.isWhole := by
      intro i hi row hrow
      have hlt := (Array.getElem?_eq_some_iff.1 hrow).1
      omega
    have hwhole := Table.holdsFrom_fates rfl hstart h hfates
    refine ⟨_, _, ?_, ?_, Table.alike_rows hwhole⟩
    · rw [hraw, Server.rows]
      simp [Server.table?, Table.writtenFrom]
    · rw [hbound, Server.rows]
      simp [Server.table?]

theorem agrees (quiet : server.failures = []) (h : s.Regular) (ht : server.table? s.table = some t) :
    ∃ text, s.sql? = some text ∧ session.Agrees server s t text := by
  obtain ⟨text, htext, hreading⟩ := reading_sql h
  refine ⟨text, htext, ?_⟩
  by_cases hclosed : session.isClosed server
  · have hraw : session.execute text server = (.error .sessionClosed, server) := by
      rw [execute_insert hreading, bind_apply, receive_apply, if_pos hclosed]
    have hbound : session.insert s.bound server = (.error .sessionClosed, server) := by
      rw [insert_eq, bind_apply, receive_apply, if_pos hclosed]
    refine agrees_of_error ht hraw rfl hbound rfl fun hopen => ?_
    rw [hclosed] at hopen
    cases hopen
  · have hopen : session.isClosed server = false := by simpa using hclosed
    have hwritten : server.table? { s.bound with rows := s.writtenRows }.table = some t := ht
    have hraw := receive_applyInsert hopen quiet text rfl hwritten
    have hgiven : server.table? s.bound.table = some t := ht
    have hbound := receive_applyInsert hopen quiet s.bound.sql rfl hgiven
    rw [← execute_insert hreading] at hraw
    rw [← insert_eq] at hbound
    simp only [RawInsert.bound, fates_writtenRows] at hraw hbound
    rcases hfates : Table.fates s.columns .ignore none s.rows t with e | ⟨u, fates⟩
    · rw [hfates] at hraw hbound
      exact agrees_of_error ht hraw rfl hbound rfl fun _ => by rw [hfates]; rfl
    · rw [hfates] at hraw hbound
      exact agrees_of_ok hfates hraw hbound

end Session

end Store

theorem Read.regular_rawInsert {batch : List Read} (h : batch ≠ []) : (Read.rawInsert batch).Regular where
  columns := by simp [Read.rawInsert, Keyspace.columns]
  rows := by simpa [Read.rawInsert] using h
  width := by
    intro row hrow
    obtain ⟨r, -, rfl⟩ := List.mem_map.1 hrow
    rfl
  exact := by
    intro row hrow v hv
    obtain ⟨r, -, rfl⟩ := List.mem_map.1 hrow
    have hdetail : (Value.ofText? r.commentDetail).isExact := by
      cases r.commentDetail <;> rfl
    simp only [Read.toRow, List.mem_cons, List.not_mem_nil, or_false] at hv
    rcases hv with rfl | rfl | rfl | rfl | rfl | rfl | rfl | rfl | rfl | rfl
    all_goals first | rfl | exact hdetail

namespace Store.Session

/-- Where no failure waits, an insert sent as text and the same insert with bound values agree, whatever
the table, the columns and the tuples. A batch of reads is one such insert. -/
theorem execute_agrees_insert {server : Server} (quiet : server.failures = []) (session : Session) :
    (∀ (s : RawInsert) (t : Table), s.Regular → server.table? s.table = some t →
      ∃ text, s.sql? = some text ∧ session.Agrees server s t text) ∧
    ∀ batch, batch ≠ [] → (Read.rawInsert batch).Regular :=
  ⟨fun _ _ h ht => agrees quiet h ht, fun _ => Read.regular_rawInsert⟩

/-- A table with a date in its key. -/
def dated : TableSpec :=
  { table := ⟨some "k", "t"⟩, columns := ["day", "note"], uniqueKeys := [["day"]] }

/-- A day and the text of the same day. -/
def sameDay : RawInsert :=
  ⟨dated.table, ["note", "day"],
    [[.null, .date defaultBaseTime.date], [.text "it's", .text defaultBaseTime.date.text]]⟩

theorem execute_agrees_insert_sameDay : ∃ text, sameDay.sql? = some text ∧
    (Session.root.execute text ((Server.empty Server.still).define dated)).1 = .ok 1 ∧
    (Session.root.insert sameDay.bound ((Server.empty Server.still).define dated)).1 = .ok 1 := by
  have regular : sameDay.Regular := ⟨by decide, by decide, by decide, by decide⟩
  have defined : ((Server.empty Server.still).define dated).table? sameDay.table = some (.empty dated) := by
    simp [Server.define, Server.table?, sameDay]
  obtain ⟨text, htext, hagrees⟩ := (execute_agrees_insert rfl Session.root).1 _ _ regular defined
  have hone : (Session.root.insert sameDay.bound ((Server.empty Server.still).define dated)).1.toOption =
      some 1 := by decide +kernel
  have hcount : (Session.root.insert sameDay.bound ((Server.empty Server.still).define dated)).1 = .ok 1 := by
    cases hanswer : (Session.root.insert sameDay.bound ((Server.empty Server.still).define dated)).1 with
    | error e => simp [hanswer, Except.toOption] at hone
    | ok n => simpa [hanswer, Except.toOption] using hone
  exact ⟨text, htext, hagrees.answer.trans hcount, hcount⟩

end Store.Session
end ReadingBench
