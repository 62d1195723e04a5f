import ReadingBench.Proofs.Store.Failure
import ReadingBench.Proofs.Store.Grouped
import ReadingBench.Proofs.Store.Tuple

namespace ReadingBench.Store

open Sql Outcome

namespace TableSpec

variable {spec : TableSpec}

theorem position_unknown {column : String} (h : column ∉ spec.columns) :
    spec.position column = .error (.unknownColumn column spec.table.key) := by
  rw [position, List.idxOf?_eq_none_iff.2 h]

theorem exists_position {column : String} (h : column ∈ spec.columns) : ∃ i, spec.position column = .ok i := by
  cases hfound : spec.columns.idxOf? column with
  | none => exact absurd h (List.idxOf?_eq_none_iff.1 hfound)
  | some i => exact ⟨i, by rw [position, hfound]⟩

theorem mapM_position_unknown {columns : List String} (h : ∃ column ∈ columns, column ∉ spec.columns) :
    (columns.mapM spec.position).toOption = none := by
  rw [Option.eq_none_iff_forall_ne_some]
  intro positions hpositions
  obtain ⟨column, hmem, hunknown⟩ := h
  have hall := mapM_eq_ok.1 (toOption_eq_some.1 hpositions)
  clear hpositions
  induction hall with
  | nil => cases hmem
  | cons hfirst _ ih =>
    rcases List.mem_cons.1 hmem with rfl | hmem
    · rw [position_unknown hunknown] at hfirst
      cases hfirst
    · exact ih hmem

/-- A full tuple reaches each of its columns, so the first unknown one is found. -/
theorem fullRow_unknown {columns : List String} {values : List Value} (full : values.length = columns.length)
    (h : ∃ column ∈ columns, column ∉ spec.columns) : ∃ column ∈ columns, column ∉ spec.columns ∧
      spec.fullRow columns values = .error (.unknownColumn column spec.table.key) := by
  rw [fullRow_eq]
  generalize List.replicate spec.columns.length Value.null = row
  induction columns generalizing values row with
  | nil => simp at h
  | cons column columns ih =>
    obtain ⟨value, values, rfl⟩ := List.exists_cons_of_length_eq_add_one full
    rw [List.zip_cons_cons, List.foldlM_cons, place]
    by_cases hknown : column ∈ spec.columns
    · have hrest : ∃ other ∈ columns, other ∉ spec.columns := by
        obtain ⟨other, hmem, hunknown⟩ := h
        rcases List.mem_cons.1 hmem with rfl | hmem
        · exact absurd hknown hunknown
        · exact ⟨other, hmem, hunknown⟩
      obtain ⟨i, hi⟩ := exists_position hknown
      obtain ⟨other, hmem, hunknown, hfold⟩ := ih (by simpa using full) hrest (row.set i value)
      exact ⟨other, List.mem_cons_of_mem _ hmem, hunknown, by simpa only [hi, ok_bind, pure_bind] using hfold⟩
    · exact ⟨column, List.mem_cons_self, hknown, by rw [position_unknown hknown]; rfl⟩

end TableSpec

namespace Table

variable {t : Table} {s : Insert}

/-- An insert of full tuples that names an unknown column for them, or for its stamp, fails on it. -/
theorem insert_unknown (now : DateTime) (some_row : s.rows ≠ [])
    (full : ∀ row ∈ s.rows, row.length = s.columns.length)
    (h : ∃ column ∈ s.columns ++ s.stamp.toList, column ∉ t.spec.columns) :
    ∃ column ∈ s.columns ++ s.stamp.toList, column ∉ t.spec.columns ∧
      t.insert now s = .error (.unknownColumn column t.spec.table.key) := by
  obtain ⟨values, rows, hrows⟩ := List.exists_cons_of_ne_nil some_row
  have hinsert : t.insert now s =
      (t.resolveStamp now s >>= fun stamp => t.applyAll s.columns s.onConflict stamp s.rows) := rfl
  have hfull : values.length = s.columns.length := full values (hrows ▸ List.mem_cons_self)
  -- The stamp is looked up first, then the columns of the first tuple.
  have hcolumns : ∀ stamp, t.resolveStamp now s = .ok stamp → (∃ column ∈ s.columns, column ∉ t.spec.columns) →
      ∃ column ∈ s.columns ++ s.stamp.toList, column ∉ t.spec.columns ∧
        t.insert now s = .error (.unknownColumn column t.spec.table.key) := by
    intro stamp hstamp hunknown
    obtain ⟨column, hmem, hcolumn, hrow⟩ := TableSpec.fullRow_unknown hfull hunknown
    refine ⟨column, List.mem_append_left _ hmem, hcolumn, ?_⟩
    rw [hinsert, hstamp, ok_bind, hrows, applyAll_cons, apply, hrow]
    rfl
  cases hs : s.stamp with
  | none =>
    rw [hs] at h hcolumns
    refine hcolumns none (resolveStamp_of_none hs) ?_
    simpa using h
  | some stamped =>
    by_cases hknown : stamped ∈ t.spec.columns
    · obtain ⟨i, hi⟩ := TableSpec.exists_position hknown
      have hstamp : t.resolveStamp now s = .ok (some ⟨i, .dateTime now⟩) :=
        (resolveStamp_of_some hs).2 ⟨i, TableSpec.position_eq_ok.1 hi, rfl⟩
      rw [hs] at h hcolumns
      refine hcolumns _ hstamp ?_
      obtain ⟨column, hmem, hcolumn⟩ := h
      rcases List.mem_append.1 hmem with hmem | hmem
      · exact ⟨column, hmem, hcolumn⟩
      · obtain rfl : column = stamped := by simpa using hmem
        exact absurd hknown hcolumn
    · have hstamp : t.resolveStamp now s = .error (.unknownColumn stamped t.spec.table.key) := by
        rw [resolveStamp, hs]
        simp only [Option.mapM, TableSpec.position_unknown hknown]
        rfl
      refine ⟨stamped, by simp, hknown, ?_⟩
      rw [hinsert, hstamp, error_bind]

variable {targets : List String}

theorem update_unknown (h : ∃ column ∈ targets, column ∉ t.spec.columns) (pos : Nat) (source : Tuple)
    (stamp : Option Stamp) : (t.update pos source targets stamp).toOption = none := by
  rw [update, toOption_bind]
  simp only [toOption_bind, TableSpec.mapM_position_unknown h, Option.bind_none, Option.bind_fun_none]

/-- No tuple is updated by unknown columns: it goes in as it would in a plain insert, or it is refused. -/
theorem apply_unknown (columns : List String) (stamp : Option Stamp)
    (h : ∃ column ∈ targets, column ∉ t.spec.columns) (values : List Value) :
    (t.apply columns (.update targets) stamp values).toOption =
      (t.apply columns .fail stamp values).toOption := by
  unfold apply
  cases t.spec.fullRow columns values with
  | error e => rfl
  | ok row =>
    simp only [ok_bind]
    rcases t.conflict (stamped stamp row) with e | _ | pos
    · rfl
    · rfl
    · exact update_unknown h pos (stamped stamp row) stamp

theorem applyAll_unknown (columns : List String) (stamp : Option Stamp)
    (h : ∃ column ∈ targets, column ∉ t.spec.columns) (rows : List Tuple) :
    (t.applyAll columns (.update targets) stamp rows).toOption =
      (t.applyAll columns .fail stamp rows).toOption := by
  induction rows generalizing t with
  | nil => rfl
  | cons values rows ih =>
    rw [applyAll_cons, applyAll_cons, toOption_bind, toOption_bind, apply_unknown columns stamp h]
    rcases hfirst : t.apply columns .fail stamp values with e | ⟨u, applied⟩
    · rfl
    · have hspec : u.spec = t.spec := (apply_frame hfirst).1
      have hrest := ih (t := u) (hspec ▸ h)
      have hok : (Except.ok (u, applied) : Except Error (Table × Applied)).toOption = some (u, applied) := rfl
      rw [hok]
      simp only [Option.bind_some, toOption_bind, hrest]

theorem insert_unknown_update (now : DateTime) (hupdate : s.onConflict = .update targets)
    (h : ∃ column ∈ targets, column ∉ t.spec.columns) :
    (t.insert now s).toOption = (t.insert now { s with onConflict := .fail }).toOption := by
  change (t.resolveStamp now s >>= fun stamp => t.applyAll s.columns s.onConflict stamp s.rows).toOption =
    (t.resolveStamp now s >>= fun stamp => t.applyAll s.columns .fail stamp s.rows).toOption
  rw [toOption_bind, toOption_bind, hupdate]
  simp only [applyAll_unknown _ _ h]

end Table

namespace Session

variable {session : Session} {server : Server} {s : Insert} {t : Table}

/-- The count that an insert answers, if it does, and the tables that it leaves. -/
def inserted (session : Session) (s : Insert) (server : Server) : Option Nat × Std.TreeMap String Table :=
  ((session.insert s server).1.toOption, (session.insert s server).2.tables)

theorem insert_open (hopen : session.isClosed server = false) (quiet : server.failures = [])
    (ht : server.table? s.table = some t) : session.insert s server =
      match t.insert (server.clock (server.log.size + 1)) s with
      | .error e => (.error e, server.logged s.sql)
      | .ok (u, affected) =>
        (.ok affected, { server.logged s.sql with tables := server.tables.insert s.table.key u }) := by
  have htable : (server.logged s.sql).table? s.table = some t := ht
  have hnow : (server.logged s.sql).clock (server.logged s.sql).log.size =
      server.clock (server.log.size + 1) := by simp [Server.logged]
  rw [insert_eq, bind_apply, Server.receive_open hopen, quiet]
  dsimp only [List.head?_nil, Option.elim]
  rw [Action.applyInsert_apply, htable]
  dsimp only
  rw [hnow]
  rfl

theorem inserted_refused (h : session.isClosed server ∨ server.failures ≠ []) :
    session.inserted s server = (none, server.tables) := by
  rw [inserted, insert_eq, bind_apply]
  by_cases hclosed : session.isClosed server
  · rw [receive_apply, if_pos hclosed]
    rfl
  · obtain ⟨e, rest, hfailures⟩ := List.exists_cons_of_ne_nil (h.resolve_left hclosed)
    rw [Server.receive_open (by simpa using hclosed), hfailures]
    rfl

theorem inserted_open (hopen : session.isClosed server = false) (quiet : server.failures = [])
    (ht : server.table? s.table = some t) : session.inserted s server =
      match (t.insert (server.clock (server.log.size + 1)) s).toOption with
      | none => (none, server.tables)
      | some (u, affected) => (some affected, server.tables.insert s.table.key u) := by
  rw [inserted, insert_open hopen quiet ht]
  rcases t.insert (server.clock (server.log.size + 1)) s with e | r <;> rfl

/-- On a table with rows or without, an insert of full tuples fails and leaves the tables alone if a column of
its tuples or its stamp's is none of the table's. With an unknown column among those of its upsert it does
what it would do without the upsert: it fails where a tuple finds its key taken, and goes in elsewhere. -/
theorem inserted_unknown (server : Server) (session : Session) {s : Insert} {t : Table}
    (ht : server.table? s.table = some t) (some_row : s.rows ≠ [])
    (full : ∀ row ∈ s.rows, row.length = s.columns.length) :
    ((∃ column ∈ s.columns ++ s.stamp.toList, column ∉ t.spec.columns) →
      session.inserted s server = (none, server.tables) ∧
      (session.isClosed server = false → server.failures = [] →
        ∃ column ∈ s.columns ++ s.stamp.toList, column ∉ t.spec.columns ∧
          (session.insert s server).1 = .error (.unknownColumn column t.spec.table.key))) ∧
    ∀ targets, s.onConflict = .update targets → (∃ column ∈ targets, column ∉ t.spec.columns) →
      session.inserted s server = session.inserted { s with onConflict := .fail } server ∧
      ((session.inserted s server).1 = none → (session.inserted s server).2 = server.tables) := by
  have hplain : server.table? { s with onConflict := .fail }.table = some t := ht
  by_cases hrefused : session.isClosed server ∨ server.failures ≠ []
  · refine ⟨fun _ => ⟨inserted_refused hrefused, fun hopen quiet => ?_⟩, fun targets _ _ => ⟨?_, fun _ => ?_⟩⟩
    · rcases hrefused with hclosed | hfailures
      · rw [hopen] at hclosed
        cases hclosed
      · exact absurd quiet hfailures
    · rw [inserted_refused hrefused, inserted_refused hrefused]
    · rw [inserted_refused hrefused]
  · obtain ⟨hopen, quiet⟩ : session.isClosed server = false ∧ server.failures = [] := by
      simpa using hrefused
    constructor
    · intro hunknown
      obtain ⟨column, hmem, hcolumn, hinsert⟩ :=
        Table.insert_unknown (server.clock (server.log.size + 1)) some_row full hunknown
      refine ⟨?_, fun _ _ => ⟨column, hmem, hcolumn, ?_⟩⟩
      · rw [inserted_open hopen quiet ht, hinsert]
        rfl
      · rw [insert_open hopen quiet ht, hinsert]
    · intro targets hupdate hunknown
      have hinsert := Table.insert_unknown_update (server.clock (server.log.size + 1)) hupdate hunknown
      rw [inserted_open hopen quiet ht, inserted_open hopen quiet hplain, hinsert]
      refine ⟨rfl, ?_⟩
      rcases (t.insert (server.clock (server.log.size + 1)) { s with onConflict := .fail }).toOption with _ | r
      · exact fun _ => rfl
      · intro h
        cases h

/-- One column that is a key, and one that is none. -/
def numbered : TableSpec := { table := ⟨none, "t"⟩, columns := ["id", "x"], uniqueKeys := [["id"]] }

/-- An upsert of a column that is not there. -/
def misspelt : Insert :=
  { table := numbered.table, columns := ["id", "x"], rows := [[.int 1, .null]], onConflict := .update ["nope"] }

theorem inserted_unknown_misspelt :
    (Session.root.insert { misspelt with stamp := some "now" } ((Server.empty Server.still).define numbered)).1 =
      .error (.unknownColumn "now" "t") ∧
    Session.root.inserted misspelt ((Server.empty Server.still).define numbered) =
      Session.root.inserted { misspelt with onConflict := .fail }
        ((Server.empty Server.still).define numbered) := by
  have defined : ((Server.empty Server.still).define numbered).table? numbered.table =
      some (.empty numbered) := by simp [Server.define, Server.table?]
  have hstamp := (inserted_unknown ((Server.empty Server.still).define numbered) Session.root
    (s := { misspelt with stamp := some "now" }) defined (by decide) (by decide)).1 ⟨"now", by decide, by decide⟩
  have hupdate := (inserted_unknown ((Server.empty Server.still).define numbered) Session.root
    (s := misspelt) defined (by decide) (by decide)).2 ["nope"] rfl ⟨"nope", by decide, by decide⟩
  refine ⟨?_, hupdate.1⟩
  obtain ⟨column, hmem, hcolumn, hinsert⟩ := hstamp.2 rfl rfl
  obtain rfl : column = "now" := by
    simp [misspelt, numbered, Table.empty] at hmem hcolumn
    tauto
  exact hinsert

/-- An empty table takes the row. With the row there, the same statement fails. -/
theorem not_inserted_unknown :
    (Session.root.insert misspelt ((Server.empty Server.still).define numbered)).1 = .ok 1 ∧
      (Session.root.insert misspelt
        (Session.root.insert misspelt ((Server.empty Server.still).define numbered)).2).1 =
        .error (.unknownColumn "nope" "t") := by
  decide +kernel

end Session
end ReadingBench.Store
