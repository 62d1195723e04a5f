import ReadingBench.Proofs.Chunk
import ReadingBench.Proofs.Store.Joined
import ReadingBench.Rollup

namespace ReadingBench
namespace Store

open Sql Outcome Server

namespace Table

/-- Group after group, up to the first that is refused; the groups before it stay in the table. -/
def insertEach (t : Table) (now : DateTime) (s : Insert) : List (List Tuple) → Table × Except Error Nat
  | [] => (t, .ok 0)
  | group :: groups =>
    match t.insert now { s with rows := group } with
    | .ok (u, affected) => ((u.insertEach now s groups).1, (u.insertEach now s groups).2.map (affected + ·))
    | .error e => (t, .error e)

/-- The statement fails with its row `i`, and would succeed with only the rows before it. -/
structure FailsAt (t : Table) (now : DateTime) (s : Insert) (i : Nat) (e : Error) : Prop where
  within : i < s.rows.length
  refused : t.insert now { s with rows := s.rows.take (i + 1) } = .error e
  before : ∀ count, 0 < count → count ≤ i →
    ∃ r, t.insert now { s with rows := s.rows.take count } = .ok r

/-- Groups of rows come to what the statement with all of them comes to. -/
structure Grouped (t : Table) (now : DateTime) (s : Insert) (groups : List (List Tuple)) : Prop where
  succeeds : ∀ u affected, t.insert now s = .ok (u, affected) ↔
    t.insertEach now s groups = (u, .ok affected)
  /-- The groups before that of the refused row are applied, and no others. -/
  fails : ∀ e, t.insert now s = .error e → ∃ i before group after u affected,
    t.FailsAt now s i e ∧ groups = before ++ group :: after ∧
      before.flatten.length ≤ i ∧ i < before.flatten.length + group.length ∧
        t.insertEach now s before = (u, .ok affected) ∧ t.insertEach now s groups = (u, .error e)

section Insert

variable {t u : Table} {now : DateTime} {s : Insert} {e : Error} {affected : Nat}

/-- The stamp's column is looked up before any row, and alike for every group. -/
theorem insert_of_stamp {stamp : Option Stamp} (h : t.resolveStamp now s = .ok stamp) (rows : List Tuple) :
    t.insert now { s with rows } = t.applyAll s.columns s.onConflict stamp rows := by
  change (t.resolveStamp now s >>= fun stamp => t.applyAll s.columns s.onConflict stamp rows) = _
  rw [h, ok_bind]

theorem insert_of_no_stamp (h : t.resolveStamp now s = .error e) (rows : List Tuple) :
    t.insert now { s with rows } = .error e := by
  change (t.resolveStamp now s >>= fun stamp => t.applyAll s.columns s.onConflict stamp rows) = _
  rw [h, error_bind]

/-- A statement's rows may come in two statements. -/
theorem insert_append (t : Table) (now : DateTime) (s : Insert) (rows more : List Tuple) :
    t.insert now { s with rows := rows ++ more } = (do
      let (u, affected) ← t.insert now { s with rows }
      let (v, others) ← u.insert now { s with rows := more }
      return (v, affected + others)) := by
  cases hstamp : t.resolveStamp now s with
  | error e =>
    rw [insert_of_no_stamp hstamp, insert_of_no_stamp hstamp, error_bind]
  | ok stamp =>
    rw [insert_of_stamp hstamp, insert_of_stamp hstamp, applyAll_append]
    rcases hrows : t.applyAll s.columns s.onConflict stamp rows with e | ⟨u, affected⟩
    · rfl
    · have hstamp' : u.resolveStamp now s = .ok stamp := by
        rw [← hstamp, resolveStamp, resolveStamp, spec_applyAll hrows]
      rw [ok_bind, ok_bind]
      dsimp only
      rw [insert_of_stamp hstamp']

/-- What is refused is refused with more rows behind it. -/
theorem insert_error_mono {rows more : List Tuple} (hstart : rows <+: more)
    (h : t.insert now { s with rows } = .error e) : t.insert now { s with rows := more } = .error e := by
  obtain ⟨rest, rfl⟩ := hstart
  rw [insert_append, h, error_bind]

theorem insertEach_cons_eq_ok {group : List Tuple} {groups : List (List Tuple)} :
    t.insertEach now s (group :: groups) = (u, .ok affected) ↔
      ∃ v first others, t.insert now { s with rows := group } = .ok (v, first) ∧
        v.insertEach now s groups = (u, .ok others) ∧ first + others = affected := by
  rw [insertEach]
  cases t.insert now { s with rows := group } with
  | error e => simp
  | ok r =>
    obtain ⟨v, first⟩ := r
    rcases hrest : v.insertEach now s groups with ⟨w, e | others⟩
    · simp [hrest, Except.map]
    · simp [hrest, Except.map]

theorem insertEach_append {before : List (List Tuple)} (h : t.insertEach now s before = (u, .ok affected))
    (groups : List (List Tuple)) : t.insertEach now s (before ++ groups) =
      ((u.insertEach now s groups).1, (u.insertEach now s groups).2.map (affected + ·)) := by
  induction before generalizing t affected with
  | nil =>
    obtain ⟨rfl, hzero⟩ := Prod.mk.inj h
    obtain rfl := Except.ok.inj hzero
    rcases hgroups : t.insertEach now s groups with ⟨v, e | others⟩
    · simp [hgroups, Except.map]
    · simp [hgroups, Except.map]
  | cons group before ih =>
    obtain ⟨v, first, others, hfirst, hrest, rfl⟩ := insertEach_cons_eq_ok.1 h
    rw [List.cons_append, insertEach, hfirst]
    dsimp only
    rw [ih hrest]
    rcases (u.insertEach now s groups).2 with e | last
    · rfl
    · simp [Except.map, Nat.add_assoc]

/-- Groups go in one by one exactly if all their rows go in at once. -/
theorem insertEach_eq_ok_iff {groups : List (List Tuple)} (nonempty : groups ≠ []) :
    t.insertEach now s groups = (u, .ok affected) ↔
      t.insert now { s with rows := groups.flatten } = .ok (u, affected) := by
  induction groups generalizing t affected with
  | nil => exact absurd rfl nonempty
  | cons group groups ih =>
    rw [insertEach_cons_eq_ok]
    cases groups with
    | nil =>
      rw [List.flatten_cons, List.flatten_nil, List.append_nil]
      constructor
      · rintro ⟨v, first, others, hfirst, hnone, rfl⟩
        obtain ⟨rfl, hzero⟩ := Prod.mk.inj hnone
        obtain rfl := Except.ok.inj hzero
        exact hfirst
      · intro h
        exact ⟨u, affected, 0, h, rfl, rfl⟩
    | cons next groups =>
      rw [List.flatten_cons, insert_append, bind_eq_ok]
      constructor
      · rintro ⟨v, first, others, hfirst, hrest, rfl⟩
        rw [ih (List.cons_ne_nil _ _)] at hrest
        exact ⟨(v, first), hfirst, bind_eq_ok.2 ⟨(u, others), hrest, rfl⟩⟩
      · rintro ⟨⟨v, first⟩, hfirst, h⟩
        obtain ⟨⟨w, others⟩, hrest, h⟩ := bind_eq_ok.1 h
        obtain ⟨rfl, rfl⟩ := Prod.mk.inj (pure_eq_ok.1 h)
        exact ⟨v, first, others, hfirst, (ih (List.cons_ne_nil _ _)).2 hrest, rfl⟩

/-- Once groups are in, what the whole refuses the table that they left refuses. -/
theorem insert_error_of_before {before : List (List Tuple)} {rows : List Tuple}
    (hbefore : t.insertEach now s before = (u, .ok affected))
    (h : t.insert now { s with rows := before.flatten ++ rows } = .error e) :
    u.insert now { s with rows } = .error e := by
  by_cases hnone : before = []
  · obtain rfl := hnone
    obtain ⟨rfl, -⟩ := Prod.mk.inj hbefore
    exact h
  · rw [insert_append, (insertEach_eq_ok_iff hnone).1 hbefore, ok_bind] at h
    dsimp only at h
    rcases hrows : u.insert now { s with rows } with e' | r
    · rw [hrows, error_bind] at h
      exact h
    · rw [hrows, ok_bind] at h
      cases h

/-- A statement that fails does so at one of its rows. -/
theorem exists_failsAt (some_row : s.rows ≠ []) (h : t.insert now s = .error e) :
    ∃ i, t.FailsAt now s i e := by
  classical
  have hwhole : t.insert now { s with rows := s.rows.take (s.rows.length - 1 + 1) } = .error e := by
    rw [Nat.sub_add_cancel (List.length_pos_iff.2 some_row), List.take_length]
    exact h
  have hex : ∃ i e, t.insert now { s with rows := s.rows.take (i + 1) } = .error e := ⟨_, e, hwhole⟩
  obtain ⟨e', hrefused⟩ := Nat.find_spec hex
  have hsame : .error e' = (.error e : Except Error (Table × Nat)) :=
    (insert_error_mono (List.take_prefix _ _) hrefused).symm.trans h
  obtain rfl := Except.error.inj hsame
  refine ⟨Nat.find hex, ?_, hrefused, ?_⟩
  · have hle := Nat.find_min' hex ⟨e', hwhole⟩
    have hpos := List.length_pos_iff.2 some_row
    omega
  · intro count hpos hle
    have hnot := Nat.find_min hex (m := count - 1) (by omega)
    rw [Nat.sub_add_cancel hpos] at hnot
    rcases hcount : t.insert now { s with rows := s.rows.take count } with e | r
    · exact absurd ⟨e, hcount⟩ hnot
    · exact ⟨r, rfl⟩

/-- The groups before the one with the refused row go in. -/
theorem FailsAt.insertEach_before {i : Nat} (h : t.FailsAt now s i e) {before : List (List Tuple)}
    {rest : List Tuple} (hrows : s.rows = before.flatten ++ rest) (full : ∀ group ∈ before, group ≠ [])
    (hle : before.flatten.length ≤ i) : ∃ u affected, t.insertEach now s before = (u, .ok affected) := by
  cases before with
  | nil => exact ⟨t, 0, rfl⟩
  | cons group before =>
    have hpos : 0 < (group :: before).flatten.length := by
      have := List.length_pos_iff.2 (full group List.mem_cons_self)
      rw [List.flatten_cons, List.length_append]
      omega
    obtain ⟨⟨u, affected⟩, hbefore⟩ := h.before _ hpos hle
    rw [hrows, List.take_left' rfl] at hbefore
    exact ⟨u, affected, (insertEach_eq_ok_iff (List.cons_ne_nil _ _)).2 hbefore⟩

theorem grouped_of_cut (some_row : s.rows ≠ []) {groups : List (List Tuple)} (cut : Cut s.rows groups) :
    t.Grouped now s groups where
  succeeds := by
    have hgroups : groups ≠ [] := by
      rintro rfl
      exact some_row cut.joined.symm
    intro u affected
    rw [insertEach_eq_ok_iff hgroups, cut.joined]
  fails := by
    intro e h
    obtain ⟨i, hfails⟩ := exists_failsAt some_row h
    obtain ⟨before, group, after, hgroups, hle, hlt⟩ :=
      exists_group (i := i) (by rw [cut.joined]; exact hfails.within)
    have hrows : s.rows = before.flatten ++ (group ++ after.flatten) := by
      rw [← cut.joined, hgroups, List.flatten_append, List.flatten_cons]
    obtain ⟨u, affected, hbefore⟩ := hfails.insertEach_before hrows
      (fun own hown => cut.full own (by rw [hgroups]; simp [hown])) hle
    -- The rows up to the refused one are among those of the groups up to its own.
    have hstart : s.rows.take (i + 1) <+: before.flatten ++ group := by
      have hbound : before.flatten ++ group <+: s.rows := by
        rw [hrows, ← List.append_assoc]
        exact List.prefix_append _ _
      refine List.prefix_of_prefix_length_le (List.take_prefix _ _) hbound ?_
      rw [List.length_take, List.length_append]
      omega
    have hgroup := insert_error_of_before hbefore (insert_error_mono hstart hfails.refused)
    have hrest : u.insertEach now s (group :: after) = (u, .error e) := by
      rw [insertEach, hgroup]
    refine ⟨i, before, group, after, u, affected, hfails, hgroups, hle, hlt, hbefore, ?_⟩
    rw [hgroups, insertEach_append hbefore, hrest]
    rfl

end Insert

end Table
end Store

namespace Rollup

open Sql Store Server Outcome

variable {sink : Session} {server : Server} {t u : Table} {now : DateTime}

/-- A batch on a calm server whose clock stands still. -/
theorem persistBatch_apply (calm : Calm sink server) (ht : server.table? Keyspace.beRead.table = some t)
    (still : server.clock = fun _ => now) (batch : List BeRead) :
    (∀ u affected, t.insert now (upsert batch) = .ok (u, affected) →
      ∃ next, persistBatch sink batch server = (.ok ⟨⟩, next) ∧ Calm sink next ∧
        next.table? Keyspace.beRead.table = some u ∧ next.clock = fun _ => now) ∧
    ∀ e, t.insert now (upsert batch) = .error e →
      ∃ next, persistBatch sink batch server = (.error (.failed (.sql e)), next) ∧
        next.table? Keyspace.beRead.table = some t := by
  have hfound : (server.logged (upsert batch).sql).table? (upsert batch).table = some t := ht
  have hclock : (server.logged (upsert batch).sql).clock = fun _ => now := still
  have hinsert : sink.insert (upsert batch) server =
      Action.applyInsert (upsert batch) (server.logged (upsert batch).sql) := by
    rw [Session.insert_eq, bind_apply, calm.receive]
  rw [Action.applyInsert_apply, hfound, hclock] at hinsert
  dsimp only at hinsert
  rw [persistBatch, bind_apply, Run.ofAction]
  constructor
  · intro u affected h
    rw [h] at hinsert
    have hmid := (respects_insert sink (upsert batch)).keepsCalm.after calm hinsert
    rw [hinsert]
    dsimp only
    rw [Run.ofAction, Session.commit_eq, bind_apply, hmid.receive]
    have hlast := hmid.logged "COMMIT"
    exact ⟨_, rfl, ⟨hlast.failures, hlast.opened⟩, table?_of_insert rfl, rfl⟩
  · intro e h
    rw [h] at hinsert
    rw [hinsert]
    exact ⟨_, rfl, hfound⟩

theorem forM_persistBatch_apply (calm : Calm sink server) (ht : server.table? Keyspace.beRead.table = some t)
    (still : server.clock = fun _ => now) (bs : List BeRead) {batches : List (List BeRead)}
    {result : Except Error Nat}
    (hgroups : t.insertEach now (upsert bs) (batches.map (·.map BeRead.toRow)) = (u, result)) :
    ∃ next, batches.forM (persistBatch sink) server =
        ((result.map fun _ => ⟨⟩).mapError fun e => .failed (.sql e), next) ∧
      next.table? Keyspace.beRead.table = some u := by
  induction batches generalizing server t result with
  | nil =>
    obtain ⟨rfl, rfl⟩ := Prod.mk.inj hgroups
    exact ⟨server, rfl, ht⟩
  | cons batch batches ih =>
    have hall : (batch :: batches).forM (persistBatch sink) =
        (persistBatch sink batch >>= fun _ => batches.forM (persistBatch sink)) := rfl
    have hsame : { upsert bs with rows := batch.map BeRead.toRow } = upsert batch := rfl
    obtain ⟨haccepts, hrefuses⟩ := persistBatch_apply calm ht still batch
    rw [List.map_cons, Table.insertEach, hsame] at hgroups
    rw [hall, bind_apply]
    rcases hbatch : t.insert now (upsert batch) with e | ⟨v, affected⟩
    · rw [hbatch] at hgroups
      obtain ⟨rfl, rfl⟩ := Prod.mk.inj hgroups
      obtain ⟨next, hfails, hnext⟩ := hrefuses e hbatch
      rw [hfails]
      exact ⟨next, rfl, hnext⟩
    · rw [hbatch] at hgroups
      obtain ⟨rfl, rfl⟩ := Prod.mk.inj hgroups
      obtain ⟨mid, hdone, hcalm, hv, hstill⟩ := haccepts v affected hbatch
      obtain ⟨next, hrest, hnext⟩ := ih hcalm hv hstill (Prod.mk.eta).symm
      rw [hdone]
      refine ⟨next, hrest.trans ?_, hnext⟩
      cases (v.insertEach now (upsert bs) (batches.map (·.map BeRead.toRow))).2 <;> rfl

/-- Rollups are stored as one upsert of them all would store them, or fail with its error. -/
structure Persists (t : Table) (now : DateTime) (config : RollupConfig) (sink : Session) (bs : List BeRead)
    (server : Server) : Prop where
  stores : ∀ u affected, t.insert now (upsert bs) = .ok (u, affected) →
    ∃ next, persist config sink bs server = (.ok (chunks config.batchSize.toNat bs).length, next) ∧
      next.table? Keyspace.beRead.table = some u
  fails : ∀ e, t.insert now (upsert bs) = .error e →
    ∃ next, persist config sink bs server = (.error (.failed (.sql e)), next)

/-- While the clock stands still, the batch size makes no difference to what becomes of rollups. -/
theorem persist_eq_insert (config : RollupConfig) (calm : Calm sink server)
    (ht : server.table? Keyspace.beRead.table = some t) (still : server.clock = fun _ => now)
    {bs : List BeRead} (some_rollup : bs ≠ []) : Persists t now config sink bs server := by
  have some_row : (upsert bs).rows ≠ [] := mt List.map_eq_nil_iff.1 some_rollup
  have hgrouped : t.Grouped now (upsert bs) _ :=
    Table.grouped_of_cut some_row ((Cut.chunks config.batchSize.toNat bs).map BeRead.toRow)
  constructor
  · intro u affected h
    rw [persist, bind_apply]
    obtain ⟨next, hbatches, hnext⟩ :=
      forM_persistBatch_apply calm ht still bs ((hgrouped.succeeds u affected).1 h)
    rw [hbatches]
    exact ⟨next, rfl, hnext⟩
  · intro e h
    rw [persist, bind_apply]
    obtain ⟨-, -, -, -, v, -, -, -, -, -, -, heach⟩ := hgrouped.fails e h
    obtain ⟨next, hbatches, -⟩ := forM_persistBatch_apply calm ht still bs heach
    rw [hbatches]
    exact ⟨next, rfl⟩

end Rollup

namespace Store.Table

open Sql Server

/-- Splitting an insert changes nothing, on any table: wherever its rows are cut, so also where the limit on
placeholders cuts them, and the rollups of any batch size. The rollups of a run are stored in this way. -/
theorem insert_grouped (t : Table) (now : DateTime) (s : Insert) (some_row : s.rows ≠ []) :
    (∀ groups, Cut s.rows groups → t.Grouped now s groups) ∧ Cut s.rows s.statementChunks ∧
      ∀ (config : RollupConfig) (bs : List BeRead), s = Rollup.upsert bs →
        Cut s.rows ((chunks config.batchSize.toNat bs).map (·.map BeRead.toRow)) ∧
        ∀ sink server, Calm sink server → server.table? Keyspace.beRead.table = some t →
          (server.clock = fun _ => now) → Rollup.Persists t now config sink bs server := by
  refine ⟨fun groups cut => grouped_of_cut some_row cut, .chunks s.rowsPerStatement s.rows, ?_⟩
  rintro config bs rfl
  refine ⟨(Cut.chunks config.batchSize.toNat bs).map BeRead.toRow, fun sink server calm ht still => ?_⟩
  exact Rollup.persist_eq_insert config calm ht still (mt List.map_eq_nil_iff.2 some_row)

def marks : Table :=
  .empty { table := ⟨none, "marks"⟩, columns := ["k", "v", "at"], uniqueKeys := [["k"]] }

/-- The third tuple has the key of the first. -/
def twice (onConflict : OnConflict) : Insert :=
  { table := ⟨none, "marks"⟩, columns := ["k", "v"], onConflict, stamp := some "at"
    rows := [[.int 1, .int 10], [.int 2, .int 20], [.int 1, .int 11], [.int 3, .int 30]] }

def twiceCut : List (List Tuple) :=
  [[[.int 1, .int 10]], [[.int 2, .int 20], [.int 1, .int 11]], [[.int 3, .int 30]]]

/-- The table's integers and what came back. -/
def twiceLeft (onConflict : OnConflict) : List (List Int64) × Except Error Nat :=
  let (u, result) := marks.insertEach defaultBaseTime (twice onConflict) twiceCut
  (u.rows.toList.map fun row => row.filterMap Value.asInt?, result)

theorem insert_grouped_twice :
    (∀ onConflict, (twice onConflict).rows ≠ [] ∧ Cut (twice onConflict).rows twiceCut ∧
      marks.Grouped defaultBaseTime (twice onConflict) twiceCut) ∧
    (twiceLeft (.update ["v"])).1 = [[1, 11], [2, 20], [3, 30]] ∧
    (twiceLeft (.update ["v"])).2.toOption = some 5 ∧
    (twiceLeft .fail).1 = [[1, 10]] ∧ (twiceLeft .fail).2.toOption = none := by
  refine ⟨fun onConflict => ?_, by decide +kernel, by decide +kernel, by decide +kernel, by decide +kernel⟩
  have some_row : (twice onConflict).rows ≠ [] := List.cons_ne_nil _ _
  have cut : Cut (twice onConflict).rows twiceCut := ⟨rfl, by simp [twiceCut]⟩
  exact ⟨some_row, cut, (insert_grouped marks defaultBaseTime (twice onConflict) some_row).1 _ cut⟩

end Store.Table
end ReadingBench
