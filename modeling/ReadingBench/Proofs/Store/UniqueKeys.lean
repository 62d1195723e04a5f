import ReadingBench.Config.Basic
import ReadingBench.Proofs.Store.History

namespace ReadingBench.Store.Server

open Sql Outcome

theorem indexed_step {server : Server} (h : server.All Table.Indexed) {op : Operation}
    (apart : ∀ p ∈ op.tupleSteps server, ¬Table.Collision p.1 p.2) :
    (server.step op).All Table.Indexed := by
  intro name t' ht'
  cases makes_of_step ht' with
  | kept hold => exact h name t' hold
  | defined spec heq => exact heq ▸ Table.indexed_empty spec
  | inserted t now s affected hold hsteps hinsert =>
    exact (Table.indexed_insert (h name t hold) (hsteps ▸ apart)).2 t' affected hinsert
  | deleted t count hold hdelete =>
    have ht := h name t hold
    exact Table.indexed_reindex (Table.distinct_dropFirst ht.distinct count)
      (fun row hrow => ht.width row (Table.mem_dropFirst hrow)) hdelete
  | broken t count e hold hdelete =>
    obtain ⟨u, hu, -⟩ := Table.exists_reindex_dropFirst (h name t hold).toSound count
    simp [hdelete] at hu

theorem indexed_tupleSteps {server : Server} (h : server.All Table.Indexed) {op : Operation}
    (apart : ∀ p ∈ op.tupleSteps server, ¬Table.Collision p.1 p.2) :
    ∀ p ∈ op.tupleSteps server, p.1.Indexed ∧ p.2.Indexed := by
  intro p hp
  obtain ⟨name, t, now, s, hold, hsteps⟩ := tupleSteps_eq hp
  rw [hsteps] at apart hp
  exact (Table.indexed_insert (h name t hold) apart).1 p hp

theorem indexed_after {server : Server} (h : server.All Table.Indexed) {ops : List Operation}
    (apart : server.CollisionFree ops) {done rest : List Operation} (hops : ops = done ++ rest) :
    (server.after done).All Table.Indexed := by
  induction done generalizing server ops with
  | nil => exact h
  | cons op done ih =>
    subst hops
    exact ih (indexed_step h apart.1) apart.2 rfl

theorem collisionFree_next {server : Server} {done rest : List Operation} {op : Operation}
    (apart : server.CollisionFree (done ++ op :: rest)) :
    ∀ p ∈ op.tupleSteps (server.after done), ¬Table.Collision p.1 p.2 := by
  induction done generalizing server with
  | nil => exact apart.1
  | cons first done ih => exact ih apart.2

theorem mem_values {tables : Std.TreeMap String Table} {t : Table} :
    t ∈ tables.toList.map (·.2) ↔ ∃ name : String, tables[name]? = some t := by
  simp only [List.mem_map, Prod.exists, Std.TreeMap.mem_toList_iff_getElem?_eq_some]
  constructor
  · rintro ⟨name, t, h, rfl⟩
    exact ⟨name, h⟩
  · rintro ⟨name, h⟩
    exact ⟨name, t, h, rfl⟩

theorem indexed_of_mem_passed {server : Server} (h : server.All Table.Indexed) {ops : List Operation}
    (apart : server.CollisionFree ops) : ∀ t ∈ server.passed ops, t.Indexed := by
  induction ops generalizing server with
  | nil =>
    intro t ht
    obtain ⟨name, ht⟩ := mem_values.1 ht
    exact h name t ht
  | cons op ops ih =>
    intro t ht
    simp only [passed, List.mem_append, mem_values] at ht
    rcases ht with (⟨name, ht⟩ | ht) | ht
    · exact h name t ht
    · obtain ⟨p, hp, rfl⟩ := List.mem_map.1 ht
      exact (indexed_tupleSteps h apart.1 p hp).2
    · exact ih (indexed_step h apart.1) apart.2 t ht

theorem collisionFree_of_distinct {server : Server} {ops : List Operation}
    (h : ∀ t ∈ server.passed ops, t.Distinct) : server.CollisionFree ops := by
  induction ops generalizing server with
  | nil => trivial
  | cons op ops ih =>
    simp only [passed, List.mem_append] at h
    refine ⟨fun p hp hcollision => ?_, ih fun t ht => h t (.inr ht)⟩
    obtain ⟨name, t, now, s, -, hsteps⟩ := tupleSteps_eq hp
    obtain ⟨stamp, values, applied, happly⟩ := Table.mem_insertSteps (hsteps ▸ hp)
    exact Table.not_distinct_of_collision happly hcollision
      (h p.2 (.inl (.inr (List.mem_map_of_mem hp))))

/-- Unique keys hold in all tables that requests pass, the staged ones of inserts included, exactly when
no upsert takes the key of another row; they then hold after each request. -/
theorem distinct_iff_collisionFree (clock : Nat → DateTime) (ops : List Operation) :
    ((∀ t ∈ (empty clock).passed ops, t.Distinct) ↔ (empty clock).CollisionFree ops) ∧
      ((empty clock).CollisionFree ops → ∀ done rest, ops = done ++ rest →
        ((empty clock).after done).All Table.Distinct) := by
  refine ⟨⟨collisionFree_of_distinct, fun apart t ht => ?_⟩, fun apart done rest hops name t ht => ?_⟩
  · exact (indexed_of_mem_passed (all_empty _ clock) apart t ht).distinct
  · exact (indexed_after (all_empty _ clock) apart hops name t ht).distinct

/-- A clock that stands still. -/
def still (_ : Nat) : DateTime := defaultBaseTime

def twoKeys : TableSpec :=
  { table := ⟨none, "t"⟩, columns := ["id", "aid"], uniqueKeys := [["id"], ["aid"]] }

/-- An insert into both columns of `twoKeys`. -/
def both (onConflict : OnConflict) (rows : List (Int64 × String)) : Operation :=
  .insert .root
    { table := twoKeys.table, columns := twoKeys.columns, onConflict
      rows := rows.map fun (id, aid) => [.int id, .text aid] }

/-- A row's key moves to a value that is free, and another row takes the old one. -/
def freed : List Operation :=
  [.define twoKeys, both .fail [(1, "a"), (2, "b")], both (.update ["aid"]) [(1, "c"), (3, "a")]]

theorem distinct_freed : (∀ t ∈ (empty still).passed freed, t.Distinct) ∧
    ((empty still).after freed).All Table.Distinct :=
  have apart : (empty still).CollisionFree freed := by decide +kernel
  ⟨(distinct_iff_collisionFree still freed).1.2 apart,
    (distinct_iff_collisionFree still freed).2 apart freed [] (by simp)⟩

/-- The upsert finds the row with id 1 and gives it the aid of the row with id 2. -/
def takeover : List Operation :=
  [.define twoKeys, both .fail [(1, "a"), (2, "b")], both (.update ["aid"]) [(1, "b")]]

theorem not_distinct_takeover :
    ∃ t, ((empty still).after takeover).tables["t"]? = some t ∧ ¬t.Distinct := by
  decide +kernel

end ReadingBench.Store.Server
