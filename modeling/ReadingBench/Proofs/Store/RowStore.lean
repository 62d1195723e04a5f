import ReadingBench.Proofs.Store.UniqueKeys

namespace ReadingBench.Store

open Sql Outcome

structure RowTable where
  spec : TableSpec
  rows : List Tuple

namespace RowTable

/-- The position of the first row with the key. -/
def find (t : RowTable) (key : List String) (k : String) : Option Nat :=
  t.rows.findIdx? fun row => (t.spec.keyOf row key).toOption.join == some k

/-- The position of the row that shares the first of the keys that another row has. -/
def scan (t : RowTable) (row : Tuple) : List (List String) → Except Error (Option Nat)
  | [] => return none
  | key :: keys => do
    match (← t.spec.keyOf row key).bind (t.find key) with
    | some pos => return some pos
    | none => t.scan row keys

/-- Takes the target columns from `source`. A row whose keys cannot be read is refused. -/
def update (t : RowTable) (pos : Nat) (source : Tuple) (columns : List String)
    (stamp : Option Stamp) : Except Error (RowTable × Applied) := do
  let old := t.rows.getD pos []
  let targets := (← columns.mapM t.spec.position) ++ (stamp.map (·.column)).toList
  if targets.any fun i => old.getD i .null != source.getD i .null then
    let row := Table.overwrite source targets old
    let _ ← t.spec.keysOf row
    return ({ t with rows := t.rows.set pos row }, .updated)
  else return (t, .unchanged)

def apply (t : RowTable) (columns : List String) (onConflict : OnConflict) (stamp : Option Stamp)
    (values : List Value) : Except Error (RowTable × Applied) := do
  let row := Table.stamped stamp (← t.spec.fullRow columns values)
  match ← t.scan row t.spec.uniqueKeys, onConflict with
  | none, _ => return ({ t with rows := t.rows ++ [row] }, .inserted)
  | some _, .fail => throw (.duplicateEntry t.spec.table.key)
  | some _, .ignore => return (t, .skipped)
  | some pos, .update targets => t.update pos row targets stamp

def applyAll (columns : List String) (onConflict : OnConflict) (stamp : Option Stamp) :
    List (List Value) → RowTable → Except Error (RowTable × Nat)
  | [], t => return (t, 0)
  | values :: rows, t => do
    let (t, applied) ← t.apply columns onConflict stamp values
    let (t, affected) ← applyAll columns onConflict stamp rows t
    return (t, applied.affected + affected)

def insert (t : RowTable) (now : DateTime) (s : Insert) : Except Error (RowTable × Nat) := do
  let stamp ← s.stamp.mapM fun column => return ⟨← t.spec.position column, .dateTime now⟩
  applyAll s.columns s.onConflict stamp s.rows t

def select (t : RowTable) (s : Select) : Except Error (List Row) := do
  let positions ← s.columns.mapM t.spec.position
  let filter ← s.filter.mapM fun (column, value) => return (← t.spec.position column, value)
  let chosen := t.rows.filter fun row => filter.all fun (i, value) => row.getD i .null == value
  return chosen.map fun row => ⟨s.columns, positions.map fun i => row.getD i .null⟩

end RowTable

structure RowStore where
  tables : String → Option RowTable
  /-- How many statements have come in. -/
  received : Nat
  failures : List Error
  closed : Array Bool
  clock : Nat → DateTime

def RowStore.set (store : RowStore) (key : String) (t : RowTable) : RowStore :=
  { store with tables := Function.update store.tables key (some t) }

abbrev RowAction (α : Type) := ExceptT Error (StateM RowStore) α

namespace RowAction

/-- A session lets a statement in: it is open, and no failure waits. -/
def receive (s : Session) : RowAction Unit := do
  let store ← get
  if store.closed.getD s.number true then throw .sessionClosed
  else
    modify fun store => { store with received := store.received + 1 }
    match store.failures with
    | [] => return
    | e :: rest =>
      modify fun store => { store with failures := rest }
      throw e

def table (ref : TableRef) : RowAction RowTable := do
  match (← get).tables ref.key with
  | some t => return t
  | none => throw (.unknownTable ref.key)

def setTable (ref : TableRef) (t : RowTable) : RowAction Unit :=
  modify fun store => store.set ref.key t

def insert (s : Insert) : RowAction Nat := do
  let t ← table s.table
  let store ← get
  let (t, affected) ← t.insert (store.clock store.received) s
  setTable s.table t
  return affected

def perform : Operation → RowAction Answer
  | .define spec => do
    setTable spec.table ⟨spec, []⟩
    return .done
  | .openSession => do
    let number := (← get).closed.size
    modify fun store => { store with closed := store.closed.push false }
    return .opened ⟨number⟩
  | .close s => do
    modify fun store => { store with closed := store.closed.setIfInBounds s.number true }
    return .done
  | .failNext e => do
    modify fun store => { store with failures := store.failures ++ [e] }
    return .done
  | .select s statement => do
    receive s
    let t ← table statement.table
    return .rows (← t.select statement)
  | .insert s statement => do
    receive s
    return .affected (← insert statement)
  | .delete s statement => do
    receive s
    let t ← table statement.table
    let count := min (statement.limit.getD t.rows.length) t.rows.length
    setTable statement.table { t with rows := t.rows.drop count }
    return .affected count
  | .execute s sql => do
    receive s
    match ← liftM (Action.reading sql) with
    | some statement => return .affected (← insert statement)
    | none => return .affected 0
  | .commit s => do
    receive s
    return .done

end RowAction

namespace RowStore

def empty (clock : Nat → DateTime) : RowStore := ⟨fun _ => none, 0, [], #[false], clock⟩

def after (store : RowStore) (ops : List Operation) : RowStore :=
  ops.foldl (fun store op => (RowAction.perform op store).2) store

end RowStore

namespace Table

/-- The table without its indexes. -/
def forget (t : Table) : RowTable := ⟨t.spec, t.rows.toList⟩

theorem find_forget {t : Table} (ht : t.Indexed) {n : Nat} {key : List String} {index : Index}
    (hn : t.spec.uniqueKeys[n]? = some key) (hindex : t.indexes[n]? = some index) (k : String) :
    t.forget.find key k = index[k]? := by
  have hagree := ht.agrees n key index hn hindex k
  cases hfind : t.forget.find key k with
  | none =>
    rw [RowTable.find, List.findIdx?_eq_none_iff] at hfind
    cases hpos : index[k]? with
    | none => rfl
    | some pos =>
      obtain ⟨row, hrow, hk⟩ := keyAt_eq_some.1 ((hagree pos).1 hpos)
      have hmem : row ∈ t.forget.rows := Array.mem_toList_iff.2 (Array.mem_of_getElem? hrow)
      have hmiss := hfind row hmem
      simp [forget, hk, Except.toOption] at hmiss
  | some pos =>
    rw [RowTable.find, List.findIdx?_eq_some_iff_getElem] at hfind
    obtain ⟨hlt, hk, -⟩ := hfind
    have hrow : t.rows[pos]? = some t.forget.rows[pos] := by
      rw [← Array.getElem?_toList]
      exact List.getElem?_eq_getElem hlt
    rw [eq_comm, hagree, keyAt, hrow]
    exact beq_iff_eq.1 hk

theorem scan_forget {t : Table} (ht : t.Indexed) (row : Tuple) :
    t.forget.scan row t.spec.uniqueKeys = t.conflict row := by
  have hscan : ∀ (keys : List (List String)) (indexes : List Index), keys.length = indexes.length →
      (∀ p ∈ keys.zip indexes, ∀ k, t.forget.find p.1 k = p.2[k]?) →
      t.forget.scan row keys = holder t.spec row (keys.zip indexes) := by
    intro keys indexes hlen hfind
    induction keys generalizing indexes with
    | nil => rfl
    | cons key keys ih =>
      cases indexes with
      | nil => simp at hlen
      | cons index indexes =>
        have hhead : t.forget.find key = fun k => index[k]? := funext (hfind (key, index) (by simp))
        have htail := ih indexes (by simpa using hlen) fun p hp => hfind p (by simp [hp])
        rw [List.zip_cons_cons, RowTable.scan, holder, hhead, htail]
        rfl
  refine hscan _ _ ht.indexes_length.symm ?_
  intro p hp k
  obtain ⟨n, hlt, rfl⟩ := List.getElem_of_mem hp
  rw [List.length_zip] at hlt
  rw [List.getElem_zip]
  exact find_forget ht (List.getElem?_eq_getElem (by omega)) (List.getElem?_eq_getElem (by omega)) k

/-- What the rows-only table has after a step. -/
def forgetResult {α : Type} (r : Except Error (Table × α)) : Except Error (RowTable × α) :=
  r.map fun (t, a) => (t.forget, a)

theorem append_forget {t : Table} {row : Tuple} (h : t.conflict row = .ok none)
    (hlen : t.indexes.length = t.spec.uniqueKeys.length) :
    ∃ t', t.append row = .ok t' ∧ t'.forget = ⟨t.spec, t.forget.rows ++ [row]⟩ := by
  -- The search has read all keys, so entering them does not fail.
  have hread : ∀ key ∈ t.spec.uniqueKeys, ∃ k, t.spec.keyOf row key = .ok k := by
    intro key hkey
    obtain ⟨n, hn, rfl⟩ := List.getElem_of_mem hkey
    have hzip : n < (t.spec.uniqueKeys.zip t.indexes).length := by simp [hn, hlen]
    obtain ⟨k, hk, -⟩ := holder_eq_none h _ (List.getElem_mem hzip)
    rw [List.getElem_zip] at hk
    exact ⟨k, hk⟩
  obtain ⟨keys, hkeys⟩ := exists_mapM_eq_ok hread
  exact ⟨_, append_eq_ok.2 ⟨keys, hkeys, rfl⟩, by simp [forget]⟩

theorem update_forget {t : Table} (ht : t.Sound) {pos : Nat} (hpos : pos < t.rows.size)
    (source : Tuple) (columns : List String) (stamp : Option Stamp) :
    t.forget.update pos source columns stamp = forgetResult (t.update pos source columns stamp) := by
  have hold : t.forget.rows.getD pos [] = t.rows.getD pos [] := by
    simp [forget, Array.getD, List.getD, hpos]
  obtain ⟨before, hbefore⟩ : ∃ keys, t.spec.keysOf (t.rows.getD pos []) = .ok keys := by
    refine ht.readable _ ?_
    simp [Array.getD, hpos]
  simp only [RowTable.update, update, hold, hbefore, ok_bind]
  rw [show t.forget.spec = t.spec from rfl]
  generalize t.rows.getD pos [] = old
  cases columns.mapM t.spec.position with
  | error e => rfl
  | ok targets =>
    simp only [ok_bind]
    split
    · cases t.spec.keysOf (overwrite source (targets ++ (stamp.map (·.column)).toList) old) with
      | error e => rfl
      | ok after => simp [forgetResult, forget, ok_bind, pure, Except.pure, Except.map]
    · rfl

theorem apply_forget {t : Table} (ht : t.Indexed) (columns : List String) (onConflict : OnConflict)
    (stamp : Option Stamp) (values : List Value) :
    t.forget.apply columns onConflict stamp values =
      forgetResult (t.apply columns onConflict stamp values) := by
  simp only [RowTable.apply, apply]
  rw [show t.forget.spec = t.spec from rfl]
  cases t.spec.fullRow columns values with
  | error e => rfl
  | ok row =>
    simp only [ok_bind, scan_forget ht]
    cases hfound : t.conflict (stamped stamp row) with
    | error e => rfl
    | ok found =>
      cases found with
      | none =>
        obtain ⟨t', happend, hforget⟩ := append_forget hfound ht.indexes_length
        simp [happend, ok_bind, ← hforget, forgetResult, pure, Except.pure, Except.map]
      | some pos =>
        cases onConflict with
        | fail => rfl
        | ignore => rfl
        | update targets => exact update_forget ht.toSound (conflict_lt ht.toSound hfound) _ _ _

theorem applyAll_forget {columns : List String} {onConflict : OnConflict} {stamp : Option Stamp}
    {rows : List (List Value)} {t : Table} (ht : t.Indexed)
    (apart : ∀ p ∈ tupleSteps columns onConflict stamp rows t, ¬Collision p.1 p.2) :
    RowTable.applyAll columns onConflict stamp rows t.forget =
      forgetResult (t.applyAll columns onConflict stamp rows) := by
  induction rows generalizing t with
  | nil => rfl
  | cons values rows ih =>
    rw [tupleSteps] at apart
    rw [applyAll_cons, RowTable.applyAll, apply_forget ht]
    cases happly : t.apply columns onConflict stamp values with
    | error e => rfl
    | ok r =>
      obtain ⟨u, applied⟩ := r
      simp only [happly, List.mem_cons, forall_eq_or_imp] at apart
      have hrest := ih (indexed_apply ht happly apart.1) apart.2
      simp only [forgetResult, Except.map, ok_bind]
      rw [hrest]
      cases u.applyAll columns onConflict stamp rows <;> rfl

theorem insert_forget {t : Table} {now : DateTime} {s : Insert} (ht : t.Indexed)
    (apart : ∀ p ∈ t.insertSteps now s, ¬Collision p.1 p.2) :
    t.forget.insert now s = forgetResult (t.insert now s) := by
  rw [insertSteps] at apart
  change (do
      let stamp ← t.resolveStamp now s
      RowTable.applyAll s.columns s.onConflict stamp s.rows t.forget) =
    forgetResult (do
      let stamp ← t.resolveStamp now s
      t.applyAll s.columns s.onConflict stamp s.rows)
  cases hstamp : t.resolveStamp now s with
  | error e => rfl
  | ok stamp =>
    rw [hstamp] at apart
    exact applyAll_forget ht apart

theorem reindex_forget {t : Table} (ht : t.Sound) (count : Nat) : ∃ u,
    (t.dropFirst count).reindex = .ok u ∧
      u.forget = { t.forget with rows := t.forget.rows.drop count } := by
  obtain ⟨u, hu, hspec, hrows, -⟩ := exists_reindex_dropFirst ht count
  refine ⟨u, hu, ?_⟩
  simp [forget, hspec, hrows]

theorem select_forget (t : Table) (s : Select) : t.forget.select s = t.select s := by
  simp only [RowTable.select, select, forget, Array.toList_filter]

end Table
end ReadingBench.Store
