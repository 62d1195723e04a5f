import ReadingBench.Proofs.Store.Insertion

namespace ReadingBench.Store

open Sql Outcome

/-- Work that gives `none` where it meets a position with nothing there. -/
abbrev Checked (α : Type) := ExceptT Error Option α

namespace Checked

variable {α β : Type}

def outOfRange : Checked α := ExceptT.mk none

/-- Work without access by position. -/
def free (x : Except Error α) : Checked α := ExceptT.mk (some x)

def found : Option α → Checked α
  | some a => return a
  | none => outOfRange

def write (row : Tuple) (i : Nat) (value : Value) : Checked Tuple :=
  if i < row.length then return row.set i value else outOfRange

/-- Two lists walked by one position. -/
def together (xs : List α) (ys : List β) : Checked (List (α × β)) :=
  if xs.length = ys.length then return xs.zip ys else outOfRange

def keyParts (spec : TableSpec) (row : Tuple) : List String → Checked (Option (List String))
  | [] => return some []
  | column :: key => do
    let i ← free (spec.position column)
    match ← found row[i]? with
    | .null => return none
    | value => return (← keyParts spec row key).map (value.literal :: ·)

def keyOf (spec : TableSpec) (row : Tuple) (key : List String) : Checked (Option String) := do
  return (← keyParts spec row key).map "\x1f".intercalate

def keysOf (spec : TableSpec) (row : Tuple) : Checked (List (Option String)) :=
  spec.uniqueKeys.mapM (keyOf spec row)

def fullRow (spec : TableSpec) (columns : List String) (values : List Value) : Checked Tuple :=
  (columns.zip values).foldlM
    (fun row (column, value) => do write row (← free (spec.position column)) value)
    (List.replicate spec.columns.length .null)

def holder (spec : TableSpec) (row : Tuple) :
    List (List String × Index) → Checked (Option Nat)
  | [] => return none
  | (key, index) :: rest => do
    match (← keyOf spec row key).bind (index[·]?) with
    | some pos => return some pos
    | none => holder spec row rest

def conflict (t : Table) (row : Tuple) : Checked (Option Nat) := do
  holder t.spec row (← together t.spec.uniqueKeys t.indexes)

def append (t : Table) (row : Tuple) : Checked Table := do
  let keys ← keysOf t.spec row
  let entries ← together keys t.indexes
  return { t with
    rows := t.rows.push row
    indexes := entries.map fun (key, index) => Index.enter t.rows.size key index }

/-- Whether a column of two rows differs. -/
def differs (row source : Tuple) (i : Nat) : Checked Bool := do
  return (← found row[i]?) != (← found source[i]?)

def overwrite (source : Tuple) (targets : List Nat) (row : Tuple) : Checked Tuple :=
  targets.foldlM (fun row i => do
    if ← differs row source i then write row i (← found source[i]?) else return row) row

def update (t : Table) (pos : Nat) (source : Tuple) (columns : List String) (stamp : Option Stamp) :
    Checked (Table × Applied) := do
  let old ← found t.rows[pos]?
  let before ← keysOf t.spec old
  let targets := (← free (columns.mapM t.spec.position)) ++ (stamp.map (·.column)).toList
  if (← targets.mapM (differs old source)).any id then
    let row ← overwrite source targets old
    let after ← keysOf t.spec row
    let entries ← together (← together before after) t.indexes
    return ({ t with
      rows := t.rows.setIfInBounds pos row
      indexes := entries.map fun ((old, new), index) => Index.move pos old new index }, .updated)
  else return (t, .unchanged)

def stamped (stamp : Option Stamp) (row : Tuple) : Checked Tuple :=
  match stamp with
  | some { column, now } => do
    if (← found row[column]?).isNull then write row column now else return row
  | none => return row

def apply (t : Table) (columns : List String) (onConflict : OnConflict) (stamp : Option Stamp)
    (values : List Value) : Checked (Table × Applied) := do
  let row ← stamped stamp (← fullRow t.spec columns values)
  match ← conflict t row, onConflict with
  | none, _ => return (← append t row, .inserted)
  | some _, .fail => free (throw (.duplicateEntry t.spec.table.key))
  | some _, .ignore => return (t, .skipped)
  | some pos, .update targets => update t pos row targets stamp

def applyAll (t : Table) (columns : List String) (onConflict : OnConflict) (stamp : Option Stamp)
    (rows : List (List Value)) : Checked (Table × Nat) :=
  rows.foldlM (fun (t, affected) values => do
    let (t, applied) ← apply t columns onConflict stamp values
    return (t, affected + applied.affected)) (t, 0)

def insert (t : Table) (now : DateTime) (s : Insert) : Checked (Table × Nat) := do
  let stamp ← free (t.resolveStamp now s)
  applyAll t s.columns s.onConflict stamp s.rows

def indexFrom (spec : TableSpec) : Nat → List Tuple → List Index → Checked (List Index)
  | _, [], indexes => return indexes
  | pos, row :: rows, indexes => do
    let keys ← keysOf spec row
    let entries ← together keys indexes
    indexFrom spec (pos + 1) rows (entries.map fun (key, index) => Index.enter pos key index)

def dropFirst (t : Table) (count : Nat) : Checked Table :=
  if count ≤ t.rows.size then return t.dropFirst count else outOfRange

def reindex (t : Table) : Checked Table := do
  let indexes ← indexFrom t.spec 0 t.rows.toList (t.spec.uniqueKeys.map fun _ => ∅)
  return { t with indexes }

def passes (filter : Option (Nat × Value)) (row : Tuple) : Checked Bool :=
  match filter with
  | some (i, value) => return (← found row[i]?) == value
  | none => return true

def fetch (columns : List String) (positions : List Nat) (filter : Option (Nat × Value)) :
    List Tuple → Checked (List Row)
  | [] => return []
  | row :: rows => do
    if ← passes filter row then
      let values ← positions.mapM fun i => found row[i]?
      return ⟨columns, values⟩ :: (← fetch columns positions filter rows)
    else fetch columns positions filter rows

def select (t : Table) (s : Select) : Checked (List Row) := do
  let positions ← free (s.columns.mapM t.spec.position)
  let filter ← free (s.filter.mapM fun (column, value) => return (← t.spec.position column, value))
  fetch s.columns positions filter t.rows.toList

theorem bind_eq_free {c : Checked α} {x : Except Error α} {g : α → Checked β} {f : α → Except Error β}
    (hc : c = free x) (hnext : ∀ a, x = .ok a → g a = free (f a)) : c >>= g = free (x >>= f) := by
  subst hc
  cases x with
  | error e => rfl
  | ok a => exact hnext a rfl

theorem free_bind (a : α) (g : α → Checked β) : free (.ok a) >>= g = g a := rfl

theorem found_eq {a : α} {o : Option α} (h : o = some a) : found o = free (.ok a) := by
  subst h
  rfl

theorem found_getElem? {row : Tuple} {i : Nat} (hi : i < row.length) :
    found row[i]? = free (.ok (row.getD i .null)) := by
  apply found_eq
  rw [List.getElem?_eq_getElem hi, List.getD_eq_getElem _ _ hi]

theorem write_eq {row : Tuple} {i : Nat} (hi : i < row.length) (value : Value) :
    write row i value = free (.ok (row.set i value)) := if_pos hi

theorem together_eq {xs : List α} {ys : List β} (h : xs.length = ys.length) :
    together xs ys = free (.ok (xs.zip ys)) := if_pos h

theorem foldlM_eq_free {g : β → α → Checked β} {f : β → α → Except Error β} {P : β → Prop}
    {xs : List α} {b : β} (start : P b)
    (step : ∀ x ∈ xs, ∀ b, P b → g b x = free (f b x) ∧ ∀ b', f b x = .ok b' → P b') :
    xs.foldlM g b = free (xs.foldlM f b) := by
  induction xs generalizing b with
  | nil => rfl
  | cons x xs ih =>
    obtain ⟨hfirst, hkeep⟩ := step x (by simp) b start
    rw [List.foldlM_cons, List.foldlM_cons]
    refine bind_eq_free hfirst fun b' hb' => ?_
    exact ih (hkeep b' hb') fun y hy => step y (by simp [hy])

theorem mapM_eq_free {g : α → Checked β} {f : α → Except Error β} {xs : List α}
    (h : ∀ x ∈ xs, g x = free (f x)) : xs.mapM g = free (xs.mapM f) := by
  induction xs with
  | nil => rfl
  | cons x xs ih =>
    rw [List.mapM_cons, List.mapM_cons]
    refine bind_eq_free (h x (by simp)) fun y _ => ?_
    exact bind_eq_free (ih fun z hz => h z (by simp [hz])) fun _ _ => rfl

theorem mapM_pure_eq_free {g : α → Checked β} {f : α → β} {xs : List α}
    (h : ∀ x ∈ xs, g x = free (.ok (f x))) : xs.mapM g = free (.ok (xs.map f)) := by
  rw [mapM_eq_free (f := fun x => .ok (f x)) h]
  exact congrArg free (List.mapM_pure)

theorem position_lt {spec : TableSpec} {column : String} {i : Nat}
    (h : spec.position column = .ok i) : i < spec.columns.length := by
  unfold TableSpec.position at h
  split at h
  · rename_i j hj
    obtain rfl := Except.ok.inj h
    exact (List.idxOf?_eq_some_iff.1 hj).1
  · cases h

theorem positions_lt {spec : TableSpec} {columns : List String} {positions : List Nat}
    (h : columns.mapM spec.position = .ok positions) : ∀ i ∈ positions, i < spec.columns.length := by
  intro i hi
  obtain ⟨n, hn, rfl⟩ := List.getElem_of_mem hi
  have hall := mapM_eq_ok.1 h
  exact position_lt (hall.get (hall.length_eq ▸ hn) hn)

theorem keyOf_eq {spec : TableSpec} {row : Tuple} (hrow : row.length = spec.columns.length)
    (key : List String) : keyOf spec row key = free (spec.keyOf row key) := by
  have hparts : keyParts spec row key = free (spec.keyParts row key) := by
    induction key with
    | nil => rfl
    | cons column key ih =>
      rw [keyParts, TableSpec.keyParts]
      refine bind_eq_free rfl fun i hi => ?_
      rw [found_getElem? (hrow ▸ position_lt hi), free_bind, ih]
      cases row.getD i .null with
      | null => rfl
      | _ => exact bind_eq_free rfl fun _ _ => rfl
  exact bind_eq_free hparts fun _ _ => rfl

theorem keysOf_eq {spec : TableSpec} {row : Tuple} (hrow : row.length = spec.columns.length) :
    keysOf spec row = free (spec.keysOf row) := mapM_eq_free fun key _ => keyOf_eq hrow key

theorem fullRow_eq (spec : TableSpec) (columns : List String) (values : List Value) :
    fullRow spec columns values = free (spec.fullRow columns values) := by
  refine foldlM_eq_free (P := fun row => row.length = spec.columns.length) (by simp) ?_
  rintro ⟨column, value⟩ - row hrow
  refine ⟨bind_eq_free rfl fun i hi => write_eq (hrow ▸ position_lt hi) value, fun row' h => ?_⟩
  obtain ⟨i, -, h⟩ := bind_eq_ok.1 h
  rw [← pure_eq_ok.1 h, List.length_set, hrow]

theorem conflict_eq {t : Table} (ht : t.indexes.length = t.spec.uniqueKeys.length) {row : Tuple}
    (hrow : row.length = t.spec.columns.length) : conflict t row = free (t.conflict row) := by
  have hholder : ∀ keyed, holder t.spec row keyed = free (Table.holder t.spec row keyed) := by
    intro keyed
    induction keyed with
    | nil => rfl
    | cons p keyed ih =>
      refine bind_eq_free (keyOf_eq hrow p.1) fun k _ => ?_
      cases k.bind (p.2[·]?) with
      | none => exact ih
      | some pos => rfl
  rw [conflict, together_eq ht.symm, free_bind, hholder]
  rfl

theorem append_eq {t : Table} (ht : t.indexes.length = t.spec.uniqueKeys.length) {row : Tuple}
    (hrow : row.length = t.spec.columns.length) : append t row = free (t.append row) := by
  refine bind_eq_free (keysOf_eq hrow) fun keys hkeys => ?_
  rw [together_eq (by rw [TableSpec.length_keysOf hkeys, ht]), free_bind, List.map_zip_eq_zipWith]
  rfl

theorem differs_eq {row source : Tuple} {i : Nat} (hrow : i < row.length) (hsource : i < source.length) :
    differs row source i = free (.ok (row.getD i .null != source.getD i .null)) := by
  rw [differs, found_getElem? hrow, found_getElem? hsource]
  rfl

theorem overwrite_eq {source row : Tuple} {targets : List Nat} (hlen : source.length = row.length)
    (htargets : ∀ i ∈ targets, i < row.length) :
    overwrite source targets row = free (.ok (Table.overwrite source targets row)) := by
  induction targets generalizing row with
  | nil => rfl
  | cons i targets ih =>
    have hi := htargets i (by simp)
    rw [overwrite, List.foldlM_cons, Table.overwrite, List.foldl_cons]
    rw [differs_eq hi (hlen ▸ hi), free_bind, found_getElem? (hlen ▸ hi), free_bind, write_eq hi]
    split
    · exact ih (by simpa using hlen) fun j hj => by simpa using htargets j (by simp [hj])
    · exact ih hlen fun j hj => htargets j (by simp [hj])

/-- The column of a stamp is one of the table's. -/
def InTable (spec : TableSpec) (stamp : Option Stamp) : Prop :=
  ∀ st ∈ stamp, st.column < spec.columns.length

theorem stamped_eq {spec : TableSpec} {stamp : Option Stamp} (hstamp : InTable spec stamp)
    {row : Tuple} (hrow : row.length = spec.columns.length) :
    stamped stamp row = free (.ok (Table.stamped stamp row)) := by
  cases stamp with
  | none => rfl
  | some st =>
    have hcolumn : st.column < row.length := hrow ▸ hstamp st rfl
    rw [stamped, Table.stamped, found_getElem? hcolumn, free_bind, write_eq hcolumn]
    split <;> rfl

theorem update_eq {t : Table} (ht : t.Sound) {pos : Nat} (hpos : pos < t.rows.size) {source : Tuple}
    (hsource : source.length = t.spec.columns.length) (columns : List String) {stamp : Option Stamp}
    (hstamp : InTable t.spec stamp) :
    update t pos source columns stamp = free (t.update pos source columns stamp) := by
  have hfound : found t.rows[pos]? = free (.ok (t.rows.getD pos [])) := by
    apply found_eq
    simp [Array.getD, hpos]
  have hold : (t.rows.getD pos []).length = t.spec.columns.length := by
    refine ht.width _ ?_
    simp [Array.getD, hpos]
  rw [update, Table.update, hfound, free_bind]
  generalize t.rows.getD pos [] = old at hold
  refine bind_eq_free (keysOf_eq hold) fun before hbefore => bind_eq_free rfl fun given hgiven => ?_
  have hin : ∀ i ∈ given ++ (stamp.map (·.column)).toList, i < old.length := by
    intro i hi
    rw [hold]
    rcases List.mem_append.1 hi with hi | hi
    · exact positions_lt hgiven i hi
    · obtain ⟨st, hst, rfl⟩ := Option.map_eq_some_iff.1 (Option.mem_toList.1 hi)
      exact hstamp st hst
  generalize given ++ (stamp.map (·.column)).toList = targets at hin
  have hlen : source.length = old.length := hsource.trans hold.symm
  have hdiffers : targets.mapM (differs old source) =
      free (.ok (targets.map fun i => old.getD i .null != source.getD i .null)) :=
    mapM_pure_eq_free fun i hi => differs_eq (hin i hi) (hlen ▸ hin i hi)
  simp only [hdiffers, free_bind, List.any_map, Function.id_comp]
  split
  · rw [overwrite_eq hlen hin, free_bind]
    have hrow : (Table.overwrite source targets old).length = t.spec.columns.length := by
      rw [Table.length_overwrite, hold]
    refine bind_eq_free (keysOf_eq hrow) fun after hafter => ?_
    have hboth : before.length = after.length := by
      rw [TableSpec.length_keysOf hbefore, TableSpec.length_keysOf hafter]
    have hall : (before.zip after).length = t.indexes.length := by
      rw [List.length_zip, ← hboth, min_self, TableSpec.length_keysOf hbefore, ht.indexes_length]
    rw [together_eq hboth, free_bind, together_eq hall, free_bind, List.map_zip_eq_zipWith]
    rfl
  · rfl

theorem apply_eq {t : Table} (ht : t.Sound) (columns : List String) (onConflict : OnConflict)
    {stamp : Option Stamp} (hstamp : InTable t.spec stamp) (values : List Value) :
    apply t columns onConflict stamp values = free (t.apply columns onConflict stamp values) := by
  refine bind_eq_free (fullRow_eq t.spec columns values) fun full hfull => ?_
  have hwidth := TableSpec.length_fullRow hfull
  rw [stamped_eq hstamp hwidth, free_bind]
  have hrow : (Table.stamped stamp full).length = t.spec.columns.length := by
    rw [Table.length_stamped, hwidth]
  refine bind_eq_free (conflict_eq ht.indexes_length hrow) fun hit hhit => ?_
  cases hit with
  | none => exact bind_eq_free (append_eq ht.indexes_length hrow) fun _ _ => rfl
  | some pos =>
    cases onConflict with
    | fail => rfl
    | ignore => rfl
    | update targets => exact update_eq ht (Table.conflict_lt ht hhit) hrow targets hstamp

theorem inTable_of_resolve {t : Table} {now : DateTime} {s : Insert} {stamp : Option Stamp}
    (h : t.resolveStamp now s = .ok stamp) : InTable t.spec stamp := by
  rintro st rfl
  unfold Table.resolveStamp at h
  cases hs : s.stamp with
  | none =>
    rw [hs, Option.mapM_none, pure_eq_ok] at h
    cases h
  | some column =>
    simp only [hs, Option.mapM_some, map_eq_pure_bind, bind_eq_ok, pure_eq_ok, Option.some.injEq] at h
    obtain ⟨_, ⟨i, hi, rfl⟩, rfl⟩ := h
    exact position_lt hi

theorem insert_eq {t : Table} (ht : t.Sound) (now : DateTime) (s : Insert) :
    insert t now s = free (t.insert now s) := by
  refine bind_eq_free rfl fun stamp hstamp => ?_
  have hin : InTable t.spec stamp := inTable_of_resolve hstamp
  refine foldlM_eq_free (P := fun p => p.1.Sound ∧ p.1.spec = t.spec) ⟨ht, rfl⟩ ?_
  rintro values - ⟨u, affected⟩ ⟨hu, hspec⟩
  refine ⟨bind_eq_free (apply_eq hu _ _ (hspec ▸ hin) values) fun _ _ => rfl, ?_⟩
  rintro ⟨u', affected'⟩ h
  obtain ⟨⟨v, applied⟩, happly, h⟩ := bind_eq_ok.1 h
  obtain ⟨rfl, -⟩ := Prod.mk.inj (pure_eq_ok.1 h)
  exact ⟨Table.sound_apply hu happly, (Table.apply_frame happly).1.trans hspec⟩

theorem reindex_eq {t : Table} (width : ∀ row ∈ t.rows, row.length = t.spec.columns.length) :
    reindex t = free t.reindex := by
  have hindex : ∀ rows : List Tuple, (∀ row ∈ rows, row.length = t.spec.columns.length) →
      ∀ pos indexes, indexes.length = t.spec.uniqueKeys.length →
        indexFrom t.spec pos rows indexes = free (Table.indexFrom t.spec pos rows indexes) := by
    intro rows hrows
    induction rows with
    | nil => exact fun _ _ _ => rfl
    | cons row rows ih =>
      intro pos indexes hlen
      refine bind_eq_free (keysOf_eq (hrows row (by simp))) fun keys hkeys => ?_
      have hboth : keys.length = indexes.length := by rw [TableSpec.length_keysOf hkeys, hlen]
      rw [together_eq hboth, free_bind, List.map_zip_eq_zipWith]
      exact ih (fun r hr => hrows r (by simp [hr])) _ _ (by simp [← hlen, hboth])
  refine bind_eq_free (hindex _ ?_ 0 _ (by simp)) fun _ _ => rfl
  exact fun row hrow => width row (Array.mem_toList_iff.1 hrow)

theorem dropFirst_eq {t : Table} {count : Nat} (h : count ≤ t.rows.size) :
    dropFirst t count = free (.ok (t.dropFirst count)) := if_pos h

theorem fetch_eq {spec : TableSpec} {columns : List String} {positions : List Nat}
    {filter : Option (Nat × Value)} (hpositions : ∀ i ∈ positions, i < spec.columns.length)
    (hfilter : ∀ p ∈ filter, p.1 < spec.columns.length) {rows : List Tuple}
    (width : ∀ row ∈ rows, row.length = spec.columns.length) :
    fetch columns positions filter rows = free (.ok
      ((rows.filter fun row => filter.all fun (i, value) => row.getD i .null == value).map
        fun row => ⟨columns, positions.map fun i => row.getD i .null⟩)) := by
  induction rows with
  | nil => rfl
  | cons row rows ih =>
    have hrow := width row (by simp)
    have hpasses : passes filter row =
        free (.ok (filter.all fun (i, value) => row.getD i .null == value)) := by
      cases filter with
      | none => rfl
      | some p => rw [passes, found_getElem? (hrow ▸ hfilter p rfl)]; rfl
    have hvalues := mapM_pure_eq_free (g := fun i => found row[i]?) (f := fun i => row.getD i .null)
      fun i hi => found_getElem? (hrow ▸ hpositions i hi)
    rw [fetch, hpasses, free_bind, hvalues, free_bind, ih fun r hr => width r (by simp [hr])]
    rw [List.filter_cons]
    split <;> rfl

theorem select_eq {t : Table} (ht : t.Sound) (s : Select) : select t s = free (t.select s) := by
  refine bind_eq_free rfl fun positions hpositions => bind_eq_free rfl fun filter hfilter => ?_
  have hat : ∀ p ∈ filter, p.1 < t.spec.columns.length := by
    rintro p rfl
    cases hs : s.filter with
    | none => simp [hs, pure_eq_ok] at hfilter
    | some q =>
      simp only [hs, Option.mapM_some, map_eq_pure_bind, bind_eq_ok, pure_eq_ok,
        Option.some.injEq] at hfilter
      obtain ⟨_, ⟨i, hi, rfl⟩, rfl⟩ := hfilter
      exact position_lt hi
  rw [fetch_eq (positions_lt hpositions) hat fun row hrow => ht.width row (Array.mem_toList_iff.1 hrow)]
  simp only [Array.toList_filter]
  rfl

end Checked
end ReadingBench.Store
