import ReadingBench.Proofs.Store.Effect
import ReadingBench.Proofs.Store.Grouped
import ReadingBench.Proofs.Store.Tuple

namespace ReadingBench

open Sql Outcome

theorem floatCompare_self {x : Float.Model.UnpackedFloat} (h : x.isNaN = false) : x.compare x = some .eq := by
  cases x with
  | notANumber => cases h
  | infinity sign => cases sign <;> rfl
  | zero sign => rfl
  | finite sign m e pos => cases sign <;> simp [Float.Model.UnpackedFloat.compare]

theorem floatCompare_of_isNaN {x : Float.Model.UnpackedFloat} (h : x.isNaN) (y : Float.Model.UnpackedFloat) :
    x.compare y = none := by
  cases x with
  | notANumber => rfl
  | infinity | zero | finite => cases h

theorem beq_eq_floatCompare (x y : Float) :
    (x == y) = (x.toModel.unpack.compare y.toModel.unpack == some .eq) := rfl

namespace Sql.Value

/-- A float that differs from all values, from itself as well. -/
def isNaN : Value → Bool
  | float x => x.isNaN
  | _ => false

theorem float_beq_float (x y : Float) : (float x == float y) = (x == y) := by
  simp [BEq.beq, instBEqValue.beq]

theorem bne_of_isNaN {v : Value} (h : v.isNaN) (w : Value) : v != w := by
  cases v with
  | float x =>
    cases w with
    | float y =>
      rw [bne, float_beq_float, beq_eq_floatCompare, floatCompare_of_isNaN h]
      rfl
    | null | int | text | dateTime | date => rfl
  | null | int | text | dateTime | date => cases h

theorem isNaN_of_bne_self {v : Value} (h : v != v) : v.isNaN := by
  cases v with
  | float x =>
    by_contra hnumber
    rw [bne, float_beq_float, beq_eq_floatCompare, floatCompare_self (Bool.eq_false_iff.2 hnumber)] at h
    cases h
  | null | int | text | dateTime | date => simp [bne, BEq.beq, instBEqValue.beq] at h

end Sql.Value

namespace Store
namespace Table

variable {t u : Table} {now : DateTime} {s : Insert} {stamp : Option Stamp} {values : List Value}

/-- The row that a tuple finds: one that holds a key of it. -/
def found (t : Table) (now : DateTime) (s : Insert) (values : List Value) : Option Nat :=
  (t.conflict (t.spec.made now s values)).toOption.join

/-- An update leaves the table if each column has its new value, and otherwise writes the row. -/
theorem update_cases {pos : Nat} {source : Tuple} {columns : List String} {applied : Applied}
    (h : t.update pos source columns stamp = .ok (u, applied)) :
    ∃ targets, columns.mapM t.spec.position = .ok targets ∧
      let touched := targets ++ (stamp.map (·.column)).toList
      (u = t ∧ applied = .unchanged ∧
        ∀ i ∈ touched, ¬((t.rows.getD pos []).getD i .null != source.getD i .null)) ∨
      (u.spec = t.spec ∧ u.rows = t.rows.setIfInBounds pos (overwrite source touched (t.rows.getD pos [])) ∧
        applied = .updated ∧ ∃ i ∈ touched, (t.rows.getD pos []).getD i .null != source.getD i .null) := by
  simp only [update, bind_eq_ok] at h
  obtain ⟨before, -, targets, htargets, h⟩ := h
  refine ⟨targets, htargets, ?_⟩
  split at h
  · rename_i hsome
    simp only [bind_eq_ok, pure_eq_ok, Prod.mk.injEq] at h
    obtain ⟨after, -, rfl, rfl⟩ := h
    exact .inr ⟨rfl, rfl, rfl, List.any_eq_true.1 hsome⟩
  · rename_i hnone
    obtain ⟨rfl, rfl⟩ := Prod.mk.inj (pure_eq_ok.1 h)
    exact .inl ⟨rfl, rfl, fun i hi hne => hnone (List.any_eq_true.2 ⟨i, hi, hne⟩)⟩

/-- What one tuple does to the rows: it adds its own, or leaves the row that it finds, or writes it. -/
inductive Effect (t : Table) (now : DateTime) (s : Insert) (values : List Value) (u : Table) : Nat → Prop where
  | added (unfound : t.found now s values = none) (rows : u.rows = t.rows.push (t.spec.made now s values)) :
    Effect t now s values u 1
  | left (pos : Nat) (found : t.found now s values = some pos) (rows : u.rows = t.rows)
    (same : ∀ i ∈ t.spec.touched s,
      ¬((t.rows.getD pos []).getD i .null != (t.spec.made now s values).getD i .null)) :
    Effect t now s values u 0
  | wrote (pos : Nat) (found : t.found now s values = some pos) (lt : pos < t.rows.size)
    (rows : u.rows = t.rows.setIfInBounds pos
      (overwrite (t.spec.made now s values) (t.spec.touched s) (t.rows.getD pos [])))
    (differs : ∃ i ∈ t.spec.touched s,
      (t.rows.getD pos []).getD i .null != (t.spec.made now s values).getD i .null) :
    Effect t now s values u 2

theorem effect_of_apply (ht : t.Sound) (hstamp : t.resolveStamp now s = .ok stamp) {applied : Applied}
    (h : t.apply s.columns s.onConflict stamp values = .ok (u, applied)) :
    t.Effect now s values u applied.affected := by
  obtain ⟨row, hrow, h⟩ := apply_eq_ok h
  rw [stamped_eq_made hstamp hrow] at h
  rcases h with ⟨hfree, happend, rfl⟩ | ⟨pos, hpos, ⟨hignore, rfl, rfl⟩ | ⟨columns, hupdate, h⟩⟩
  · obtain ⟨keys, -, rfl⟩ := append_eq_ok.1 happend
    exact .added (by rw [found, hfree]; rfl) rfl
  · have hnone : u.spec.touched s = [] := by rw [TableSpec.touched, hignore]
    exact .left pos (by rw [found, hpos]; rfl) rfl (by simp [hnone])
  · have hfound : t.found now s values = some pos := by rw [found, hpos]; rfl
    obtain ⟨targets, htargets, h⟩ := update_cases h
    rw [← touched_eq hstamp hupdate htargets] at h
    rcases h with ⟨rfl, rfl, hsame⟩ | ⟨-, hrows, rfl, hdiffers⟩
    · exact .left pos hfound rfl hsame
    · exact .wrote pos hfound (conflict_lt ht hpos) hrows hdiffers

/-- A row that is there stays or is written. -/
theorem Effect.row {n : Nat} (h : t.Effect now s values u n) {p : Nat} {row : Tuple}
    (hrow : t.rows[p]? = some row) : ∃ row', u.rows[p]? = some row' ∧
      (row' = row ∨ row' = overwrite (t.spec.made now s values) (t.spec.touched s) row) := by
  have hlt := (Array.getElem?_eq_some_iff.1 hrow).1
  cases h with
  | added _ rows =>
    refine ⟨row, ?_, .inl rfl⟩
    rw [rows, Array.getElem?_push, if_neg (by omega), hrow]
  | left pos _ rows => exact ⟨row, by rw [rows, hrow], .inl rfl⟩
  | wrote pos _ lt rows =>
    by_cases hp : pos = p
    · subst hp
      refine ⟨_, ?_, .inr rfl⟩
      rw [rows, Array.getElem?_setIfInBounds_self_of_lt lt, Array.getD_eq_getD_getElem?, hrow]
      rfl
    · exact ⟨row, by rw [rows, Array.getElem?_setIfInBounds_ne hp, hrow], .inl rfl⟩

/-- A row that shows tuple `source`, and in the columns of an upsert perhaps later ones. -/
def Shows (spec : TableSpec) (now : DateTime) (s : Insert) (tuples : List (List Value)) (source : Nat)
    (row : Tuple) : Prop :=
  ∃ values, tuples[source]? = some values ∧ ∀ i,
    row.getD i .null = (spec.made now s values).getD i .null ∨
      i ∈ spec.touched s ∧ ∃ later others, source < later ∧ tuples[later]? = some others ∧
        row.getD i .null = (spec.made now s others).getD i .null

theorem getElem?_snoc {tuples : List (List Value)} {k : Nat} {others : List Value}
    (h : tuples[k]? = some others) (values : List Value) : (tuples ++ [values])[k]? = some others := by
  rw [List.getElem?_append_left (List.getElem?_eq_some_iff.1 h).1, h]

section Shows

variable {spec : TableSpec} {tuples : List (List Value)} {source : Nat} {row : Tuple}

theorem shows_last (spec : TableSpec) (now : DateTime) (s : Insert) (tuples : List (List Value))
    (values : List Value) :
    Shows spec now s (tuples ++ [values]) tuples.length (spec.made now s values) :=
  ⟨values, by simp, fun _ => .inl rfl⟩

theorem Shows.lt (h : Shows spec now s tuples source row) : source < tuples.length := by
  obtain ⟨own, hown, -⟩ := h
  exact (List.getElem?_eq_some_iff.1 hown).1

theorem Shows.snoc (h : Shows spec now s tuples source row) (values : List Value) :
    Shows spec now s (tuples ++ [values]) source row := by
  obtain ⟨own, hown, h⟩ := h
  refine ⟨own, getElem?_snoc hown values, fun i => (h i).imp_right ?_⟩
  rintro ⟨hi, later, others, hlater, hothers, hvalue⟩
  exact ⟨hi, later, others, hlater, getElem?_snoc hothers values, hvalue⟩

/-- A write from the next tuple. -/
theorem Shows.overwrite (h : Shows spec now s tuples source row) (values : List Value) :
    Shows spec now s (tuples ++ [values]) source
      (Table.overwrite (spec.made now s values) (spec.touched s) row) := by
  have hlt := h.lt
  obtain ⟨own, hown, hcolumns⟩ := h.snoc values
  refine ⟨own, hown, fun i => ?_⟩
  rcases getD_overwrite_eq_or (spec.made now s values) (spec.touched s) row i with hkept | ⟨hi, htaken⟩
  · rw [hkept]
    exact hcolumns i
  · exact .inr ⟨hi, tuples.length, values, hlt, by simp, htaken⟩

end Shows

/-- The table after an insert of tuples: its old rows in their places, then rows of some of the tuples in the
tuples' order. -/
structure Extended (t : Table) (now : DateTime) (s : Insert) (tuples : List (List Value)) (u : Table) :
    Prop where
  spec : u.spec = t.spec
  width : ∀ row ∈ u.rows, row.length = t.spec.columns.length
  kept : ∀ (pos : Nat) (row : Tuple), t.rows[pos]? = some row → ∃ row' : Tuple, u.rows[pos]? = some row' ∧
    ∀ i ∉ t.spec.touched s, row'.getD i .null = row.getD i .null
  added : ∃ sources : List Nat, t.rows.size + sources.length = u.rows.size ∧ sources.Pairwise (· < ·) ∧
    ∀ j source, sources[j]? = some source →
      ∃ row, u.rows[t.rows.size + j]? = some row ∧ Shows t.spec now s tuples source row

theorem extended_nil (ht : t.Sound) : t.Extended now s [] t where
  spec := rfl
  width := ht.width
  kept _ row h := ⟨row, h, fun _ _ => rfl⟩
  added := ⟨[], by simp⟩

/-- What one more tuple does keeps all that was said of those before it. -/
theorem Extended.step {tuples : List (List Value)} (h : t.Extended now s tuples u) {v : Table}
    (hv : v.Sound) (hspec : v.spec = u.spec) {n : Nat} (heffect : u.Effect now s values v n) :
    t.Extended now s (tuples ++ [values]) v where
  spec := hspec.trans h.spec
  width := by
    rw [← h.spec, ← hspec]
    exact hv.width
  kept := by
    intro pos row hrow
    obtain ⟨row', hrow', hsame⟩ := h.kept pos row hrow
    obtain ⟨row'', hrow'', hstep⟩ := heffect.row hrow'
    refine ⟨row'', hrow'', fun i hi => ?_⟩
    rw [← hsame i hi]
    rcases hstep with rfl | rfl
    · rfl
    · exact getD_overwrite_of_notMem (h.spec ▸ hi)
  added := by
    obtain ⟨sources, hsize, hordered, hshows⟩ := h.added
    have hshows' : ∀ j source, sources[j]? = some source → ∃ row, v.rows[t.rows.size + j]? = some row ∧
        Shows t.spec now s (tuples ++ [values]) source row := by
      intro j source hj
      obtain ⟨row, hrow, hshow⟩ := hshows j source hj
      obtain ⟨row', hrow', hstep⟩ := heffect.row hrow
      refine ⟨row', hrow', ?_⟩
      rcases hstep with rfl | rfl
      · exact hshow.snoc values
      · rw [h.spec]
        exact hshow.overwrite values
    cases heffect with
    | left _ _ rows => exact ⟨sources, by rw [rows, hsize], hordered, hshows'⟩
    | wrote _ _ _ rows => exact ⟨sources, by rw [rows, Array.size_setIfInBounds, hsize], hordered, hshows'⟩
    | added _ rows =>
      refine ⟨sources ++ [tuples.length], ?_, ?_, ?_⟩
      · rw [rows, Array.size_push, List.length_append, ← hsize]
        rfl
      · refine List.pairwise_append.2 ⟨hordered, List.pairwise_singleton _ _, ?_⟩
        intro source hsource last hlast
        obtain rfl := List.mem_singleton.1 hlast
        obtain ⟨j, hj⟩ := List.mem_iff_getElem?.1 hsource
        obtain ⟨row, -, hshow⟩ := hshows j source hj
        exact hshow.lt
      · intro j source hj
        by_cases hlt : j < sources.length
        · rw [List.getElem?_append_left hlt] at hj
          exact hshows' j source hj
        · obtain ⟨hj', hsource⟩ := List.getElem?_eq_some_iff.1 hj
          rw [List.length_append, List.length_singleton] at hj'
          obtain rfl : j = sources.length := by omega
          obtain rfl : tuples.length = source := by simpa using hsource
          refine ⟨_, ?_, shows_last t.spec now s tuples values⟩
          rw [rows, hsize, h.spec]
          simp

theorem extended_applyAll (ht : t.Sound) (hstamp : t.resolveStamp now s = .ok stamp)
    {tuples : List (List Value)} {affected : Nat}
    (h : t.applyAll s.columns s.onConflict stamp tuples = .ok (u, affected)) :
    t.Extended now s tuples u := by
  let P := fun (done : List (List Value)) (r : Table × Nat) => r.1.Sound ∧ t.Extended now s done r.1
  suffices hP : P tuples (u, affected) from hP.2
  refine foldlM_invariant h ⟨ht, extended_nil ht⟩ ?_
  rintro done values rest ⟨v, n⟩ r - ⟨hv, hextended⟩ hstep
  obtain ⟨⟨w, applied⟩, happly, hstep⟩ := bind_eq_ok.1 hstep
  obtain rfl := pure_eq_ok.1 hstep
  have hw := sound_apply hv happly
  have hstamp' := (resolveStamp_of_spec hextended.spec).trans hstamp
  exact ⟨hw, hextended.step hw (apply_frame happly).1 (effect_of_apply hv hstamp' happly)⟩

/-- A tuple changes a row that was there, or writes a NaN where a NaN was. -/
def Changes (t : Table) (now : DateTime) (s : Insert) (values : List Value) (u : Table) : Prop :=
  (∃ pos < t.rows.size, u.rows[pos]? ≠ t.rows[pos]?) ∨
    ∃ pos, t.found now s values = some pos ∧ ∃ i ∈ t.spec.touched s,
      ((t.rows.getD pos []).getD i .null).isNaN ∧ ((u.rows.getD pos []).getD i .null).isNaN

open Classical in
/-- How many tuples do so, each with the tables before and after it. -/
noncomputable def changes (now : DateTime) (s : Insert) (tuples : List (List Value))
    (steps : List (Table × Table)) : Nat :=
  (tuples.zip steps).countP fun (values, before, after) => before.Changes now s values after

theorem Effect.changes_iff (ht : t.Sound) {n : Nat} (h : t.Effect now s values u n) :
    t.Changes now s values u ↔ n = 2 := by
  cases h with
  | added unfound rows =>
    refine iff_of_false ?_ (by decide)
    rintro (⟨pos, hpos, hne⟩ | ⟨pos, hfound, -⟩)
    · rw [rows, Array.getElem?_push, if_neg (by omega)] at hne
      exact hne rfl
    · rw [unfound] at hfound
      cases hfound
  | left pos found rows same =>
    refine iff_of_false ?_ (by decide)
    rintro (⟨p, -, hne⟩ | ⟨p, hfound, i, hi, hnan, -⟩)
    · exact hne (by rw [rows])
    · obtain rfl := Option.some.inj (found.symm.trans hfound)
      exact same i hi (Value.bne_of_isNaN hnan _)
  | wrote pos found lt rows differs =>
    refine iff_of_true ?_ rfl
    obtain ⟨i, hi, hne⟩ := differs
    have hmem : t.rows.getD pos [] ∈ t.rows := by simp [lt]
    have hwrote := getD_overwrite_of_bne hi (by rw [ht.width _ hmem]; exact TableSpec.lt_of_mem_touched hi) hne
    set row := overwrite (t.spec.made now s values) (t.spec.touched s) (t.rows.getD pos [])
    have hrow : u.rows.getD pos [] = row := by simp [rows, lt]
    by_cases hsame : row = t.rows.getD pos []
    · -- The row is as before although a column differed from its new value: that is a NaN.
      rw [hsame] at hwrote hrow
      rw [← hwrote] at hne
      have hnan := Value.isNaN_of_bne_self hne
      exact .inr ⟨pos, found, i, hi, hnan, by rwa [hrow]⟩
    · refine .inl ⟨pos, lt, fun heq => hsame ?_⟩
      rw [← hrow, Array.getD_eq_getD_getElem?, heq, ← Array.getD_eq_getD_getElem?]

/-- A tuple that repeats the row that it finds leaves it as it is. -/
theorem Effect.repeated {n pos : Nat} (h : t.Effect now s values u n)
    (hfound : t.found now s values = some pos)
    (hrow : t.rows[pos]? = some (t.spec.made now s values)) : u.rows = t.rows := by
  cases h with
  | added unfound _ =>
    rw [unfound] at hfound
    cases hfound
  | left _ _ rows => exact rows
  | wrote p found lt rows _ =>
    obtain rfl := Option.some.inj (found.symm.trans hfound)
    have hold : t.rows.getD p [] = t.spec.made now s values := by
      rw [Array.getD_eq_getD_getElem?, hrow]
      rfl
    rw [rows, hold, overwrite_self]
    refine Array.ext_getElem? fun k => ?_
    by_cases hk : p = k
    · rw [← hk, Array.getElem?_setIfInBounds_self_of_lt lt, hrow]
    · rw [Array.getElem?_setIfInBounds_ne hk]

/-- What a tuple counts for: 1 for its row, or 2 for a change. -/
theorem Effect.counted (ht : t.Sound) {n : Nat} (h : t.Effect now s values u n) :
    t.rows.size + n = u.rows.size + 2 * changes now s [values] [(t, u)] := by
  have hchanges := h.changes_iff ht
  simp only [changes, List.zip_cons_cons, List.zip_nil_right, List.countP_singleton, hchanges,
    decide_eq_true_eq]
  cases h with
  | added _ rows => simp [rows]
  | left _ _ rows => simp [rows]
  | wrote _ _ _ rows => simp [rows]

theorem affected_applyAll (ht : t.Sound) (hstamp : t.resolveStamp now s = .ok stamp)
    {tuples : List (List Value)} {affected : Nat}
    (h : t.applyAll s.columns s.onConflict stamp tuples = .ok (u, affected)) :
    t.rows.size + affected =
      u.rows.size + 2 * changes now s tuples (tupleSteps s.columns s.onConflict stamp tuples t) := by
  induction tuples generalizing t affected with
  | nil =>
    obtain ⟨rfl, rfl⟩ := Prod.mk.inj (pure_eq_ok.1 h)
    rfl
  | cons values tuples ih =>
    rw [applyAll_cons] at h
    obtain ⟨⟨v, applied⟩, happly, h⟩ := bind_eq_ok.1 h
    obtain ⟨⟨w, others⟩, hrest, h⟩ := bind_eq_ok.1 h
    obtain ⟨rfl, rfl⟩ := Prod.mk.inj (pure_eq_ok.1 h)
    have hstamp' := (resolveStamp_of_spec (apply_frame happly).1).trans hstamp
    have htail := ih (sound_apply ht happly) hstamp' hrest
    have hfirst := (effect_of_apply ht hstamp happly).counted ht
    have hsplit : changes now s (values :: tuples) ((t, v) :: tupleSteps s.columns s.onConflict stamp tuples v) =
        changes now s tuples (tupleSteps s.columns s.onConflict stamp tuples v) +
          changes now s [values] [(t, v)] := by
      simp only [changes, List.zip_cons_cons, List.zip_nil_right, List.countP_cons, List.countP_nil, zero_add]
    rw [tupleSteps, happly]
    dsimp only
    omega

end Table

variable {server next : Server} {session : Session} {sql : String} {s : Insert} {affected : Nat}

/-- An insert that succeeds works on its table as it is, at the time that the clock shows. -/
theorem Operation.insert_of_perform {op : Operation} (hop : op.insert? = some (session, sql, s))
    (h : op.perform server = (.ok (.affected affected), next)) : ∃ t u,
      server.table? s.table = some t ∧ next.table? s.table = some u ∧
        t.insert (server.clock (server.log.size + 1)) s = .ok (u, affected) := by
  rw [Operation.perform_of_insert hop] at h
  obtain ⟨count, mid, hdone, h⟩ := bind_apply_eq_ok.1 h
  obtain ⟨hcount, rfl⟩ := Prod.mk.inj h
  obtain rfl := Answer.affected.inj (Except.ok.inj hcount)
  obtain ⟨_, admitted, hreceive, hdone⟩ := bind_apply_eq_ok.1 hdone
  have calm := Server.Calm.of_receive_eq_ok hreceive
  obtain rfl := (Prod.mk.inj ((calm.receive sql).symm.trans hreceive)).2
  have hclock : (server.logged sql).clock (server.logged sql).log.size =
      server.clock (server.log.size + 1) := by
    rw [Server.logged, Array.size_push]
  have hfound : (server.logged sql).table? s.table = server.table? s.table := rfl
  rw [Action.applyInsert_apply, hfound, hclock] at hdone
  cases ht : server.table? s.table with
  | none =>
    rw [ht] at hdone
    cases (Prod.mk.inj hdone).1
  | some t =>
    simp only [ht] at hdone
    rcases hinsert : t.insert (server.clock (server.log.size + 1)) s with e | ⟨u, n⟩
    · rw [hinsert] at hdone
      cases (Prod.mk.inj hdone).1
    · rw [hinsert] at hdone
      obtain ⟨hn, rfl⟩ := Prod.mk.inj hdone
      obtain rfl := Except.ok.inj hn
      exact ⟨t, u, rfl, Server.table?_of_insert rfl, hinsert⟩

/-- The rows that are there keep their places and all columns but those of an upsert, the rows behind them show
tuples of the insert, and what is counted is one for each of these rows and two for each tuple that changed
a row, a NaN written over a NaN being a change. -/
theorem extended_of_insert (reachable : server.Reachable) {op : Operation}
    (hop : op.insert? = some (session, sql, s))
    (h : op.perform server = (.ok (.affected affected), next)) :
    ∃ t u now, now = server.clock (server.log.size + 1) ∧
      server.table? s.table = some t ∧ next.table? s.table = some u ∧ t.Extended now s s.rows u ∧
      ((∀ columns, s.onConflict ≠ .update columns) → ∀ pos < t.rows.size, u.rows[pos]? = t.rows[pos]?) ∧
      affected = (u.rows.size - t.rows.size) + 2 * Table.changes now s s.rows (t.insertSteps now s) := by
  obtain ⟨t, u, ht, hu, hinsert⟩ := Operation.insert_of_perform hop h
  have hsound : t.Sound := reachable.sound _ _ ht
  obtain ⟨stamp, hstamp, hall⟩ := Table.insert_eq_ok.1 hinsert
  have hextended := Table.extended_applyAll hsound hstamp hall
  have haffected := Table.affected_applyAll hsound hstamp hall
  have hsteps : t.insertSteps (server.clock (server.log.size + 1)) s =
      Table.tupleSteps s.columns s.onConflict stamp s.rows t := by
    rw [Table.insertSteps, hstamp]
  refine ⟨t, u, _, rfl, ht, hu, hextended, fun plain pos hpos => ?_, ?_⟩
  · obtain ⟨row, hrow, hsame⟩ := hextended.kept pos t.rows[pos] (Array.getElem?_eq_getElem hpos)
    have hnone : t.spec.touched s = [] := by
      rw [TableSpec.touched]
      split
      · exact absurd ‹_› (plain _)
      · rfl
    rw [hrow, Array.getElem?_eq_getElem hpos]
    refine congrArg some (Tuple.ext_getD ?_ fun i _ => hsame i (by simp [hnone]))
    rw [hextended.width row (Array.mem_of_getElem? hrow), hsound.width _ (Array.getElem_mem hpos)]
  · obtain ⟨sources, hsize, -⟩ := hextended.added
    rw [hsteps]
    omega

/-- The second tuple of `twice` finds the row that is there, the third the row of the first. -/
def noted : Server := (Server.empty Server.still).after
  [.define Table.marks.spec,
    .insert .root { table := Table.marks.spec.table, columns := ["k"], rows := [[.int 2]] }]

theorem extended_of_insert_twice : noted.Reachable ∧
    ∃ next t u now, (Operation.insert .root (Table.twice (.update ["v"]))).perform noted =
        (.ok (.affected 6), next) ∧
      noted.table? Table.marks.spec.table = some t ∧ next.table? Table.marks.spec.table = some u ∧
      t.Extended now (Table.twice (.update ["v"])) (Table.twice (.update ["v"])).rows u ∧
      u.rows.size - t.rows.size = 2 ∧
      Table.changes now (Table.twice (.update ["v"])) (Table.twice (.update ["v"])).rows
        (t.insertSteps now (Table.twice (.update ["v"]))) = 2 := by
  have reachable : noted.Reachable := ⟨_, _, rfl⟩
  have hcount : (Session.root.insert (Table.twice (.update ["v"])) noted).1.toOption = some 6 := by
    decide +kernel
  have hbefore : noted.rowCount Table.marks.spec.table = 1 := by decide +kernel
  have hafter : (Session.root.insert (Table.twice (.update ["v"])) noted).2.rowCount
      Table.marks.spec.table = 3 := by decide +kernel
  rcases hrun : Session.root.insert (Table.twice (.update ["v"])) noted with ⟨e | n, next⟩
  · rw [hrun] at hcount
    cases hcount
  rw [hrun] at hcount hafter
  obtain rfl := Option.some.inj hcount
  have hperform : (Operation.insert .root (Table.twice (.update ["v"]))).perform noted =
      (.ok (.affected 6), next) := by
    rw [Operation.perform, bind_apply, hrun]
    rfl
  obtain ⟨t, u, now, -, ht, hu, hextended, -, haffected⟩ := extended_of_insert reachable rfl hperform
  have hsize : t.rows.size = 1 := by
    have hrows : noted.rowCount Table.marks.spec.table = t.rows.size := by
      rw [Server.rowCount]
      exact congrArg (fun found => (found.map (·.rows.size)).getD 0) ht
    omega
  have hsize' : u.rows.size = 3 := by
    have hrows : next.rowCount Table.marks.spec.table = u.rows.size := by
      rw [Server.rowCount]
      exact congrArg (fun found => (found.map (·.rows.size)).getD 0) hu
    dsimp only at hafter
    omega
  exact ⟨reachable, next, t, u, now, hperform, ht, hu, hextended, by omega, by omega⟩

def measures : TableSpec := { table := ⟨none, "t"⟩, columns := ["id", "x"], uniqueKeys := [["id"]] }

def unmeasured (onConflict : OnConflict) : Insert :=
  { table := measures.table, columns := measures.columns, onConflict, rows := [[.int 1, .float (0 / 0)]] }

def measured : Server := (Server.empty Server.still).after
  [.define measures, .insert .root (unmeasured .fail)]

/-- The same NaN again: there is no new row, the one tuple leaves all rows as they were, and yet it counts. -/
theorem nan_counts : measured.Reachable ∧ ∃ t u,
    measured.table? measures.table = some t ∧
      t.insert (measured.clock (measured.log.size + 1)) (unmeasured (.update ["x"])) = .ok (u, 2) ∧
      t.insertSteps (measured.clock (measured.log.size + 1)) (unmeasured (.update ["x"])) = [(t, u)] ∧
      u.rows = t.rows := by
  obtain ⟨t, ht, hrows, hspec⟩ : ∃ t, measured.table? measures.table = some t ∧
      t.rows = #[[.int 1, .float (0 / 0)]] ∧ t.spec = measures := ⟨_, rfl, rfl, rfl⟩
  have hsound : t.Sound := Server.Reachable.sound ⟨_, _, rfl⟩ _ _ ht
  have hmade : ∀ now, t.spec.made now (unmeasured (.update ["x"])) [.int 1, .float (0 / 0)] =
      [.int 1, .float (0 / 0)] := by
    intro now
    rw [hspec]
    rfl
  have hcount : (Session.root.insert (unmeasured (.update ["x"])) measured).1.toOption = some 2 := by
    decide +kernel
  rcases hrun : Session.root.insert (unmeasured (.update ["x"])) measured with ⟨e | n, next⟩
  · rw [hrun] at hcount
    cases hcount
  rw [hrun] at hcount
  obtain rfl := Option.some.inj hcount
  have hperform : (Operation.insert .root (unmeasured (.update ["x"]))).perform measured =
      (.ok (.affected 2), next) := by
    rw [Operation.perform, bind_apply, hrun]
    rfl
  obtain ⟨t', u, ht', -, hinsert⟩ := Operation.insert_of_perform rfl hperform
  obtain rfl := Option.some.inj (ht.symm.trans ht')
  obtain ⟨stamp, hstamp, hall⟩ := Table.insert_eq_ok.1 hinsert
  obtain ⟨⟨v, applied⟩, happly, hall⟩ := bind_eq_ok.1 ((Table.applyAll_cons _ _ _ _ _ _).symm.trans hall)
  obtain ⟨⟨w, others⟩, hnone, hall⟩ := bind_eq_ok.1 hall
  obtain ⟨rfl, rfl⟩ := Prod.mk.inj (pure_eq_ok.1 hnone)
  obtain ⟨rfl, hcounted⟩ := Prod.mk.inj (pure_eq_ok.1 hall)
  refine ⟨⟨_, _, rfl⟩, t, v, ht, hinsert, ?_, ?_⟩
  · rw [Table.insertSteps, hstamp]
    change Table.tupleSteps _ _ _ [_] t = _
    rw [Table.tupleSteps, happly]
    rfl
  · have heffect := Table.effect_of_apply hsound hstamp happly
    rw [show applied.affected = 2 from hcounted] at heffect
    cases id heffect with
    | wrote pos hfound lt =>
      have hpos : pos = 0 := by simpa [hrows] using lt
      refine heffect.repeated hfound ?_
      rw [hmade, hrows, hpos]
      rfl

end Store
end ReadingBench
