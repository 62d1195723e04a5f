import ReadingBench.Proofs.Store.Effect
import ReadingBench.Proofs.Store.Joined
import ReadingBench.Proofs.Store.Tuple
import ReadingBench.Proofs.Store.Unmet

namespace ReadingBench.Store

open Sql Outcome

namespace TableSpec

variable {spec : TableSpec}

/-- A tuple has a unique key none of whose columns is NULL. -/
def Keyed (spec : TableSpec) (columns : List String) (values : List Value) : Prop :=
  ∃ key ∈ spec.uniqueKeys, ∀ column ∈ key, ∀ i, spec.columns.idxOf? column = some i →
    ¬(spec.given columns values i).isNull

theorem exists_keyParts {row : Tuple} {key : List String} {parts : Option (List String)}
    (full : ∀ column ∈ key, ∀ i, spec.columns.idxOf? column = some i → ¬(row.getD i .null).isNull)
    (h : spec.keyParts row key = .ok parts) : ∃ texts, parts = some texts := by
  induction key generalizing parts with
  | nil => exact ⟨[], (pure_eq_ok.1 h).symm⟩
  | cons column key ih =>
    obtain ⟨i, hi, h⟩ := bind_eq_ok.1 h
    have hvalue := full column List.mem_cons_self i (position_eq_ok.1 hi)
    split at h
    · rename_i hnull
      exact absurd (by rw [hnull]; rfl) hvalue
    · obtain ⟨rest, hrest, h⟩ := bind_eq_ok.1 h
      obtain ⟨texts, rfl⟩ := ih (fun other hother => full other (List.mem_cons_of_mem _ hother)) hrest
      exact ⟨_, (pure_eq_ok.1 h).symm⟩

theorem exists_keyOf {row : Tuple} {key : List String} {k : Option String}
    (full : ∀ column ∈ key, ∀ i, spec.columns.idxOf? column = some i → ¬(row.getD i .null).isNull)
    (h : spec.keyOf row key = .ok k) : ∃ text, k = some text := by
  obtain ⟨parts, hparts, h⟩ := bind_eq_ok.1 h
  obtain ⟨texts, rfl⟩ := exists_keyParts full hparts
  exact ⟨_, (pure_eq_ok.1 h).symm⟩

end TableSpec

namespace Table

variable {t u : Table} {columns : List String} {values : List Value} {rows : List (List Value)}
  {row : Tuple} {applied : Applied} {affected : Nat}

/-- A key of the tuple is taken. -/
def Blocks (t : Table) (columns : List String) (values : List Value) : Prop :=
  ∃ row pos, t.spec.fullRow columns values = .ok row ∧ t.conflict row = .ok (some pos)

/-- Where a row is found, one is found with more keys taken. -/
theorem exists_holder {spec : TableSpec} {keyed grown : List (List String × Index)} {pos : Nat}
    (hgrown : List.Forall₂ (fun p q => p.1 = q.1 ∧ ∀ k : String, p.2[k]?.isSome → q.2[k]?.isSome) keyed grown)
    (h : holder spec row keyed = .ok (some pos)) : ∃ pos', holder spec row grown = .ok (some pos') := by
  induction hgrown with
  | nil => cases h
  | @cons p q keyed grown hfirst _ ih =>
    obtain ⟨key, index⟩ := p
    obtain ⟨key', more⟩ := q
    obtain ⟨rfl, hmore⟩ : key = key' ∧ ∀ k : String, index[k]?.isSome → more[k]?.isSome := hfirst
    rw [holder, bind_eq_ok] at h
    obtain ⟨k, hk, h⟩ := h
    rw [holder, hk, ok_bind]
    cases htaken : k.bind (more[·]?) with
    | some pos' => exact ⟨pos', rfl⟩
    | none =>
      have hfree : k.bind (index[·]?) = none := by
        cases k with
        | none => rfl
        | some text =>
          refine Option.not_isSome_iff_eq_none.1 fun hold => ?_
          have hnew := hmore text hold
          rw [show more[text]? = none from htaken] at hnew
          cases hnew
      rw [hfree] at h
      exact ih h

theorem Blocks.append (ht : t.Sound) (h : t.Blocks columns values) (happend : t.append row = .ok u) :
    u.Blocks columns values := by
  obtain ⟨own, pos, hown, hpos⟩ := h
  obtain ⟨keys, hkeys, rfl⟩ := append_eq_ok.1 happend
  have hlength := TableSpec.length_keysOf hkeys
  have hlength' := ht.indexes_length
  have hgrown : List.Forall₂ (fun p q => p.1 = q.1 ∧ ∀ k : String, p.2[k]?.isSome → q.2[k]?.isSome)
      (t.spec.uniqueKeys.zip t.indexes)
      (t.spec.uniqueKeys.zip (List.zipWith (Index.enter t.rows.size) keys t.indexes)) := by
    rw [List.forall₂_iff_get]
    refine ⟨by simp [hlength, hlength'], fun n hn hn' => ?_⟩
    simp only [List.get_eq_getElem, List.getElem_zip, List.getElem_zipWith, true_and,
      Index.getElem?_enter]
    intro k hk
    split
    · rfl
    · exact hk
  obtain ⟨pos', hpos'⟩ := exists_holder hgrown hpos
  exact ⟨own, pos', hown, hpos'⟩

/-- What was taken stays taken. -/
theorem Blocks.apply {others : List String} {more : List Value} (ht : t.Sound) (h : t.Blocks columns values)
    (happly : t.apply others .ignore none more = .ok (u, applied)) : u.Blocks columns values := by
  rcases apply_ignore_eq_ok happly with rfl | ⟨row, -, happend⟩
  · exact h
  · exact h.append ht happend

theorem Blocks.applyAll {others : List String} (ht : t.Sound) (h : t.Blocks columns values)
    (hall : t.applyAll others .ignore none rows = .ok (u, affected)) : u.Blocks columns values := by
  refine ((applyAll_steps (P := fun v => v.Sound ∧ v.Blocks columns values) ⟨ht, h⟩ ?_).2 u affected hall).2
  rintro p hp ⟨hsound, hblocks⟩
  obtain ⟨more, fate, happly⟩ := mem_tupleSteps hp
  exact ⟨sound_apply hsound happly, hblocks.apply hsound happly⟩

/-- A row that was added is found by the key that it has. -/
theorem blocks_of_append (ht : t.Sound) (keyed : t.spec.Keyed columns values)
    (hrow : t.spec.fullRow columns values = .ok row) (happend : t.append row = .ok u) :
    u.Blocks columns values := by
  obtain ⟨keys, hkeys, rfl⟩ := append_eq_ok.1 happend
  obtain ⟨found, hfound⟩ := exists_conflict (t := { t with
    rows := t.rows.push row
    indexes := List.zipWith (Index.enter t.rows.size) keys t.indexes }) hkeys
  cases found with
  | some pos => exact ⟨row, pos, hrow, hfound⟩
  | none =>
    obtain ⟨key, hkey, full⟩ := keyed
    obtain ⟨n, hn, rfl⟩ := List.getElem_of_mem hkey
    obtain ⟨k, hk, hkeyOf⟩ := TableSpec.getElem?_keysOf hkeys (List.getElem?_eq_getElem hn)
    obtain ⟨text, rfl⟩ := TableSpec.exists_keyOf (fun column hcolumn i hi => by
      rw [TableSpec.getD_fullRow hrow]
      exact full column hcolumn i hi) hkeyOf
    have hindex : n < t.indexes.length := by rw [ht.indexes_length]; exact hn
    obtain ⟨hlt, hentered⟩ := List.getElem?_eq_some_iff.1 hk
    -- The index of this key has just got the row.
    have hmem : (t.spec.uniqueKeys[n], Index.enter t.rows.size (some text) t.indexes[n]) ∈
        t.spec.uniqueKeys.zip (List.zipWith (Index.enter t.rows.size) keys t.indexes) := by
      refine List.mem_iff_getElem.2 ⟨n, by simp; omega, ?_⟩
      rw [List.getElem_zip, List.getElem_zipWith, hentered]
    obtain ⟨k', hk', hfree⟩ := holder_eq_none hfound _ hmem
    obtain rfl := Except.ok.inj (hkeyOf.symm.trans hk')
    rw [Option.bind_some, Index.getElem?_enter, if_pos rfl] at hfree
    cases hfree

/-- Dropped or added, a tuple finds a key taken from then on. -/
theorem blocks_of_apply (ht : t.Sound) (keyed : t.spec.Keyed columns values)
    (happly : t.apply columns .ignore none values = .ok (u, applied)) : u.Blocks columns values := by
  obtain ⟨row, hrow, ⟨-, happend, -⟩ | ⟨pos, hpos, ⟨-, rfl, -⟩ | ⟨targets, hupdate, -⟩⟩⟩ :=
    apply_eq_ok happly
  · exact blocks_of_append ht keyed hrow happend
  · exact ⟨row, pos, hrow, hpos⟩
  · cases hupdate

theorem blocks_of_applyAll (ht : t.Sound) (keyed : ∀ values ∈ rows, t.spec.Keyed columns values)
    (hall : t.applyAll columns .ignore none rows = .ok (u, affected)) :
    ∀ values ∈ rows, u.Blocks columns values := by
  induction rows generalizing t affected with
  | nil => simp
  | cons first rows ih =>
    rw [applyAll_cons] at hall
    obtain ⟨⟨v, applied⟩, happly, hall⟩ := bind_eq_ok.1 hall
    obtain ⟨⟨w, others⟩, hrest, hall⟩ := bind_eq_ok.1 hall
    obtain ⟨rfl, rfl⟩ := Prod.mk.inj (pure_eq_ok.1 hall)
    have hv := sound_apply ht happly
    have hfirst := blocks_of_apply ht (keyed first List.mem_cons_self) happly
    rw [List.forall_mem_cons]
    refine ⟨hfirst.applyAll hv hrest, ih hv (fun values hvalues => ?_) hrest⟩
    rw [(apply_frame happly).1]
    exact keyed values (List.mem_cons_of_mem _ hvalues)

theorem apply_of_blocks (h : t.Blocks columns values) :
    t.apply columns .ignore none values = .ok (t, .skipped) := by
  obtain ⟨row, pos, hrow, hpos⟩ := h
  have hstamped : stamped none row = row := rfl
  rw [apply, hrow, ok_bind]
  dsimp only
  rw [hstamped, hpos]
  rfl

theorem applyAll_of_blocks (h : ∀ values ∈ rows, t.Blocks columns values) :
    t.applyAll columns .ignore none rows = .ok (t, 0) := by
  induction rows with
  | nil => rfl
  | cons first rows ih =>
    rw [List.forall_mem_cons] at h
    rw [applyAll_cons, apply_of_blocks h.1, ok_bind]
    dsimp only
    rw [ih h.2]
    rfl

/-- The same tuples again. -/
theorem applyAll_again (ht : t.Sound) (keyed : ∀ values ∈ rows, t.spec.Keyed columns values)
    (hall : t.applyAll columns .ignore none rows = .ok (u, affected)) :
    u.applyAll columns .ignore none rows = .ok (u, 0) :=
  applyAll_of_blocks (blocks_of_applyAll ht keyed hall)

end Table

/-- An insert into a table that passes over taken keys and has no stamp, each tuple with a key without NULL. -/
structure Ignores (ref : TableRef) (spec : TableSpec) (s : Insert) : Prop where
  table : s.table.key = ref.key
  onConflict : s.onConflict = .ignore
  unstamped : s.stamp = none
  keyed : ∀ values ∈ s.rows, spec.Keyed s.columns values

theorem Ignores.table? {ref : TableRef} {spec : TableSpec} {s : Insert} (h : Ignores ref spec s)
    (server : Server) : server.table? s.table = server.table? ref := by
  rw [Server.table?, h.table, Server.table?]

namespace Operation

/-- A request for such an insert, as a statement or as text. -/
def Ignores (ref : TableRef) (spec : TableSpec) (op : Operation) : Prop :=
  ∃ session sql s, op.insert? = some (session, sql, s) ∧ Store.Ignores ref spec s

/-- The request has been tried: on this server each of its tuples finds a key taken. -/
def Tried (ref : TableRef) (server : Server) (op : Operation) : Prop :=
  ∃ session sql s t, op.insert? = some (session, sql, s) ∧ Store.Ignores ref t.spec s ∧
    server.Calm session ∧ server.table? ref = some t ∧ ∀ values ∈ s.rows, t.Blocks s.columns values

end Operation

namespace Server

variable {server : Server} {ref : TableRef} {spec : TableSpec} {t u : Table} {op other : Operation}
  {ops : List Operation} {session : Session} {sql : String} {s : Insert} {affected : Nat}

theorem respects_of_insert {R : Lasting} (h : op.insert? = some (session, sql, s)) : Respects R op.perform := by
  rw [Operation.perform_of_insert h]
  exact ((respects_receive session sql).bind fun _ => respects_applyInsert s).bind fun _ => respects_pure _

/-- On a calm server an insert without a stamp comes to what its table makes of the tuples. -/
theorem Calm.perform (calm : Calm session server) (hop : op.insert? = some (session, sql, s))
    (unstamped : s.stamp = none) (ht : server.table? s.table = some t)
    (h : t.applyAll s.columns s.onConflict none s.rows = .ok (u, affected)) :
    (op.perform server).1 = .ok (.affected affected) ∧ (server.step op).table? s.table = some u ∧
      SameBut s.table server (server.step op) := by
  obtain ⟨next, hdone, -, hu, hothers⟩ := calm.received sql unstamped ht h
  have hperform : op.perform server = (.ok (.affected affected), next) := by
    rw [Operation.perform_of_insert hop]
    exact bind_apply_eq_ok.2 ⟨affected, next, hdone, rfl⟩
  rw [step, hperform]
  exact ⟨rfl, hu, hothers⟩

/-- An insert that succeeded was let in. -/
theorem Calm.of_insert {answer : Answer} (hop : op.insert? = some (session, sql, s))
    (hdone : (op.perform server).1 = .ok answer) : Calm session server := by
  rw [Operation.perform_of_insert hop, bind_assoc] at hdone
  obtain ⟨_, _, hreceive, -⟩ := bind_apply_eq_ok.1 (Prod.ext hdone rfl)
  exact .of_receive_eq_ok hreceive

/-- After a request that succeeded it has been tried, and so have those from before. -/
theorem tried_step (sound : t.Sound) (ht : server.table? ref = some t) (h : op.Ignores ref t.spec)
    {answer : Answer} (hdone : (op.perform server).1 = .ok answer) :
    (∃ u, (server.step op).table? ref = some u ∧ u.Sound ∧ u.spec = t.spec) ∧
      op.Tried ref (server.step op) ∧
      ∀ other : Operation, other.Tried ref server → other.Tried ref (server.step op) := by
  obtain ⟨session, sql, s, hop, hs⟩ := h
  have hcalm : ∀ any, Calm any server → Calm any (server.step op) := fun any calm =>
    (respects_of_insert hop).keepsCalm server calm
  obtain ⟨u, affected, hall, hu⟩ := step_of_insert hop hs.unstamped hdone ((hs.table? server).trans ht)
  rw [hs.table?] at hu
  rw [hs.onConflict] at hall
  have hspec := Table.spec_applyAll hall
  have hsound := Table.sound_applyAll sound hall
  refine ⟨⟨u, hu, hsound, hspec⟩, ⟨session, sql, s, u, hop, hspec ▸ hs, ?_, hu, ?_⟩, ?_⟩
  · exact hcalm session (.of_insert hop hdone)
  · exact Table.blocks_of_applyAll sound hs.keyed hall
  · rintro other ⟨session', sql', s', t', hother, hs', calm, ht', hblocks⟩
    obtain rfl := Option.some.inj (ht.symm.trans ht')
    exact ⟨session', sql', s', u, hother, hspec ▸ hs', hcalm session' calm, hu,
      fun values hvalues => (hblocks values hvalues).applyAll sound hall⟩

/-- After requests that all succeeded each of them has been tried. -/
theorem tried_after (sound : t.Sound) (ht : server.table? ref = some t)
    (ignores : ∀ op ∈ ops, op.Ignores ref t.spec) (done : ∀ e ∈ server.events ops, e.succeeded) :
    (∀ op ∈ ops, op.Tried ref (server.after ops)) ∧
      ∀ other : Operation, other.Tried ref server → other.Tried ref (server.after ops) := by
  induction ops generalizing server t with
  | nil => exact ⟨by simp, fun _ h => h⟩
  | cons op ops ih =>
    rw [List.forall_mem_cons] at ignores
    rw [events, List.forall_mem_cons] at done
    obtain ⟨answer, hanswer⟩ := exists_eq_ok done.1
    obtain ⟨⟨u, hu, hsound, hspec⟩, hop, hbefore⟩ := tried_step sound ht ignores.1 hanswer
    obtain ⟨hrest, hkept⟩ := ih hsound hu (hspec ▸ ignores.2) done.2
    rw [after_cons, List.forall_mem_cons]
    exact ⟨⟨hkept op hop, hrest⟩, fun other hother => hkept other (hbefore other hother)⟩

/-- A request that has been tried changes no table, so that the others still have been tried. -/
theorem step_of_tried (h : op.Tried ref server) : (op.perform server).1 = .ok (.affected 0) ∧
    Alike (server.step op) server ∧
      ∀ other : Operation, other.Tried ref server → other.Tried ref (server.step op) := by
  obtain ⟨session, sql, s, t, hop, hs, calm, ht, hblocks⟩ := h
  have hall := Table.applyAll_of_blocks hblocks
  rw [← hs.onConflict] at hall
  obtain ⟨hanswer, hu, hothers⟩ := calm.perform hop hs.unstamped ((hs.table? server).trans ht) hall
  have halike : Alike (server.step op) server := hothers.alike (hu.trans ((hs.table? server).trans ht).symm)
  refine ⟨hanswer, halike, ?_⟩
  rintro other ⟨session', sql', s', t', hother, hs', calm', ht', hblocks'⟩
  exact ⟨session', sql', s', t', hother, hs', (respects_of_insert hop).keepsCalm server calm',
    (halike.table? ref).trans ht', hblocks'⟩

theorem after_of_tried (h : ∀ op ∈ ops, op.Tried ref server) :
    (∀ e ∈ server.events ops, e.answer = .ok (.affected 0)) ∧ Alike (server.after ops) server := by
  induction ops generalizing server with
  | nil => exact ⟨by simp [events], fun _ => rfl⟩
  | cons op ops ih =>
    rw [List.forall_mem_cons] at h
    obtain ⟨hanswer, halike, hkept⟩ := step_of_tried h.1
    obtain ⟨hanswers, hrest⟩ := ih fun other hother => hkept other (h.2 other hother)
    rw [events, List.forall_mem_cons, after_cons]
    exact ⟨⟨hanswer, hanswers⟩, fun key => (hrest key).trans (halike key)⟩

/-- The same inserts again count for nothing and change no table. -/
theorem after_again (reachable : server.Reachable) (ht : server.table? ref = some t)
    (ignores : ∀ op ∈ ops, op.Ignores ref t.spec) (done : ∀ e ∈ server.events ops, e.succeeded) :
    (∀ e ∈ (server.after ops).events ops, e.answer = .ok (.affected 0)) ∧
      Alike ((server.after ops).after ops) (server.after ops) :=
  after_of_tried (tried_after (reachable.sound _ _ ht) ht ignores done).1

end Server

end ReadingBench.Store
