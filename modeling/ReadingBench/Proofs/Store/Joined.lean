import ReadingBench.Proofs.Store.Calm

namespace ReadingBench.Store

open Sql Outcome Server

theorem Table.applyAll_append (t : Table) (columns : List String) (onConflict : OnConflict)
    (stamp : Option Stamp) (rows more : List Tuple) :
    t.applyAll columns onConflict stamp (rows ++ more) = (do
      let (u, affected) ← t.applyAll columns onConflict stamp rows
      let (v, others) ← u.applyAll columns onConflict stamp more
      return (v, affected + others)) := by
  induction rows generalizing t with
  | nil =>
    rw [List.nil_append, show t.applyAll columns onConflict stamp [] = .ok (t, 0) from rfl]
    simp only [ok_bind, Nat.zero_add]
    exact (bind_pure _).symm
  | cons row rows ih =>
    rw [List.cons_append, applyAll_cons, applyAll_cons]
    rcases t.apply columns onConflict stamp row with e | ⟨u, applied⟩
    · rfl
    simp only [ok_bind, ih]
    rcases u.applyAll columns onConflict stamp rows with e | ⟨v, affected⟩
    · rfl
    simp only [ok_bind, pure_bind]
    rcases v.applyAll columns onConflict stamp more with e | ⟨w, others⟩
    · rfl
    · simp only [ok_bind, pure_bind, Nat.add_assoc]

section Inserts

variable {ρ : Type} {session : Session} {ref : TableRef} {columns : List String} {onConflict : OnConflict}
  {toRow : ρ → Tuple} {work : List ρ → Run Nat} {server next : Server} {t u : Table} {n : Nat}

/-- On an open session with no failure waiting, work on a batch comes to an insert of its rows. -/
structure Inserts (session : Session) (ref : TableRef) (columns : List String) (onConflict : OnConflict)
    (toRow : ρ → Tuple) (work : List ρ → Run Nat) : Prop where
  accepts : ∀ {batch server t u n}, Server.Calm session server → server.table? ref = some t →
    t.applyAll columns onConflict none (batch.map toRow) = .ok (u, n) →
      ∃ next, work batch server = (.ok n, next) ∧ Server.Calm session next ∧
        next.table? ref = some u ∧ SameBut ref server next
  accepted : ∀ {batch server n next}, batch ≠ [] → work batch server = (.ok n, next) →
    ∃ t r, server.table? ref = some t ∧ t.applyAll columns onConflict none (batch.map toRow) = .ok r

theorem Server.Calm.received (calm : Calm session server) (sql : String) {s : Insert}
    (unstamped : s.stamp = none) (ht : server.table? s.table = some t)
    (h : t.applyAll s.columns s.onConflict none s.rows = .ok (u, n)) :
    ∃ next, (do session.receive sql; Action.applyInsert s) server = (.ok n, next) ∧
      Calm session next ∧ next.table? s.table = some u ∧ SameBut s.table server next := by
  have hfound : (server.logged sql).table? s.table = some t := ht
  have hkept := ((respects_receive session sql).bind fun _ => respects_applyInsert s).keepsCalm server calm
  rw [bind_apply, calm.receive] at hkept ⊢
  dsimp only at hkept ⊢
  rw [Action.applyInsert_apply, hfound] at hkept ⊢
  dsimp only at hkept ⊢
  rw [Table.insert_unstamped unstamped, h] at hkept ⊢
  exact ⟨_, rfl, hkept, table?_of_insert rfl, .of_insert rfl⟩

/-- Statements that come in by whatever text. -/
theorem inserts_received {text : List ρ → String} {statement : List ρ → Insert}
    (same : ∀ batch, (statement batch).table = ref ∧ (statement batch).columns = columns ∧
      (statement batch).onConflict = onConflict ∧ (statement batch).stamp = none ∧
        (statement batch).rows = batch.map toRow) :
    Inserts session ref columns onConflict toRow fun batch => Run.ofAction (do
      session.receive (text batch)
      Action.applyInsert (statement batch)) where
  accepts := by
    intro batch server t u n calm ht h
    obtain ⟨rfl, rfl, rfl, hstamp, hrows⟩ := same batch
    rw [← hrows] at h
    obtain ⟨next, hdone, hrest⟩ := calm.received (text batch) hstamp ht h
    exact ⟨next, Run.ofAction_eq_ok.2 hdone, hrest⟩
  accepted := by
    intro batch server n next _ h
    obtain ⟨rfl, rfl, rfl, hstamp, hrows⟩ := same batch
    obtain ⟨t, u, now, ht, hinsert, -⟩ := Session.received_eq_ok (Run.ofAction_eq_ok.1 h)
    rw [Table.insert_unstamped hstamp, hrows] at hinsert
    exact ⟨t, _, ht, hinsert⟩

theorem inserts_insert : Inserts session ref columns .fail toRow fun batch =>
    Run.ofAction (session.insert { table := ref, columns, rows := batch.map toRow }) := by
  simp only [Session.insert_eq]
  exact inserts_received fun _ => ⟨rfl, rfl, rfl, rfl, rfl⟩

/-- An empty batch needs no statement. -/
theorem Inserts.skipping (h : Inserts session ref columns onConflict toRow work) {other : List ρ → Run Nat}
    (same : ∀ batch ≠ [], other batch = work batch) (idle : other [] = pure 0) :
    Inserts session ref columns onConflict toRow other where
  accepts := by
    intro batch server t u n calm ht hall
    by_cases hbatch : batch = []
    · obtain rfl := hbatch
      obtain ⟨rfl, rfl⟩ := Prod.mk.inj (Except.ok.inj hall)
      rw [idle]
      exact ⟨server, rfl, calm, ht, .of_tables rfl⟩
    · rw [same batch hbatch]
      exact h.accepts calm ht hall
  accepted := by
    intro batch server n next hbatch hother
    rw [same batch hbatch] at hother
    exact h.accepted hbatch hother

theorem Inserts.mapM_accepts (h : Inserts session ref columns onConflict toRow work)
    {batches : List (List ρ)} (calm : Calm session server) (ht : server.table? ref = some t)
    (hall : t.applyAll columns onConflict none (batches.flatten.map toRow) = .ok (u, n)) :
    ∃ counts next, batches.mapM work server = (.ok counts, next) ∧ counts.sum = n ∧
      Calm session next ∧ next.table? ref = some u ∧ SameBut ref server next := by
  induction batches generalizing server t n with
  | nil =>
    obtain ⟨rfl, rfl⟩ := Prod.mk.inj (Except.ok.inj hall)
    exact ⟨[], server, rfl, rfl, calm, ht, .of_tables rfl⟩
  | cons batch batches ih =>
    rw [List.flatten_cons, List.map_append, Table.applyAll_append] at hall
    obtain ⟨⟨v, first⟩, hfirst, hall⟩ := bind_eq_ok.1 hall
    obtain ⟨⟨w, others⟩, hothers, hall⟩ := bind_eq_ok.1 hall
    obtain ⟨rfl, rfl⟩ := Prod.mk.inj (pure_eq_ok.1 hall)
    obtain ⟨mid, hbatch, hmid, hv, hsame⟩ := h.accepts calm ht hfirst
    obtain ⟨counts, next, hrest, rfl, hnext, hw, hsame'⟩ := ih hmid hv hothers
    refine ⟨first :: counts, next, ?_, List.sum_cons, hnext, hw, hsame.trans hsame'⟩
    rw [List.mapM_cons]
    exact bind_apply_eq_ok.2 ⟨first, mid, hbatch, bind_apply_eq_ok.2 ⟨counts, next, hrest, rfl⟩⟩

/-- What was inserted batch by batch could have been inserted at once. -/
theorem Inserts.mapM_accepted (h : Inserts session ref columns onConflict toRow work)
    {batches : List (List ρ)} (full : ∀ batch ∈ batches, batch ≠ []) (nonempty : batches ≠ [])
    (calm : Calm session server) {counts : List Nat}
    (hdone : batches.mapM work server = (.ok counts, next)) :
    ∃ t r, server.table? ref = some t ∧
      t.applyAll columns onConflict none (batches.flatten.map toRow) = .ok r := by
  induction batches generalizing server counts next with
  | nil => exact absurd rfl nonempty
  | cons batch batches ih =>
    rw [List.mapM_cons] at hdone
    obtain ⟨first, mid, hbatch, hdone⟩ := bind_apply_eq_ok.1 hdone
    obtain ⟨others, last, hrest, -⟩ := bind_apply_eq_ok.1 hdone
    obtain ⟨t, ⟨v, n⟩, ht, hfirst⟩ := h.accepted (full batch List.mem_cons_self) hbatch
    refine ⟨t, ?_⟩
    rw [List.flatten_cons, List.map_append, Table.applyAll_append, hfirst, ok_bind]
    by_cases hnone : batches = []
    · obtain rfl := hnone
      exact ⟨_, ht, rfl⟩
    · obtain ⟨mid', hbatch', hmid, hv, -⟩ := h.accepts calm ht hfirst
      obtain ⟨-, rfl⟩ := Prod.mk.inj (hbatch'.symm.trans hbatch)
      obtain ⟨v', r, hv', hothers⟩ := ih (fun batch hmem => full batch (List.mem_cons_of_mem _ hmem))
        hnone hmid hrest
      obtain rfl := Option.some.inj (hv.symm.trans hv')
      dsimp only
      rw [hothers]
      exact ⟨_, ht, rfl⟩

theorem forM_eq_mapM (work : List ρ → Run Nat) (batches : List (List ρ)) :
    (batches.forM fun batch => do let _ ← work batch) = (do let _ ← batches.mapM work) := by
  induction batches with
  | nil => rfl
  | cons batch batches ih =>
    rw [List.mapM_cons]
    change ((do let _ ← work batch) >>= fun _ => batches.forM fun batch => do let _ ← work batch) = _
    rw [ih]
    simp only [bind_assoc, pure_bind]

end Inserts

end ReadingBench.Store
