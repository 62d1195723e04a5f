import ReadingBench.Proofs.Seeding.Made
import ReadingBench.Proofs.Seeding.Resumed
import ReadingBench.Proofs.Store.Joined

namespace ReadingBench.Seeding

open Sql Store Outcome Server

section Inserts

variable {ρ : Type} {session : Session} {ref : TableRef} {columns : List String} {onConflict : OnConflict}
  {toRow : ρ → Tuple}

theorem inserts_flush {insert : Session → List ρ → Run Nat}
    (h : Inserts session ref columns onConflict toRow (insert session)) :
    Inserts session ref columns onConflict toRow (flush insert session) where
  accepts := by
    intro batch server t u n calm ht hall
    obtain ⟨mid, hinsert, hmid, hu, hothers⟩ := h.accepts calm ht hall
    obtain ⟨next, hcommit, htables⟩ := hmid.commit
    refine ⟨next, bind_apply_eq_ok.2 ⟨n, mid, hinsert, bind_apply_eq_ok.2 ⟨(), next, ?_, rfl⟩⟩,
      (respects_commit session).keepsCalm.after hmid hcommit, (table?_of_tables htables _).trans hu,
      hothers.trans (.of_tables htables)⟩
    exact Run.ofAction_eq_ok.2 hcommit
  accepted := by
    intro batch server n next hbatch hflush
    obtain ⟨mid, hinsert, -⟩ := flush_eq_ok hflush
    exact h.accepted hbatch hinsert

theorem inserts_users : Inserts session Keyspace.user.table Keyspace.user.columns .fail User.toRow
    (flush insertUsers session) :=
  inserts_flush (inserts_insert.skipping
    (fun batch hbatch => if_neg (by simpa [List.isEmpty_iff] using hbatch)) rfl)

theorem inserts_articles : Inserts session Keyspace.article.table Keyspace.article.columns .fail
    Article.toRow (flush insertArticles session) :=
  inserts_flush (inserts_insert.skipping
    (fun batch hbatch => if_neg (by simpa [List.isEmpty_iff] using hbatch)) rfl)

theorem inserts_reads : Inserts session Keyspace.read.table Keyspace.read.columns .ignore Read.storedRow
    (flush insertReads session) := by
  refine inserts_flush ?_
  have hreceived : Inserts session Keyspace.read.table Keyspace.read.columns .ignore Read.storedRow
      fun batch => Run.ofAction (do
        session.receive ((Read.rawInsert batch).sql?.getD "")
        Action.applyInsert (storing batch)) := inserts_received fun _ => ⟨rfl, rfl, rfl, rfl, rfl⟩
  rw [insertReads_eq]
  refine hreceived.skipping (fun batch hbatch => ?_) rfl
  obtain ⟨text, htext, -⟩ := reading_storing hbatch
  rw [insertStored, htext]
  rfl

end Inserts

section Made

variable {σ ρ : Type} {session : Session} {ref : TableRef} {columns : List String} {onConflict : OnConflict}
  {toRow : ρ → Tuple} {source : Source σ ρ} {budget : Nat} {b : Batches σ} {server : Server} {t u : Table}
  {n : Nat}

/-- Inserts all batches, and then stops as their making stops. Gives the affected count, the number of
batches and what is left of the source. -/
def insertMade (session : Session) (insert : Session → List ρ → Run Nat) (source : Source σ ρ)
    (budget : Nat) (b : Batches σ) : Run (Nat × Nat × Batches σ) := do
  let counts ← (b.all source budget).1.mapM (flush insert session)
  let (batches, last) ← (b.made source budget : Except Halt (Nat × Batches σ))
  return (counts.sum, batches, last)

/-- Where the table takes all rows at once, only making the batches can fail. -/
theorem insertMade_of_applyAll {insert : Session → List ρ → Run Nat}
    (inserts : Inserts session ref columns onConflict toRow (flush insert session))
    (calm : Calm session server) (ht : server.table? ref = some t)
    (h : t.applyAll columns onConflict none ((b.all source budget).1.flatten.map toRow) = .ok (u, n)) :
    ∃ next, insertMade session insert source budget b server =
        ((b.made source budget).map fun made => (n, made), next) ∧ SameBut ref server next := by
  obtain ⟨counts, next, hmapM, rfl, -, -, hothers⟩ := inserts.mapM_accepts calm ht h
  refine ⟨next, ?_, hothers⟩
  rw [insertMade, bind_apply, hmapM]
  dsimp only
  rw [bind_apply, lift_apply]
  cases b.made source budget <;> rfl

theorem loadTable_eq_insertMade (fresh : b.accepted = 0) (clear : Bool) (policy : RetryPolicy)
    (insert : Session → List ρ → Run Nat) :
    loadTable session ref clear policy source insert budget b = (do
      let truncated ← clearing clear session ref policy
      optimize session false
      let (_, batches, last) ← insertMade session insert source budget b
      restore session
      return { batches, truncated, source := last }) := by
  have hrun : (b.run source budget fun batch => do let _ ← flush insert session batch :
      Run (Nat × Batches σ)) = (do return (← insertMade session insert source budget b).2) := by
    have hforM := forM_eq_mapM (flush insert session) (b.all source budget).1
    rw [Batches.run_eq _ fresh, insertMade, Batches.made]
    change ((b.all source budget).1.forM _ >>= _) = _
    rw [hforM, bind_assoc, bind_assoc]
    congr 1
    funext counts
    rw [pure_bind]
    cases (b.all source budget).2 <;> rfl
  rw [loadTable_eq, hrun]
  simp only [bind_assoc, pure_bind]

end Made

section Reads

variable {s : Seeding} {session : Session}

theorem insertAll_eq (batches : List (List Read)) (tally : Tally) :
    Queue.insertAll session batches tally = (do
      let counts ← batches.mapM (flush insertReads session)
      return ⟨tally.batches + batches.length, tally.accepted + batches.flatten.length,
        tally.affected + counts.sum⟩) := by
  induction batches generalizing tally with
  | nil => rfl
  | cons batch batches ih =>
    rw [Queue.insertAll, List.mapM_cons]
    simp only [ih, bind_assoc, pure_bind, Tally.add, List.length_cons, List.flatten_cons,
      List.length_append, List.sum_cons, Nat.add_assoc, Nat.add_comm 1]

theorem loadInline_eq_insertMade (source : ReadSource) : s.loadInline session source = (do
    let (affected, batches, last) ← insertMade session insertReads source.offer s.budget s.readBatches
    return ⟨batches, affected, last⟩) := by
  rw [Queue.loadInline_eq, insertAll_eq, insertMade, Batches.made]
  simp only [bind_assoc, pure_bind]
  congr 1
  funext counts
  cases (s.readBatches.all source.offer s.budget).2 with
  | error halt => rfl
  | ok last =>
    simp only [Nat.zero_add]
    rfl

end Reads

end ReadingBench.Seeding
