import ReadingBench.Proofs.Seeding.Accepted
import ReadingBench.Proofs.Store.Bookkeeping

namespace ReadingBench.Seeding

open Sql Store Server

variable {R : Lasting} {σ ρ : Type} {source : Source σ ρ}

theorem holds_applySettings (session : Session) (settings : List String) (server : Server) :
    R.holds server (applySettings session settings server).2 := by
  induction settings generalizing server with
  | nil => exact R.refl server
  | cons setting rest ih =>
    rw [applySettings_cons_snd]
    exact R.trans (respects_execute session setting server) (ih _)

theorem respects_optimize (session : Session) (rawText : Bool) :
    Respects R (liftM (optimize session rawText) : Run Unit) := by
  intro server
  rw [Run.liftState_apply]
  have hbulk := holds_applySettings (R := R) session bulkSettings server
  cases rawText with
  | false => exact hbulk
  | true => exact R.trans hbulk (holds_applySettings session [noBackslashEscapes] _)

theorem respects_restore (session : Session) : Respects R (liftM (restore session) : Run Unit) := by
  intro server
  rw [Run.liftState_apply]
  exact holds_applySettings session restoringSettings server

theorem respects_retrying {α : Type} {action : Action α} (h : Respects R action) (more : Nat) :
    Respects R (retrying action more) := by
  induction more with
  | zero => exact h
  | succ more ih =>
    refine h.tryCatch fun e => ?_
    split
    · exact ih
    · exact respects_throw e

theorem respects_deleteChunk (session : Session) (ref : TableRef) : Respects R (deleteChunk session ref) :=
  (respects_delete session _).bind fun count => (respects_commit session).bind fun _ => respects_pure count

theorem respects_deleteChunks (session : Session) (ref : TableRef) (policy : RetryPolicy) (most : Nat) :
    Respects R (deleteChunks session ref policy most) := by
  induction most with
  | zero => exact respects_pure 0
  | succ most ih =>
    refine (respects_retrying (respects_deleteChunk session ref) _).bind fun count => ?_
    split
    · exact respects_pure 0
    · exact ih.bind fun rest => respects_pure _

theorem respects_clearing (clear : Bool) (session : Session) (ref : TableRef) (policy : RetryPolicy) :
    Respects R (clearing clear session ref policy) := by
  cases clear with
  | false => exact respects_pure 0
  | true => exact respects_get.bind fun server => (respects_deleteChunks session ref policy _).ofAction

theorem respects_flush {insert : Session → List ρ → Run Nat} {session : Session} {batch : List ρ}
    (h : Respects R (insert session batch)) : Respects R (flush insert session batch) :=
  h.bind fun affected => (respects_commit session).ofAction.bind fun _ => respects_pure affected

theorem respects_insertUsers (session : Session) (batch : List User) :
    Respects R (insertUsers session batch) := by
  unfold insertUsers
  split
  · exact respects_pure 0
  · exact (respects_insert session _).ofAction

theorem respects_insertArticles (session : Session) (batch : List Article) :
    Respects R (insertArticles session batch) := by
  unfold insertArticles
  split
  · exact respects_pure 0
  · exact (respects_insert session _).ofAction

theorem respects_insertReads (session : Session) (batch : List Read) :
    Respects R (insertReads session batch) := by
  unfold insertReads
  split
  · exact (respects_execute session _).ofAction
  · exact respects_pure 0

theorem respects_forEach {use : List ρ → Run Unit} (h : ∀ batch, Respects R (use batch))
    (budget most count : Nat) (b : Batches σ) :
    Respects R (Batches.forEach source budget use most count b) := by
  induction most generalizing count b with
  | zero => exact respects_pure _
  | succ most ih =>
    rw [Batches.forEach]
    cases b.pull source budget with
    | finished => exact respects_pure _
    | outOfRange => exact respects_throw _
    | unfinished => exact respects_throw _
    | batch records rest => exact (h records).bind fun _ => ih (count + 1) rest

theorem respects_loadTable {insert : Session → List ρ → Run Nat} {session : Session}
    (h : ∀ batch, Respects R (insert session batch)) (ref : TableRef) (clear : Bool)
    (policy : RetryPolicy) (budget : Nat) (start : Batches σ) :
    Respects R (loadTable session ref clear policy source insert budget start) := by
  rw [loadTable_eq]
  refine (respects_clearing clear session ref policy).bind fun truncated => ?_
  refine (respects_optimize session false).bind fun _ => ?_
  have huse : ∀ batch, Respects R (do let _ ← flush insert session batch : Run Unit) :=
    fun batch => (respects_flush (h batch)).bind fun _ => respects_pure _
  refine (respects_forEach huse budget _ 0 start).bind fun made => ?_
  exact (respects_restore session).bind fun _ => respects_pure _

theorem respects_userPhase [R.Spans] (s : Seeding) (dists : Distributions) : Respects R (s.userPhase dists) :=
  Respects.withSession fun session => respects_loadTable (respects_insertUsers session) _ _ _ _ _

theorem respects_articlePhase [R.Spans] (s : Seeding) (dists : Distributions) (index : ReferentialIndex) :
    Respects R (s.articlePhase dists index) :=
  Respects.withSession fun session => respects_loadTable (respects_insertArticles session) _ _ _ _ _

theorem respects_loadPopulation [R.Spans] (s : Seeding) : Respects R s.loadPopulation :=
  (respects_lift _).bind fun dists => (respects_userPhase s dists).bind fun _ =>
    (respects_articlePhase s dists _).bind fun _ => respects_pure _

theorem respects_load (session : Session) : Respects R (ReferentialIndex.load session) := by
  refine (respects_select session _).ofAction.bind fun users => ?_
  refine (respects_ofExcept _).bind fun index => ?_
  exact (respects_select session _).ofAction.bind fun articles => respects_ofExcept _

theorem respects_indexPhase [R.Spans] (s : Seeding) (session : Session) : Respects R (s.indexPhase session) := by
  unfold indexPhase
  split
  · exact (respects_load session).bind fun index => respects_pure _
  · exact respects_loadPopulation s

theorem respects_insertAll (session : Session) (batches : List (List Read)) (t : Tally) :
    Respects R (Queue.insertAll session batches t) := by
  induction batches generalizing t with
  | nil => exact respects_pure t
  | cons batch batches ih =>
    exact (respects_flush (respects_insertReads session batch)).bind fun affected => ih (t.add batch affected)

theorem respects_loadInline (s : Seeding) (session : Session) (source : ReadSource) :
    Respects R (s.loadInline session source) := by
  rw [Queue.loadInline_eq]
  exact (respects_insertAll session _ _).bind fun t => (respects_lift _).bind fun last => respects_pure _

theorem respects_loadQueued (s : Seeding) (session : Session) (source : ReadSource) :
    Respects R (s.loadQueued session source) := by
  intro server
  have hinline := respects_loadInline (R := R) s session source server
  unfold loadQueued
  split
  · exact R.refl server
  · split
    · next hfailed =>
      rw [hfailed] at hinline
      exact hinline
    · exact hinline

theorem respects_loadReads (s : Seeding) (session : Session) (index : ReferentialIndex) :
    Respects R (s.loadReads session index) := by
  refine (respects_lift _).bind fun source => ?_
  split
  · exact respects_loadInline s session source
  · exact respects_loadQueued s session source

theorem respects_runPhases [R.Spans] (s : Seeding) (session : Session) : Respects R (s.runPhases session) := by
  rw [runPhases]
  refine (respects_optimize session true).bind fun _ => ?_
  refine (respects_clearing _ session _ _).bind fun truncated => ?_
  refine (respects_indexPhase s session).bind fun populated => ?_
  refine (respects_loadReads s session _).bind fun outcome => ?_
  exact (respects_restore session).bind fun _ => respects_pure _

theorem respects_run [R.Spans] (s : Seeding) : Respects R s.run := by
  rw [run_eq_withSession]
  split
  · exact respects_lift _
  · exact Respects.withSession (respects_runPhases s)

section Books

open Opening

theorem keepsBooks_populate (s : Seeding) : KeepsBooks s.populate := by
  refine (keepsBooks_lift _).bind fun dists => (keepsBooks_session .user).bind fun session => ?_
  refine (keepsBooks_ofRun (respects_loadTable (respects_insertUsers session) _ _ _ _ _)).bind fun users => ?_
  refine (keepsBooks_close .user).bind fun _ => (keepsBooks_session .article).bind fun session => ?_
  refine (keepsBooks_ofRun (respects_loadTable (respects_insertArticles session) _ _ _ _ _)).bind
    fun articles => ?_
  exact (keepsBooks_close .article).bind fun _ => keepsBooks_pure _

theorem keepsBooks_prepareIndex (s : Seeding) (session : Session) : KeepsBooks (s.prepareIndex session) := by
  unfold prepareIndex
  split
  · exact (keepsBooks_ofRun (respects_load session)).bind fun index => keepsBooks_pure _
  · exact keepsBooks_populate s

theorem keepsBooks_perform (s : Seeding) : KeepsBooks s.perform := by
  refine (keepsBooks_session .read).bind fun session => ?_
  refine (keepsBooks_ofRun (respects_optimize session true)).bind fun _ => ?_
  refine (keepsBooks_ofRun (respects_clearing _ session _ _)).bind fun truncated => ?_
  refine (keepsBooks_prepareIndex s session).bind fun counted => ?_
  refine (keepsBooks_ofRun (respects_loadReads s session _)).bind fun outcome => ?_
  exact (keepsBooks_ofRun (respects_restore session)).bind fun _ => keepsBooks_pure _

end Books

end ReadingBench.Seeding
