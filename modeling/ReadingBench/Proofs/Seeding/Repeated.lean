import ReadingBench.Proofs.Seeding.Afresh
import ReadingBench.Proofs.Seeding.Inserted
import ReadingBench.Proofs.Seeding.Plan
import ReadingBench.Proofs.Store.Ignored

namespace ReadingBench

open Sql Store Outcome Server

/-- A read has an id. -/
theorem Read.keyed_storedRow (r : Read) : Keyspace.read.spec.Keyed Keyspace.read.columns r.storedRow := by
  refine ⟨["id"], by decide, fun column hcolumn i hi => ?_⟩
  obtain rfl := List.mem_singleton.1 hcolumn
  obtain rfl : 0 = i := Option.some.inj hi
  have hrow : Keyspace.read.spec.fullRow Keyspace.read.columns r.storedRow = .ok r.storedRow :=
    TableSpec.fullRow_self (by decide) rfl
  rw [← TableSpec.getD_fullRow hrow]
  exact Bool.false_ne_true

namespace Seeding

section Load

variable {session : Session} {index : ReferentialIndex} {server next : Server}

/-- What loads the same from the same tables of users and articles. -/
theorem load_same (h : ReferentialIndex.load session server = (.ok index, next)) :
    Calm session server ∧ next.tables = server.tables ∧
      ∀ {session' other}, Calm session' other →
        (∀ ks ∈ [Keyspace.user, .article], other.table? ks.table = server.table? ks.table) →
        ∃ last, ReferentialIndex.load session' other = (.ok index, last) ∧ last.tables = other.tables := by
  unfold ReferentialIndex.load at h ⊢
  obtain ⟨users, mid, hselect, h⟩ := bind_apply_eq_ok.1 h
  obtain ⟨grown, same, hgrown, h⟩ := bind_apply_eq_ok.1 h
  obtain ⟨hentered, rfl⟩ := Run.ofExcept_eq_ok.1 hgrown
  obtain ⟨articles, ended, hselect', h⟩ := bind_apply_eq_ok.1 h
  obtain ⟨hindex, rfl⟩ := Run.ofExcept_eq_ok.1 h
  have hfirst := Run.ofAction_eq_ok.1 hselect
  obtain ⟨hmid, t, ht, husers⟩ := Session.select_eq_ok hfirst
  obtain ⟨hended, u, hu, harticles⟩ := Session.select_eq_ok (Run.ofAction_eq_ok.1 hselect')
  refine ⟨.of_select_eq_ok hfirst, hended.trans hmid, fun {session' other} calm same => ?_⟩
  have hfound := (same .user (by simp)).trans ht
  have hfound' := (same .article (by simp)).trans ((table?_of_tables hmid _).symm.trans hu)
  have hleft := calm.select (s := { table := Keyspace.user.table, columns := ["uid", "region"] }) hfound
  have hlogged := calm.logged (Select.sql { table := Keyspace.user.table, columns := ["uid", "region"] })
  have hright := hlogged.select (t := u)
    (s := { table := Keyspace.article.table, columns := ["aid", "language"] }) hfound'
  rw [husers] at hleft
  rw [harticles] at hright
  refine ⟨_, bind_apply_eq_ok.2 ⟨_, _, Run.ofAction_eq_ok.2 hleft, bind_apply_eq_ok.2 ⟨grown, _,
    Run.ofExcept_eq_ok.2 ⟨hentered, rfl⟩, bind_apply_eq_ok.2 ⟨_, _, Run.ofAction_eq_ok.2 hright,
      Run.ofExcept_eq_ok.2 ⟨hindex, rfl⟩⟩⟩⟩, rfl⟩

end Load

section Reads

/-- Work on a calm server whose table of reads is as another server has it gives this result and changes no
table. -/
def Repeats {α : Type} (left : Server) (work : Session → Run α) (a : α) : Prop :=
  ∀ session server, Calm session server →
    server.table? Keyspace.read.table = left.table? Keyspace.read.table →
      ∃ last, work session server = (.ok a, last) ∧ Alike last server

theorem Repeats.bind_pure {α β : Type} {left : Server} {work : Session → Run α} {a : α}
    (h : Repeats left work a) (f : α → β) : Repeats left (fun session => do return f (← work session)) (f a) := by
  intro session server calm same
  obtain ⟨last, hwork, halike⟩ := h session server calm same
  exact ⟨last, bind_apply_eq_ok.2 ⟨a, last, hwork, rfl⟩, halike⟩

variable {s : Seeding} {session : Session} {source : ReadSource} {index : ReferentialIndex}
  {outcome : ReadOutcome} {batches : List (List Read)} {counts : List Nat} {server next : Server}
variable (sound : server.All Table.Sound)
  (standard : ∀ t, server.table? Keyspace.read.table = some t → t.spec = Keyspace.read.spec)
  (calm : Calm session server)
include sound standard calm

/-- Reads that were inserted find their keys taken when they are inserted again. -/
theorem mapM_flush_again (full : ∀ batch ∈ batches, batch ≠ [])
    (h : batches.mapM (flush insertReads session) server = (.ok counts, next)) :
    SameBut Keyspace.read.table server next ∧
      Repeats next (fun session => do return (← batches.mapM (flush insertReads session)).sum) 0 := by
  by_cases hnone : batches = []
  · rw [hnone] at h ⊢
    obtain ⟨rfl, rfl⟩ := pure_apply_eq_ok.1 h
    exact ⟨.of_tables rfl, fun _ other _ _ => ⟨other, rfl, fun _ => rfl⟩⟩
  · obtain ⟨t, ⟨u, affected⟩, ht, hall⟩ := inserts_reads.mapM_accepted full hnone calm h
    obtain ⟨counts', next', h', -, -, hu, hothers⟩ := inserts_reads.mapM_accepts calm ht hall
    obtain ⟨-, rfl⟩ := Prod.mk.inj (h'.symm.trans h)
    have hagain := Table.applyAll_again (sound _ _ ht) (List.forall_mem_map.2 fun r _ => by
      rw [standard t ht]
      exact r.keyed_storedRow) hall
    refine ⟨hothers, fun session' other calm' same => ?_⟩
    have hfound := same.trans hu
    obtain ⟨counts'', last, hdone, hcounted, -, hlast, hothers'⟩ :=
      inserts_reads.mapM_accepts calm' hfound hagain
    refine ⟨last, bind_apply_eq_ok.2 ⟨counts'', last, hdone, ?_⟩, hothers'.alike (hlast.trans hfound.symm)⟩
    rw [hcounted]
    rfl

theorem insertMade_again {b : Batches Reading} {offer : Source Reading Read} {budget : Nat}
    {made : Nat × Nat × Batches Reading}
    (h : insertMade session insertReads offer budget b server = (.ok made, next)) :
    SameBut Keyspace.read.table server next ∧
      Repeats next (fun session => insertMade session insertReads offer budget b) (0, made.2) := by
  obtain ⟨counts, mid, hmapM, h⟩ := bind_apply_eq_ok.1 h
  obtain ⟨⟨count, rest⟩, mid', hlift, h⟩ := bind_apply_eq_ok.1 h
  obtain ⟨rfl, rfl⟩ := pure_apply_eq_ok.1 h
  rw [lift_apply] at hlift
  obtain ⟨hmade, rfl⟩ := Prod.mk.inj hlift
  obtain ⟨hothers, hagain⟩ := mapM_flush_again sound standard calm Batches.ne_nil_of_mem_all hmapM
  -- The batches are made as before.
  have hwork : (fun session => insertMade session insertReads offer budget b) = fun session => do
      let affected ← (do return (← (b.all offer budget).1.mapM (flush insertReads session)).sum : Run Nat)
      return (affected, count, rest) := by
    funext session
    rw [insertMade, hmade, bind_assoc]
    rfl
  rw [hwork]
  exact ⟨hothers, hagain.bind_pure fun affected => (affected, count, rest)⟩

theorem loadInline_again (h : s.loadInline session source server = (.ok outcome, next)) :
    SameBut Keyspace.read.table server next ∧
      Repeats next (fun session => s.loadInline session source) { outcome with affected := 0 } := by
  simp only [loadInline_eq_insertMade] at h ⊢
  obtain ⟨made, mid, hmade, h⟩ := bind_apply_eq_ok.1 h
  obtain ⟨rfl, rfl⟩ := pure_apply_eq_ok.1 h
  obtain ⟨hothers, hagain⟩ := insertMade_again sound standard calm hmade
  exact ⟨hothers, hagain.bind_pure fun made : Nat × Nat × Batches Reading =>
    ReadOutcome.mk made.2.1 made.1 made.2.2⟩

theorem loadReads_again (h : s.loadReads session index server = (.ok outcome, next)) :
    SameBut Keyspace.read.table server next ∧
      Repeats next (fun session => s.loadReads session index) { outcome with affected := 0 } := by
  obtain ⟨source, hsource, hinline⟩ := loadReads_eq_ok h
  obtain ⟨hothers, hagain⟩ := loadInline_again sound standard calm hinline
  refine ⟨hothers, fun session' other calm' same => ?_⟩
  obtain ⟨last, hlast, halike⟩ := hagain session' other calm' same
  refine ⟨last, bind_apply_eq_ok.2 ⟨source, other, by rw [lift_apply, hsource], ?_⟩, halike⟩
  rw [loadReads, bind_apply, hsource, lift_apply] at h
  dsimp only at h hlast
  split
  · exact hlast
  · rename_i hqueue
    rw [if_neg hqueue, loadQueued] at h
    split at h
    · cases (Prod.mk.inj h).1
    · rename_i hshallow
      rw [loadQueued, if_neg hshallow, hlast]

end Reads

section Runs

variable {s : Seeding} {seed : UInt64} {session : Session} {server next : Server} {report : SeedReport}

/-- A run of stored users and articles that truncates nothing. -/
theorem runPhases_stored (stored : s.config.readsOnly = true) (kept : s.config.truncate = false)
    (session : Session) : s.runPhases session = (do
      optimize session true
      let index ← ReferentialIndex.load session
      let outcome ← s.loadReads session index
      restore session
      return outcome.aboutReads) := by
  rw [runPhases, kept, indexPhase, if_pos stored]
  simp only [clearing, Bool.false_eq_true, if_false, bind_assoc, pure_bind]
  rfl

/-- A dry run has no stored users and articles, so what succeeds is no dry run. -/
theorem wet_of_stored (stored : s.config.readsOnly = true) (h : s.run server = (.ok report, next)) :
    s.config.dryRun = false := by
  by_contra hdry
  rw [run, if_pos (by simpa using hdry), lift_apply, dryRun, if_pos stored] at h
  cases (Prod.mk.inj h).1

theorem runPhases_again (stored : s.config.readsOnly = true) (kept : s.config.truncate = false)
    (sound : server.All Table.Sound)
    (standard : ∀ t, server.table? Keyspace.read.table = some t → t.spec = Keyspace.read.spec)
    (h : s.runPhases session server = (.ok report, next)) :
    next.failures = [] ∧ ∀ {session' other}, Calm session' other → other.tables = next.tables →
      ∃ last, s.runPhases session' other = (.ok { report with readsAffected := 0 }, last) ∧
        Alike last other := by
  rw [runPhases_stored stored kept] at h
  obtain ⟨_, prepared, hprepare, h⟩ := bind_apply_eq_ok.1 h
  obtain ⟨-, rfl⟩ := Prod.mk.inj ((Run.liftState_apply _ _).symm.trans hprepare)
  obtain ⟨index, loaded, hload, h⟩ := bind_apply_eq_ok.1 h
  obtain ⟨outcome, filled, hreads, h⟩ := bind_apply_eq_ok.1 h
  obtain ⟨_, restored, hrestore, h⟩ := bind_apply_eq_ok.1 h
  obtain ⟨rfl, rfl⟩ := pure_apply_eq_ok.1 h
  obtain ⟨-, rfl⟩ := Prod.mk.inj ((Run.liftState_apply _ _).symm.trans hrestore)
  obtain ⟨hprepared, hsame, hload'⟩ := load_same hload
  have hloaded := (respects_load session).keepsCalm.after hprepared hload
  have htables := hsame.trans (optimize_tables session true server)
  obtain ⟨hothers, hreads'⟩ := loadReads_again (fun key t ht => sound key t (by rwa [← htables]))
    (fun t ht => standard t ((table?_of_tables htables _).symm.trans ht)) hloaded hreads
  have hfilled := (respects_loadReads s session index).keepsCalm.after hloaded hreads
  have hrestored := restore_tables session filled
  refine ⟨((respects_restore session).keepsCalm filled hfilled).failures,
    fun {session' other} calm same => ?_⟩
  have hprepared' := (respects_optimize session' true).keepsCalm other calm
  have hsame' := optimize_tables session' true other
  obtain ⟨loaded', hload'', hloaded'⟩ := hload' hprepared' fun ks hks => by
    have hne : ks.table.key ≠ Keyspace.read.table.key := by
      simp only [List.mem_cons, List.not_mem_nil, or_false] at hks
      rcases hks with rfl | rfl <;> decide
    rw [Run.liftState_apply, table?_of_tables hsame', table?_of_tables same, table?_of_tables hrestored,
      hothers.table? hne, table?_of_tables hsame]
  have hback : loaded'.tables = other.tables := hloaded'.trans hsame'
  obtain ⟨last, hreads'', halike⟩ := hreads' _ _ ((respects_load session').keepsCalm.after hprepared' hload'')
    (table?_of_tables (hback.trans (same.trans hrestored)) _)
  refine ⟨(restore session' last).2, ?_, halike.of_tables (restore_tables session' last) hback.symm⟩
  rw [runPhases_stored stored kept]
  exact bind_apply_eq_ok.2 ⟨_, _, Run.liftState_apply _ _, bind_apply_eq_ok.2 ⟨index, loaded', hload'',
    bind_apply_eq_ok.2 ⟨_, last, hreads'', bind_apply_eq_ok.2 ⟨_, _, Run.liftState_apply _ _, rfl⟩⟩⟩⟩

theorem run_repeated (reachable : server.Reachable) (seeded : s.config.rngSeed = some seed)
    (stored : s.config.readsOnly = true) (kept : s.config.truncate = false)
    (standard : ∀ t, server.table? Keyspace.read.table = some t → t.spec = Keyspace.read.spec)
    (h : s.run server = (.ok report, next)) (entropy : Random.Entropy) :
    ∃ last, ({ s with entropy } : Seeding).run next = (.ok { report with readsAffected := 0 }, last) ∧
      Alike last next := by
  have wet := wet_of_stored stored h
  have hrun : s.run = Run.withSession s.runPhases := by rw [run_eq_withSession, wet, if_neg Bool.false_ne_true]
  rw [run_seeded seeded, hrun]
  rw [hrun] at h
  rcases hphases : s.runPhases (Session.openNew server).1 (Session.openNew server).2 with ⟨result, ended⟩
  obtain ⟨rfl, rfl⟩ : result = .ok report ∧ (Session.openNew server).1.close ended = next := by
    rw [Run.withSession_apply, hphases] at h
    obtain ⟨rfl, rfl⟩ := Prod.mk.inj h
    exact ⟨rfl, rfl⟩
  have hsound : (Session.openNew server).2.All Table.Sound := reachable.sound
  have hstandard : ∀ t, (Session.openNew server).2.table? Keyspace.read.table = some t →
      t.spec = Keyspace.read.spec := standard
  obtain ⟨hquiet, hagain⟩ := runPhases_again stored kept hsound hstandard hphases
  have hclosed := Session.close_tables (Session.openNew server).1 ended
  obtain ⟨last, hlast, halike⟩ := hagain
    (calm_openNew ((close_failures (Session.openNew server).1 ended).trans hquiet)) hclosed
  rw [Run.withSession_apply, hlast]
  exact ⟨_, rfl, halike.of_tables (Session.close_tables _ last) rfl⟩

end Runs

end Seeding

/-- Inserts that pass over taken keys count for nothing the second time, and change no table. So a seeded run that
makes reads of stored users and articles, and truncates nothing, reports no affected read when it is
repeated, and leaves all tables as they were. -/
theorem ignored_again {server : Server} (reachable : server.Reachable) :
    (∀ ref t ops, server.table? ref = some t → (∀ op ∈ ops, op.Ignores ref t.spec) →
      (∀ e ∈ server.events ops, e.succeeded) →
        (∀ e ∈ (server.after ops).events ops, e.answer = .ok (.affected 0)) ∧
          Alike ((server.after ops).after ops) (server.after ops)) ∧
    ∀ (s : Seeding) seed entropy report next, s.config.rngSeed = some seed → s.config.readsOnly = true →
      s.config.truncate = false →
      (∀ t, server.table? Keyspace.read.table = some t → t.spec = Keyspace.read.spec) →
      s.run server = (.ok report, next) →
        ∃ last, ({ s with entropy } : Seeding).run next = (.ok { report with readsAffected := 0 }, last) ∧
          Alike last next := by
  refine ⟨fun ref t ops ht ignores done => ?_, fun s seed entropy report next seeded stored kept standard h => ?_⟩
  · exact after_again reachable ht ignores done
  · exact Seeding.run_repeated reachable seeded stored kept standard h entropy

namespace Seeding

/-- Rows of two unique keys. -/
def crossing : TableSpec :=
  { table := ⟨none, "articles"⟩, columns := ["id", "aid"], uniqueKeys := [["id"], ["aid"]] }

/-- The first tuple has the name of a row, and the second has no id. -/
def crossingText : RawInsert :=
  { table := crossing.table, columns := crossing.columns, rows := [[.int 2, .text "a"], [.null, .text "c"]] }

/-- The second tuple has the id of the first. -/
def crossingRequests : List Operation :=
  [.insert .root { table := crossing.table, columns := crossing.columns, onConflict := .ignore
                   rows := [[.int 1, .text "a"], [.int 1, .text "b"]] },
    .execute .root (crossingText.sql?.getD "")]

/-- A server with one user and one article. -/
def peopled : Server := vacant.after
  [.define crossing,
    .insert .root { table := Keyspace.user.table, columns := ["uid", "region"]
                    rows := [[.text "u0", Attribute.value Region.hongKong]] },
    .insert .root { table := Keyspace.article.table, columns := ["aid", "language"]
                    rows := [[.text "a0", Attribute.value Language.zh]] }]

/-- The reads of `samePair`, of the stored user and article. -/
def samePairStored : Seeding := { samePair with config := { samePair.config with readsOnly := true } }

theorem keyed_crossing (v : Value) (name : String) : crossing.Keyed crossing.columns [v, .text name] := by
  refine ⟨["aid"], by decide, fun column hcolumn i hi => ?_⟩
  obtain rfl := List.mem_singleton.1 hcolumn
  obtain rfl : 1 = i := Option.some.inj hi
  exact Bool.false_ne_true

theorem ignores_crossing : ∀ op ∈ crossingRequests, op.Ignores crossing.table crossing := by
  rw [crossingRequests, List.forall_mem_cons, List.forall_mem_singleton]
  refine ⟨⟨.root, _, _, rfl, rfl, rfl, rfl, ?_⟩, ?_⟩
  · simp [keyed_crossing]
  · obtain ⟨text, htext, hreading⟩ := reading_sql (s := crossingText)
      ⟨by decide, by decide, by decide, by decide⟩
    rw [htext]
    refine ⟨.root, text, { crossingText.bound with rows := crossingText.writtenRows }, ?_, rfl, rfl, rfl, ?_⟩
    · rw [Operation.insert?, Option.getD_some, hreading]
    · simp [RawInsert.writtenRows, RawInsert.bound, crossingText, Value.written, keyed_crossing]

theorem ignored_again_crossing : peopled.Reachable ∧
    (peopled.after crossingRequests).rowCount crossing.table = 2 ∧
    (∀ e ∈ (peopled.after crossingRequests).events crossingRequests, e.answer = .ok (.affected 0)) ∧
    ∃ report next last, samePairStored.run peopled = (.ok report, next) ∧ report.readsAffected = 1 ∧
      ({ samePairStored with entropy := 1 } : Seeding).run next =
        (.ok { report with readsAffected := 0 }, last) ∧ Alike last next := by
  have reachable : peopled.Reachable := Reachable.after ⟨_, _, rfl⟩ _
  have hdone : (peopled.events crossingRequests).all Event.succeeded := by decide +kernel
  have hrows : (peopled.after crossingRequests).rowCount crossing.table = 2 := by decide +kernel
  have haffected : (samePairStored.run peopled).1.toOption.map (·.readsAffected) = some 1 := by
    -- The text of a statement takes long to read in the kernel.
    unfold run perform loadReads loadQueued loadInline
    rw [insertReads_eq]
    decide +kernel
  obtain ⟨t, ht, hspec⟩ : ∃ t, peopled.table? crossing.table = some t ∧ t.spec = crossing := ⟨_, rfl, rfl⟩
  obtain ⟨t', ht', hspec'⟩ : ∃ t, peopled.table? Keyspace.read.table = some t ∧ t.spec = Keyspace.read.spec :=
    ⟨_, rfl, rfl⟩
  obtain ⟨hagain, hrepeated⟩ := ignored_again reachable
  refine ⟨reachable, hrows, ?_, ?_⟩
  · exact (hagain _ t _ ht (hspec ▸ ignores_crossing) (List.all_eq_true.1 hdone)).1
  · rcases hrun : samePairStored.run peopled with ⟨halt | report, next⟩
    · rw [hrun] at haffected
      cases haffected
    · rw [hrun] at haffected
      have standard : ∀ t, peopled.table? Keyspace.read.table = some t → t.spec = Keyspace.read.spec :=
        fun u hu => by rwa [← Option.some.inj (ht'.symm.trans hu)]
      obtain ⟨last, hlast, halike⟩ := hrepeated samePairStored 7 1 report next rfl rfl rfl standard hrun
      exact ⟨report, next, last, rfl, Option.some.inj haffected, hlast, halike⟩

end Seeding
end ReadingBench
