import ReadingBench.Proofs.Calendar.DateTime
import ReadingBench.Proofs.Seeding.Referential

namespace ReadingBench

open Sql Store Outcome Server

namespace Batches.Offered

variable {σ ρ : Type} {source : Source σ ρ}

/-- Without rejections every index that is reached was accepted. -/
theorem exists_offer {b last : Batches σ} {records : List ρ} (h : Offered source b records last)
    (steady : ∀ index id state next, source index id state ≠ .rejected next) (index : Nat)
    (hfirst : b.candidates ≤ index) (hlast : index < b.candidates + records.length) :
    ∃ id state record next, source index id state = .accepted record next := by
  induction h with
  | nil b =>
    rw [List.length_nil] at hlast
    omega
  | rejected offer _ _ => exact absurd offer (steady _ _ _ _)
  | @accepted b last state record records offer _ ih =>
    by_cases hhere : index = b.candidates
    · exact ⟨_, _, record, state, hhere ▸ offer⟩
    · rw [List.length_cons] at hlast
      exact ih (by dsimp only; omega) (by dsimp only; omega)

end Batches.Offered

/-- Users come a second apart, and the calendar ends. -/
theorem Seeding.users_lt_of_generated {s : Seeding} {g : Generated} (h : s.generated = .ok g) :
    g.users.length < 2 ^ 63 := by
  obtain ⟨dists, grown, -, -, -, -, husers, -⟩ := generated_eq_ok.1 h
  by_contra hmany
  obtain ⟨id, state, user, next, hoffer⟩ := (Batches.offered_of_records husers).1.exists_offer
    (fun _ _ _ _ => UserSource.offer_ne_rejected) (86400 * 2 ^ 28) (Nat.zero_le _) (by omega)
  obtain ⟨time, htime⟩ := UserSource.exists_time hoffer
  have hword : signedWord (86400 * 2 ^ 28) = 86400 * 2 ^ 28 := by decide
  rw [hword] at htime
  exact absurd (DateTime.days_lt htime) (lt_irrefl _)

namespace Read

theorem nodup_pairs (reads : List Read) : ((firsts reads).map pair).Nodup := by
  induction reads using List.reverseRecOn with
  | nil => exact List.nodup_nil
  | append_singleton reads r ih =>
    rw [firsts_concat]
    split
    · exact ih
    · rename_i hnew
      rw [List.map_append, List.nodup_append]
      refine ⟨ih, List.nodup_singleton _, ?_⟩
      intro p hp q hq hsame
      rw [List.map_singleton, List.mem_singleton] at hq
      exact hnew ((mem_pairs_firsts reads _).1 (hq ▸ hsame ▸ hp))

/-- The users of an article's reads differ. -/
theorem nodup_uids (reads : List Read) (aid : String) :
    (((firsts reads).filter (·.aid = aid)).map (·.uid)).Nodup := by
  have hpairs := nodup_pairs reads
  refine List.Nodup.map_on ?_ (hpairs.of_map.filter _)
  intro r hr r' hr' huid
  rw [List.mem_filter, decide_eq_true_iff] at hr hr'
  exact List.inj_on_of_nodup_map hpairs hr.1 hr'.1 (Prod.ext huid (hr.2.trans hr'.2.symm))

end Read

/-- Records of one run: each read is of a user and of an article among them. -/
structure Generated.Linked (g : Generated) : Prop where
  aids : (g.articles.map (·.aid)).Nodup
  uid_mem : ∀ read ∈ g.reads, read.uid ∈ g.users.map (·.uid)
  aid_mem : ∀ read ∈ g.reads, read.aid ∈ g.articles.map (·.aid)
  users_lt : g.users.length < 2 ^ 63
  articles_lt : g.articles.length < 2 ^ 64

/-- No article is read by more users than there are. -/
theorem Generated.Linked.countP_lt {g : Generated} (h : g.Linked) (aid : String) :
    (Read.firsts g.reads).countP (·.aid = aid) < 2 ^ 63 := by
  have hsubset : ((Read.firsts g.reads).filter (·.aid = aid)).map (·.uid) ⊆ g.users.map (·.uid) := by
    intro uid huid
    obtain ⟨read, hread, rfl⟩ := List.mem_map.1 huid
    exact h.uid_mem read ((Read.firsts_sublist g.reads).mem (List.mem_filter.1 hread).1)
  have hle := ((Read.nodup_uids g.reads aid).subperm hsubset).length_le
  rw [List.length_map, List.length_map, ← List.countP_eq_length_filter] at hle
  exact hle.trans_lt h.users_lt

namespace Seeding

section Run

variable {s : Seeding} {session : Session} {server next : Server} {report : SeedReport}

theorem length_of_loadTable {σ ρ : Type} {session : Session} {ref : TableRef} {clear : Bool}
    {policy : RetryPolicy} {source : Source σ ρ} {insert : Session → List ρ → Run Nat} {budget : Nat}
    {b : Batches σ} {loaded : Loaded σ} (fresh : b.accepted = 0)
    (h : loadTable session ref clear policy source insert budget b server = (.ok loaded, next)) :
    loaded.source.accepted = b.target := by
  obtain ⟨records, hrecords⟩ := records_of_loadTable fresh h
  obtain ⟨hoffered, hlength⟩ := Batches.offered_of_records hrecords
  rw [hoffered.accepted_eq, hlength, Batches.remaining, fresh, Nat.sub_zero, Nat.zero_add]

/-- A run counts the articles that it was asked for. -/
theorem articles_of_runPhases (full : s.config.readsOnly = false)
    (h : s.runPhases session server = (.ok report, next)) : report.articles = s.config.articles.toNat := by
  obtain ⟨truncated, cleared, counted, index, populated, outcome, loaded, -, hpopulated, -, -, rfl⟩ :=
    runPhases_parts h
  rw [indexPhase, full, if_neg Bool.false_ne_true] at hpopulated
  obtain ⟨dists, users, articles, mid, -, -, harticles, -, rfl⟩ := loadPopulation_parts hpopulated
  obtain ⟨opened, closed, -, -, harticles⟩ := Run.withSession_eq_ok harticles
  exact length_of_loadTable rfl harticles

/-- What a full run on empty tables leaves: the articles and reads that it made, which are linked, and are as
many as it reports. -/
theorem linked_of_run (reachable : server.Reachable) (tables : HasTables server)
    (vacant : ∀ ks ∈ [Keyspace.user, .article, .read], server.rowCount ks.table = 0)
    (wet : s.config.dryRun = false) (full : s.config.readsOnly = false)
    (h : s.run server = (.ok report, next)) : ∃ g : Generated, s.generated = .ok g ∧ g.Linked ∧
      Filled next .article (g.articles.map Article.toRow) ∧
      Filled next .read ((Read.firsts g.reads).map Read.storedRow) ∧
      report.articles = g.articles.length ∧ report.readsAffected = (Read.firsts g.reads).length := by
  obtain ⟨-, g, hg, -, hrefers, -⟩ := refersTo_of_run reachable tables full
    (fun _ => .inr ⟨vacant .user (by simp), vacant .article (by simp)⟩) h
  rw [run_eq_withSession, wet, if_neg Bool.false_ne_true] at h
  obtain ⟨opened, last, hopened, hclosed, h⟩ := Run.withSession_eq_ok h
  have ready : ∀ ks ∈ [Keyspace.user, .article, .read], Ready s.config.truncate opened ks := fun ks hks =>
    (ready_of_rowCount _ reachable tables vacant ks hks).of_eq (table?_of_tables hopened _)
  obtain ⟨g', hg', -, harticles, hreads, -, haffected⟩ := filled_of_runPhases ready full h
  obtain rfl := Except.ok.inj (hg.symm.trans hg')
  have hnumbered := numbered_of_generated hg
  have hlength : g.articles.length = s.config.articles.toNat := by
    have haids := congrArg List.length hnumbered.aids
    rwa [List.length_map, List.length_map, List.length_range] at haids
  have hlinked : g.Linked := by
    refine ⟨?_, fun read hread => ?_, fun read hread => ?_, users_lt_of_generated hg, ?_⟩
    · rw [hnumbered.aids]
      exact nodup_map_aidOf _
    · obtain ⟨row, hrow, huid⟩ := (hrefers read hread).user
      obtain ⟨user, huser, rfl⟩ := List.mem_map.1 hrow
      exact List.mem_map.2 ⟨user, huser, Option.some.inj huid⟩
    · obtain ⟨row, hrow, haid⟩ := (hrefers read hread).article
      obtain ⟨article, harticle, rfl⟩ := List.mem_map.1 hrow
      exact List.mem_map.2 ⟨article, harticle, Option.some.inj haid⟩
    · exact hlength ▸ s.config.articles.toNat_lt
  exact ⟨g, hg, hlinked, harticles.of_eq (table?_of_tables hclosed _), hreads.of_eq (table?_of_tables hclosed _),
    (articles_of_runPhases full h).trans hlength.symm, haffected⟩

end Run

end Seeding
end ReadingBench
