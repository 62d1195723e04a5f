import ReadingBench.Proofs.Seeding.Referential
import ReadingBench.Proofs.Store.Unmet

namespace ReadingBench

open Sql Store Outcome

namespace Batches

variable {σ ρ : Type} {source : Source σ ρ} {budget : Nat}

theorem nodup_ids {b : Batches σ} (fresh : b.accepted = 0) (small : b.target < 2 ^ 64) (idOf : ρ → UInt64)
    (hid : ∀ index id state record next,
      source index id state = .accepted record next → idOf record = UInt64.ofNat id) :
    ((b.all source budget).1.flatten.map idOf).Nodup := by
  -- Also where making batches stops early, what has been made was offered in a row.
  obtain ⟨last, hpulls, -⟩ := exists_pulls_all source budget b
  have hlength := hpulls.remaining_eq
  rw [hpulls.drawn.offered.map_id hid]
  refine List.Nodup.map_on ?_ List.nodup_range'
  intro m hm n hn hmn
  rw [List.mem_range'_1] at hm hn
  have hremaining : b.remaining ≤ b.target := Nat.sub_le _ _
  have hnat := congrArg UInt64.toNat hmn
  rwa [UInt64.toNat_ofNat_of_lt' (by rw [UInt64.size]; omega),
    UInt64.toNat_ofNat_of_lt' (by rw [UInt64.size]; omega)] at hnat

theorem nodup_names {b : Batches σ} (name : ρ → String) {nameOf : Nat → String}
    (injective : Function.Injective nameOf)
    (steady : ∀ index id state next, source index id state ≠ .rejected next)
    (hname : ∀ index id state record next,
      source index id state = .accepted record next → name record = nameOf index) :
    ((b.all source budget).1.flatten.map name).Nodup := by
  obtain ⟨last, hpulls, -⟩ := exists_pulls_all source budget b
  rw [hpulls.drawn.offered.map_index steady hname]
  exact List.Nodup.map injective List.nodup_range'

end Batches

/-- Rows of a table whose unique keys are an id and a name. -/
theorem keysDiffer_named {spec : TableSpec} {name : String} (keys : spec.uniqueKeys = [["id"], [name]])
    (hid : spec.position "id" = .ok 0) (hname : spec.position name = .ok 1) {id id' : UInt64}
    {s s' : String} {rest rest' : List Value} (ids : id ≠ id') (names : s ≠ s') :
    spec.KeysDiffer (.ofUInt64 id :: .text s :: rest) (.ofUInt64 id' :: .text s' :: rest') := by
  intro key hkey k hk hk'
  rw [keys, List.mem_cons, List.mem_singleton] at hkey
  rcases hkey with rfl | rfl
  · rw [TableSpec.keyOf_single hid, Except.ok.injEq] at hk hk'
    exact ids (Value.ofUInt64_literal (Option.some.inj (hk.trans hk'.symm)))
  · rw [TableSpec.keyOf_single hname, Except.ok.injEq] at hk hk'
    exact names (Value.text_literal (Option.some.inj (hk.trans hk'.symm)))

theorem User.pairwise_keysDiffer {users : List User} (ids : (users.map (·.id)).Nodup)
    (uids : (users.map (·.uid)).Nodup) :
    (users.map User.toRow).Pairwise Keyspace.user.spec.KeysDiffer :=
  List.pairwise_map.2 (((List.pairwise_map.1 ids).and (List.pairwise_map.1 uids)).imp fun h =>
    keysDiffer_named rfl rfl rfl h.1 h.2)

theorem Article.pairwise_keysDiffer {articles : List Article} (ids : (articles.map (·.id)).Nodup)
    (aids : (articles.map (·.aid)).Nodup) :
    (articles.map Article.toRow).Pairwise Keyspace.article.spec.KeysDiffer :=
  List.pairwise_map.2 (((List.pairwise_map.1 ids).and (List.pairwise_map.1 aids)).imp fun h =>
    keysDiffer_named rfl rfl rfl h.1 h.2)

namespace Seeding

variable (s : Seeding)

theorem users_differ (dists : Distributions) :
    (((s.userBatches.all (s.userSource dists).offer s.budget).1.flatten).map User.toRow).Pairwise
      Keyspace.user.spec.KeysDiffer :=
  User.pairwise_keysDiffer
    (Batches.nodup_ids rfl s.config.users.toNat_lt User.id
      fun _ _ _ _ _ hoffer => (UserSource.of_accepted hoffer).1)
    (Batches.nodup_names User.uid (numbered_injective "u") (fun _ _ _ _ => UserSource.offer_ne_rejected)
      fun _ _ _ _ _ hoffer => (UserSource.of_accepted hoffer).2)

theorem articles_differ (dists : Distributions) (index : ReferentialIndex) :
    ((((s.articleBatches index).all (s.articleSource dists).offer s.budget).1.flatten).map
      Article.toRow).Pairwise Keyspace.article.spec.KeysDiffer :=
  Article.pairwise_keysDiffer
    (Batches.nodup_ids rfl s.config.articles.toNat_lt Article.id
      fun _ _ _ _ _ hoffer => (ArticleSource.of_accepted hoffer).1)
    (Batches.nodup_names Article.aid (numbered_injective "a")
      (fun _ _ _ _ => ArticleSource.offer_ne_rejected)
      fun _ _ _ _ _ hoffer => (ArticleSource.of_accepted hoffer).2)

/-- What making users and articles comes to. -/
def populated : Except Halt (SeedReport × ReferentialIndex) := do
  let dists ← Distributions.standard
  let (userBatches, users) ← s.userBatches.made (s.userSource dists).offer s.budget
  let (articleBatches, articles) ←
    (s.articleBatches users.state.index).made (s.articleSource dists).offer s.budget
  return ({ users := users.accepted, userBatches, articles := articles.accepted, articleBatches },
    articles.state.index)

/-- What making reads comes to. -/
def readsMade (index : ReferentialIndex) : Except Halt (Nat × Batches Reading) := do
  let source ← s.readSource index
  s.readBatches.made source.offer s.budget

end Seeding

/-- A report with what it says of reads taken from here. -/
def SeedReport.withReads (report : SeedReport) (made : Nat × Batches Reading) : SeedReport :=
  { report with
    reads := made.2.accepted
    readBatches := made.1
    readCandidates := made.2.candidates
    referentialFallbacks := made.2.state.fallbacks }

namespace Seeding

variable {s : Seeding}

theorem dryRun_eq (full : s.config.readsOnly = false) : s.dryRun = (do
    let (report, index) ← s.populated
    return report.withReads (← s.readsMade index)) := by
  unfold dryRun populated readsMade
  rw [full, if_neg Bool.false_ne_true]
  have hidle : ∀ (index : ReferentialIndex) (source : Source Growing Article),
      ((s.articleBatches index).run source s.budget (fun _ => pure ()) : Except Halt (Nat × Batches Growing)) =
        (s.articleBatches index).made source s.budget := fun index source => Batches.run_idle rfl
  simp only [Batches.run_idle (b := s.userBatches) rfl, Batches.run_idle (b := s.readBatches) rfl, hidle,
    bind_assoc, pure_bind]
  rfl

end Seeding
end ReadingBench
