import ReadingBench.Proofs.Seeding.Firsts
import ReadingBench.Proofs.Seeding.Plan

namespace ReadingBench

open Sql Store Outcome

/-- What rows that are written to the columns of a keyspace hold in one of them. -/
def Keyspace.column (ks : Keyspace) (name : String) (rows : List Tuple) : List (Option Value) :=
  rows.map fun values => Row.get? ⟨ks.columns, values⟩ name

/-- The ids from 1 on, as they are stored. -/
def idColumn (count : Nat) : List (Option Value) :=
  (List.range' 1 count).map fun id => some (.ofUInt64 (UInt64.ofNat id))

/-- The names that go with the indexes from 0 on. -/
def nameColumn (nameOf : Nat → String) (count : Nat) : List (Option Value) :=
  (List.range count).map fun index => some (.text (nameOf index))

theorem User.column_id (users : List User) : Keyspace.user.column "id" (users.map toRow) =
    users.map fun user => some (.ofUInt64 user.id) := List.map_map ..

theorem User.column_uid (users : List User) : Keyspace.user.column "uid" (users.map toRow) =
    users.map fun user => some (.text user.uid) := List.map_map ..

theorem Article.column_id (articles : List Article) : Keyspace.article.column "id" (articles.map toRow) =
    articles.map fun article => some (.ofUInt64 article.id) := List.map_map ..

theorem Article.column_aid (articles : List Article) : Keyspace.article.column "aid" (articles.map toRow) =
    articles.map fun article => some (.text article.aid) := List.map_map ..

theorem Read.column_id (reads : List Read) : Keyspace.read.column "id" (reads.map storedRow) =
    reads.map fun read => some (.ofUInt64 read.id) := List.map_map ..

theorem Read.column_uid (reads : List Read) : Keyspace.read.column "uid" (reads.map storedRow) =
    reads.map fun read => some (.text read.uid) := List.map_map ..

theorem Read.column_aid (reads : List Read) : Keyspace.read.column "aid" (reads.map storedRow) =
    reads.map fun read => some (.text read.aid) := List.map_map ..

/-- What the rows of a plan hold in the columns with ids and names. -/
structure Plan.Named (p : Plan) : Prop where
  userIds : Keyspace.user.column "id" (p.users.flatten.map User.toRow) = idColumn p.users.flatten.length
  uids : Keyspace.user.column "uid" (p.users.flatten.map User.toRow) =
    nameColumn uidOf p.users.flatten.length
  articleIds : Keyspace.article.column "id" (p.articles.flatten.map Article.toRow) =
    idColumn p.articles.flatten.length
  aids : Keyspace.article.column "aid" (p.articles.flatten.map Article.toRow) =
    nameColumn aidOf p.articles.flatten.length
  readIds : Keyspace.read.column "id" (p.reads.flatten.map Read.storedRow) = idColumn p.reads.flatten.length
  /-- A read names the user and the article that it is made of. -/
  readUids : Keyspace.read.column "uid" (p.reads.flatten.map Read.storedRow) =
    p.reads.flatten.map fun read => some (.text read.uid)
  readAids : Keyspace.read.column "aid" (p.reads.flatten.map Read.storedRow) =
    p.reads.flatten.map fun read => some (.text read.aid)

namespace Batches

variable {σ ρ α : Type} {source : Source σ ρ} {budget : Nat} {b : Batches σ}

/-- Of what has been made so far, the ids run along. -/
theorem map_id_of_all (fresh : b.accepted = 0) {f : ρ → α} {g : Nat → α}
    (hid : ∀ index id state record next, source index id state = .accepted record next → f record = g id) :
    (b.all source budget).1.flatten.map f =
      (List.range' 1 (b.all source budget).1.flatten.length).map g := by
  obtain ⟨last, hpulls, -⟩ := exists_pulls_all source budget b
  have hids := hpulls.drawn.offered.map_id hid
  rwa [fresh] at hids

theorem map_index_of_all (first : b.candidates = 0) {f : ρ → α} {g : Nat → α}
    (steady : ∀ index id state next, source index id state ≠ .rejected next)
    (hindex : ∀ index id state record next,
      source index id state = .accepted record next → f record = g index) :
    (b.all source budget).1.flatten.map f =
      (List.range (b.all source budget).1.flatten.length).map g := by
  obtain ⟨last, hpulls, -⟩ := exists_pulls_all source budget b
  have hindexes := hpulls.drawn.offered.map_index steady hindex
  rwa [first, ← List.range_eq_range'] at hindexes

end Batches

namespace Seeding

/-- Each list of batches of a plan is empty or what can be made of a source. -/
theorem plan_cases (s : Seeding) :
    (s.plan.users = [] ∨ ∃ dists, s.plan.users = (s.userBatches.all (s.userSource dists).offer s.budget).1) ∧
    (s.plan.articles = [] ∨ ∃ dists index,
      s.plan.articles = ((s.articleBatches index).all (s.articleSource dists).offer s.budget).1) ∧
    (s.plan.reads = [] ∨ ∃ source : ReadSource,
      s.plan.reads = (s.readBatches.all source.offer s.budget).1) := by
  unfold plan
  rcases Distributions.standard with halt | dists
  · exact ⟨.inl rfl, .inl rfl, .inl rfl⟩
  dsimp only
  rcases husers : s.userBatches.all (s.userSource dists).offer s.budget with ⟨users, halt | grown⟩
  · exact ⟨.inr ⟨dists, (congrArg Prod.fst husers).symm⟩, .inl rfl, .inl rfl⟩
  dsimp only
  rcases harticles : (s.articleBatches grown.state.index).all (s.articleSource dists).offer s.budget with
    ⟨articles, halt | grown'⟩
  · exact ⟨.inr ⟨dists, (congrArg Prod.fst husers).symm⟩,
      .inr ⟨dists, _, (congrArg Prod.fst harticles).symm⟩, .inl rfl⟩
  dsimp only
  rcases s.readSource grown'.state.index with halt | source
  · exact ⟨.inr ⟨dists, (congrArg Prod.fst husers).symm⟩,
      .inr ⟨dists, _, (congrArg Prod.fst harticles).symm⟩, .inl rfl⟩
  · exact ⟨.inr ⟨dists, (congrArg Prod.fst husers).symm⟩,
      .inr ⟨dists, _, (congrArg Prod.fst harticles).symm⟩, .inr ⟨source, rfl⟩⟩

theorem named_users (s : Seeding) :
    Keyspace.user.column "id" (s.plan.users.flatten.map User.toRow) = idColumn s.plan.users.flatten.length ∧
    Keyspace.user.column "uid" (s.plan.users.flatten.map User.toRow) =
      nameColumn uidOf s.plan.users.flatten.length := by
  rw [User.column_id, User.column_uid]
  obtain hnone | ⟨dists, hmade⟩ := s.plan_cases.1
  · rw [hnone]
    exact ⟨rfl, rfl⟩
  rw [hmade]
  constructor
  · exact Batches.map_id_of_all rfl fun _ _ _ _ _ hoffer =>
      congrArg (some <| Value.ofUInt64 ·) (UserSource.of_accepted hoffer).1
  · exact Batches.map_index_of_all rfl (fun _ _ _ _ => UserSource.offer_ne_rejected)
      fun _ _ _ _ _ hoffer => congrArg (some <| Value.text ·) (UserSource.of_accepted hoffer).2

theorem named_articles (s : Seeding) :
    Keyspace.article.column "id" (s.plan.articles.flatten.map Article.toRow) =
      idColumn s.plan.articles.flatten.length ∧
    Keyspace.article.column "aid" (s.plan.articles.flatten.map Article.toRow) =
      nameColumn aidOf s.plan.articles.flatten.length := by
  rw [Article.column_id, Article.column_aid]
  obtain hnone | ⟨dists, index, hmade⟩ := s.plan_cases.2.1
  · rw [hnone]
    exact ⟨rfl, rfl⟩
  rw [hmade]
  constructor
  · exact Batches.map_id_of_all rfl fun _ _ _ _ _ hoffer =>
      congrArg (some <| Value.ofUInt64 ·) (ArticleSource.of_accepted hoffer).1
  · exact Batches.map_index_of_all rfl (fun _ _ _ _ => ArticleSource.offer_ne_rejected)
      fun _ _ _ _ _ hoffer => congrArg (some <| Value.text ·) (ArticleSource.of_accepted hoffer).2

theorem named_reads (s : Seeding) : Keyspace.read.column "id" (s.plan.reads.flatten.map Read.storedRow) =
    idColumn s.plan.reads.flatten.length := by
  rw [Read.column_id]
  obtain hnone | ⟨source, hmade⟩ := s.plan_cases.2.2
  · rw [hnone]
    rfl
  · rw [hmade]
    exact Batches.map_id_of_all rfl fun _ _ _ _ _ hoffer =>
      congrArg (some <| Value.ofUInt64 ·) (ReadSource.id_of_accepted hoffer)

/-- Also of a plan that breaks off. -/
theorem named_plan (s : Seeding) : s.plan.Named where
  userIds := s.named_users.1
  uids := s.named_users.2
  articleIds := s.named_articles.1
  aids := s.named_articles.2
  readIds := s.named_reads
  readUids := Read.column_uid _
  readAids := Read.column_aid _

end Seeding

/-- What a table holds in one of its columns. -/
def Store.Server.column (server : Server) (ks : Keyspace) (name : String) :
    Except Sql.Error (List (Option Value)) :=
  (server.rows ks.table).map fun rows => rows.map (·.get? name)

theorem column_of_rows {server : Server} {ks : Keyspace} {α : Type} {records : List α} {toRow : α → Tuple}
    (h : server.rows ks.table = .ok (records.map fun record => ⟨ks.columns, toRow record⟩)) (name : String) :
    server.column ks name = .ok (ks.column name (records.map toRow)) := by
  rw [Server.column, h, Keyspace.column, List.map_map]
  exact congrArg Except.ok (List.map_map ..)

/-- What the tables hold in the columns with ids and names, once all records are stored. A read of a pair
that is there already has no row, so the ids of the reads that are there may have gaps. -/
structure Generated.Named (g : Generated) (config : SeedConfig) (server : Server) : Prop where
  userIds : server.column .user "id" = .ok (idColumn config.users.toNat)
  uids : server.column .user "uid" = .ok (nameColumn uidOf config.users.toNat)
  articleIds : server.column .article "id" = .ok (idColumn config.articles.toNat)
  aids : server.column .article "aid" = .ok (nameColumn aidOf config.articles.toNat)
  readIds : server.column .read "id" = .ok ((Read.firsts g.reads).map fun read => some (.ofUInt64 read.id))
  readUids : server.column .read "uid" = .ok ((Read.firsts g.reads).map fun read => some (.text read.uid))
  readAids : server.column .read "aid" = .ok ((Read.firsts g.reads).map fun read => some (.text read.aid))

namespace Generated

variable {g : Generated} {config : SeedConfig} {server : Server}

theorem map_eq_idColumn {ρ : Type} {records : List ρ} {idOf : ρ → UInt64} {count : Nat}
    (h : records.map (fun record => (idOf record).toNat) = List.range' 1 count) :
    (records.map fun record => some (Value.ofUInt64 (idOf record))) = idColumn count := by
  rw [idColumn, ← h, List.map_map]
  exact List.map_congr_left fun record _ => by rw [Function.comp_apply, UInt64.ofNat_toNat]

theorem map_eq_nameColumn {ρ : Type} {records : List ρ} {name : ρ → String} {nameOf : Nat → String}
    {count : Nat} (h : records.map name = (List.range count).map nameOf) :
    (records.map fun record => some (Value.text (name record))) = nameColumn nameOf count := by
  have htexts := congrArg (List.map fun s => some (Value.text s)) h
  rwa [List.map_map, List.map_map] at htexts

theorem Numbered.named (h : g.Numbered config)
    (users : server.rows Keyspace.user.table =
      .ok (g.users.map fun user => ⟨Keyspace.user.columns, user.toRow⟩))
    (articles : server.rows Keyspace.article.table =
      .ok (g.articles.map fun article => ⟨Keyspace.article.columns, article.toRow⟩))
    (reads : server.rows Keyspace.read.table =
      .ok ((Read.firsts g.reads).map fun read => ⟨Keyspace.read.columns, read.storedRow⟩)) :
    g.Named config server where
  userIds := by rw [column_of_rows users, User.column_id, map_eq_idColumn h.userIds]
  uids := by rw [column_of_rows users, User.column_uid, map_eq_nameColumn h.uids]
  articleIds := by rw [column_of_rows articles, Article.column_id, map_eq_idColumn h.articleIds]
  aids := by rw [column_of_rows articles, Article.column_aid, map_eq_nameColumn h.aids]
  readIds := by rw [column_of_rows reads, Read.column_id]
  readUids := by rw [column_of_rows reads, Read.column_uid]
  readAids := by rw [column_of_rows reads, Read.column_aid]

end Generated
end ReadingBench
