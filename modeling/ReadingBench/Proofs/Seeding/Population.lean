import ReadingBench.Proofs.Outcome
import ReadingBench.Proofs.Population.Offer
import ReadingBench.Proofs.Seeding.Collect
import ReadingBench.Seeding.Seed

namespace ReadingBench

open Outcome

namespace Batches

variable {σ ρ α : Type} {source : Source σ ρ} {budget : Nat}

/-- What depends on the id alone runs along with the ids. -/
theorem Offered.map_id {b last : Batches σ} {records : List ρ} (h : Offered source b records last)
    {f : ρ → α} {g : Nat → α}
    (hid : ∀ index id state record next, source index id state = .accepted record next → f record = g id) :
    records.map f = (List.range' (b.accepted + 1) records.length).map g := by
  induction h with
  | nil b => rfl
  | rejected _ _ ih => exact ih
  | accepted offer _ ih =>
    rw [List.map_cons, hid _ _ _ _ _ offer, ih, List.length_cons, List.range'_succ, List.map_cons]

/-- Without rejections, what depends on the index alone runs along with the candidates. -/
theorem Offered.map_index {b last : Batches σ} {records : List ρ} (h : Offered source b records last)
    {f : ρ → α} {g : Nat → α} (steady : ∀ index id state next, source index id state ≠ .rejected next)
    (hindex : ∀ index id state record next,
      source index id state = .accepted record next → f record = g index) :
    records.map f = (List.range' b.candidates records.length).map g := by
  induction h with
  | nil b => rfl
  | rejected offer _ _ => exact absurd offer (steady _ _ _ _)
  | accepted offer _ ih =>
    rw [List.map_cons, hindex _ _ _ _ _ offer, ih, List.length_cons, List.range'_succ, List.map_cons]

/-- As many records as asked for. -/
theorem length_flatten_all {b last : Batches σ} (h : (b.all source budget).2 = .ok last) :
    (b.all source budget).1.flatten.length = b.remaining := by
  obtain ⟨hpulls, hdone⟩ := pulls_of_all h
  rw [hpulls.remaining_eq, hdone, Nat.add_zero]

/-- All records and the state after them, unless making them stops. -/
def records (source : Source σ ρ) (budget : Nat) (b : Batches σ) : Except Halt (List ρ × Batches σ) := do
  return ((b.all source budget).1.flatten, ← (b.all source budget).2)

variable {b last : Batches σ} {records : List ρ}

theorem records_eq_ok (h : b.records source budget = .ok (records, last)) :
    (b.all source budget).2 = .ok last ∧ (b.all source budget).1.flatten = records := by
  obtain ⟨last', hlast, h⟩ := bind_eq_ok.1 h
  obtain ⟨hrecords, rfl⟩ := Prod.mk.inj (pure_eq_ok.1 h)
  exact ⟨hlast, hrecords⟩

theorem offered_of_records (h : b.records source budget = .ok (records, last)) :
    Offered source b records last ∧ records.length = b.remaining := by
  obtain ⟨hlast, rfl⟩ := records_eq_ok h
  exact ⟨(drawn_of_collect hlast).offered, length_flatten_all hlast⟩

theorem endsAccepted_of_records (h : b.records source budget = .ok (records, last)) :
    records = [] ∧ last = b ∨ EndsAccepted source records last := by
  obtain ⟨hlast, rfl⟩ := records_eq_ok h
  have hdrawn : Drawn source b (b.all source budget).1.flatten last := drawn_of_collect hlast
  rcases eq_or_ne (b.all source budget).1.flatten [] with hnone | hsome
  · rw [hnone] at hdrawn
    cases hdrawn
    exact .inl ⟨hnone, rfl⟩
  · exact .inr (hdrawn.endsAccepted hsome)

theorem map_id_of_records (h : b.records source budget = .ok (records, last)) (idOf : ρ → UInt64)
    (fresh : b.accepted = 0) (small : b.target < 2 ^ 64)
    (hid : ∀ index id state record next,
      source index id state = .accepted record next → idOf record = UInt64.ofNat id) :
    records.map (fun record => (idOf record).toNat) = List.range' 1 b.target := by
  obtain ⟨hoffered, hlength⟩ := offered_of_records h
  have hids := hoffered.map_id hid
  rw [remaining, fresh, Nat.sub_zero] at hlength
  rw [fresh, hlength] at hids
  have hnumbers : records.map (fun record => (idOf record).toNat) =
      ((List.range' (0 + 1) b.target).map UInt64.ofNat).map UInt64.toNat := by
    rw [← hids, List.map_map]
    rfl
  rw [hnumbers, List.map_map]
  refine (List.map_congr_left fun n hn => ?_).trans (List.map_id _)
  rw [List.mem_range'_1] at hn
  have hlt : n < UInt64.size := by
    rw [UInt64.size]
    omega
  exact UInt64.toNat_ofNat_of_lt' hlt

theorem map_name_of_records (h : b.records source budget = .ok (records, last)) (name : ρ → String)
    {nameOf : Nat → String} (fresh : b.accepted = 0) (first : b.candidates = 0)
    (steady : ∀ index id state next, source index id state ≠ .rejected next)
    (hname : ∀ index id state record next,
      source index id state = .accepted record next → name record = nameOf index) :
    records.map name = (List.range b.target).map nameOf := by
  obtain ⟨hoffered, hlength⟩ := offered_of_records h
  have hnames := hoffered.map_index steady hname
  rwa [hlength, remaining, fresh, first, Nat.sub_zero, ← List.range_eq_range'] at hnames

end Batches

open ReadingBench.Random

/-- The records that a configuration describes. -/
structure Generated where
  users : List User
  articles : List Article
  reads : List Read

/-- Ids run from 1, names from 0. -/
structure Generated.Numbered (g : Generated) (config : SeedConfig) : Prop where
  userIds : g.users.map (·.id.toNat) = List.range' 1 config.users.toNat
  uids : g.users.map (·.uid) = (List.range config.users.toNat).map uidOf
  articleIds : g.articles.map (·.id.toNat) = List.range' 1 config.articles.toNat
  aids : g.articles.map (·.aid) = (List.range config.articles.toNat).map aidOf
  readIds : g.reads.map (·.id.toNat) = List.range' 1 config.reads.toNat

namespace Seeding

/-- All records, in the order of the phases. -/
def generated (s : Seeding) : Except Halt Generated := do
  let dists ← Distributions.standard
  let (users, growing) ← s.userBatches.records (s.userSource dists).offer s.budget
  let (articles, growing) ←
    (s.articleBatches growing.state.index).records (s.articleSource dists).offer s.budget
  let source ← s.readSource growing.state.index
  let (reads, _) ← s.readBatches.records source.offer s.budget
  return { users, articles, reads }

variable {s : Seeding} {g : Generated}

theorem generated_eq_ok : s.generated = .ok g ↔ ∃ dists grown grown' source last,
    Distributions.standard = .ok dists ∧
      s.userBatches.records (s.userSource dists).offer s.budget = .ok (g.users, grown) ∧
      (s.articleBatches grown.state.index).records (s.articleSource dists).offer s.budget =
        .ok (g.articles, grown') ∧
      s.readSource grown'.state.index = .ok source ∧
      s.readBatches.records source.offer s.budget = .ok (g.reads, last) := by
  constructor
  · intro h
    obtain ⟨dists, hstandard, h⟩ := bind_eq_ok.1 h
    obtain ⟨⟨users, grown⟩, husers, h⟩ := bind_eq_ok.1 h
    obtain ⟨⟨articles, grown'⟩, harticles, h⟩ := bind_eq_ok.1 h
    obtain ⟨source, hsource, h⟩ := bind_eq_ok.1 h
    obtain ⟨⟨reads, last⟩, hreads, h⟩ := bind_eq_ok.1 h
    obtain rfl := pure_eq_ok.1 h
    exact ⟨dists, grown, grown', source, last, hstandard, husers, harticles, hsource, hreads⟩
  · rintro ⟨dists, grown, grown', source, last, hstandard, husers, harticles, hsource, hreads⟩
    simp only [generated, hstandard, husers, harticles, hsource, hreads, ok_bind]
    rfl

theorem numbered_of_generated (h : s.generated = .ok g) : g.Numbered s.config := by
  obtain ⟨dists, grown, grown', source, last, -, husers, harticles, -, hreads⟩ := generated_eq_ok.1 h
  exact {
    userIds := Batches.map_id_of_records husers User.id rfl s.config.users.toNat_lt
      fun _ _ _ _ _ hoffer => (UserSource.of_accepted hoffer).1
    uids := Batches.map_name_of_records husers User.uid rfl rfl
      (fun _ _ _ _ => UserSource.offer_ne_rejected)
      fun _ _ _ _ _ hoffer => (UserSource.of_accepted hoffer).2
    articleIds := Batches.map_id_of_records harticles Article.id rfl s.config.articles.toNat_lt
      fun _ _ _ _ _ hoffer => (ArticleSource.of_accepted hoffer).1
    aids := Batches.map_name_of_records harticles Article.aid rfl rfl
      (fun _ _ _ _ => ArticleSource.offer_ne_rejected)
      fun _ _ _ _ _ hoffer => (ArticleSource.of_accepted hoffer).2
    readIds := Batches.map_id_of_records hreads Read.id rfl s.config.reads.toNat_lt
      fun _ _ _ _ _ => ReadSource.id_of_accepted }

end Seeding

end ReadingBench
