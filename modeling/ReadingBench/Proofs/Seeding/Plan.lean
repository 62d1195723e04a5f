import ReadingBench.Proofs.Seeding.Collect
import ReadingBench.Proofs.Seeding.Population

namespace ReadingBench

namespace Batches

variable {σ ρ : Type} {source : Source σ ρ} {budget : Nat}

/-- One batch less, and the records of a full one. -/
theorem ceilDiv_step (left size : Nat) (hsize : 0 < size) (hleft : 0 < left) :
    left ⌈/⌉ size = (left - min size left) ⌈/⌉ size + 1 := by
  rw [Nat.ceilDiv_eq_add_pred_div, Nat.ceilDiv_eq_add_pred_div, ← Nat.add_div_right _ hsize]
  rcases le_total size left with hle | hle
  · rw [min_eq_left hle]
    congr 1
    omega
  · rw [min_eq_right hle, Nat.sub_self, Nat.zero_add,
      Nat.div_eq_of_lt_le (k := 1) (by omega) (by omega), Nat.div_eq_of_lt_le (k := 1) (by omega) (by omega)]

/-- Batches are full but for the last, so their number is that of the records over their size. -/
theorem Pulls.length_eq {b last : Batches σ} {batches : List (List ρ)}
    (h : Pulls source budget b batches last) (done : last.remaining = 0) :
    batches.length = b.remaining ⌈/⌉ max b.size 1 := by
  induction h with
  | nil b => rw [done, zero_ceilDiv, List.length_nil]
  | @cons b mid last records batches pull _ ih =>
    obtain ⟨hdrawn, hlength⟩ := drawn_of_pull pull
    obtain ⟨-, hne, hcount⟩ := offered_of_pull pull
    have hpos := List.length_pos_of_ne_nil hne
    have hnext : records.length = min (max b.size 1) b.remaining := hlength
    rw [List.length_cons, ih done, hdrawn.offered.size_eq,
      ceilDiv_step b.remaining _ (by omega) (by omega), ← hnext]
    congr 2
    omega

theorem length_all {b last : Batches σ} (h : (b.all source budget).2 = .ok last) :
    (b.all source budget).1.length = b.remaining ⌈/⌉ max b.size 1 :=
  (pulls_of_all h).1.length_eq (pulls_of_all h).2

end Batches

/-- The batches of each table, in their order, as far as they can be made. -/
structure Plan where
  users : List (List User) := []
  articles : List (List Article) := []
  reads : List (List Read) := []

namespace Seeding

/-- Batches are made of what the batches before have left, so the first that cannot be made is the last. -/
def plan (s : Seeding) : Plan :=
  match Distributions.standard with
  | .error _ => {}
  | .ok dists =>
    match s.userBatches.all (s.userSource dists).offer s.budget with
    | (users, .error _) => { users }
    | (users, .ok grown) =>
      match (s.articleBatches grown.state.index).all (s.articleSource dists).offer s.budget with
      | (articles, .error _) => { users, articles }
      | (articles, .ok grown) =>
        match s.readSource grown.state.index with
        | .error _ => { users, articles }
        | .ok source => { users, articles, reads := (s.readBatches.all source.offer s.budget).1 }

section Plan

variable {s : Seeding} {dists : Distributions} {grown grown' : Batches Growing}

theorem plan_users (hdists : Distributions.standard = .ok dists) :
    s.plan.users = (s.userBatches.all (s.userSource dists).offer s.budget).1 := by
  unfold plan
  rw [hdists]
  dsimp only
  rcases s.userBatches.all (s.userSource dists).offer s.budget with ⟨users, e | grown⟩
  · rfl
  dsimp only
  rcases (s.articleBatches grown.state.index).all (s.articleSource dists).offer s.budget with
    ⟨articles, e | grown⟩
  · rfl
  dsimp only
  cases s.readSource grown.state.index <;> rfl

/-- Where all users can be made. -/
theorem plan_of_users (hdists : Distributions.standard = .ok dists)
    (husers : (s.userBatches.all (s.userSource dists).offer s.budget).2 = .ok grown) : s.plan =
      { users := (s.userBatches.all (s.userSource dists).offer s.budget).1
        articles := ((s.articleBatches grown.state.index).all (s.articleSource dists).offer s.budget).1
        reads :=
          match ((s.articleBatches grown.state.index).all (s.articleSource dists).offer s.budget).2 with
          | .error _ => []
          | .ok grown =>
            match s.readSource grown.state.index with
            | .error _ => []
            | .ok source => (s.readBatches.all source.offer s.budget).1 } := by
  unfold plan
  rw [hdists]
  dsimp only
  rcases hmade : s.userBatches.all (s.userSource dists).offer s.budget with ⟨users, made⟩
  rw [hmade] at husers
  obtain rfl : made = .ok grown := husers
  dsimp only
  rcases (s.articleBatches grown.state.index).all (s.articleSource dists).offer s.budget with
    ⟨articles, e | grown'⟩
  · rfl
  dsimp only
  cases s.readSource grown'.state.index <;> rfl

theorem plan_articles (hdists : Distributions.standard = .ok dists)
    (husers : (s.userBatches.all (s.userSource dists).offer s.budget).2 = .ok grown) : s.plan.articles =
      ((s.articleBatches grown.state.index).all (s.articleSource dists).offer s.budget).1 := by
  rw [plan_of_users hdists husers]

theorem plan_reads (hdists : Distributions.standard = .ok dists)
    (husers : (s.userBatches.all (s.userSource dists).offer s.budget).2 = .ok grown)
    (harticles : ((s.articleBatches grown.state.index).all (s.articleSource dists).offer s.budget).2 =
      .ok grown')
    {source : ReadSource} (hsource : s.readSource grown'.state.index = .ok source) :
    s.plan.reads = (s.readBatches.all source.offer s.budget).1 := by
  rw [plan_of_users hdists husers]
  dsimp only
  rw [harticles]
  dsimp only
  rw [hsource]

/-- There are as many batches of users as the configuration asks for, or they cannot all be made. -/
theorem length_users (hdists : Distributions.standard = .ok dists)
    (husers : (s.userBatches.all (s.userSource dists).offer s.budget).2 = .ok grown) :
    s.plan.users.length = s.config.users.toNat ⌈/⌉ max s.config.userBatchSize.toNat 1 := by
  rw [plan_users hdists, Batches.length_all husers]
  rfl

theorem length_articles (hdists : Distributions.standard = .ok dists)
    (husers : (s.userBatches.all (s.userSource dists).offer s.budget).2 = .ok grown)
    (harticles : ((s.articleBatches grown.state.index).all (s.articleSource dists).offer s.budget).2 =
      .ok grown') :
    s.plan.articles.length = s.config.articles.toNat ⌈/⌉ max s.config.articleBatchSize.toNat 1 := by
  rw [plan_articles hdists husers, Batches.length_all harticles]
  rfl

end Plan

end Seeding
end ReadingBench
