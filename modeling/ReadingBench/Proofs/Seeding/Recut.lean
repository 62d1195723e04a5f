import ReadingBench.Proofs.Seeding.Made
import ReadingBench.Proofs.Seeding.Plan

namespace ReadingBench.Batches

variable {σ ρ : Type} {source : Source σ ρ} {budget : Nat}

/-- The same source with batches of another size. -/
def resized (b : Batches σ) (size : Nat) : Batches σ := { b with size }

namespace Drawn

variable {b last : Batches σ} {records : List ρ}

/-- What was drawn in one go could have been drawn in two. -/
theorem split (first : List ρ) {second : List ρ} (h : Drawn source b (first ++ second) last) :
    ∃ mid, Drawn source b first mid ∧ Drawn source mid second last := by
  generalize hall : first ++ second = records at h
  induction h generalizing first with
  | nil b =>
    obtain ⟨rfl, rfl⟩ := List.append_eq_nil_iff.1 hall
    exact ⟨b, .nil b, .nil b⟩
  | @rejected b last state record records offer rest ih =>
    cases first with
    | nil =>
      obtain rfl := hall
      exact ⟨b, .nil b, .rejected offer rest⟩
    | cons record' first =>
      obtain ⟨mid, hfirst, hsecond⟩ := ih (record' :: first) hall
      exact ⟨mid, .rejected offer hfirst, hsecond⟩
  | @accepted b last state record records offer rest ih =>
    cases first with
    | nil =>
      obtain rfl := hall
      exact ⟨b, .nil b, .accepted offer rest⟩
    | cons record' first =>
      obtain ⟨rfl, hrest⟩ := List.cons.inj hall
      obtain ⟨mid, hfirst, hsecond⟩ := ih first hrest
      exact ⟨mid, .accepted offer hfirst, hsecond⟩

theorem resized (h : Drawn source b records last) (size : Nat) :
    Drawn source (b.resized size) records (last.resized size) := by
  induction h with
  | nil b => exact .nil _
  | rejected offer _ ih => exact .rejected offer ih
  | accepted offer _ ih => exact .accepted offer ih

theorem width_eq (h : Drawn source b records last) : last.width = b.width := by
  induction h with
  | nil b => rfl
  | rejected _ _ ih => exact ih
  | accepted _ _ ih => exact ih

/-- With as many candidates to try, the records fill a batch. -/
theorem fill_eq (h : Drawn source b records last) (done : List ρ)
    (enough : last.candidates ≤ b.candidates + budget) :
    fill source budget records.length done b = .batch (done.reverse ++ records) last := by
  induction h generalizing budget done with
  | nil b =>
    rw [List.length_nil, fill_zero, List.append_nil]
  | rejected offer rest ih =>
    have hlater := rest.offered.length_le_candidates
    simp only [List.length_cons] at hlater
    obtain ⟨budget, rfl⟩ : ∃ n, budget = n + 1 := ⟨budget - 1, by omega⟩
    rw [List.length_cons, fill, offer]
    exact ih done (by dsimp only; omega)
  | @accepted b last state record records offer rest ih =>
    have hlater := rest.offered.length_le_candidates
    dsimp only at hlater
    obtain ⟨budget, rfl⟩ : ∃ n, budget = n + 1 := ⟨budget - 1, by omega⟩
    rw [List.length_cons, fill, offer]
    dsimp only
    rw [ih (record :: done) (by dsimp only; omega), List.reverse_cons, List.append_assoc]
    rfl

end Drawn

/-- Room for the largest batch can be had. -/
def Fits (b : Batches σ) : Prop := b.nextSize * b.width ≤ maxRoom

instance (b : Batches σ) : Decidable b.Fits := inferInstanceAs (Decidable (_ ≤ _))

theorem fits_of_pull {b rest : Batches σ} {records : List ρ}
    (h : b.pull source budget = .batch records rest) : b.Fits := by
  unfold pull at h
  split at h
  · cases h
  split at h
  · cases h
  · next hroom => exact not_lt.1 hroom

theorem fits_of_remaining {b : Batches σ} (done : b.remaining = 0) : b.Fits := by
  have hsize : b.nextSize = 0 := Nat.le_zero.1 ((min_le_right _ _).trans_eq done)
  rw [Fits, hsize, Nat.zero_mul]
  exact Nat.zero_le _

theorem fits_of_all {b last : Batches σ} (h : (b.all source budget).2 = .ok last) : b.Fits := by
  obtain ⟨hpulls, hdone⟩ := pulls_of_all h
  generalize (b.all source budget).1 = batches at hpulls
  cases hpulls with
  | nil => exact fits_of_remaining hdone
  | cons pull _ => exact fits_of_pull pull

/-- Later batches are no larger. -/
theorem Fits.of_pull {b rest : Batches σ} {records : List ρ} (fits : b.Fits)
    (h : b.pull source budget = .batch records rest) : rest.Fits := by
  obtain ⟨hdrawn, -⟩ := drawn_of_pull h
  have hsize := hdrawn.offered.size_eq
  have hcount := (offered_of_pull h).2.2
  have hless : rest.nextSize ≤ b.nextSize := by
    unfold remaining at hcount
    unfold nextSize
    omega
  rw [Fits, hdrawn.width_eq]
  exact (Nat.mul_le_mul_right _ hless).trans fits

theorem Pulls.fits {b last : Batches σ} {batches : List (List ρ)} (h : Pulls source budget b batches last)
    (fits : b.Fits) : last.Fits := by
  induction h with
  | nil b => exact fits
  | cons pull _ ih => exact ih (fits.of_pull pull)

/-- Records that can be drawn are the next batch, if they are as many as belong in it. -/
theorem pull_of_drawn {b mid : Batches σ} {records : List ρ} (h : Drawn source b records mid)
    (more : b.accepted < b.target) (whole : records.length = b.nextSize) (fits : b.Fits)
    (enough : mid.candidates ≤ b.candidates + budget) : b.pull source budget = .batch records mid := by
  rw [pull, if_neg (not_le.2 more), if_neg (not_lt.2 fits), ← whole, h.fill_eq [] enough]
  rfl

/-- Records that can be drawn can be made in batches, if there is room for one, and are then cut where the
size says. -/
theorem all_of_drawn {b last : Batches σ} {records : List ρ} (h : Drawn source b records last)
    (whole : records.length = b.remaining) (fits : b.Fits)
    (enough : last.candidates ≤ b.candidates + budget) :
    b.all source budget = (chunks b.size records, .ok last) := by
  induction hleft : b.remaining using Nat.strong_induction_on generalizing b records with
  | _ left ih =>
    by_cases hdone : b.target ≤ b.accepted
    · have hnone : b.remaining = 0 := Nat.sub_eq_zero_of_le hdone
      obtain rfl := List.length_eq_zero_iff.1 (whole.trans hnone)
      cases h
      rw [all, hnone, chunks]
      rfl
    · have hpos : 0 < b.remaining := Nat.sub_pos_of_lt (not_le.1 hdone)
      have htaken : (records.take (max b.size 1)).length = b.nextSize := by
        rw [List.length_take, whole]
        rfl
      rw [← List.take_append_drop (max b.size 1) records] at h
      obtain ⟨mid, hfirst, hrest⟩ := h.split (records.take (max b.size 1))
      have hafter := hrest.offered.length_le_candidates
      have hbefore := hfirst.offered.length_le_candidates
      have hpull : b.pull source budget = .batch (records.take (max b.size 1)) mid :=
        pull_of_drawn hfirst (not_le.1 hdone) htaken fits (by omega)
      have hcount := (offered_of_pull hpull).2.2
      have hnext : 0 < b.nextSize := by
        unfold nextSize
        unfold remaining at hpos
        omega
      have hleave : (records.drop (max b.size 1)).length = mid.remaining := by
        have hsum := congrArg List.length (List.take_append_drop (max b.size 1) records)
        rw [List.length_append] at hsum
        omega
      rw [all_of_batch hpull, ih mid.remaining (by omega) hrest hleave (fits.of_pull hpull) (by omega) rfl,
        hfirst.offered.size_eq]
      have hsome : records.isEmpty = false := by
        rw [List.isEmpty_eq_false_iff]
        exact List.ne_nil_of_length_pos (by omega)
      rw [chunks.eq_def b.size records, hsome, if_neg Bool.false_ne_true]

theorem made_of_drawn {b last : Batches σ} {records : List ρ} (h : Drawn source b records last)
    (whole : records.length = b.remaining) (fits : b.Fits)
    (enough : last.candidates ≤ b.candidates + budget) :
    b.made source budget = .ok ((chunks b.size records).length, last) := by
  rw [made, all_of_drawn h whole fits enough]
  rfl

/-- A batch that there is no room for is not made. -/
theorem made_of_overfull {b : Batches σ} (overfull : ¬b.Fits) :
    b.made source budget = .error .outOfRange := by
  have hsize : b.nextSize ≠ 0 := by
    intro hnone
    rw [Fits, hnone, Nat.zero_mul] at overfull
    exact overfull (Nat.zero_le _)
  have hpull : b.pull source budget = .outOfRange := by
    rw [pull, if_neg (by unfold nextSize at hsize; omega), if_pos (not_le.1 overfull)]
  rw [made, all_of_ending hpull fun _ _ hbatch => by cases hbatch]
  rfl

/-- What can be made in batches of one size can be made in batches of another, with enough candidates to
try and if there is room. -/
theorem all_resized {b last : Batches σ} (h : (b.all source budget).2 = .ok last) {size : Nat}
    (fits : (b.resized size).Fits) {enough : Nat} (hbudget : last.candidates ≤ enough) :
    (b.resized size).all source enough =
      (chunks size (b.all source budget).1.flatten, .ok (last.resized size)) :=
  all_of_drawn ((drawn_of_collect h).resized size) (length_flatten_all h) fits
    (hbudget.trans (Nat.le_add_left _ _))

end ReadingBench.Batches
