import ReadingBench.Proofs.Outcome
import ReadingBench.Seeding.Batch

namespace ReadingBench.Batches

open Outcome

variable {σ ρ : Type}

/-- Candidates are tried from the first state to the second, and these are accepted. -/
inductive Offered (source : Source σ ρ) : Batches σ → List ρ → Batches σ → Prop where
  | nil (b : Batches σ) : Offered source b [] b
  | rejected {b last : Batches σ} {state : σ} {records : List ρ}
      (offer : source b.candidates (b.accepted + 1) b.state = .rejected state)
      (rest : Offered source { b with state, candidates := b.candidates + 1 } records last) :
      Offered source b records last
  | accepted {b last : Batches σ} {state : σ} {record : ρ} {records : List ρ}
      (offer : source b.candidates (b.accepted + 1) b.state = .accepted record state)
      (rest : Offered source
        { b with state, candidates := b.candidates + 1, accepted := b.accepted + 1 } records last) :
      Offered source b (record :: records) last

/-- Candidates are tried from the first state on, up to the one that the last of these records is accepted
for. -/
inductive Drawn (source : Source σ ρ) : Batches σ → List ρ → Batches σ → Prop where
  | nil (b : Batches σ) : Drawn source b [] b
  | rejected {b last : Batches σ} {state : σ} {record : ρ} {records : List ρ}
      (offer : source b.candidates (b.accepted + 1) b.state = .rejected state)
      (rest : Drawn source { b with state, candidates := b.candidates + 1 } (record :: records) last) :
      Drawn source b (record :: records) last
  | accepted {b last : Batches σ} {state : σ} {record : ρ} {records : List ρ}
      (offer : source b.candidates (b.accepted + 1) b.state = .accepted record state)
      (rest : Drawn source
        { b with state, candidates := b.candidates + 1, accepted := b.accepted + 1 } records last) :
      Drawn source b (record :: records) last

variable {source : Source σ ρ} {budget : Nat}

namespace Offered

theorem append {b mid last : Batches σ} {first second : List ρ} (h : Offered source b first mid)
    (h' : Offered source mid second last) : Offered source b (first ++ second) last := by
  induction h with
  | nil b => exact h'
  | rejected offer _ ih => exact .rejected offer (ih h')
  | accepted offer _ ih => exact .accepted offer (ih h')

theorem target_eq {b last : Batches σ} {records : List ρ} (h : Offered source b records last) :
    last.target = b.target := by
  induction h with
  | nil b => rfl
  | rejected _ _ ih => exact ih
  | accepted _ _ ih => exact ih

theorem size_eq {b last : Batches σ} {records : List ρ} (h : Offered source b records last) :
    last.size = b.size := by
  induction h with
  | nil b => rfl
  | rejected _ _ ih => exact ih
  | accepted _ _ ih => exact ih

theorem accepted_eq {b last : Batches σ} {records : List ρ} (h : Offered source b records last) :
    last.accepted = b.accepted + records.length := by
  induction h with
  | nil b => rfl
  | rejected _ _ ih => exact ih
  | accepted _ _ ih =>
    have hnext := ih
    dsimp only at hnext
    rw [hnext, List.length_cons]
    omega

theorem length_le_candidates {b last : Batches σ} {records : List ρ} (h : Offered source b records last) :
    b.candidates + records.length ≤ last.candidates := by
  induction h with
  | nil b => exact le_rfl
  | rejected _ _ ih =>
    dsimp only at ih
    omega
  | accepted _ _ ih =>
    dsimp only at ih
    rw [List.length_cons]
    omega

/-- What holds of every record that a candidate tried so far can be accepted as. -/
theorem forall_records {P : ρ → Prop} {b last : Batches σ} {records : List ρ}
    (h : Offered source b records last)
    (holds : ∀ index id state record next, index < last.candidates →
      source index id state = .accepted record next → P record) : ∀ record ∈ records, P record := by
  induction h with
  | nil b => simp
  | rejected _ _ ih => exact ih holds
  | accepted offer rest ih =>
    intro record hrecord
    rcases List.mem_cons.1 hrecord with rfl | hrecord
    · have hlater := rest.length_le_candidates
      dsimp only at hlater
      exact holds _ _ _ _ _ (by omega) offer
    · exact ih holds record hrecord

end Offered

/-- The last of the candidates was accepted as one of the records. -/
def EndsAccepted (source : Source σ ρ) (records : List ρ) (last : Batches σ) : Prop :=
  ∃ record ∈ records, ∃ index id state next,
    source index id state = .accepted record next ∧ last.candidates = index + 1

namespace Drawn

variable {b last : Batches σ} {records : List ρ}

theorem offered (h : Drawn source b records last) : Offered source b records last := by
  induction h with
  | nil b => exact .nil b
  | rejected offer _ ih => exact .rejected offer ih
  | accepted offer _ ih => exact .accepted offer ih

theorem append {mid : Batches σ} {first second : List ρ} (h : Drawn source b first mid)
    (h' : Drawn source mid second last) : Drawn source b (first ++ second) last := by
  induction h with
  | nil b => exact h'
  | rejected offer _ ih => exact .rejected offer (ih h')
  | accepted offer _ ih => exact .accepted offer (ih h')

/-- Candidates end with the one that the last record was accepted for. -/
theorem endsAccepted (h : Drawn source b records last) (some : records ≠ []) :
    EndsAccepted source records last := by
  induction h with
  | nil b => exact absurd rfl some
  | rejected _ _ ih => exact ih some
  | @accepted b last state record records offer rest ih =>
    cases records with
    | nil =>
      cases rest
      exact ⟨record, List.mem_singleton_self record, _, _, _, _, offer, rfl⟩
    | cons next records =>
      obtain ⟨record', hrecord, hends⟩ := ih (List.cons_ne_nil _ _)
      exact ⟨record', List.mem_cons_of_mem _ hrecord, hends⟩

end Drawn

theorem fill_zero (done : List ρ) (b : Batches σ) :
    fill source budget 0 done b = .batch done.reverse b := by
  cases budget <;> rfl

theorem drawn_of_fill {room : Nat} {done records : List ρ} {b rest : Batches σ}
    (h : fill source budget room done b = .batch records rest) :
    ∃ new, records = done.reverse ++ new ∧ new.length = room ∧ Drawn source b new rest := by
  induction budget generalizing room done b with
  | zero =>
    cases room with
    | zero =>
      obtain ⟨rfl, rfl⟩ := Pull.batch.inj h
      exact ⟨[], by simp, rfl, .nil b⟩
    | succ room => cases h
  | succ budget ih =>
    cases room with
    | zero =>
      obtain ⟨rfl, rfl⟩ := Pull.batch.inj h
      exact ⟨[], by simp, rfl, .nil b⟩
    | succ room =>
      rw [fill] at h
      cases hoffer : source b.candidates (b.accepted + 1) b.state with
      | outOfRange =>
        rw [hoffer] at h
        cases h
      | rejected state =>
        rw [hoffer] at h
        obtain ⟨new, hrecords, hlength, hnew⟩ := ih h
        -- There was room for a record, so the candidate that was rejected is not the last.
        obtain ⟨record, new, rfl⟩ := List.exists_cons_of_length_eq_add_one hlength
        exact ⟨record :: new, hrecords, hlength, .rejected hoffer hnew⟩
      | accepted record state =>
        rw [hoffer] at h
        obtain ⟨new, hrecords, hlength, hnew⟩ := ih h
        exact ⟨record :: new, by simp [hrecords], by simp [hlength], .accepted hoffer hnew⟩

theorem fill_ne_finished (room : Nat) (done : List ρ) (b : Batches σ) :
    fill source budget room done b ≠ .finished := by
  induction budget generalizing room done b with
  | zero => cases room <;> simp [fill]
  | succ budget ih =>
    cases room with
    | zero => simp [fill]
    | succ room =>
      rw [fill]
      split
      · simp
      · exact ih _ _ _
      · exact ih _ _ _

/-- Records still to be accepted. -/
def remaining (b : Batches σ) : Nat := b.target - b.accepted

theorem fill_of_pull {b rest : Batches σ} {records : List ρ}
    (h : b.pull source budget = .batch records rest) :
    fill source budget b.nextSize [] b = .batch records rest ∧ 0 < b.nextSize := by
  unfold pull at h
  split at h
  · cases h
  split at h
  · cases h
  refine ⟨h, ?_⟩
  unfold nextSize
  omega

theorem drawn_of_pull {b rest : Batches σ} {records : List ρ}
    (h : b.pull source budget = .batch records rest) :
    Drawn source b records rest ∧ records.length = b.nextSize := by
  obtain ⟨new, hrecords, hlength, hnew⟩ := drawn_of_fill (fill_of_pull h).1
  obtain rfl : records = new := hrecords
  exact ⟨hnew, hlength⟩

theorem offered_of_pull {b rest : Batches σ} {records : List ρ}
    (h : b.pull source budget = .batch records rest) :
    Offered source b records rest ∧ records ≠ [] ∧ b.remaining = records.length + rest.remaining := by
  obtain ⟨hdrawn, hlength⟩ := drawn_of_pull h
  have htarget := hdrawn.offered.target_eq
  have haccepted := hdrawn.offered.accepted_eq
  have hroom := (fill_of_pull h).2
  have hfew : b.nextSize ≤ b.target - b.accepted := min_le_right _ _
  refine ⟨hdrawn.offered, List.ne_nil_of_length_pos (by omega), ?_⟩
  unfold remaining
  omega

theorem remaining_of_finished {b : Batches σ} (h : b.pull source budget = .finished) :
    b.remaining = 0 := by
  unfold pull at h
  split at h
  · unfold remaining
    omega
  split at h
  · cases h
  · exact absurd h (fill_ne_finished _ _ _)

/-- There is nothing more to pull exactly where no record is still to be accepted. -/
theorem pull_eq_finished_iff {b : Batches σ} : b.pull source budget = .finished ↔ b.remaining = 0 := by
  refine ⟨remaining_of_finished, fun h => ?_⟩
  rw [pull, if_pos (Nat.sub_eq_zero_iff_le.1 h)]

/-- These batches are pulled one after another. -/
inductive Pulls (source : Source σ ρ) (budget : Nat) : Batches σ → List (List ρ) → Batches σ → Prop where
  | nil (b : Batches σ) : Pulls source budget b [] b
  | cons {b mid last : Batches σ} {records : List ρ} {batches : List (List ρ)}
      (pull : b.pull source budget = .batch records mid) (rest : Pulls source budget mid batches last) :
      Pulls source budget b (records :: batches) last

namespace Pulls

variable {b last : Batches σ} {batches : List (List ρ)}

theorem drawn (h : Pulls source budget b batches last) : Drawn source b batches.flatten last := by
  induction h with
  | nil b => exact .nil b
  | cons pull _ ih => exact (drawn_of_pull pull).1.append ih

theorem ne_nil (h : Pulls source budget b batches last) : ∀ batch ∈ batches, batch ≠ [] := by
  induction h with
  | nil b => simp
  | cons pull _ ih => exact List.forall_mem_cons.2 ⟨(offered_of_pull pull).2.1, ih⟩

theorem remaining_eq (h : Pulls source budget b batches last) :
    b.remaining = batches.flatten.length + last.remaining := by
  induction h with
  | nil b => simp
  | cons pull _ ih =>
    rw [(offered_of_pull pull).2.2, ih, List.flatten_cons, List.length_append, Nat.add_assoc]

theorem length_le (h : Pulls source budget b batches last) : batches.length ≤ batches.flatten.length := by
  induction h with
  | nil b => exact le_rfl
  | cons pull _ ih =>
    have hpos := List.length_pos_of_ne_nil (offered_of_pull pull).2.1
    rw [List.flatten_cons, List.length_append, List.length_cons]
    omega

end Pulls

/-- How making batches ends where there is no batch to pull. -/
def ending (b : Batches σ) : Pull σ ρ → Except Halt (Batches σ)
  | .outOfRange => .error .outOfRange
  | .unfinished => .error .unfinished
  | .finished | .batch .. => .ok b

/-- At most `most` batches, and how making them ends. -/
def collect (source : Source σ ρ) (budget : Nat) :
    Nat → Batches σ → List (List ρ) × Except Halt (Batches σ)
  | 0, b => ([], .ok b)
  | most + 1, b =>
    match b.pull source budget with
    | .batch records rest =>
      let (batches, last) := collect source budget most rest
      (records :: batches, last)
    | pulled => ([], b.ending pulled)

/-- There are no more batches than records. -/
theorem collect_eq_remaining {most : Nat} {b : Batches σ} (h : b.remaining ≤ most) :
    collect source budget most b = collect source budget b.remaining b := by
  induction most using Nat.strong_induction_on generalizing b with
  | _ most ih =>
    cases hleft : b.remaining with
    | zero =>
      have hdone : b.target ≤ b.accepted := by
        unfold remaining at hleft
        omega
      cases most with
      | zero => rfl
      | succ most => simp [collect, pull, hdone, ending]
    | succ left =>
      obtain ⟨most, rfl⟩ : ∃ n, most = n + 1 := ⟨most - 1, by omega⟩
      rw [collect, collect]
      cases hpull : b.pull source budget with
      | batch records rest =>
        obtain ⟨-, hne, hcount⟩ := offered_of_pull hpull
        have hpos := List.length_pos_of_ne_nil hne
        have hmost : rest.remaining ≤ most := by omega
        have hfew : rest.remaining ≤ left := by omega
        dsimp only
        rw [ih most (by omega) hmost, ih left (by omega) hfew]
      | finished => rfl
      | outOfRange => rfl
      | unfinished => rfl

/-- All batches. -/
def all (source : Source σ ρ) (budget : Nat) (b : Batches σ) :
    List (List ρ) × Except Halt (Batches σ) := collect source budget b.remaining b

theorem all_of_batch {b rest : Batches σ} {records : List ρ}
    (h : b.pull source budget = .batch records rest) :
    b.all source budget = (records :: (rest.all source budget).1, (rest.all source budget).2) := by
  obtain ⟨-, hne, hcount⟩ := offered_of_pull h
  have hpos := List.length_pos_of_ne_nil hne
  obtain ⟨most, hmost⟩ : ∃ n, b.remaining = n + 1 := ⟨b.remaining - 1, by omega⟩
  have hrest : rest.remaining ≤ most := by omega
  rw [all, hmost, collect, h]
  dsimp only
  rw [collect_eq_remaining hrest, all]

theorem all_of_ending {b : Batches σ} {pulled : Pull σ ρ} (h : b.pull source budget = pulled)
    (hnone : ∀ records rest, pulled ≠ .batch records rest) :
    b.all source budget = ([], b.ending pulled) := by
  rw [all]
  cases hleft : b.remaining with
  | zero =>
    have hdone : b.target ≤ b.accepted := by
      unfold remaining at hleft
      omega
    obtain rfl : pulled = .finished := by rw [← h, pull, if_pos hdone]
    rfl
  | succ left =>
    rw [collect, h]
    cases pulled with
    | batch records rest => exact absurd rfl (hnone records rest)
    | finished => rfl
    | outOfRange => rfl
    | unfinished => rfl

theorem ending_eq_ok {b last : Batches σ} {pulled : Pull σ ρ} (h : b.ending pulled = .ok last) :
    last = b := by
  cases pulled with
  | finished | batch => exact (Except.ok.inj h).symm
  | outOfRange | unfinished => cases h

/-- Batches are pulled until there are as many as allowed, or there is none to pull. -/
theorem exists_pulls (source : Source σ ρ) (budget most : Nat) (b : Batches σ) :
    ∃ last, Pulls source budget b (collect source budget most b).1 last ∧
      ((collect source budget most b).1.length = most ∧ (collect source budget most b).2 = .ok last ∨
        (∀ records rest, last.pull source budget ≠ .batch records rest) ∧
          (collect source budget most b).2 = last.ending (last.pull source budget)) := by
  induction most generalizing b with
  | zero => exact ⟨b, .nil b, .inl ⟨rfl, rfl⟩⟩
  | succ most ih =>
    rw [collect]
    cases hpull : b.pull source budget with
    | batch records rest =>
      obtain ⟨last, hpulls, hends⟩ := ih rest
      exact ⟨last, .cons hpull hpulls, hends.imp_left fun hall => ⟨congrArg (· + 1) hall.1, hall.2⟩⟩
    | finished | outOfRange | unfinished =>
      refine ⟨b, .nil b, .inr ?_⟩
      rw [hpull]
      exact ⟨nofun, rfl⟩

theorem pulls_of_collect {most : Nat} {b last : Batches σ}
    (h : (collect source budget most b).2 = .ok last) :
    Pulls source budget b (collect source budget most b).1 last := by
  obtain ⟨last', hpulls, ⟨-, hlast⟩ | ⟨-, hlast⟩⟩ := exists_pulls source budget most b
  · obtain rfl := Except.ok.inj (h.symm.trans hlast)
    exact hpulls
  · obtain rfl := ending_eq_ok (hlast.symm.trans h)
    exact hpulls

theorem drawn_of_collect {most : Nat} {b last : Batches σ}
    (h : (collect source budget most b).2 = .ok last) :
    Drawn source b (collect source budget most b).1.flatten last := (pulls_of_collect h).drawn

/-- The last batch is pulled, and then there are enough records or making batches fails. -/
theorem exists_pulls_all (source : Source σ ρ) (budget : Nat) (b : Batches σ) :
    ∃ last, Pulls source budget b (b.all source budget).1 last ∧
      ((b.all source budget).2 = .ok last ∧ last.remaining = 0 ∨
        (b.all source budget).2 = .error .outOfRange ∧ last.pull source budget = .outOfRange ∨
        (b.all source budget).2 = .error .unfinished ∧ last.pull source budget = .unfinished) := by
  obtain ⟨last, hpulls, hends⟩ := exists_pulls source budget b.remaining b
  refine ⟨last, hpulls, ?_⟩
  rw [all]
  rcases hends with ⟨hmany, hlast⟩ | ⟨hnone, hlast⟩
  · have hcount := hpulls.remaining_eq
    have hfew := hpulls.length_le
    exact .inl ⟨hlast, by omega⟩
  · rw [hlast]
    cases hpull : last.pull source budget with
    | batch records rest => exact absurd hpull (hnone records rest)
    | finished => exact .inl ⟨rfl, remaining_of_finished hpull⟩
    | outOfRange => exact .inr (.inl ⟨rfl, rfl⟩)
    | unfinished => exact .inr (.inr ⟨rfl, rfl⟩)

/-- No batch is empty. -/
theorem ne_nil_of_mem_all {b : Batches σ} : ∀ batch ∈ (b.all source budget).1, batch ≠ [] := by
  obtain ⟨last, hpulls, -⟩ := exists_pulls source budget b.remaining b
  exact hpulls.ne_nil

theorem pulls_of_all {b last : Batches σ} (h : (b.all source budget).2 = .ok last) :
    Pulls source budget b (b.all source budget).1 last ∧ last.remaining = 0 := by
  obtain ⟨last', hpulls, ⟨hlast, hdone⟩ | ⟨hlast, -⟩ | ⟨hlast, -⟩⟩ := exists_pulls_all source budget b
  · obtain rfl := Except.ok.inj (h.symm.trans hlast)
    exact ⟨hpulls, hdone⟩
  all_goals cases h.symm.trans hlast

section Use

variable {m : Type → Type} [Monad m] [LawfulMonad m] [MonadExceptOf Halt m] (use : List ρ → m Unit)

theorem forEach_eq (most count : Nat) (b : Batches σ) :
    forEach source budget use most count b = (do
      forM (collect source budget most b).1 use
      match (collect source budget most b).2 with
      | .ok last => return (count + (collect source budget most b).1.length, last)
      | .error h => throw h) := by
  induction most generalizing count b with
  | zero => simp [forEach, collect]
  | succ most ih =>
    rw [forEach, collect]
    cases hpull : b.pull source budget with
    | batch records rest =>
      simp only [ih, List.forM_cons, List.length_cons, bind_assoc]
      have hcount : count + 1 + (collect source budget most rest).1.length =
          count + ((collect source budget most rest).1.length + 1) := by omega
      rw [hcount]
    | finished => simp [ending]
    | outOfRange => simp [ending]
    | unfinished => simp [ending]

/-- A run uses all batches and then stops as their making stops. -/
theorem run_eq {b : Batches σ} (fresh : b.accepted = 0) : b.run source budget use = (do
    forM (b.all source budget).1 use
    match (b.all source budget).2 with
    | .ok last => return ((b.all source budget).1.length, last)
    | .error h => throw h) := by
  have hall : b.remaining = b.target := by rw [remaining, fresh, Nat.sub_zero]
  rw [run, forEach_eq, all, hall]
  simp only [Nat.zero_add]

end Use

/-- The number of batches and the state after the last one, unless making them stops. -/
def made (source : Source σ ρ) (budget : Nat) (b : Batches σ) : Except Halt (Nat × Batches σ) := do
  return ((b.all source budget).1.length, ← (b.all source budget).2)

/-- Batches that are made and dropped. -/
theorem run_idle {b : Batches σ} (fresh : b.accepted = 0) :
    (b.run source budget fun _ => pure () : Except Halt (Nat × Batches σ)) = b.made source budget := by
  -- Dropping each of any batches is doing nothing.
  have hforM : ∀ batches : List (List ρ), forM batches (fun _ => (pure () : Except Halt Unit)) = pure () := by
    intro batches
    induction batches with
    | nil => rfl
    | cons batch batches ih => rw [List.forM_cons, pure_bind, ih]
  rw [run_eq _ fresh, hforM, pure_bind, made]
  cases (b.all source budget).2 <;> rfl

theorem made_eq_ok {b last : Batches σ} {count : Nat} (h : b.made source budget = .ok (count, last)) :
    (b.all source budget).2 = .ok last ∧ (b.all source budget).1.length = count := by
  obtain ⟨last', hlast, h⟩ := bind_eq_ok.1 h
  obtain ⟨hcount, rfl⟩ := Prod.mk.inj (pure_eq_ok.1 h)
  exact ⟨hlast, hcount⟩

/-- Making all batches and storing none succeeds where their making does, and ends as it. -/
theorem all_of_run {b last : Batches σ} {count : Nat} (fresh : b.accepted = 0)
    (h : (b.run source budget fun _ => pure () : Except Halt (Nat × Batches σ)) = .ok (count, last)) :
    (b.all source budget).2 = .ok last := by
  rw [run_idle fresh] at h
  exact (made_eq_ok h).1

end ReadingBench.Batches
