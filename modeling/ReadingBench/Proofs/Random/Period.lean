import Mathlib
import ReadingBench.Random.Range

namespace ReadingBench.Random

/-- The words of a block. -/
def blockLength : Nat := 16

theorem Key.length_words (key : Key) (counter : UInt64) : (key.words counter).length = blockLength := rfl

namespace Stream

/-- The stream after so many words. -/
def after (n : Nat) (s : Stream) : Stream := (fun s => (Draw.word s).2)^[n] s

theorem after_add (n m : Nat) (s : Stream) : s.after (n + m) = (s.after m).after n :=
  Function.iterate_add_apply _ n m s

theorem after_succ (n : Nat) (s : Stream) : s.after (n + 1) = (Draw.word s).2.after n :=
  Function.iterate_succ_apply _ n s

/-- Words that have been computed come first. -/
theorem after_length_pending (key : Key) (counter : UInt64) (pending : List UInt32) :
    after pending.length ⟨key, counter, pending⟩ = ⟨key, counter, []⟩ := by
  induction pending with
  | nil => rfl
  | cons w rest ih =>
    rw [List.length_cons, after_succ]
    exact ih

theorem after_block (key : Key) (counter : UInt64) :
    after blockLength ⟨key, counter, []⟩ = ⟨key, counter + 1, []⟩ := by
  have hlength := key.length_words counter
  rcases hwords : key.words counter with _ | ⟨w, rest⟩
  · rw [hwords] at hlength
    cases hlength
  · have hrest : rest.length = 15 := Nat.succ.inj (by rw [hwords] at hlength; exact hlength)
    have hword : (Draw.word ⟨key, counter, []⟩).2 = ⟨key, counter + 1, rest⟩ := by
      simp only [Draw.word, hwords]
    rw [blockLength, after_succ, hword, ← hrest, after_length_pending]

theorem after_blocks (key : Key) (counter : UInt64) (n : Nat) :
    after (n * blockLength) ⟨key, counter, []⟩ = ⟨key, counter + UInt64.ofNat n, []⟩ := by
  induction n with
  | zero =>
    have hstay : counter + UInt64.ofNat 0 = counter := UInt64.add_zero counter
    rw [Nat.zero_mul, hstay]
    rfl
  | succ n ih =>
    rw [Nat.succ_mul, Nat.add_comm, after_add, ih, after_block, UInt64.add_assoc, UInt64.ofNat_add]
    rfl

/-- The words of all blocks that the counter can count. -/
def period : Nat := 2 ^ 64 * blockLength

/-- A stream repeats itself from where the words are drawn that it holds. -/
theorem after_add_period {s : Stream} {n : Nat} (h : s.pending.length ≤ n) :
    s.after (n + period) = s.after n := by
  obtain ⟨more, rfl⟩ := Nat.exists_eq_add_of_le' h
  obtain ⟨key, counter, pending⟩ := s
  have hround : after period ⟨key, counter, []⟩ = ⟨key, counter, []⟩ := by
    have hwrap : UInt64.ofNat (2 ^ 64) = 0 := rfl
    rw [period, after_blocks, hwrap, UInt64.add_zero]
  have hfirst := after_length_pending key counter pending
  rw [Nat.add_assoc, Nat.add_comm _ period, after_add, after_add, hfirst, hround, after_add, hfirst]

theorem after_add_mul_period {s : Stream} {n : Nat} (h : s.pending.length ≤ n) (rounds : Nat) :
    s.after (n + rounds * period) = s.after n := by
  induction rounds with
  | zero => rw [Nat.zero_mul, Nat.add_zero]
  | succ rounds ih =>
    rw [Nat.succ_mul, ← Nat.add_assoc, after_add_period (h.trans (Nat.le_add_right _ _)), ih]

/-- No stream holds more words than a block has, if it starts so. -/
theorem length_pending_after {s : Stream} (h : s.pending.length ≤ blockLength) (n : Nat) :
    (s.after n).pending.length ≤ blockLength := by
  induction n generalizing s with
  | zero => exact h
  | succ n ih =>
    refine ih ?_
    obtain ⟨key, counter, pending⟩ := s
    cases pending with
    | cons w rest => exact (Nat.le_succ _).trans h
    | nil =>
      have hlength := key.length_words counter
      rcases hwords : key.words counter with _ | ⟨w, rest⟩
      · simp only [Draw.word, hwords]
        exact h
      · rw [hwords] at hlength
        simp only [Draw.word, hwords]
        exact (Nat.le_succ _).trans hlength.le

end Stream

namespace Draw

variable {α : Type} {draw : Draw α} {accepted : α → Bool} {s : Stream} {r : α × Stream}

/-- A draw that takes so many words whatever they are. -/
def Takes (words : Nat) (draw : Draw α) : Prop := ∀ s, (draw s).2 = s.after words

theorem takes_word : Takes 1 word := fun _ => rfl

theorem takes_longWord : Takes 2 longWord := fun _ => rfl

theorem Takes.after_mul {words : Nat} (h : Takes words draw) (n : Nat) :
    (draw s).2.after (n * words) = s.after ((n + 1) * words) := by
  rw [h, Nat.succ_mul, Stream.after_add]

theorem Takes.map {β : Type} {words : Nat} (h : Takes words draw) (f : α → β) : Takes words (f <$> draw) := h

/-- A draw repeated until it is accepted, however often that is. -/
inductive Settles (draw : Draw α) (accepted : α → Bool) : Stream → α × Stream → Prop where
  | accept {s : Stream} (done : accepted (draw s).1) : Settles draw accepted s (draw s)
  | reject {s : Stream} {r : α × Stream} (again : ¬accepted (draw s).1)
      (rest : Settles draw accepted (draw s).2 r) : Settles draw accepted s r

theorem untilAccepted_succ (tries : Nat) : untilAccepted draw accepted (tries + 1) s =
    if accepted (draw s).1 then draw s else untilAccepted draw accepted tries (draw s).2 := by
  rw [untilAccepted]
  change (if accepted (draw s).1 then pure (draw s).1 else untilAccepted draw accepted tries : Draw α)
    (draw s).2 = _
  split <;> rfl

theorem settles_of_untilAccepted {tries : Nat} (h : accepted (untilAccepted draw accepted tries s).1) :
    Settles draw accepted s (untilAccepted draw accepted tries s) := by
  induction tries generalizing s with
  | zero => exact .accept h
  | succ tries ih =>
    rw [untilAccepted_succ] at h ⊢
    by_cases hdone : accepted (draw s).1
    · rw [if_pos hdone]
      exact .accept hdone
    · rw [if_neg hdone] at h ⊢
      exact .reject hdone (ih h)

section Takes

variable {words : Nat} (takes : Takes words draw)

include takes

/-- The draw that is accepted is the first that can be. -/
theorem Settles.exists_first (h : Settles draw accepted s r) : ∃ n, r = draw (s.after (n * words)) ∧
    accepted r.1 ∧ ∀ m < n, ¬accepted (draw (s.after (m * words))).1 := by
  induction h with
  | @accept s done =>
    refine ⟨0, ?_, done, fun m hm => absurd hm (Nat.not_lt_zero m)⟩
    rw [Nat.zero_mul]
    rfl
  | @reject s r again _ ih =>
    obtain ⟨n, hr, hdone, hfirst⟩ := ih
    refine ⟨n + 1, by rw [hr, takes.after_mul], hdone, fun m hm => ?_⟩
    cases m with
    | zero =>
      rw [Nat.zero_mul]
      exact again
    | succ m =>
      rw [← takes.after_mul]
      exact hfirst m (Nat.lt_of_succ_lt_succ hm)

theorem untilAccepted_of_first {n tries : Nat} (enough : n ≤ tries)
    (done : accepted (draw (s.after (n * words))).1)
    (first : ∀ m < n, ¬accepted (draw (s.after (m * words))).1) :
    untilAccepted draw accepted tries s = draw (s.after (n * words)) := by
  induction n generalizing s tries with
  | zero =>
    rw [Nat.zero_mul] at done ⊢
    cases tries with
    | zero => rfl
    | succ tries => rw [untilAccepted_succ, if_pos (show accepted (draw s).1 from done)]; rfl
  | succ n ih =>
    obtain ⟨tries, rfl⟩ := Nat.exists_eq_add_of_le' (Nat.one_le_of_lt enough)
    have hagain : ¬accepted (draw s).1 := by
      have hnow := first 0 (Nat.succ_pos n)
      rwa [Nat.zero_mul] at hnow
    rw [untilAccepted_succ, if_neg hagain, ← takes.after_mul]
    refine ih (Nat.le_of_succ_le_succ enough) ?_ fun m hm => ?_
    · rwa [takes.after_mul]
    · rw [takes.after_mul]
      exact first (m + 1) (Nat.succ_lt_succ hm)

/-- The bound on the tries is never what ends them: where a draw is accepted after any number of tries, it is
accepted in time, as later ones only repeat those before. -/
theorem settles_iff (some : 0 < words) (short : s.pending.length ≤ blockLength) :
    Settles draw accepted s r ↔ untilAccepted draw accepted maxTries s = r ∧ accepted r.1 := by
  constructor
  · intro h
    obtain ⟨n, rfl, hdone, hfirst⟩ := h.exists_first takes
    have hearly : n < blockLength + Stream.period := by
      by_contra hlate
      obtain ⟨m, rfl⟩ : ∃ m, n = m + Stream.period :=
        Nat.exists_eq_add_of_le' ((Nat.le_add_left _ _).trans (not_lt.1 hlate))
      have hheld : s.pending.length ≤ m * words :=
        (short.trans (Nat.le_of_add_le_add_right (not_lt.1 hlate))).trans (Nat.le_mul_of_pos_right m some)
      have hsame : s.after ((m + Stream.period) * words) = s.after (m * words) := by
        rw [Nat.add_mul, Nat.mul_comm Stream.period, Stream.after_add_mul_period hheld]
      rw [hsame] at hdone
      exact hfirst m (Nat.lt_add_of_pos_right (by decide)) hdone
    have henough : n ≤ maxTries := hearly.le.trans (by decide)
    exact ⟨untilAccepted_of_first takes henough hdone hfirst, hdone⟩
  · rintro ⟨rfl, hdone⟩
    exact settles_of_untilAccepted hdone

/-- Wherever the stream of a seed has got to, the tries suffice. -/
theorem settles_iff_of_seed (some : 0 < words) (seed : UInt64) (drawn : Nat) :
    Settles draw accepted ((Stream.ofSeed seed).after drawn) r ↔
      untilAccepted draw accepted maxTries ((Stream.ofSeed seed).after drawn) = r ∧ accepted r.1 :=
  settles_iff takes some (Stream.length_pending_after (Nat.zero_le _) drawn)

end Takes

/-- A number below a span is the offset of the first word that is accepted. -/
theorem below32_of_settles {span : UInt32} {offset low : UInt32} {last : Stream} (some : span ≠ 0)
    (short : s.pending.length ≤ blockLength)
    (h : Settles (halves32 span <$> word) (·.2 ≤ (span <<< (31 - span.log2)) - 1) s ((offset, low), last)) :
    below32 span s = (offset, last) := by
  have hlast := ((settles_iff (takes_word.map _) Nat.one_pos short).1 h).1
  rw [below32, if_neg some]
  exact congrArg (fun r : (UInt32 × UInt32) × Stream => (r.1.1, r.2)) hlast

theorem below64_of_settles {span : UInt64} {offset low : UInt64} {last : Stream} (some : span ≠ 0)
    (short : s.pending.length ≤ blockLength)
    (h : Settles (halves64 span <$> longWord) (·.2 ≤ (span <<< (63 - span.log2)) - 1) s ((offset, low), last)) :
    below64 span s = (offset, last) := by
  have hlast := ((settles_iff (takes_longWord.map _) Nat.two_pos short).1 h).1
  rw [below64, if_neg some]
  exact congrArg (fun r : (UInt64 × UInt64) × Stream => (r.1.1, r.2)) hlast

end Draw
end ReadingBench.Random
