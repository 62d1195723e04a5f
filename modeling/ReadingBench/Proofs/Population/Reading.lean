import ReadingBench.Proofs.Population.Offer
import ReadingBench.Proofs.Seeding.Collect

namespace ReadingBench

open ReadingBench.Random Draw

namespace ReadSource

/-- A candidate was drawn for this user and article. -/
structure Tried (source : ReadSource) (uid aid : String) (state next : Reading) : Prop where
  fallbacks : next.fallbacks = state.fallbacks + if source.lacks uid aid then 1 else 0
  named : source.users < 2 ^ 64 → source.articles < 2 ^ 64 →
    (∃ i < source.users, uid = uidOf i) ∧ ∃ i < source.articles, aid = aidOf i

/-- The candidate at `index` was accepted as `read`. -/
structure Accepts (source : ReadSource) (index : Nat) (read : Read) (state next : Reading) : Prop
    extends source.Tried read.uid read.aid state next where
  region : read.region = (source.index.regionOf? read.uid).getD fallbackRegion
  comment : read.commentDetail.isSome ↔ read.commentOrNot = 1
  time : ∃ stream, (source.drawTime index stream).1 = some read.timestamp

theorem gives_drawPair (source : ReadSource) :
    Gives (fun pair => 0 < source.users → 0 < source.articles →
      source.users < 2 ^ 64 → source.articles < 2 ^ 64 →
        (∃ i < source.users, pair.1 = uidOf i) ∧ ∃ i < source.articles, pair.2.1 = aidOf i)
      source.drawPair := by
  intro stream users_pos articles_pos users_fit articles_fit
  have hpair : Gives (fun pair : String × String × Float =>
      (∃ i < source.users, pair.1 = uidOf i) ∧ ∃ i < source.articles, pair.2.1 = aidOf i)
      source.drawPair := by
    unfold drawPair
    refine (gives_position users_pos users_fit).bind fun user huser => ?_
    refine (gives_position articles_pos articles_fit).bind fun article harticle => ?_
    refine gives_bind fun chance => gives_pure ?_
    exact ⟨⟨_, huser, rfl⟩, _, harticle, rfl⟩
  exact hpair stream

variable {source : ReadSource} {index id : Nat} {state next : Reading} {read : Read}

theorem named_of_drawPair {uid aid : String} {chance : Float} {stream : Stream}
    (somebody : ¬(source.users = 0 ∨ source.articles = 0))
    (pair : source.drawPair state.stream = ((uid, aid, chance), stream)) :
    source.users < 2 ^ 64 → source.articles < 2 ^ 64 →
      (∃ i < source.users, uid = uidOf i) ∧ ∃ i < source.articles, aid = aidOf i := by
  rw [not_or] at somebody
  have hgives := source.gives_drawPair state.stream
  rw [pair] at hgives
  exact hgives (Nat.pos_of_ne_zero somebody.1) (Nat.pos_of_ne_zero somebody.2)

/-- Without users or articles nothing is drawn; otherwise a candidate is drawn for some pair. -/
theorem tried_of_rejected (h : source.offer index id state = .rejected next) :
    next = state ∨ ∃ uid aid, source.Tried uid aid state next := by
  have hanswers := source.answers_offer index id state
  rw [h] at hanswers
  cases hanswers with
  | nobody => exact .inl rfl
  | @unlikely uid aid chance stream somebody pair _ =>
    exact .inr ⟨uid, aid, rfl, named_of_drawPair somebody pair⟩

theorem accepts_of_accepted (h : source.offer index id state = .accepted read next) :
    source.Accepts index read state next := by
  have hanswers := source.answers_offer index id state
  rw [h] at hanswers
  cases hanswers with
  | @accepted uid aid chance stream later last timestamp read somebody pair _ time drawn =>
    have hgives := gives_draw id uid aid (source.region uid) (source.odds uid aid) timestamp later
    rw [drawn] at hgives
    obtain ⟨-, ⟨rfl, rfl⟩, hregion, rfl, hcomment⟩ := hgives
    exact ⟨⟨rfl, named_of_drawPair somebody pair⟩, hregion, hcomment, stream, by rw [time]⟩

end ReadSource

namespace Batches.Offered

variable {source : ReadSource} {b last : Batches Reading} {reads : List Read}

/-- Each read of a pair that the index lacks has been counted. -/
theorem countP_lacks_le (h : Offered source.offer b reads last) :
    b.state.fallbacks + reads.countP (fun read => source.lacks read.uid read.aid) ≤
      last.state.fallbacks := by
  induction h with
  | nil b => simp
  | rejected offer _ ih =>
    rcases ReadSource.tried_of_rejected offer with rfl | ⟨uid, aid, htried⟩
    · exact ih
    · have hcounted := htried.fallbacks
      dsimp only at ih
      omega
  | accepted offer _ ih =>
    have hcounted := (ReadSource.accepts_of_accepted offer).fallbacks
    dsimp only at ih
    rw [List.countP_cons]
    omega

/-- With an index that lacks no pair that can be drawn, nothing is counted. -/
theorem fallbacks_eq (h : Offered source.offer b reads last) (users_fit : source.users < 2 ^ 64)
    (articles_fit : source.articles < 2 ^ 64)
    (known : ∀ i < source.users, ∀ j < source.articles, source.lacks (uidOf i) (aidOf j) = false) :
    last.state.fallbacks = b.state.fallbacks := by
  have hcounted : ∀ {uid aid : String} {state next : Reading}, source.Tried uid aid state next →
      next.fallbacks = state.fallbacks := by
    intro uid aid state next htried
    obtain ⟨⟨i, hi, rfl⟩, j, hj, rfl⟩ := htried.named users_fit articles_fit
    rw [htried.fallbacks, known i hi j hj]
    rfl
  induction h with
  | nil b => rfl
  | rejected offer _ ih =>
    rcases ReadSource.tried_of_rejected offer with rfl | ⟨uid, aid, htried⟩
    · exact ih
    · exact ih.trans (hcounted htried)
  | accepted offer _ ih =>
    exact ih.trans (hcounted (ReadSource.accepts_of_accepted offer).toTried)

/-- What holds of every read that can be accepted. -/
theorem forall_reads {P : Read → Prop} (h : Offered source.offer b reads last)
    (holds : ∀ index read state next, source.Accepts index read state next → P read) :
    ∀ read ∈ reads, P read :=
  h.forall_records fun _ _ _ _ _ _ offer => holds _ _ _ _ (ReadSource.accepts_of_accepted offer)

end Batches.Offered
end ReadingBench
