import ReadingBench.Population.Source
import ReadingBench.Proofs.Random.Range

namespace ReadingBench

open ReadingBench.Random Draw

variable {index id : Nat}

namespace UserSource

variable {source : UserSource} {state next : Growing} {user : User}

theorem gives_draw (source : UserSource) (index id : Nat) (timestamp : DateTime) :
    Gives (fun user => user.id = UInt64.ofNat id ∧ user.uid = uidOf index)
      (source.draw index id timestamp) := by
  unfold draw
  iterate 9 refine gives_bind fun _ => ?_
  exact gives_pure ⟨rfl, rfl⟩

theorem offer_cases (source : UserSource) (index id : Nat) (state : Growing) :
    source.baseTime.addSeconds? (signedWord index) = none ∧ source.offer index id state = .outOfRange ∨
      ∃ timestamp user stream, source.baseTime.addSeconds? (signedWord index) = some timestamp ∧
        source.draw index id timestamp state.stream = (user, stream) ∧
        source.offer index id state = .accepted user ⟨stream, state.index.addUser user.uid user.region⟩ := by
  rw [offer]
  -- What is drawn takes too long to compute, so it gets a name.
  obtain ⟨draw, hdraw⟩ : ∃ draw, source.draw = draw := ⟨_, rfl⟩
  rw [hdraw]
  cases source.baseTime.addSeconds? (signedWord index) with
  | none => exact .inl ⟨rfl, rfl⟩
  | some timestamp => exact .inr ⟨timestamp, _, _, rfl, rfl, rfl⟩

theorem of_accepted (h : source.offer index id state = .accepted user next) :
    user.id = UInt64.ofNat id ∧ user.uid = uidOf index := by
  obtain ⟨-, hoffer⟩ | ⟨timestamp, user', stream, -, hdrawn, hoffer⟩ := source.offer_cases index id state
  · cases h.symm.trans hoffer
  · obtain ⟨rfl, -⟩ := Offer.accepted.inj (h.symm.trans hoffer)
    have hgives := source.gives_draw index id timestamp state.stream
    rwa [hdrawn] at hgives

/-- The index grows with every user. -/
theorem index_of_accepted (h : source.offer index id state = .accepted user next) :
    next.index = state.index.addUser user.uid user.region := by
  obtain ⟨-, hoffer⟩ | ⟨timestamp, user', stream, -, -, hoffer⟩ := source.offer_cases index id state
  · cases h.symm.trans hoffer
  · obtain ⟨rfl, rfl⟩ := Offer.accepted.inj (h.symm.trans hoffer)
    rfl

/-- The time of a user that is accepted is in the calendar. -/
theorem exists_time (h : source.offer index id state = .accepted user next) :
    ∃ time, source.baseTime.addSeconds? (signedWord index) = some time := by
  obtain ⟨-, hoffer⟩ | ⟨timestamp, user', stream, htime, -⟩ := source.offer_cases index id state
  · cases h.symm.trans hoffer
  · exact ⟨timestamp, htime⟩

theorem offer_ne_rejected : source.offer index id state ≠ .rejected next := by
  intro h
  obtain ⟨-, hoffer⟩ | ⟨timestamp, user, stream, -, -, hoffer⟩ := source.offer_cases index id state
  all_goals cases h.symm.trans hoffer

theorem offer_eq_outOfRange : source.offer index id state = .outOfRange ↔
    source.baseTime.addSeconds? (signedWord index) = none := by
  obtain ⟨htime, hoffer⟩ | ⟨timestamp, user, stream, htime, -, hoffer⟩ := source.offer_cases index id state
  · exact iff_of_true hoffer htime
  · exact iff_of_false (fun h => by cases h.symm.trans hoffer) fun h => by cases h.symm.trans htime

end UserSource

namespace ArticleSource

variable {source : ArticleSource} {state next : Growing} {article : Article}

theorem gives_draw (source : ArticleSource) (index id : Nat) (language : Language)
    (timestamp : DateTime) :
    Gives (fun article => article.id = UInt64.ofNat id ∧ article.aid = aidOf index)
      (source.draw index id language timestamp) := by
  unfold draw
  iterate 4 refine gives_bind fun _ => ?_
  exact gives_pure ⟨rfl, rfl⟩

theorem offer_cases (source : ArticleSource) (index id : Nat) (state : Growing) :
    (source.drawTime index state.stream).1.2 = none ∧ source.offer index id state = .outOfRange ∨
      ∃ language timestamp stream article later,
        source.drawTime index state.stream = ((language, some timestamp), stream) ∧
        source.draw index id language timestamp stream = (article, later) ∧
        source.offer index id state =
          .accepted article ⟨later, state.index.addArticle article.aid article.language⟩ := by
  rw [offer]
  obtain ⟨draw, hdraw⟩ : ∃ draw, source.draw = draw := ⟨_, rfl⟩
  rw [hdraw]
  rcases source.drawTime index state.stream with ⟨⟨language, _ | timestamp⟩, stream⟩
  · exact .inl ⟨rfl, rfl⟩
  · exact .inr ⟨language, timestamp, stream, _, _, rfl, rfl, rfl⟩

theorem of_accepted (h : source.offer index id state = .accepted article next) :
    article.id = UInt64.ofNat id ∧ article.aid = aidOf index := by
  obtain ⟨-, hoffer⟩ | ⟨language, timestamp, stream, article', later, -, hdrawn, hoffer⟩ :=
    source.offer_cases index id state
  · cases h.symm.trans hoffer
  · obtain ⟨rfl, -⟩ := Offer.accepted.inj (h.symm.trans hoffer)
    have hgives := source.gives_draw index id language timestamp stream
    rwa [hdrawn] at hgives

/-- The index grows with every article. -/
theorem index_of_accepted (h : source.offer index id state = .accepted article next) :
    next.index = state.index.addArticle article.aid article.language := by
  obtain ⟨-, hoffer⟩ | ⟨language, timestamp, stream, article', later, -, -, hoffer⟩ :=
    source.offer_cases index id state
  · cases h.symm.trans hoffer
  · obtain ⟨rfl, rfl⟩ := Offer.accepted.inj (h.symm.trans hoffer)
    rfl

theorem offer_ne_rejected : source.offer index id state ≠ .rejected next := by
  intro h
  obtain ⟨-, hoffer⟩ | ⟨language, timestamp, stream, article, later, -, -, hoffer⟩ :=
    source.offer_cases index id state
  all_goals cases h.symm.trans hoffer

end ArticleSource

namespace ReadSource

variable {source : ReadSource} {state next : Reading} {read : Read}

/-- The index lacks the user or the article. -/
def lacks (source : ReadSource) (uid aid : String) : Bool :=
  (source.index.regionOf? uid).isNone || (source.index.languageOf? aid).isNone

/-- Where the user reads, also if the index lacks it. -/
def region (source : ReadSource) (uid : String) : Region := (source.index.regionOf? uid).getD fallbackRegion

def odds (source : ReadSource) (uid aid : String) : ReadProbabilities :=
  .ofPair (source.region uid) ((source.index.languageOf? aid).getD fallbackLanguage)

/-- What a source of reads may answer. -/
inductive Answers (source : ReadSource) (index id : Nat) (state : Reading) : Offer Reading Read → Prop where
  | nobody (nobody : source.users = 0 ∨ source.articles = 0) : Answers source index id state (.rejected state)
  | unlikely {uid aid : String} {chance : Float} {stream : Stream}
      (somebody : ¬(source.users = 0 ∨ source.articles = 0))
      (pair : source.drawPair state.stream = ((uid, aid, chance), stream))
      (unlikely : (source.odds uid aid).read < chance) : Answers source index id state
        (.rejected ⟨stream, state.fallbacks + if source.lacks uid aid then 1 else 0⟩)
  | late {uid aid : String} {chance : Float} {stream : Stream}
      (somebody : ¬(source.users = 0 ∨ source.articles = 0))
      (pair : source.drawPair state.stream = ((uid, aid, chance), stream))
      (likely : ¬(source.odds uid aid).read < chance)
      (late : (source.drawTime index stream).1 = none) : Answers source index id state .outOfRange
  | accepted {uid aid : String} {chance : Float} {stream later last : Stream} {timestamp : DateTime}
      {read : Read} (somebody : ¬(source.users = 0 ∨ source.articles = 0))
      (pair : source.drawPair state.stream = ((uid, aid, chance), stream))
      (likely : ¬(source.odds uid aid).read < chance)
      (time : source.drawTime index stream = (some timestamp, later))
      (drawn : draw id uid aid (source.region uid) (source.odds uid aid) timestamp later = (read, last)) :
      Answers source index id state
        (.accepted read ⟨last, state.fallbacks + if source.lacks uid aid then 1 else 0⟩)

theorem answers_offer (source : ReadSource) (index id : Nat) (state : Reading) :
    source.Answers index id state (source.offer index id state) := by
  rw [offer]
  obtain ⟨make, hmake⟩ : ∃ make, draw id = make := ⟨_, rfl⟩
  rw [hmake]
  split
  · next nobody => exact .nobody nobody
  next somebody =>
  rcases hpair : source.drawPair state.stream with ⟨⟨uid, aid, chance⟩, stream⟩
  have hlacks : state.fallbacks + (if (source.index.regionOf? uid).isNone ∨
      (source.index.languageOf? aid).isNone then 1 else 0) =
        state.fallbacks + if source.lacks uid aid then 1 else 0 := by
    simp only [lacks, Bool.or_eq_true]
  dsimp only
  rw [hlacks]
  split
  · next unlikely => exact .unlikely somebody hpair unlikely
  next likely =>
  rcases htime : source.drawTime index stream with ⟨_ | timestamp, later⟩
  · exact .late somebody hpair likely (by rw [htime])
  · refine .accepted somebody hpair likely htime ?_
    rw [hmake]
    rfl

theorem gives_draw (id : Nat) (uid aid : String) (region : Region) (odds : ReadProbabilities)
    (timestamp : DateTime) :
    Gives (fun read => read.id = UInt64.ofNat id ∧ (read.uid = uid ∧ read.aid = aid) ∧
      read.region = region ∧ read.timestamp = timestamp ∧
        (read.commentDetail.isSome ↔ read.commentOrNot = 1))
      (draw id uid aid region odds timestamp) := by
  unfold draw
  refine gives_bind fun _ => gives_bind fun _ => gives_bind fun comment => gives_bind fun _ => ?_
  refine gives_pure ⟨rfl, ⟨rfl, rfl⟩, rfl, rfl, ?_⟩
  dsimp only
  by_cases h : comment < odds.comment
  · simp [h, flag]
  · simp [h, flag]

theorem id_of_accepted (h : source.offer index id state = .accepted read next) :
    read.id = UInt64.ofNat id := by
  have hanswers := source.answers_offer index id state
  rw [h] at hanswers
  cases hanswers with
  | @accepted uid aid chance stream later last timestamp read somebody pair likely time drawn =>
    have hgives := gives_draw id uid aid (source.region uid) (source.odds uid aid) timestamp later
    rw [drawn] at hgives
    exact hgives.1

end ReadSource
end ReadingBench
