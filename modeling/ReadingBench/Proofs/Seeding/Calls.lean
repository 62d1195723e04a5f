import ReadingBench.Proofs.Seeding.Recut

namespace ReadingBench

variable {σ τ ρ : Type}

/-- A call of a source, and its answer: a record, or none where the candidate is rejected. -/
structure Call (ρ : Type) where
  index : Nat
  id : Nat
  answer : Option ρ
  deriving DecidableEq

/-- What was accepted, in the order of the calls. -/
def Call.answers (calls : List (Call ρ)) : List ρ := calls.filterMap (·.answer)

open Call

/-- The same answer, of a source that keeps its calls beside its state. -/
def Offer.logged (index id : Nat) (calls : List (Call ρ)) : Offer σ ρ → Offer (σ × List (Call ρ)) ρ
  | .accepted record next => .accepted record (next, calls ++ [⟨index, id, some record⟩])
  | .rejected next => .rejected (next, calls ++ [⟨index, id, none⟩])
  | .outOfRange => .outOfRange

/-- The same source, with the calls that it gets kept beside its state. -/
def Source.logged (source : Source σ ρ) : Source (σ × List (Call ρ)) ρ := fun index id state =>
  (source index id state.1).logged index id state.2

theorem Source.logged_eq_rejected {source : Source σ ρ} {index id : Nat}
    {state next : σ × List (Call ρ)} (h : source.logged index id state = .rejected next) :
    next.2 = state.2 ++ [⟨index, id, none⟩] := by
  unfold Source.logged at h
  cases hoffer : source index id state.1 with
  | rejected after =>
    rw [hoffer] at h
    exact (congrArg Prod.snd (Offer.rejected.inj h)).symm
  | accepted record after =>
    rw [hoffer] at h
    cases h
  | outOfRange =>
    rw [hoffer] at h
    cases h

theorem Source.logged_eq_accepted {source : Source σ ρ} {index id : Nat} {record : ρ}
    {state next : σ × List (Call ρ)} (h : source.logged index id state = .accepted record next) :
    next.2 = state.2 ++ [⟨index, id, some record⟩] := by
  unfold Source.logged at h
  cases hoffer : source index id state.1 with
  | accepted record' after =>
    rw [hoffer] at h
    obtain ⟨rfl, hnext⟩ := Offer.accepted.inj h
    exact (congrArg Prod.snd hnext).symm
  | rejected after =>
    rw [hoffer] at h
    cases h
  | outOfRange =>
    rw [hoffer] at h
    cases h

/-- Calls that follow on `first` candidates, of which `taken` were accepted. -/
structure Call.InOrder (first taken : Nat) (calls : List (Call ρ)) : Prop where
  indexes : calls.map (·.index) = List.range' first calls.length
  ids : ∀ n call, calls[n]? = some call → call.id = taken + (answers (calls.take n)).length + 1
  acceptedIds : (calls.filter (·.answer.isSome)).map (·.id) =
    List.range' (taken + 1) (answers calls).length

namespace Call.InOrder

variable {first taken : Nat} {calls : List (Call ρ)}

theorem nil : InOrder first taken ([] : List (Call ρ)) := ⟨rfl, fun _ _ h => by simp at h, rfl⟩

theorem rejected (h : InOrder (first + 1) taken calls) :
    InOrder first taken (⟨first, taken + 1, none⟩ :: calls) := by
  refine ⟨?_, fun n call hcall => ?_, h.acceptedIds⟩
  · rw [List.map_cons, h.indexes, List.length_cons, List.range'_succ]
  · cases n with
    | zero =>
      obtain rfl := Option.some.inj hcall
      rfl
    | succ n => exact h.ids n call hcall

theorem accepted (record : ρ) (h : InOrder (first + 1) (taken + 1) calls) :
    InOrder first taken (⟨first, taken + 1, some record⟩ :: calls) := by
  refine ⟨?_, fun n call hcall => ?_, ?_⟩
  · rw [List.map_cons, h.indexes, List.length_cons, List.range'_succ]
  · cases n with
    | zero =>
      obtain rfl := Option.some.inj hcall
      rfl
    | succ n =>
      have hid := h.ids n call hcall
      have hlength : (answers ((⟨first, taken + 1, some record⟩ :: calls).take (n + 1))).length =
          (answers (calls.take n)).length + 1 := rfl
      omega
  · have hlength : (answers (⟨first, taken + 1, some record⟩ :: calls)).length =
        (answers calls).length + 1 := rfl
    rw [hlength, List.range'_succ, ← h.acceptedIds]
    rfl

end Call.InOrder

namespace Batches

/-- The same place of another source. -/
def onto (b : Batches σ) (state : τ) : Batches τ :=
  ⟨state, b.target, b.size, b.width, b.candidates, b.accepted⟩

/-- Without the calls. -/
def forget (b : Batches (σ × List (Call ρ))) : Batches σ := b.onto b.state.1

end Batches

/-- The same with the place in another source. -/
def Pull.map (f : Batches σ → Batches τ) : Pull σ ρ → Pull τ ρ
  | .finished => .finished
  | .batch records rest => .batch records (f rest)
  | .outOfRange => .outOfRange
  | .unfinished => .unfinished

namespace Batches

variable {source : Source σ ρ} {budget most : Nat}

theorem fill_logged (room : Nat) (done : List ρ) (b : Batches (σ × List (Call ρ))) :
    (fill source.logged budget room done b).map forget = fill source budget room done b.forget := by
  induction budget generalizing room done b with
  | zero => cases room <;> rfl
  | succ budget ih =>
    cases room with
    | zero => rfl
    | succ room =>
      have hlogged : source.logged b.candidates (b.accepted + 1) b.state =
        (source b.candidates (b.accepted + 1) b.state.1).logged b.candidates (b.accepted + 1) b.state.2 := rfl
      have hplain : source b.forget.candidates (b.forget.accepted + 1) b.forget.state =
        source b.candidates (b.accepted + 1) b.state.1 := rfl
      rw [fill, fill, hlogged, hplain]
      cases source b.candidates (b.accepted + 1) b.state.1 with
      | accepted record next => exact ih _ _ _
      | rejected next => exact ih _ _ _
      | outOfRange => rfl

theorem pull_logged (b : Batches (σ × List (Call ρ))) :
    (b.pull source.logged budget).map forget = b.forget.pull source budget := by
  unfold pull
  by_cases hdone : b.target ≤ b.accepted
  · rw [if_pos hdone, if_pos (show b.forget.target ≤ b.forget.accepted from hdone)]
    rfl
  rw [if_neg hdone, if_neg (show ¬b.forget.target ≤ b.forget.accepted from hdone)]
  by_cases hroom : maxRoom < b.nextSize * b.width
  · rw [if_pos hroom, if_pos (show maxRoom < b.forget.nextSize * b.forget.width from hroom)]
    rfl
  · rw [if_neg hroom, if_neg (show ¬maxRoom < b.forget.nextSize * b.forget.width from hroom)]
    exact fill_logged _ _ b

theorem collect_logged (source : Source σ ρ) (budget most : Nat) (b : Batches (σ × List (Call ρ))) :
    ((collect source.logged budget most b).1, (collect source.logged budget most b).2.map forget) =
      collect source budget most b.forget := by
  induction most generalizing b with
  | zero => rfl
  | succ most ih =>
    rw [collect, collect, ← pull_logged]
    cases b.pull source.logged budget with
    | batch records rest =>
      have hrest := ih rest
      simp only [Pull.map, ← hrest]
    | finished => rfl
    | outOfRange => rfl
    | unfinished => rfl

/-- The calls of drawing records come in order, and the last of them is the first that brings as many. -/
theorem Drawn.calls {b last : Batches (σ × List (Call ρ))} {records : List ρ}
    (h : Drawn source.logged b records last) : ∃ calls,
      last.state.2 = b.state.2 ++ calls ∧ InOrder b.candidates b.accepted calls ∧
        answers calls = records ∧ last.candidates = b.candidates + calls.length ∧
        ∀ n < calls.length, (answers (calls.take n)).length < records.length := by
  induction h with
  | nil b => exact ⟨[], (List.append_nil _).symm, .nil, rfl, rfl, fun _ h => absurd h (Nat.not_lt_zero _)⟩
  | @rejected b last state record records offer rest ih =>
    obtain ⟨calls, hlog, horder, hanswers, hcount, hfirst⟩ := ih
    refine ⟨⟨b.candidates, b.accepted + 1, none⟩ :: calls, ?_, horder.rejected, hanswers, ?_, ?_⟩
    · rw [hlog, Source.logged_eq_rejected offer, List.append_assoc]
      rfl
    · rw [hcount, List.length_cons]
      dsimp only
      omega
    · intro n hn
      cases n with
      | zero => exact Nat.succ_pos _
      | succ n => exact hfirst n (Nat.lt_of_succ_lt_succ hn)
  | @accepted b last state record records offer rest ih =>
    obtain ⟨calls, hlog, horder, hanswers, hcount, hfirst⟩ := ih
    refine ⟨⟨b.candidates, b.accepted + 1, some record⟩ :: calls, ?_, horder.accepted record,
      congrArg (record :: ·) hanswers, ?_, ?_⟩
    · rw [hlog, Source.logged_eq_accepted offer, List.append_assoc]
      rfl
    · rw [hcount, List.length_cons]
      dsimp only
      omega
    · intro n hn
      cases n with
      | zero => exact Nat.succ_pos _
      | succ n => exact Nat.succ_lt_succ (hfirst n (Nat.lt_of_succ_lt_succ hn))

theorem pulls_of_made {b last : Batches σ} {batches : List (List ρ)}
    (h : collect source budget most b = (batches, .ok last)) : Pulls source budget b batches last := by
  have hpulls := pulls_of_collect (congrArg Prod.snd h)
  rwa [h] at hpulls

/-- From one place of a source as many records are always the same. -/
theorem Drawn.unique {b b' last last' : Batches σ} {records records' : List ρ}
    (h : Drawn source b records last) (h' : Drawn source b' records' last') (state : b'.state = b.state)
    (candidates : b'.candidates = b.candidates) (accepted : b'.accepted = b.accepted)
    (length : records'.length = records.length) : records' = records := by
  induction h generalizing b' records' with
  | nil b => exact List.length_eq_zero_iff.1 length
  | rejected offer _ ih =>
    cases h' with
    | nil => cases length
    | rejected offer' rest' =>
      rw [state, candidates, accepted, offer] at offer'
      obtain rfl := Offer.rejected.inj offer'
      exact ih rest' rfl (congrArg (· + 1) candidates) accepted length
    | accepted offer' _ =>
      rw [state, candidates, accepted, offer] at offer'
      cases offer'
  | accepted offer _ ih =>
    cases h' with
    | nil => cases length
    | rejected offer' _ =>
      rw [state, candidates, accepted, offer] at offer'
      cases offer'
    | accepted offer' rest' =>
      rw [state, candidates, accepted, offer] at offer'
      obtain ⟨rfl, rfl⟩ := Offer.accepted.inj offer'
      rw [ih rest' rfl (congrArg (· + 1) candidates) (congrArg (· + 1) accepted) (Nat.succ.inj length)]

/-- A batch that is not full is the last there can be. -/
theorem Pulls.lengths {b last : Batches σ} {batches : List (List ρ)}
    (h : Pulls source budget b batches last) :
    (∀ batch ∈ batches.dropLast, batch.length = max b.size 1) ∧
      ∀ batch ∈ batches, batch.length = max b.size 1 ∨
        batch.length < max b.size 1 ∧ batches.flatten.length = b.remaining := by
  induction h with
  | nil b => simp
  | @cons b mid last records batches pull rest ih =>
    obtain ⟨hoffered, -, hcount⟩ := offered_of_pull pull
    have hlength : records.length = min (max b.size 1) b.remaining := (drawn_of_pull pull).2
    have hleft := rest.remaining_eq
    obtain ⟨hfull, hall⟩ := ih
    rw [hoffered.size_eq] at hfull hall
    refine ⟨?_, fun batch hbatch => ?_⟩
    · cases batches with
      | nil => simp
      | cons second others =>
        have hpos := List.length_pos_of_ne_nil (rest.ne_nil second List.mem_cons_self)
        rw [List.flatten_cons, List.length_append] at hleft
        rw [List.dropLast_cons_of_ne_nil (List.cons_ne_nil _ _)]
        exact List.forall_mem_cons.2 ⟨by omega, hfull⟩
    · rw [List.flatten_cons, List.length_append]
      rcases List.mem_cons.1 hbatch with rfl | hbatch
      · omega
      · exact (hall batch hbatch).imp_right fun hshort => ⟨hshort.1, by omega⟩

/-- The calls and the batches of a source that is asked for `target` records in batches of `size`. -/
structure Batched (target size : Nat) (calls : List (Call ρ)) (batches : List (List ρ)) : Prop where
  /-- Candidates come from 0 on without a gap, and each is offered the next id. -/
  inOrder : InOrder 0 0 calls
  /-- No call comes after there are as many records as asked for. -/
  wanted : ∀ n < calls.length, (answers (calls.take n)).length < target
  enough : (answers calls).length ≤ target
  records : batches.flatten = answers calls
  nonempty : ∀ batch ∈ batches, batch ≠ []
  full : ∀ batch ∈ batches.dropLast, batch.length = max size 1
  /-- Only where there are enough records may the last batch have fewer. -/
  short : ∀ batch ∈ batches, batch.length = max size 1 ∨
    batch.length < max size 1 ∧ (answers calls).length = target

variable {state : σ} {target size width : Nat} {batches : List (List ρ)} {last : Batches σ}

theorem exists_logged {b : Batches (σ × List (Call ρ))}
    (h : collect source budget most b.forget = (batches, .ok last)) :
    ∃ seen, collect source.logged budget most b = (batches, .ok seen) ∧ seen.forget = last := by
  have hlogged := collect_logged source budget most b
  rw [h] at hlogged
  rcases hmade : collect source.logged budget most b with ⟨batches', halt | seen⟩
  · rw [hmade] at hlogged
    cases (Prod.mk.inj hlogged).2
  · rw [hmade] at hlogged
    obtain ⟨hbatches, hlast⟩ := Prod.mk.inj hlogged
    obtain rfl : batches' = batches := hbatches
    exact ⟨seen, rfl, Except.ok.inj hlast⟩

/-- A source that keeps its calls has kept all of them, and the batches are made of its answers. -/
theorem batched_of_logged {seen : Batches (σ × List (Call ρ))}
    (h : collect source.logged budget most (start (state, []) target size width) = (batches, .ok seen)) :
    Batched target size seen.state.2 batches ∧ seen.candidates = seen.state.2.length ∧
      seen.accepted = (answers seen.state.2).length := by
  have hpulls := pulls_of_made h
  obtain ⟨calls, hlog, horder, hanswers, hcount, hfirst⟩ := hpulls.drawn.calls
  obtain rfl : seen.state.2 = calls := hlog
  have haccepted := hpulls.drawn.offered.accepted_eq
  have hfew : batches.flatten.length ≤ target := hpulls.remaining_eq.trans_ge (Nat.le_add_right _ _)
  obtain ⟨hfull, hshort⟩ := hpulls.lengths
  rw [← hanswers] at hfirst haccepted hfew hshort
  exact ⟨⟨horder, fun n hn => (hfirst n hn).trans_le hfew, hfew, hanswers.symm, hpulls.ne_nil, hfull, hshort⟩,
    hcount.trans (Nat.zero_add _), haccepted.trans (Nat.zero_add _)⟩

/-- All records that are asked for are the same, however they are cut. -/
theorem flatten_eq_of_finished {budget' most' size' width' : Nat} {batches' : List (List ρ)} {last' : Batches σ}
    (h : collect source budget most (start state target size width) = (batches, .ok last))
    (h' : collect source budget' most' (start state target size' width') = (batches', .ok last'))
    (done : last.pull source budget = .finished) (done' : last'.pull source budget' = .finished) :
    batches'.flatten = batches.flatten := by
  have hpulls := pulls_of_made h
  have hpulls' := pulls_of_made h'
  have hlength : target = batches.flatten.length + last.remaining := hpulls.remaining_eq
  have hlength' : target = batches'.flatten.length + last'.remaining := hpulls'.remaining_eq
  rw [remaining_of_finished done] at hlength
  rw [remaining_of_finished done'] at hlength'
  exact hpulls.drawn.unique hpulls'.drawn rfl rfl rfl (hlength'.symm.trans hlength)

/-- However many batches are pulled: what the source was called with, what it answered, and how its answers
were cut. There is no further batch exactly where the target is reached, and what has been accepted by then does
not depend on how it was cut. -/
theorem collect_batched (h : collect source budget most (start state target size width) =
      (batches, .ok last)) : ∃ calls,
    collect source.logged budget most (start (state, []) target size width) =
        (batches, .ok (last.onto (last.state, calls))) ∧
      Batched target size calls batches ∧
      last.candidates = calls.length ∧ last.accepted = (answers calls).length ∧
      (last.pull source budget = .finished ↔ last.accepted = target) ∧
      ∀ budget' most' size' width' batches' last',
        collect source budget' most' (start state target size' width') = (batches', .ok last') →
          last.pull source budget = .finished → last'.pull source budget' = .finished →
            batches'.flatten = batches.flatten := by
  obtain ⟨seen, hseen, rfl⟩ := exists_logged (b := start (state, []) target size width) h
  obtain ⟨hbatched, hcandidates, haccepted⟩ := batched_of_logged hseen
  refine ⟨seen.state.2, hseen, hbatched, hcandidates, haccepted, ?_,
    fun _ _ _ _ _ _ hcut hdone hdone' => flatten_eq_of_finished h hcut hdone hdone'⟩
  have htarget : seen.target = target := (pulls_of_made hseen).drawn.offered.target_eq
  have hfew := hbatched.enough
  rw [pull_eq_finished_iff, remaining, show seen.forget.target = target from htarget]
  rw [← haccepted] at hfew
  change target - seen.accepted = 0 ↔ seen.accepted = target
  omega

/-- Every third candidate is rejected. Ten records in batches of four take fifteen candidates. -/
theorem collect_batched_thirds : ∃ batches last calls,
    let source : Source Unit (Nat × Nat) := fun index id state =>
      if index % 3 = 0 then .rejected state else .accepted (index, id) state
    collect source 20 5 (start () 10 4 16) = (batches, .ok last) ∧
      collect source.logged 20 5 (start ((), []) 10 4 16) = (batches, .ok (last.onto (last.state, calls))) ∧
      Batched 10 4 calls batches ∧ calls.length = 15 ∧ batches.map List.length = [4, 4, 2] ∧
      batches.flatten.map (·.2) = [1, 2, 3, 4, 5, 6, 7, 8, 9, 10] ∧
      (∀ batches' last', collect source 20 20 (start () 10 0 16) = (batches', .ok last') →
        last'.pull source 20 = .finished → batches'.flatten = batches.flatten) := by
  let source : Source Unit (Nat × Nat) := fun index id state =>
    if index % 3 = 0 then .rejected state else .accepted (index, id) state
  have hmade : collect source 20 5 (start () 10 4 16) =
      ([[(1, 1), (2, 2), (4, 3), (5, 4)], [(7, 5), (8, 6), (10, 7), (11, 8)], [(13, 9), (14, 10)]],
        .ok ⟨(), 10, 4, 16, 15, 10⟩) := rfl
  obtain ⟨calls, hlogged, hbatched, hcount, -, -, hsame⟩ := collect_batched hmade
  exact ⟨_, _, calls, hmade, hlogged, hbatched, hcount.symm, rfl, rfl,
    fun batches' last' hcut hdone => hsame 20 20 0 16 batches' last' hcut rfl hdone⟩

end Batches
end ReadingBench
