import ReadingBench.Proofs.Population.Reach
import ReadingBench.Proofs.Seeding.Linked
import ReadingBench.Proofs.Seeding.Rebatched

namespace ReadingBench

open ReadingBench.Random Outcome

namespace Batches

variable {σ ρ : Type} {source : Source σ ρ} {budget : Nat} {b last : Batches σ} {records : List ρ}

/-- A candidate outside the calendar is reached while records are still to be accepted. -/
def Strays (source : Source σ ρ) (b : Batches σ) : Prop :=
  ∃ records last, Offered source b records last ∧ last.accepted < last.target ∧
    source last.candidates (last.accepted + 1) last.state = .outOfRange

/-- Candidates up to the last that is accepted, and those that are rejected after it. -/
theorem Offered.exists_drawn (h : Offered source b records last) :
    ∃ mid, Drawn source b records mid ∧ Offered source mid [] last := by
  induction h with
  | nil b => exact ⟨b, .nil b, .nil b⟩
  | @rejected b last state records offer rest ih =>
    cases records with
    | nil => exact ⟨b, .nil b, .rejected offer rest⟩
    | cons record records =>
      obtain ⟨mid, hdrawn, hafter⟩ := ih
      exact ⟨mid, .rejected offer hdrawn, hafter⟩
  | accepted offer _ ih =>
    obtain ⟨mid, hdrawn, hafter⟩ := ih
    exact ⟨mid, .accepted offer hdrawn, hafter⟩

/-- Candidates up to some record, and those that come after it. -/
theorem Offered.split (first : List ρ) {second : List ρ} (h : Offered source b (first ++ second) last) :
    ∃ mid, Drawn source b first mid ∧ Offered source mid second last := by
  obtain ⟨end', hdrawn, hafter⟩ := h.exists_drawn
  obtain ⟨mid, hfirst, hsecond⟩ := hdrawn.split first
  refine ⟨mid, hfirst, ?_⟩
  rw [← List.append_nil second]
  exact hsecond.offered.append hafter

/-- A batch is not filled that a candidate outside the calendar comes in the way of. -/
theorem Offered.fill_eq {room : Nat} (h : Offered source b records last) (few : records.length < room)
    (out : source last.candidates (last.accepted + 1) last.state = .outOfRange)
    (enough : last.candidates < b.candidates + budget) (done : List ρ) :
    fill source budget room done b = .outOfRange := by
  induction h generalizing budget room done with
  | nil b =>
    obtain ⟨budget, rfl⟩ : ∃ n, budget = n + 1 := ⟨budget - 1, by omega⟩
    obtain ⟨room, rfl⟩ : ∃ n, room = n + 1 := ⟨room - 1, by omega⟩
    rw [fill, out]
  | rejected offer rest ih =>
    have hlater := rest.length_le_candidates
    dsimp only at hlater
    obtain ⟨budget, rfl⟩ : ∃ n, budget = n + 1 := ⟨budget - 1, by omega⟩
    obtain ⟨room, rfl⟩ : ∃ n, room = n + 1 := ⟨room - 1, by omega⟩
    rw [fill, offer]
    exact ih few out (by dsimp only; omega) done
  | accepted offer rest ih =>
    have hlater := rest.length_le_candidates
    dsimp only at hlater
    rw [List.length_cons] at few
    obtain ⟨budget, rfl⟩ : ∃ n, budget = n + 1 := ⟨budget - 1, by omega⟩
    obtain ⟨room, rfl⟩ : ∃ n, room = n + 1 := ⟨room - 1, by omega⟩
    rw [fill, offer]
    exact ih (by omega) out (by dsimp only; omega) _

theorem offered_of_fill_outOfRange {room : Nat} {done : List ρ}
    (h : fill source budget room done b = .outOfRange) : ∃ records last, Offered source b records last ∧
      records.length < room ∧ source last.candidates (last.accepted + 1) last.state = .outOfRange := by
  induction budget generalizing room done b with
  | zero =>
    cases room with
    | zero => cases h
    | succ room => cases h
  | succ budget ih =>
    cases room with
    | zero => cases h
    | succ room =>
      rw [fill] at h
      cases hoffer : source b.candidates (b.accepted + 1) b.state with
      | outOfRange => exact ⟨[], b, .nil b, Nat.succ_pos room, hoffer⟩
      | rejected state =>
        rw [hoffer] at h
        obtain ⟨records, last, hoffered, hfew, hout⟩ := ih h
        exact ⟨records, last, .rejected hoffer hoffered, hfew, hout⟩
      | accepted record state =>
        rw [hoffer] at h
        obtain ⟨records, last, hoffered, hfew, hout⟩ := ih h
        exact ⟨record :: records, last, .accepted hoffer hoffered, Nat.succ_lt_succ hfew, hout⟩

/-- The batches before the stray candidate are made, and then making them stops. -/
theorem Offered.all_eq (h : Offered source b records last) (before : last.accepted < last.target)
    (out : source last.candidates (last.accepted + 1) last.state = .outOfRange) (fits : b.Fits)
    (enough : last.candidates < b.candidates + budget) : (b.all source budget).2 = .error .outOfRange := by
  induction hleft : b.remaining using Nat.strong_induction_on generalizing b records with
  | _ left ih =>
    have haccepted := h.accepted_eq
    have htarget := h.target_eq
    have more : b.accepted < b.target := by omega
    by_cases hfew : records.length < b.nextSize
    · have hpull : b.pull source budget = .outOfRange := by
        rw [pull, if_neg (not_le.2 more), if_neg (not_lt.2 fits)]
        exact h.fill_eq hfew out enough []
      rw [all_of_ending hpull fun _ _ hbatch => by cases hbatch]
      rfl
    · rw [← List.take_append_drop b.nextSize records] at h
      obtain ⟨mid, hfirst, hrest⟩ := h.split (records.take b.nextSize)
      have hlater := hrest.length_le_candidates
      have hearlier := hfirst.offered.length_le_candidates
      have hpull : b.pull source budget = .batch (records.take b.nextSize) mid :=
        pull_of_drawn hfirst more (List.length_take_of_le (not_lt.1 hfew)) fits (by omega)
      obtain ⟨-, hne, hcount⟩ := offered_of_pull hpull
      have hpos := List.length_pos_of_ne_nil hne
      rw [all_of_batch hpull]
      exact ih mid.remaining (by omega) hrest (fits.of_pull hpull) (by omega) rfl

theorem Strays.exists_all (h : Strays source b) (fits : b.Fits) :
    ∃ enough, ∀ budget, enough ≤ budget → (b.all source budget).2 = .error .outOfRange := by
  obtain ⟨records, last, hoffered, before, out⟩ := h
  exact ⟨last.candidates + 1, fun budget hbudget => hoffered.all_eq before out fits (by omega)⟩

/-- Where there is room for a batch and still none can be pulled, a candidate strays. -/
theorem strays_of_pull (fits : b.Fits) (h : b.pull source budget = .outOfRange) : Strays source b := by
  unfold pull at h
  split at h
  · cases h
  split at h
  · next hover => exact absurd fits (not_le.2 hover)
  obtain ⟨records, last, hoffered, hfew, out⟩ := offered_of_fill_outOfRange h
  have haccepted := hoffered.accepted_eq
  have htarget := hoffered.target_eq
  unfold nextSize at hfew
  exact ⟨records, last, hoffered, by omega, out⟩

/-- What strays behind records that can be drawn. -/
theorem Strays.of_drawn (h : Strays source last) (hdrawn : Drawn source b records last) :
    Strays source b := by
  obtain ⟨later, last', hlater, before, out⟩ := h
  exact ⟨_, last', hdrawn.offered.append hlater, before, out⟩

theorem strays_of_all (fits : b.Fits) (h : (b.all source budget).2 = .error .outOfRange) :
    Strays source b := by
  obtain ⟨last, hpulls, ⟨hlast, -⟩ | ⟨-, hpull⟩ | ⟨hlast, -⟩⟩ := exists_pulls_all source budget b
  · cases h.symm.trans hlast
  · exact (strays_of_pull (hpulls.fits fits) hpull).of_drawn hpulls.drawn
  · cases h.symm.trans hlast

theorem Offered.candidates_eq (h : Offered source b records last)
    (steady : ∀ index id state next, source index id state ≠ .rejected next) :
    last.candidates = b.candidates + records.length := by
  induction h with
  | nil b => rfl
  | rejected offer _ _ => exact absurd offer (steady _ _ _ _)
  | accepted _ _ ih =>
    rw [ih, List.length_cons]
    dsimp only
    omega

/-- Where no candidate is rejected, the stray one has the place of a record that is asked for. -/
theorem Strays.exists_index {state : σ} {target size width : Nat}
    (steady : ∀ index id state next, source index id state ≠ .rejected next)
    (h : Strays source (.start state target size width)) :
    ∃ index < target, ∃ id state, source index id state = .outOfRange := by
  obtain ⟨records, last, hoffered, before, out⟩ := h
  have hsame : last.candidates = last.accepted :=
    (hoffered.candidates_eq steady).trans hoffered.accepted_eq.symm
  exact ⟨last.candidates, hsame ▸ before.trans_eq hoffered.target_eq, _, _, out⟩

/-- Where no candidate is rejected, either all records can be drawn or a candidate strays. -/
theorem exists_drawn_of_steady (steady : ∀ index id state next, source index id state ≠ .rejected next)
    (inside : ¬Strays source b) : ∃ records last, Drawn source b records last ∧
      records.length = b.remaining := by
  induction hleft : b.remaining generalizing b with
  | zero => exact ⟨[], b, .nil b, rfl⟩
  | succ left ih =>
    unfold remaining at hleft
    cases hoffer : source b.candidates (b.accepted + 1) b.state with
    | outOfRange => exact absurd ⟨[], b, .nil b, by omega, hoffer⟩ inside
    | rejected state => exact absurd hoffer (steady _ _ _ _)
    | accepted record state =>
      have hinside : ¬Strays source
          { b with state, candidates := b.candidates + 1, accepted := b.accepted + 1 } := by
        rintro ⟨records, last, hoffered, before, out⟩
        exact inside ⟨_, last, .accepted hoffer hoffered, before, out⟩
      obtain ⟨records, last, hdrawn, hlength⟩ := ih hinside (by unfold remaining; dsimp only; omega)
      exact ⟨record :: records, last, .accepted hoffer hdrawn, by rw [List.length_cons, hlength]⟩

/-- Making batches fails in two ways only. -/
theorem all_ne_failed (e : RunError) : (b.all source budget).2 ≠ .error (.failed e) := by
  obtain ⟨last, -, ⟨hlast, -⟩ | ⟨hlast, -⟩ | ⟨hlast, -⟩⟩ := exists_pulls_all source budget b
  all_goals
    rw [hlast]
    nofun

/-- Making batches stops short, given enough candidates to try: there is no room for a batch, or a candidate
strays. -/
def Breaks (source : Source σ ρ) (b : Batches σ) : Prop := ¬b.Fits ∨ Strays source b

/-- All records can be drawn, and this is the state after them. -/
def Completes (source : Source σ ρ) (b last : Batches σ) : Prop :=
  ∃ records, Drawn source b records last ∧ records.length = b.remaining

theorem made_eq_error {halt : Halt} :
    b.made source budget = .error halt ↔ (b.all source budget).2 = .error halt := by
  rw [made]
  rcases (b.all source budget).2 with h | last
  · exact ⟨fun hmade => congrArg _ (Except.error.inj hmade), fun hall => congrArg _ (Except.error.inj hall)⟩
  · exact iff_of_false (fun hmade => by cases hmade) fun hall => by cases hall

theorem Breaks.exists_made (h : Breaks source b) :
    ∃ enough, ∀ budget, enough ≤ budget → b.made source budget = .error .outOfRange := by
  by_cases fits : b.Fits
  · obtain ⟨enough, hall⟩ := (h.resolve_left (not_not.2 fits)).exists_all fits
    exact ⟨enough, fun budget hbudget => made_eq_error.2 (hall budget hbudget)⟩
  · exact ⟨0, fun _ _ => made_of_overfull fits⟩

theorem completes_of_made {count : Nat} (h : b.made source budget = .ok (count, last)) :
    b.Fits ∧ Completes source b last := by
  obtain ⟨hall, -⟩ := made_eq_ok h
  exact ⟨fits_of_all hall, _, drawn_of_collect hall, length_flatten_all hall⟩

theorem Completes.exists_made (h : Completes source b last) (fits : b.Fits) :
    ∃ enough, ∀ budget, enough ≤ budget → ∃ count, b.made source budget = .ok (count, last) := by
  obtain ⟨records, hdrawn, hlength⟩ := h
  exact ⟨last.candidates, fun budget hbudget =>
    ⟨_, made_of_drawn hdrawn hlength fits (hbudget.trans (Nat.le_add_left _ _))⟩⟩

theorem Completes.unique {last' : Batches σ} (h : Completes source b last) (h' : Completes source b last')
    (fits : b.Fits) : last = last' := by
  obtain ⟨enough, hmade⟩ := h.exists_made fits
  obtain ⟨enough', hmade'⟩ := h'.exists_made fits
  obtain ⟨count, hcount⟩ := hmade (max enough enough') (le_max_left _ _)
  obtain ⟨count', hcount'⟩ := hmade' (max enough enough') (le_max_right _ _)
  exact (Prod.mk.inj (Except.ok.inj (hcount.symm.trans hcount'))).2

theorem Completes.not_strays (h : Completes source b last) (fits : b.Fits) : ¬Strays source b := by
  intro strays
  obtain ⟨enough, hmade⟩ := h.exists_made fits
  obtain ⟨enough', hstops⟩ := Breaks.exists_made (.inr strays)
  obtain ⟨count, hcount⟩ := hmade (max enough enough') (le_max_left _ _)
  cases hcount.symm.trans (hstops _ (le_max_right _ _))

end Batches

/-- Where the calendar ends, in seconds from any time of it. -/
theorem DateTime.seconds_lt {t u : DateTime} {n : Int} (h : t.addSeconds? n = some u) : n < 86400 * 2 ^ 28 := by
  by_contra hfar
  obtain ⟨v, hv⟩ := DateTime.exists_addSeconds? (by omega) (not_lt.1 hfar) h
  exact absurd (DateTime.days_lt (n := 2 ^ 28) hv) (lt_irrefl _)

section Calendar

variable {s : Seeding} {dists : Distributions} {index : ReferentialIndex}

theorem signedWord_eq {n : Nat} (h : n < 2 ^ 63) : signedWord n = n := by
  rw [signedWord, UInt64.toInt64_ofNat', Int64.toInt_ofNat_of_lt h]

namespace Seeding

/-- Users come a second apart, so none strays if the last one does not. -/
theorem strays_users_iff : Batches.Strays (s.userSource dists).offer s.userBatches ↔
    0 < s.config.users.toNat ∧ s.config.baseTime.addSeconds? (s.config.users.toNat - 1 : Nat) = none := by
  have steady : ∀ index id state next, (s.userSource dists).offer index id state ≠ .rejected next :=
    fun _ _ _ _ => UserSource.offer_ne_rejected
  constructor
  · intro h
    obtain ⟨index, hindex, id, state, out⟩ :
        ∃ index < s.config.users.toNat, ∃ id state, (s.userSource dists).offer index id state = .outOfRange :=
      h.exists_index steady
    refine ⟨by omega, ?_⟩
    by_contra hlate
    obtain ⟨late, hlate⟩ := Option.ne_none_iff_exists'.1 hlate
    have hend := DateTime.seconds_lt hlate
    rw [UserSource.offer_eq_outOfRange, signedWord_eq (by omega)] at out
    obtain ⟨time, htime⟩ : ∃ time, s.config.baseTime.addSeconds? index = some time := by
      rcases Nat.eq_zero_or_pos index with hfirst | hpos
      · rw [hfirst]
        exact ⟨_, rfl⟩
      · exact DateTime.exists_addSeconds? (by exact_mod_cast hpos) (by omega) hlate
    cases out.symm.trans htime
  · rintro ⟨pos, late⟩
    by_contra inside
    obtain ⟨records, last, hdrawn, hlength⟩ := Batches.exists_drawn_of_steady steady inside
    have hall : records.length = s.config.users.toNat := hlength.trans (Nat.sub_zero _)
    have htime : ∀ index < s.config.users.toNat, ∃ time,
        s.config.baseTime.addSeconds? (signedWord index) = some time := fun index hindex => by
      obtain ⟨id, state, user, next, hoffer⟩ := hdrawn.offered.exists_offer steady index (Nat.zero_le _)
        (by rw [hall]; exact hindex.trans_eq (Nat.zero_add _).symm)
      have hinside := UserSource.exists_time hoffer
      exact hinside
    by_cases hfew : s.config.users.toNat - 1 < 2 ^ 63
    · obtain ⟨time, htime⟩ := htime (s.config.users.toNat - 1) (by omega)
      rw [signedWord_eq hfew] at htime
      cases late.symm.trans htime
    · obtain ⟨time, htime⟩ := htime (86400 * 2 ^ 28) (by omega)
      rw [signedWord_eq (by decide)] at htime
      exact absurd (DateTime.seconds_lt htime) (lt_irrefl _)

/-- None strays where the calendar reaches one day further than all articles are spread. -/
theorem not_strays_of_reach {stop : DateTime} (long : 1 ≤ s.config.spreadDays.toInt)
    (reach : s.config.baseTime.addDays? (s.config.spreadDays.toInt + 1) = some stop) :
    ¬Batches.Strays (s.articleSource dists).offer (s.articleBatches index) := by
  intro h
  obtain ⟨i, hi, id, state, out⟩ := h.exists_index fun _ _ _ _ => ArticleSource.offer_ne_rejected
  obtain ⟨article, next, hoffer⟩ := (s.articleSource dists).exists_accepted s.config.articles.toNat_lt long reach
    hi id state
  cases out.symm.trans hoffer

end Seeding

end Calendar

/-- The run that a configuration asks for. -/
def Config.seeding (c : Config) (entropy : Entropy) (budget : Nat) : Seeding :=
  ⟨c.seed, c.retry, entropy, budget⟩

namespace Seeding

open Batches

/-- The same run with another budget. -/
def patient (s : Seeding) (budget : Nat) : Seeding := { s with budget }

/-- Where a run that makes all its records reaches a time outside the calendar. -/
inductive Strays (s : Seeding) : Prop where
  | users (pos : 0 < s.config.users.toNat)
      (late : s.config.baseTime.addSeconds? (s.config.users.toNat - 1 : Nat) = none)
  | articles {dists : Distributions} {grown : Batches Growing} (standard : Distributions.standard = .ok dists)
      (users : Completes (s.userSource dists).offer s.userBatches grown)
      (h : Batches.Strays (s.articleSource dists).offer (s.articleBatches grown.state.index))
  | reads {dists : Distributions} {grown grown' : Batches Growing} {source : ReadSource}
      (standard : Distributions.standard = .ok dists)
      (users : Completes (s.userSource dists).offer s.userBatches grown)
      (articles : Completes (s.articleSource dists).offer (s.articleBatches grown.state.index) grown')
      (drawing : s.readSource grown'.state.index = .ok source)
      (h : Batches.Strays source.offer s.readBatches)

variable {s : Seeding} {dists : Distributions} {grown grown' : Batches Growing} {source : ReadSource}

theorem readSource_ne_outOfRange (index : ReferentialIndex) :
    s.readSource index ≠ .error .outOfRange := by
  unfold readSource
  cases s.config.readsOnly with
  | true =>
    simp only [if_true]
    split <;> simp
  | false =>
    simp only [Bool.false_eq_true, if_false]
    split <;> simp

section Stages

variable {halt : Halt} {n n' n'' : Nat} {last : Batches Reading} (full : s.config.readsOnly = false)
  (standard : Distributions.standard = .ok dists)

include full standard

/-- A dry run stops where the users do. -/
theorem dryRun_of_users (h : s.userBatches.made (s.userSource dists).offer s.budget = .error halt) :
    s.dryRun = .error halt := by
  rw [dryRun_eq full]
  simp only [populated, standard, h, ok_bind, error_bind]

variable (husers : s.userBatches.made (s.userSource dists).offer s.budget = .ok (n, grown))

include husers

/-- It stops where the articles do, once the users are made. -/
theorem dryRun_of_articles
    (h : (s.articleBatches grown.state.index).made (s.articleSource dists).offer s.budget = .error halt) :
    s.dryRun = .error halt := by
  rw [dryRun_eq full]
  simp only [populated, standard, husers, h, ok_bind, error_bind]

variable (harticles : (s.articleBatches grown.state.index).made (s.articleSource dists).offer s.budget =
  .ok (n', grown'))

include harticles

/-- Then it stops where the reads do. -/
theorem dryRun_of_readsMade (h : s.readsMade grown'.state.index = .error halt) : s.dryRun = .error halt := by
  rw [dryRun_eq full]
  simp only [populated, standard, husers, harticles, h, ok_bind, error_bind, pure_bind]

theorem dryRun_of_reads (h : s.readsMade grown'.state.index = .ok (n'', last)) :
    ∃ report, s.dryRun = .ok report := by
  rw [dryRun_eq full]
  simp only [populated, standard, husers, harticles, h, ok_bind, pure_bind]
  exact ⟨_, rfl⟩

end Stages

/-- Where a dry run stops early, one of its three kinds of records does. -/
theorem made_of_dryRun {halt : Halt} (full : s.config.readsOnly = false) (h : s.dryRun = .error halt) :
    ∃ dists, Distributions.standard = .ok dists ∧
      (s.userBatches.made (s.userSource dists).offer s.budget = .error halt ∨
        ∃ n grown, s.userBatches.made (s.userSource dists).offer s.budget = .ok (n, grown) ∧
          ((s.articleBatches grown.state.index).made (s.articleSource dists).offer s.budget = .error halt ∨
            ∃ n' grown', (s.articleBatches grown.state.index).made (s.articleSource dists).offer s.budget =
              .ok (n', grown') ∧ s.readsMade grown'.state.index = .error halt)) := by
  obtain ⟨dists, hdists⟩ : ∃ dists, Distributions.standard = .ok dists := exists_eq_ok (by decide +kernel)
  refine ⟨dists, hdists, ?_⟩
  rcases husers : s.userBatches.made (s.userSource dists).offer s.budget with halt' | ⟨n, grown⟩
  · rw [dryRun_of_users full hdists husers] at h
    obtain rfl := Except.error.inj h
    exact .inl rfl
  rcases harticles : (s.articleBatches grown.state.index).made (s.articleSource dists).offer s.budget with
    halt' | ⟨n', grown'⟩
  · rw [dryRun_of_articles full hdists husers harticles] at h
    obtain rfl := Except.error.inj h
    exact .inr ⟨n, grown, rfl, .inl harticles⟩
  rcases hreads : s.readsMade grown'.state.index with halt' | ⟨n'', last⟩
  · rw [dryRun_of_readsMade full hdists husers harticles hreads] at h
    obtain rfl := Except.error.inj h
    exact .inr ⟨n, grown, rfl, .inr ⟨n', grown', harticles, hreads⟩⟩
  · obtain ⟨report, hreport⟩ := dryRun_of_reads full hdists husers harticles hreads
    cases hreport.symm.trans h

theorem readsMade_eq_error {index : ReferentialIndex} {halt : Halt} (h : s.readsMade index = .error halt) :
    s.readSource index = .error halt ∨ ∃ source, s.readSource index = .ok source ∧
      s.readBatches.made source.offer s.budget = .error halt := by
  unfold readsMade at h
  rcases hsource : s.readSource index with halt' | source
  · rw [hsource] at h
    obtain rfl := Except.error.inj h
    exact .inl rfl
  · rw [hsource] at h
    exact .inr ⟨source, rfl, h⟩

/-- Where there is room for all batches, a dry run leaves a range only if it reaches a time outside the
calendar. -/
theorem strays_of_dryRun (full : s.config.readsOnly = false) (fits : s.config.Fits)
    (h : s.dryRun = .error .outOfRange) : s.Strays := by
  obtain ⟨dists, standard, husers | ⟨n, grown, husers, h⟩⟩ := made_of_dryRun full h
  · obtain ⟨pos, late⟩ := strays_users_iff.1 (strays_of_all (fits.users full) (made_eq_error.1 husers))
    exact .users pos late
  have users := (completes_of_made husers).2
  rcases h with harticles | ⟨n', grown', harticles, hreads⟩
  · exact .articles standard users (strays_of_all (fits.articles full) (made_eq_error.1 harticles))
  rcases readsMade_eq_error hreads with hnobody | ⟨source, drawing, hreads⟩
  · exact absurd hnobody (readSource_ne_outOfRange _)
  · exact .reads standard users (completes_of_made harticles).2 drawing
      (strays_of_all fits.reads (made_eq_error.1 hreads))

theorem Strays.patient (h : s.Strays) (budget : Nat) : (s.patient budget).Strays := by
  cases h with
  | users pos late => exact .users pos late
  | articles standard users h => exact .articles standard users h
  | reads standard users articles drawing h => exact .reads standard users articles drawing h

/-- A dry run that succeeds has met all that it could meet. -/
theorem not_strays_of_dryRun {report : SeedReport} (full : s.config.readsOnly = false)
    (h : s.dryRun = .ok report) : ¬s.Strays := by
  obtain ⟨dists, hdists⟩ : ∃ dists, Distributions.standard = .ok dists := exists_eq_ok (by decide +kernel)
  rcases husers : s.userBatches.made (s.userSource dists).offer s.budget with halt | ⟨n, grown⟩
  · cases (dryRun_of_users full hdists husers).symm.trans h
  rcases harticles : (s.articleBatches grown.state.index).made (s.articleSource dists).offer s.budget with
    halt | ⟨n', grown'⟩
  · cases (dryRun_of_articles full hdists husers harticles).symm.trans h
  rcases hreads : s.readsMade grown'.state.index with halt | ⟨n'', last⟩
  · cases (dryRun_of_readsMade full hdists husers harticles hreads).symm.trans h
  obtain ⟨fits, users⟩ := completes_of_made husers
  obtain ⟨fits', articles⟩ := completes_of_made harticles
  intro strays
  cases strays with
  | users pos late => exact users.not_strays fits (strays_users_iff.2 ⟨pos, late⟩)
  | articles standard users' strays =>
    obtain rfl := Except.ok.inj (hdists.symm.trans standard)
    obtain rfl := users.unique users' fits
    exact articles.not_strays fits' strays
  | reads standard users' articles' drawing strays =>
    obtain rfl := Except.ok.inj (hdists.symm.trans standard)
    obtain rfl := users.unique users' fits
    obtain rfl := articles.unique articles' fits'
    rw [readsMade, drawing, ok_bind] at hreads
    obtain ⟨fits'', reads⟩ := completes_of_made hreads
    exact reads.not_strays fits'' strays

section Patient

variable (full : s.config.readsOnly = false) (standard : Distributions.standard = .ok dists)

include full standard

theorem exists_dryRun_of_users (h : Breaks (s.userSource dists).offer s.userBatches) :
    ∃ budget, (s.patient budget).dryRun = .error .outOfRange := by
  obtain ⟨enough, hstops⟩ := h.exists_made
  exact ⟨enough, dryRun_of_users (s := s.patient enough) full standard (hstops enough le_rfl)⟩

variable (users : Completes (s.userSource dists).offer s.userBatches grown)

include users

theorem exists_dryRun_of_articles
    (h : Breaks (s.articleSource dists).offer (s.articleBatches grown.state.index)) :
    ∃ budget, (s.patient budget).dryRun = .error .outOfRange := by
  by_cases fits : s.userBatches.Fits
  · obtain ⟨enough, hmade⟩ := users.exists_made fits
    obtain ⟨enough', hstops⟩ := h.exists_made
    obtain ⟨n, husers⟩ := hmade (max enough enough') (le_max_left _ _)
    exact ⟨_, dryRun_of_articles (s := s.patient (max enough enough')) full standard husers
      (hstops _ (le_max_right _ _))⟩
  · exact exists_dryRun_of_users full standard (.inl fits)

theorem exists_dryRun_of_reads
    (articles : Completes (s.articleSource dists).offer (s.articleBatches grown.state.index) grown')
    (drawing : s.readSource grown'.state.index = .ok source) (h : Breaks source.offer s.readBatches) :
    ∃ budget, (s.patient budget).dryRun = .error .outOfRange := by
  by_cases fits : s.userBatches.Fits
  · by_cases fits' : (s.articleBatches grown.state.index).Fits
    · obtain ⟨enough, hmade⟩ := users.exists_made fits
      obtain ⟨enough', hmade'⟩ := articles.exists_made fits'
      obtain ⟨enough'', hstops⟩ := h.exists_made
      obtain ⟨budget, hfirst, hsecond, hthird⟩ :
          ∃ budget, enough ≤ budget ∧ enough' ≤ budget ∧ enough'' ≤ budget :=
        ⟨max enough (max enough' enough''), by omega⟩
      obtain ⟨n, husers⟩ := hmade budget hfirst
      obtain ⟨n', harticles⟩ := hmade' budget hsecond
      have hreads : (s.patient budget).readsMade grown'.state.index = .error .outOfRange := by
        have hsource : (s.patient budget).readSource grown'.state.index = .ok source := drawing
        rw [readsMade, hsource]
        exact hstops budget hthird
      exact ⟨budget, dryRun_of_readsMade (s := s.patient budget) full standard husers harticles hreads⟩
    · exact exists_dryRun_of_articles full standard users (.inl fits')
  · exact exists_dryRun_of_users full standard (.inl fits)

end Patient

theorem exists_dryRun_of_strays (full : s.config.readsOnly = false) (h : s.Strays) :
    ∃ budget, (s.patient budget).dryRun = .error .outOfRange := by
  cases h with
  | users pos late =>
    obtain ⟨dists, hdists⟩ : ∃ dists, Distributions.standard = .ok dists := exists_eq_ok (by decide +kernel)
    exact exists_dryRun_of_users full hdists (.inr (strays_users_iff.2 ⟨pos, late⟩))
  | articles standard users h => exact exists_dryRun_of_articles full standard users (.inr h)
  | reads standard users articles drawing h =>
    exact exists_dryRun_of_reads full standard users articles drawing (.inr h)

/-- The first batch that there is no room for is reached, or a time outside the calendar is before. -/
theorem exists_dryRun_of_not_fits (full : s.config.readsOnly = false)
    (drawing : ∀ index, ∃ source, s.readSource index = .ok source) (h : ¬s.config.Fits) :
    ∃ budget, (s.patient budget).dryRun = .error .outOfRange := by
  obtain ⟨dists, hdists⟩ : ∃ dists, Distributions.standard = .ok dists := exists_eq_ok (by decide +kernel)
  by_cases strays : s.Strays
  · exact exists_dryRun_of_strays full strays
  by_cases fits : s.userBatches.Fits
  · obtain ⟨users, grown, husers, hlength⟩ := exists_drawn_of_steady
      (fun _ _ _ _ => UserSource.offer_ne_rejected)
      fun h => strays (.users (strays_users_iff.1 h).1 (strays_users_iff.1 h).2)
    by_cases fits' : (s.articleBatches grown.state.index).Fits
    · obtain ⟨articles, grown', harticles, hlength'⟩ := exists_drawn_of_steady
        (fun _ _ _ _ => ArticleSource.offer_ne_rejected)
        fun h => strays (.articles hdists ⟨users, husers, hlength⟩ h)
      obtain ⟨source, hsource⟩ := drawing grown'.state.index
      exact exists_dryRun_of_reads full hdists ⟨users, husers, hlength⟩ ⟨articles, harticles, hlength'⟩ hsource
        (.inl fun fits'' => h ⟨fun _ => fits, fun _ => fits', fits''⟩)
    · exact exists_dryRun_of_articles full hdists ⟨users, husers, hlength⟩ (.inl fits')
  · exact exists_dryRun_of_users full hdists (.inl fits)

end Seeding

namespace Config

variable {c : Config}

theorem fault?_eq_none (valid : c.validate = .ok ()) : c.fault? = none := by
  unfold validate at valid
  cases hfault : c.fault? with
  | none => rfl
  | some fault =>
    rw [hfault] at valid
    cases valid

/-- A valid configuration that asks for reads asks for somebody to read them. -/
theorem exists_readSource (valid : c.validate = .ok ()) (full : c.seed.readsOnly = false) (entropy : Entropy)
    (budget : Nat) (index : ReferentialIndex) :
    ∃ source, (c.seeding entropy budget).readSource index = .ok source := by
  have hnobody : ¬(0 < c.seed.reads ∧ (c.seed.users = 0 ∨ c.seed.articles = 0)) := by
    intro hnobody
    have hnone := fault?_eq_none valid
    unfold fault? at hnone
    rw [if_pos hnobody] at hnone
    split at hnone
    · cases hnone
    split at hnone <;> cases hnone
  have hstored : (c.seeding entropy budget).config.readsOnly = false := full
  unfold Seeding.readSource
  simp only [hstored, Bool.false_eq_true, if_false]
  rw [if_neg]
  · exact ⟨_, rfl⟩
  · rintro ⟨hreads, hnone⟩
    exact hnobody ⟨hreads, hnone.imp UInt64.toNat_inj.1 UInt64.toNat_inj.1⟩

/-- A valid configuration runs dry without an error. -/
theorem dryRun_ne_failed (valid : c.validate = .ok ()) (full : c.seed.readsOnly = false) (entropy : Entropy)
    (budget : Nat) (e : RunError) : (c.seeding entropy budget).dryRun ≠ .error (.failed e) := by
  intro h
  obtain ⟨dists, -, husers | ⟨n, grown, -, harticles | ⟨n', grown', -, hreads⟩⟩⟩ :=
    Seeding.made_of_dryRun full h
  · exact Batches.all_ne_failed e (Batches.made_eq_error.1 husers)
  · exact Batches.all_ne_failed e (Batches.made_eq_error.1 harticles)
  rcases Seeding.readsMade_eq_error hreads with hnobody | ⟨source, -, hreads⟩
  · obtain ⟨source, hsource⟩ := exists_readSource valid full entropy budget grown'.state.index
    cases hnobody.symm.trans hsource
  · exact Batches.all_ne_failed e (Batches.made_eq_error.1 hreads)

/-- A valid configuration runs dry without an error. It leaves a range exactly where it asks for a batch that
there is no room for, or for a time outside the calendar. -/
theorem dryRun_outOfRange_iff (valid : c.validate = .ok ()) (full : c.seed.readsOnly = false)
    (entropy : Entropy) : (∀ budget e, (c.seeding entropy budget).dryRun ≠ .error (.failed e)) ∧
      ((∃ budget, (c.seeding entropy budget).dryRun = .error .outOfRange) ↔
        ¬c.seed.Fits ∨ (c.seeding entropy 0).Strays) := by
  refine ⟨dryRun_ne_failed valid full entropy, ?_, ?_⟩
  · rintro ⟨budget, h⟩
    refine or_iff_not_imp_left.2 fun fits => ?_
    exact (Seeding.strays_of_dryRun full (not_not.1 fits) h).patient 0
  · rintro (overfull | strays)
    · exact Seeding.exists_dryRun_of_not_fits (s := c.seeding entropy 0) full
        (exists_readSource valid full entropy 0) overfull
    · exact Seeding.exists_dryRun_of_strays full strays

/-- Two articles, the second of them half of the days after the first. -/
def farApart : Config where
  seed := { users := 0, articles := 2, reads := 0, spreadDays := 1000000000, rngSeed := some 7 }

theorem not_runs_farApart : farApart.validate = .ok () ∧ farApart.seed.readsOnly = false ∧
    (farApart.seeding 0 2).dryRun = .error .outOfRange := by
  decide +kernel

theorem dryRun_outOfRange_farApart : farApart.validate = .ok () ∧ (farApart.seeding 0 0).Strays := by
  refine ⟨by decide, ?_⟩
  have hboth := (dryRun_outOfRange_iff (c := farApart) (by decide) rfl 0).2.1 ⟨2, by decide +kernel⟩
  exact hboth.resolve_left (not_not.2 ⟨by decide, by decide, by decide⟩)

end Config
end ReadingBench
