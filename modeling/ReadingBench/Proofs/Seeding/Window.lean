import ReadingBench.Proofs.Population.Spread
import ReadingBench.Proofs.Seeding.Referential

namespace ReadingBench.Seeding

open Sql Store Outcome Server ReferentialIndex

variable {s : Seeding} {server next : Server} {report : SeedReport}

/-- The time of the read is in the window of the configuration. -/
def InWindow (s : Seeding) (read : Read) : Prop :=
  s.config.baseTime.Within s.config.spreadDays.toInt read.timestamp

/-- One accepted candidate. -/
theorem inWindow_iff {index : ReferentialIndex} {source : ReadSource} {candidate : Nat}
    {state later : Reading} {read : Read} (days : 1 ≤ s.config.spreadDays.toInt)
    (wanted : 0 < s.config.reads.toNat) (hsource : s.readSource index = .ok source)
    (accepts : source.Accepts candidate read state later) :
    s.config.baseTime ≤ read.timestamp ∧
      (s.InWindow read ↔ (UInt64.ofNat candidate).toFloat < s.config.reads.toFloat) := by
  obtain ⟨⟨hbase, htotal, hspread, -⟩, -⟩ := readSource_eq_ok hsource
  have hfits := s.config.reads.toNat_lt
  have hwithin := accepts.within_iff (by rw [htotal]; exact wanted)
    (by rw [htotal]; exact hfits) (by rw [hspread]; exact days)
  rw [hbase, hspread, htotal, UInt64.ofNat_toNat] at hwithin
  exact hwithin

/-- All reads of a run. -/
theorem forall_inWindow_iff {index : ReferentialIndex} {reads : List Read} {last : Batches Reading}
    (days : 1 ≤ s.config.spreadDays.toInt) (small : s.config.reads.toNat ≤ 2 ^ 53)
    (fits : last.candidates < 2 ^ 64) (h : s.accepted index = .ok (reads, last)) :
    (∀ read ∈ reads, s.config.baseTime ≤ read.timestamp) ∧
      ((∀ read ∈ reads, s.InWindow read) ↔ last.candidates = reads.length) := by
  obtain ⟨source, hsource, hmade⟩ := bind_eq_ok.1 h
  obtain ⟨hoffered, hlength⟩ := Batches.offered_of_records hmade
  have hcount : reads.length = s.config.reads.toNat := hlength
  have hcandidates := hoffered.length_le_candidates
  have hstart : s.readBatches.candidates = 0 := rfl
  rw [hstart, Nat.zero_add] at hcandidates
  have haccepts : ∀ {candidate : Nat} {state later : Reading} {read : Read}, 0 < reads.length →
      candidate < last.candidates → source.Accepts candidate read state later →
        s.config.baseTime ≤ read.timestamp ∧ (s.InWindow read ↔ candidate < reads.length) := by
    intro candidate state later read hpos hbelow accepts
    have hwindow := inWindow_iff days (hcount ▸ hpos) hsource accepts
    rw [← UInt64.ofNat_toNat (x := s.config.reads), toFloat_lt_iff small (by omega), ← hcount] at hwindow
    exact hwindow
  have hread : ∀ read ∈ reads, ∃ candidate < last.candidates, ∃ state later,
      source.Accepts candidate read state later :=
    hoffered.forall_records fun candidate _ state _ later hbelow offer =>
      ⟨candidate, hbelow, state, later, ReadSource.accepts_of_accepted offer⟩
  refine ⟨fun read hmem => ?_, fun hwindow => ?_, fun hall read hmem => ?_⟩
  · obtain ⟨candidate, hbelow, state, later, accepts⟩ := hread read hmem
    exact (haccepts (List.length_pos_of_mem hmem) hbelow accepts).1
  · -- The last candidate was accepted, so its read tells whether all indexes were below the total.
    rcases Batches.endsAccepted_of_records hmade with ⟨rfl, rfl⟩ | ⟨read, hmem, candidate, id, state, later, offer, hlast⟩
    · rfl
    · have hbelow := ((haccepts (List.length_pos_of_mem hmem) (by omega)
        (ReadSource.accepts_of_accepted offer)).2).1 (hwindow read hmem)
      omega
  · obtain ⟨candidate, hbelow, state, later, accepts⟩ := hread read hmem
    exact ((haccepts (List.length_pos_of_mem hmem) hbelow accepts).2).2 (by omega)

/-- Every accepted candidate has its time from the base time on, and in the window exactly when its index
reads as less than the number of reads to accept. So the reads of a run that succeeds, dry or not, are all
in the window exactly when the run rejected no candidate. -/
theorem run_inWindow_iff {s : Seeding} (days : 1 ≤ s.config.spreadDays.toInt) :
    (∀ (index : ReferentialIndex) (source : ReadSource) (candidate id : Nat) (state later : Reading)
      (read : Read), 0 < s.config.reads.toNat → s.readSource index = .ok source →
      source.offer candidate id state = .accepted read later →
        s.config.baseTime ≤ read.timestamp ∧
          (s.InWindow read ↔ (UInt64.ofNat candidate).toFloat < s.config.reads.toFloat)) ∧
    ∀ (server next : Server) (report : SeedReport), s.run server = (.ok report, next) →
      s.config.reads.toNat ≤ 2 ^ 53 → report.readCandidates < 2 ^ 64 →
      ∃ index reads last, s.accepted index = .ok (reads, last) ∧ Counts report reads last ∧
        (s.config.readsOnly = false → ∃ users articles, s.population = .ok (users, articles, index)) ∧
        (s.config.readsOnly = true → server.Reachable → HasTables server →
          ∃ users articles, next.Lists users articles ∧ index = ofEntries users articles) ∧
        (∀ read ∈ reads, s.config.baseTime ≤ read.timestamp) ∧
        ((∀ read ∈ reads, s.InWindow read) ↔ report.readCandidates = report.reads) := by
  constructor
  · intro index source candidate id state later read wanted hsource offer
    exact inWindow_iff days wanted hsource (ReadSource.accepts_of_accepted offer)
  · intro server next report h small fits
    obtain ⟨index, reads, last, haccepted, hcounts, hfull, hstored⟩ := reads_of_run h
    rw [hcounts.candidates] at fits
    obtain ⟨hstart, hwindow⟩ := forall_inWindow_iff days small fits haccepted
    rw [← hcounts.candidates, ← hcounts.reads] at hwindow
    exact ⟨index, reads, last, haccepted, hcounts, hfull, hstored, hstart, hwindow⟩

theorem run_inWindow_samePair :
    (∃ (source : ReadSource) (read : Read) (state : Reading),
      samePair.readSource (ofEntries [("u0", .hongKong)] [("a0", .zh)]) = .ok source ∧
        source.offer 0 1 samePair.readBatches.state = .accepted read state ∧ samePair.InWindow read) ∧
    ∃ report next, ∃ reads : List Read, samePair.run vacant = (.ok report, next) ∧ reads.length = 2 ∧
      ∀ read ∈ reads, samePair.InWindow read := by
  have days : 1 ≤ samePair.config.spreadDays.toInt := by decide
  constructor
  · obtain ⟨source, hsource⟩ : ∃ source, samePair.readSource (ofEntries [("u0", .hongKong)] [("a0", .zh)]) =
        .ok source := ⟨_, rfl⟩
    have haccepted : (samePair.readSource (ofEntries [("u0", .hongKong)] [("a0", .zh)])).toOption.any
        (fun source => match source.offer 0 1 samePair.readBatches.state with
          | .accepted .. => true
          | _ => false) = true := by
      decide +kernel
    rw [hsource] at haccepted
    change (match source.offer 0 1 samePair.readBatches.state with
      | .accepted .. => true
      | _ => false) = true at haccepted
    cases hoffer : source.offer 0 1 samePair.readBatches.state with
    | accepted read state =>
      have hwindow := ((run_inWindow_iff days).1 _ source 0 1 samePair.readBatches.state state read (by decide)
        hsource hoffer).2
      exact ⟨source, read, state, hsource, hoffer, hwindow.2 (by decide +kernel)⟩
    | rejected state =>
      rw [hoffer] at haccepted
      cases haccepted
    | outOfRange =>
      rw [hoffer] at haccepted
      cases haccepted
  · have hcounts : (samePair.run vacant).1.toOption.map (fun report => (report.reads, report.readCandidates)) =
        some (2, 2) := by
      -- The text of a statement takes long to read in the kernel.
      unfold run perform loadReads loadQueued loadInline
      rw [insertReads_eq]
      decide +kernel
    rcases hrun : samePair.run vacant with ⟨halt | report, next⟩
    · rw [hrun] at hcounts
      cases hcounts
    · rw [hrun] at hcounts
      obtain ⟨hreads, hcandidates⟩ := Prod.mk.inj (Option.some.inj hcounts)
      obtain ⟨index, reads, last, haccepted, hcounted, -, -, -, hwindow⟩ :=
        (run_inWindow_iff days).2 vacant next report hrun (by decide) (by rw [hcandidates]; decide)
      exact ⟨report, next, reads, rfl, hcounted.reads.symm.trans hreads,
        hwindow.2 (hcandidates.trans hreads.symm)⟩

/-- One read on one day, for which the first candidate is rejected. -/
def lateRead : Seeding where
  config := { users := 1, articles := 1, reads := 1, spreadDays := 1, rngSeed := some 28 }
  retry := {}
  entropy := 0
  budget := 10

theorem not_inWindow_late : 1 ≤ lateRead.config.spreadDays.toInt ∧
    ∃ report next g, lateRead.run vacant = (.ok report, next) ∧ lateRead.generated = .ok g ∧
      g.reads.length = report.reads ∧ ∃ read ∈ g.reads, ¬lateRead.InWindow read := by
  refine ⟨by decide, ?_⟩
  have hmade : (lateRead.run vacant).1.toOption.isSome = true := by
    unfold run perform loadReads loadQueued loadInline
    rw [insertReads_eq]
    decide +kernel
  have hlate : lateRead.generated.toOption.map (fun g => g.reads.any fun read =>
      (lateRead.config.baseTime.addDays? lateRead.config.spreadDays.toInt).any fun stop =>
        decide (stop ≤ read.timestamp)) = some true := by
    decide +kernel
  rcases hrun : lateRead.run vacant with ⟨halt | report, next⟩
  · rw [hrun] at hmade
    cases hmade
  obtain ⟨index, reads, last, haccepted, hcounts, hfull, -⟩ := reads_of_run hrun
  obtain ⟨users, articles, hpopulation⟩ := hfull rfl
  have hgenerated := generated_of_accepted hpopulation haccepted
  refine ⟨report, next, _, rfl, hgenerated, hcounts.reads.symm, ?_⟩
  rw [hgenerated] at hlate
  obtain ⟨read, hread, hover⟩ := List.any_eq_true.1 (Option.some.inj hlate)
  obtain ⟨stop, hstop, hover⟩ := (Option.any_eq_true _ _).1 hover
  refine ⟨read, hread, fun hwindow => ?_⟩
  have hbefore := hwindow.before stop hstop
  rw [DateTime.lt_iff] at hbefore
  have hafter := DateTime.le_iff.1 (of_decide_eq_true hover)
  omega

end ReadingBench.Seeding
