import ReadingBench.Proofs.Rollup.Keyed

namespace ReadingBench.Rollup

open Sql Store Outcome

/-- The article of a read. -/
def readAid (row : Tuple) : Option String := (Keyspace.read.cell row "aid").asText?

/-- The number of an article's reads. -/
def readCount (reads : Table) (article : Tuple) : Nat :=
  reads.rows.toList.countP fun row => readAid row = aidOf article

/-- A row of the rollups has the name of an article and the number of its reads. -/
def Tallies (reads : Table) (article row : Tuple) : Prop :=
  ∃ aid, aidOf article = some aid ∧ Keyspace.beRead.cell row "aid" = .text aid ∧
    Keyspace.beRead.cell row "readNum" = .ofUInt64 (UInt64.ofNat (readCount reads article))

/-- The table of rollups has a row for each article, in their order. -/
def Tallied (articles reads stats : Table) : Prop :=
  List.Forall₂ (Tallies reads) articles.rows.toList stats.rows.toList

theorem Tallied.exists_aid {articles reads stats : Table} (h : Tallied articles reads stats) :
    ∀ article ∈ articles.rows.toList, ∃ aid, aidOf article = some aid := by
  have hboth := h.imp fun article row (hrow : Tallies reads article row) =>
    And.intro (hrow.imp fun _ => And.left) hrow
  exact ((List.forall₂_and_left _ _).1 hboth).1

theorem beq_text (v : Value) (s : String) : (v == .text s) = decide (v.asText? = some s) := by
  cases v with
  | text s => exact (decide_eq_decide.2 Option.some_inj).symm
  | null | int | float | dateTime | date => rfl

section Count

variable {articles reads : Table}

theorem length_readsOf (reads : Table) (aid : String) :
    (readsOf reads aid).length = reads.rows.toList.countP fun row => readAid row = some aid := by
  rw [readsOf, ← List.countP_eq_length_filter]
  exact List.countP_congr fun row _ => by rw [beq_text]; rfl

/-- Every read of a readable article has a uid. -/
theorem length_readUids {article : Tuple} (h : Readable reads article) (id : Nat) :
    (rollupOf reads id article).stats.readUids.length = readCount reads article := by
  obtain ⟨aid, flags, haid, hflags⟩ := h
  have hlength := (mapM_eq_ok.1 hflags).length_eq
  rw [List.length_map, length_readsOf] at hlength
  rw [rollupOf_eq haid hflags, readCount, haid, hlength]
  exact List.length_map _

theorem sum_countP_eq_length {α κ : Type} [DecidableEq κ] {f : α → κ} {keys : List κ} {xs : List α}
    (distinct : keys.Nodup) (known : ∀ x ∈ xs, f x ∈ keys) :
    (keys.map fun key => xs.countP (f · = key)).sum = xs.length := by
  have hcount : ∀ key, xs.countP (f · = key) = (xs.map f).count key := fun key =>
    (List.countP_map (f := f) (p := (· == key))).symm
  have hsum := Multiset.sum_count_eq_card (s := keys.toFinset) (m := (xs.map f : Multiset κ))
    (by simpa using known)
  rw [List.sum_toFinset _ distinct] at hsum
  simpa [hcount] using hsum

/-- The reads of all articles, if there are no others. -/
theorem sum_readCount (distinct : (articles.rows.toList.map aidOf).Nodup)
    (known : ∀ row ∈ reads.rows.toList, readAid row ∈ articles.rows.toList.map aidOf) :
    (articles.rows.toList.map (readCount reads)).sum = reads.rows.size := by
  have hsum := sum_countP_eq_length distinct known
  rw [List.map_map, Array.length_toList] at hsum
  exact hsum

theorem reads_reportOf (config : RollupConfig)
    (readable : ∀ row ∈ articles.rows.toList, Readable reads row) :
    (reportOf config (rollups articles reads)).reads =
      (articles.rows.toList.map (readCount reads)).sum := by
  rw [← map_rollups (f := fun b => b.stats.readUids.length) fun row hrow id =>
    length_readUids (readable row hrow) id]
  exact List.length_flatMap

end Count

section Empty

variable {articles reads before after : Table}

/-- In an empty table no rollup finds a row. -/
theorem Rolled.entries_of_empty {done : List BeRead} (h : Rolled before done after) (ht : before.Sound)
    (hspec : before.spec = Keyspace.beRead.spec) (empty : before.rows.size = 0) :
    after.rows.toList.map entry = done.map fun b => (.text b.aid, b.stats.values) := by
  have hfresh : fresh before done = done := by
    refine List.filter_eq_self.2 fun b _ => ?_
    cases hfound : found before b with
    | none => rfl
    | some pos =>
      have hlt := found_lt ht hspec hfound
      omega
  rw [h.entries, empty, hfresh]
  rfl

theorem Rolled.tallied (h : Rolled before (rollups articles reads) after) (ht : before.Sound)
    (hspec : before.spec = Keyspace.beRead.spec) (empty : before.rows.size = 0)
    (readable : ∀ row ∈ articles.rows.toList, Readable reads row) : Tallied articles reads after := by
  have hentries := h.entries_of_empty ht hspec empty
  rw [map_rollups (g := fun row => (.text (rollupOf reads 0 row).aid, (rollupOf reads 0 row).stats.values))
    fun _ _ _ => rfl, eq_comm, ← List.forall₂_eq_eq_eq, List.forall₂_map_left_iff,
    List.forall₂_map_right_iff] at hentries
  refine ((List.forall₂_and_left _ _).2 ⟨readable, hentries⟩).imp ?_
  rintro article row ⟨hreadable, hentry⟩
  obtain ⟨haid, hstats⟩ := Prod.mk.inj hentry
  have hcount : Value.ofUInt64 (UInt64.ofNat (rollupOf reads 0 article).stats.readUids.length) =
      Keyspace.beRead.cell row "readNum" := (List.cons.inj hstats).1
  exact ⟨_, hreadable.aidOf_eq 0, haid.symm, by rw [← hcount, length_readUids hreadable]⟩

/-- A run over distinct articles, into an empty table. -/
theorem tallied_run {config : RollupConfig} {server next : Server}
    (tables : HasTables server articles reads before) (ht : before.Sound) (empty : before.rows.size = 0)
    (distinct : (articles.rows.toList.map aidOf).Nodup) (hsize : articles.rows.size < 2 ^ 64)
    {report : RollupReport} (h : run config server = (.ok report, next)) :
    SameOthers server next ∧ report.articles = articles.rows.size ∧
      report.reads = (articles.rows.toList.map (readCount reads)).sum ∧
      ∃ after, next.table? Keyspace.beRead.table = some after ∧ after.spec = Keyspace.beRead.spec ∧
        Tallied articles reads after := by
  obtain ⟨readable, rfl, hothers, after, hafter, hupserted⟩ := run_upserted tables h
  have apart := pairwise_rollups hsize (map_aidOf readable) distinct
  have htallied := (hupserted.rolled ht tables.stats_spec apart).tallied ht tables.stats_spec empty readable
  refine ⟨hothers, ?_, reads_reportOf config readable, after, hafter,
    hupserted.spec_eq.trans tables.stats_spec, htallied⟩
  simp [reportOf, rollups]

end Empty

end ReadingBench.Rollup
