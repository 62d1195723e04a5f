import ReadingBench.Proofs.Seeding.Accepted

namespace ReadingBench

open Sql Store Outcome Server ReferentialIndex

namespace Store.Server

/-- A row of the keyspace's table has this text in the column. -/
def stores (server : Server) (ks : Keyspace) (column text : String) : Bool :=
  match server.rows ks.table with
  | .ok rows => rows.any fun row => row.getText? column = some text
  | .error _ => false

variable {server : Server} {users : List (String × Region)} {articles : List (String × Language)}

theorem stores_of_mem {ks : Keyspace} {column text : String} {rows : List Row} {row : Row}
    (hrows : server.rows ks.table = .ok rows) (hrow : row ∈ rows)
    (htext : row.getText? column = some text) : server.stores ks column text := by
  unfold stores
  rw [hrows, List.any_eq_true]
  exact ⟨row, hrow, decide_eq_true htext⟩

theorem Lists.of_eq {next : Server} (h : server.Lists users articles)
    (huser : next.table? Keyspace.user.table = server.table? Keyspace.user.table)
    (harticle : next.table? Keyspace.article.table = server.table? Keyspace.article.table) :
    next.Lists users articles := by
  have hrows : ∀ ref : TableRef, next.table? ref = server.table? ref → next.rows ref = server.rows ref := by
    intro ref hsame
    rw [Server.rows, Server.rows, hsame]
  refine ⟨?_, ?_⟩
  · rw [hrows _ huser]
    exact h.users
  · rw [hrows _ harticle]
    exact h.articles

/-- A user or an article that the index knows is stored. -/
theorem Lists.stores (h : server.Lists users articles) (uid aid : String) :
    (((ofEntries users articles).regionOf? uid).isSome → server.stores .user "uid" uid) ∧
      (((ofEntries users articles).languageOf? aid).isSome → server.stores .article "aid" aid) := by
  constructor
  · intro hknown
    obtain ⟨region, hregion⟩ := Option.isSome_iff_exists.1 hknown
    obtain ⟨rows, hrows, hentries⟩ := h.users
    obtain ⟨row, hrow, hentry⟩ := exists_of_mem_mapM hentries (regionOf?_eq_some hregion)
    exact stores_of_mem hrows hrow (userEntry_eq_ok.1 hentry).1
  · intro hknown
    obtain ⟨language, hlanguage⟩ := Option.isSome_iff_exists.1 hknown
    obtain ⟨rows, hrows, hentries⟩ := h.articles
    obtain ⟨row, hrow, hentry⟩ := exists_of_mem_mapM hentries (languageOf?_eq_some hlanguage)
    exact stores_of_mem hrows hrow (articleEntry_eq_ok.1 hentry).1

end Store.Server

/-- A read of a user and an article among these rows, in the user's region, with text for a comment
exactly if it comments. -/
structure Read.RefersTo (read : Read) (users articles : List Row) : Prop where
  user : ∃ row ∈ users, row.getText? "uid" = some read.uid
  region : ∀ row ∈ users, row.getText? "uid" = some read.uid →
    row.getText? "region" = some (Attribute.text read.region)
  article : ∃ row ∈ articles, row.getText? "aid" = some read.aid
  comment : read.commentDetail.isSome ↔ read.commentOrNot = 1

namespace Generated

def userRows (g : Generated) : List Row := g.users.map fun user => ⟨Keyspace.user.columns, user.toRow⟩

def articleRows (g : Generated) : List Row :=
  g.articles.map fun article => ⟨Keyspace.article.columns, article.toRow⟩

end Generated

theorem numbered_injective (label : String) : Function.Injective (numbered label) := by
  intro m n h
  have hdigits : Decimal.digits m = Decimal.digits n := by
    have hlists := congrArg String.toList h
    simpa [numbered] using hlists
  rw [← Decimal.value_digits m, hdigits, Decimal.value_digits]

theorem nodup_map_uidOf (n : Nat) : ((List.range n).map uidOf).Nodup :=
  List.nodup_range.map (numbered_injective "u")

theorem nodup_map_aidOf (n : Nat) : ((List.range n).map aidOf).Nodup :=
  List.nodup_range.map (numbered_injective "a")

namespace Seeding

theorem getText?_uid (user : User) :
    (⟨Keyspace.user.columns, user.toRow⟩ : Row).getText? "uid" = some user.uid := rfl

theorem getText?_region (user : User) :
    (⟨Keyspace.user.columns, user.toRow⟩ : Row).getText? "region" =
      some (Attribute.text user.region) := rfl

theorem getText?_aid (article : Article) :
    (⟨Keyspace.article.columns, article.toRow⟩ : Row).getText? "aid" = some article.aid := rfl

variable {s : Seeding} {users : List User} {articles : List Article} {reads : List Read}
  {last : Batches Reading} {index : ReferentialIndex}

/-- Names are distinct, so the user found in the index is the only one of that name. -/
theorem regionOf?_of_mem (hpopulation : s.population = .ok (users, articles, index))
    (distinct : (users.map (·.uid)).Nodup) {user : User} (h : user ∈ users) :
    index.regionOf? user.uid = some user.region := by
  have hentered : user.uid ∈ (users.map fun user => (user.uid, user.region)).map (·.1) := by
    rw [List.map_map]
    exact List.mem_map_of_mem h
  have hknown : (index.regionOf? user.uid).isSome := by
    rw [index_of_population hpopulation]
    exact isSome_regionOf? hentered
  obtain ⟨region, hregion⟩ := Option.isSome_iff_exists.1 hknown
  rw [index_of_population hpopulation] at hregion ⊢
  obtain ⟨user', huser', hentry⟩ := List.mem_map.1 (regionOf?_eq_some hregion)
  obtain ⟨hsame, rfl⟩ := Prod.mk.inj hentry
  obtain rfl := List.inj_on_of_nodup_map distinct huser' h hsame
  exact hregion

theorem isSome_languageOf?_of_mem (hpopulation : s.population = .ok (users, articles, index))
    {article : Article} (h : article ∈ articles) : (index.languageOf? article.aid).isSome := by
  rw [index_of_population hpopulation]
  refine isSome_languageOf? ?_
  rw [List.map_map]
  exact List.mem_map_of_mem h

/-- All names that can be drawn are those of users and articles. -/
theorem exists_named (numbered : (Generated.mk users articles reads).Numbered s.config) {i j : Nat}
    (hi : i < s.config.users.toNat) (hj : j < s.config.articles.toNat) :
    (∃ user ∈ users, user.uid = uidOf i) ∧ ∃ article ∈ articles, article.aid = aidOf j := by
  have huids : users.map (·.uid) = (List.range s.config.users.toNat).map uidOf := numbered.uids
  have haids : articles.map (·.aid) = (List.range s.config.articles.toNat).map aidOf := numbered.aids
  refine ⟨List.mem_map.1 ?_, List.mem_map.1 ?_⟩
  · rw [huids]
    exact List.mem_map_of_mem (List.mem_range.2 hi)
  · rw [haids]
    exact List.mem_map_of_mem (List.mem_range.2 hj)

/-- What was made in one run fits together, and no candidate missed the index. -/
theorem refersTo_of_accepted (full : s.config.readsOnly = false)
    (hpopulation : s.population = .ok (users, articles, index))
    (haccepted : s.accepted index = .ok (reads, last)) : last.state.fallbacks = 0 ∧
      ∀ read ∈ reads, read.RefersTo (Generated.mk users articles reads).userRows
        (Generated.mk users articles reads).articleRows := by
  have hnumbered := numbered_of_generated (generated_of_accepted hpopulation haccepted)
  have hdistinct : (users.map (·.uid)).Nodup := hnumbered.uids ▸ nodup_map_uidOf _
  have hregion : ∀ user ∈ users, index.regionOf? user.uid = some user.region := fun _ =>
    regionOf?_of_mem hpopulation hdistinct
  obtain ⟨source, hsource, hreads⟩ := bind_eq_ok.1 haccepted
  have hoffered := (Batches.offered_of_records hreads).1
  obtain ⟨⟨-, -, -, hheld⟩, hdrawn⟩ := readSource_eq_ok hsource
  obtain ⟨husers, harticles⟩ := hdrawn full
  have users_fit : source.users < 2 ^ 64 := husers ▸ s.config.users.toNat_lt
  have articles_fit : source.articles < 2 ^ 64 := harticles ▸ s.config.articles.toNat_lt
  constructor
  · refine (hoffered.fallbacks_eq users_fit articles_fit ?_).trans rfl
    intro i hi j hj
    obtain ⟨⟨user, huser, huid⟩, article, harticle, haid⟩ :=
      exists_named hnumbered (husers ▸ hi) (harticles ▸ hj)
    rw [ReadSource.lacks, hheld, ← huid, ← haid, hregion user huser,
      Option.isNone_eq_false_iff.2 (isSome_languageOf?_of_mem hpopulation harticle)]
    rfl
  refine hoffered.forall_reads ?_
  intro position read state next haccepts
  obtain ⟨⟨i, hi, hi'⟩, j, hj, hj'⟩ := haccepts.named users_fit articles_fit
  obtain ⟨⟨user, huser, huid⟩, article, harticle, haid⟩ :=
    exists_named hnumbered (husers ▸ hi) (harticles ▸ hj)
  refine ⟨⟨_, List.mem_map_of_mem huser, ?_⟩, ?_, ⟨_, List.mem_map_of_mem harticle, ?_⟩,
    haccepts.comment⟩
  · rw [getText?_uid, huid, hi']
  · intro row hrow hrowUid
    obtain ⟨user', huser', rfl⟩ := List.mem_map.1 hrow
    have hread : read.uid = user'.uid := (Option.some.inj hrowUid).symm
    rw [getText?_region, haccepts.region, hheld, hread, hregion user' huser']
    rfl
  · rw [getText?_aid, haid, hj']

section Frame

variable {session : Session} {server next : Server} {t : Table}

theorem sameBut_of_clearing {clear : Bool} {ref : TableRef} {policy : RetryPolicy} {count : Nat}
    (ht : server.table? ref = some t) (sound : t.Sound)
    (h : clearing clear session ref policy server = (.ok count, next)) : SameBut ref server next := by
  obtain ⟨u, hu, -⟩ := trimmed_of_clearing ht sound h
  exact hu.others

theorem sameBut_of_insertReads {batch : List Read} {affected : Nat}
    (h : insertReads session batch server = (.ok affected, next)) :
    SameBut Keyspace.read.table server next := by
  rw [insertReads_eq, insertStored] at h
  cases hsql : (Read.rawInsert batch).sql? with
  | some sql =>
    rw [hsql] at h
    obtain ⟨t', u, now, -, -, htables⟩ := Session.received_eq_ok (Run.ofAction_eq_ok.1 h)
    exact .of_insert htables
  | none =>
    rw [hsql] at h
    obtain ⟨-, rfl⟩ := pure_apply_eq_ok.1 h
    exact .of_tables rfl

theorem sameBut_of_insertAll {batches : List (List Read)} {tally tally' : Tally}
    (h : Queue.insertAll session batches tally server = (.ok tally', next)) :
    SameBut Keyspace.read.table server next := by
  induction batches generalizing server tally with
  | nil =>
    obtain ⟨-, rfl⟩ := pure_apply_eq_ok.1 h
    exact .of_tables rfl
  | cons batch batches ih =>
    obtain ⟨affected, mid, hflush, h⟩ := bind_apply_eq_ok.1 h
    obtain ⟨inserted, hinsert, htables⟩ := flush_eq_ok hflush
    exact ((sameBut_of_insertReads hinsert).trans (.of_tables htables)).trans (ih h)

theorem sameBut_of_loadReads {outcome : ReadOutcome}
    (h : s.loadReads session index server = (.ok outcome, next)) :
    SameBut Keyspace.read.table server next := by
  obtain ⟨source, tally, -, hinsert, -⟩ := loadReads_parts h
  exact sameBut_of_insertAll hinsert

/-- The phase of reads changes their own table only, before and after the index is made. -/
theorem Phases.sameBut {report : SeedReport} {cleared populated : Server}
    (h : s.Phases session server next report index cleared populated)
    (ht : server.table? Keyspace.read.table = some t) (sound : t.Sound) :
    SameBut Keyspace.read.table server cleared ∧ SameBut Keyspace.read.table populated next := by
  obtain ⟨count, hclears⟩ := h.clears
  obtain ⟨outcome, loaded, hreads, rfl, -⟩ := h.reads
  have hprepared := optimize_tables session true server
  constructor
  · have hcleared := sameBut_of_clearing ((table?_of_tables hprepared _).trans ht) sound hclears
    exact SameBut.trans (.of_tables hprepared) hcleared
  · exact (sameBut_of_loadReads hreads).trans (.of_tables (restore_tables session loaded))

end Frame

section Run

variable {server next : Server} {report : SeedReport}

/-- The standard tables of users, articles and reads. -/
def HasTables (server : Server) : Prop :=
  ∀ ks ∈ [Keyspace.user, .article, .read], ∃ t, server.table? ks.table = some t ∧ t.spec = ks.spec

theorem hasTables_vacant : HasTables vacant := by
  intro ks hks
  refine ⟨.empty ks.spec, ?_, rfl⟩
  simp only [List.mem_cons, List.not_mem_nil, or_false] at hks
  rcases hks with rfl | rfl | rfl <;> rfl

theorem HasTables.ready (tables : HasTables server) (reachable : server.Reachable)
    {opened cleared : Server} (hopened : opened.tables = server.tables)
    (hcleared : SameBut Keyspace.read.table opened cleared) {ks : Keyspace}
    (hks : ks ∈ [Keyspace.user, .article]) {clear : Bool}
    (vacant : clear ∨ server.rowCount ks.table = 0) : Ready clear cleared ks := by
  have hne : ks.table.key ≠ Keyspace.read.table.key := by
    simp only [List.mem_cons, List.not_mem_nil, or_false] at hks
    rcases hks with rfl | rfl
    · exact key_ne.2.1
    · exact key_ne.2.2
  obtain ⟨t, ht, hspec⟩ := tables ks (by simp only [List.mem_cons] at hks ⊢; tauto)
  refine ⟨t, (hcleared.table? hne).trans ((table?_of_tables hopened _).trans ht), hspec, ?_,
    reachable.sound _ _ ht⟩
  refine vacant.imp_right fun hcount => ?_
  rw [Server.rowCount, ht] at hcount
  exact Array.size_eq_zero_iff.1 hcount

/-- Tables without rows can be loaded. -/
theorem ready_of_rowCount (clear : Bool) (reachable : server.Reachable) (tables : HasTables server)
    (vacant : ∀ ks ∈ [Keyspace.user, .article, .read], server.rowCount ks.table = 0) :
    ∀ ks ∈ [Keyspace.user, .article, .read], Ready clear server ks := by
  intro ks hks
  obtain ⟨t, ht, hspec⟩ := tables ks hks
  have hcount := vacant ks hks
  rw [Server.rowCount, ht] at hcount
  exact ⟨t, ht, hspec, .inr (Array.size_eq_zero_iff.1 hcount), reachable.sound _ _ ht⟩

/-- A full run made its users, articles and reads for each other. -/
theorem refersTo_of_run (reachable : server.Reachable) (tables : HasTables server)
    (full : s.config.readsOnly = false)
    (vacant : s.config.dryRun = false → s.config.truncate ∨
      server.rowCount Keyspace.user.table = 0 ∧ server.rowCount Keyspace.article.table = 0)
    (h : s.run server = (.ok report, next)) : report.referentialFallbacks = 0 ∧
      ∃ g, s.generated = .ok g ∧ g.reads.length = report.reads ∧
        (∀ read ∈ g.reads, read.RefersTo g.userRows g.articleRows) ∧
        (s.config.dryRun = false → next.rows Keyspace.user.table = .ok g.userRows ∧
          next.rows Keyspace.article.table = .ok g.articleRows) := by
  rw [run_eq_withSession] at h
  cases hdry : s.config.dryRun with
  | true =>
    rw [hdry, if_pos rfl, lift_apply] at h
    obtain ⟨-, users, articles, index, reads, last, hpopulation, haccepted, hcounts⟩ :=
      counts_of_dryRun (Prod.mk.inj h).1
    obtain ⟨hnone, hrefers⟩ := refersTo_of_accepted full hpopulation haccepted
    exact ⟨hcounts.fallbacks.trans hnone, _, generated_of_accepted hpopulation haccepted,
      hcounts.reads.symm, hrefers, fun hwet => by cases hwet⟩
  | false =>
    rw [hdry, if_neg Bool.false_ne_true] at h
    obtain ⟨opened, finished, hopened, hclosed, h⟩ := Run.withSession_eq_ok h
    obtain ⟨index, cleared, populated, hphases⟩ := phases_of_runPhases h
    obtain ⟨users, articles, hpopulation⟩ := hphases.population full
    obtain ⟨reads, last, haccepted, hcounts⟩ := hphases.counts
    obtain ⟨hnone, hrefers⟩ := refersTo_of_accepted full hpopulation haccepted
    refine ⟨hcounts.fallbacks.trans hnone, _, generated_of_accepted hpopulation haccepted,
      hcounts.reads.symm, hrefers, fun _ => ?_⟩
    obtain ⟨t, ht, -⟩ := tables .read (by simp)
    obtain ⟨hcleared, hfinished⟩ :=
      hphases.sameBut ((table?_of_tables hopened _).trans ht) (reachable.sound _ _ ht)
    obtain ⟨counted, hpopulated⟩ := hphases.populates
    rw [indexPhase, full, if_neg Bool.false_ne_true] at hpopulated
    have hvacant := vacant hdry
    obtain ⟨dists, users', articles', grown, grown', hstandard, husers, harticles, rfl, -, hfilled,
      hfilled'⟩ := filled_of_loadPopulation
        (tables.ready reachable hopened hcleared (by simp) (hvacant.imp_right And.left))
        (tables.ready reachable hopened hcleared (by simp) (hvacant.imp_right And.right)) hpopulated
    have hsame : s.population = .ok (users', articles', grown'.state.index) :=
      population_eq_ok.2 ⟨dists, grown, grown', hstandard, husers, harticles, rfl⟩
    obtain ⟨rfl, hrest⟩ := Prod.mk.inj (Except.ok.inj (hsame.symm.trans hpopulation))
    obtain ⟨rfl, -⟩ := Prod.mk.inj hrest
    have hend : ∀ ks : Keyspace, ks.table.key ≠ Keyspace.read.table.key →
        next.table? ks.table = populated.table? ks.table := fun ks hks =>
      (table?_of_tables hclosed _).trans (hfinished.table? hks)
    constructor
    · rw [(hfilled.of_eq (hend .user key_ne.2.1)).rows_eq, List.map_map]
      rfl
    · rw [(hfilled'.of_eq (hend .article key_ne.2.2)).rows_eq, List.map_map]
      rfl

/-- A run made its reads from the index of its own users and articles, or of the stored ones. -/
theorem reads_of_run (h : s.run server = (.ok report, next)) :
    ∃ index reads last, s.accepted index = .ok (reads, last) ∧ Counts report reads last ∧
      (s.config.readsOnly = false → ∃ users articles, s.population = .ok (users, articles, index)) ∧
      (s.config.readsOnly = true → server.Reachable → HasTables server →
        ∃ users articles, next.Lists users articles ∧ index = ofEntries users articles) := by
  rw [run_eq_withSession] at h
  cases hdry : s.config.dryRun with
  | true =>
    rw [hdry, if_pos rfl, lift_apply] at h
    obtain ⟨hfull, users, articles, index, reads, last, hpopulation, haccepted, hcounts⟩ :=
      counts_of_dryRun (Prod.mk.inj h).1
    refine ⟨index, reads, last, haccepted, hcounts, fun _ => ⟨users, articles, hpopulation⟩, fun stored => ?_⟩
    rw [hfull] at stored
    cases stored
  | false =>
    rw [hdry, if_neg Bool.false_ne_true] at h
    obtain ⟨opened, finished, hopened, hclosed, h⟩ := Run.withSession_eq_ok h
    obtain ⟨index, cleared, populated, hphases⟩ := phases_of_runPhases h
    obtain ⟨reads, last, haccepted, hcounts⟩ := hphases.counts
    refine ⟨index, reads, last, haccepted, hcounts, hphases.population, fun stored reachable tables => ?_⟩
    obtain ⟨t, ht, -⟩ := tables .read (by simp)
    obtain ⟨hcleared, hfinished⟩ :=
      hphases.sameBut ((table?_of_tables hopened _).trans ht) (reachable.sound _ _ ht)
    have hkept : ∀ ks : Keyspace, ks.table.key ≠ Keyspace.read.table.key →
        cleared.table? ks.table = server.table? ks.table := fun ks hks =>
      (hcleared.table? hks).trans (table?_of_tables hopened _)
    obtain ⟨counted, hpopulated⟩ := hphases.populates
    rw [indexPhase, stored, if_pos rfl] at hpopulated
    obtain ⟨index', loaded, hload, hpopulated⟩ := bind_apply_eq_ok.1 hpopulated
    obtain ⟨hresult, rfl⟩ := pure_apply_eq_ok.1 hpopulated
    obtain ⟨-, rfl⟩ := Prod.mk.inj hresult
    obtain ⟨t, ht, hspec⟩ := tables .user (by simp)
    obtain ⟨u, hu, hspec'⟩ := tables .article (by simp)
    obtain ⟨users, articles, hlists, hentries, hloaded⟩ := load_eq_ok
      ((hkept .user key_ne.2.1).trans ht) hspec ((hkept .article key_ne.2.2).trans hu) hspec' hload
    have hend : ∀ ks : Keyspace, ks.table.key ≠ Keyspace.read.table.key →
        next.table? ks.table = cleared.table? ks.table := fun ks hks =>
      (table?_of_tables hclosed _).trans ((hfinished.table? hks).trans (table?_of_tables hloaded _))
    exact ⟨users, articles, hlists.of_eq (hend .user key_ne.2.1) (hend .article key_ne.2.2), hentries⟩

/-- A run on stored users and articles counted all reads of a pair that is not stored. -/
theorem counted_of_run (reachable : server.Reachable) (tables : HasTables server)
    (stored : s.config.readsOnly = true) (h : s.run server = (.ok report, next)) :
    ∃ users articles reads last, next.Lists users articles ∧
      s.accepted (ofEntries users articles) = .ok (reads, last) ∧ reads.length = report.reads ∧
      reads.countP (fun read => !(next.stores .user "uid" read.uid && next.stores .article "aid" read.aid)) ≤
        report.referentialFallbacks := by
  obtain ⟨index, reads, last, haccepted, hcounts, -, hlists⟩ := reads_of_run h
  obtain ⟨users, articles, hnext, rfl⟩ := hlists stored reachable tables
  refine ⟨users, articles, reads, last, hnext, haccepted, hcounts.reads.symm, ?_⟩
  obtain ⟨source, hsource, hreads⟩ := bind_eq_ok.1 haccepted
  have hheld := (readSource_eq_ok hsource).1.2.2.2
  have hcounted := (Batches.offered_of_records hreads).1.countP_lacks_le
  have hnone : (s.readBatches).state.fallbacks = 0 := rfl
  rw [hnone, Nat.zero_add, ← hcounts.fallbacks] at hcounted
  refine le_trans (List.countP_mono_left fun read _ hmissing => ?_) hcounted
  -- A pair that the index has is stored.
  by_contra hheldBoth
  rw [ReadSource.lacks, hheld, Bool.not_eq_true, Bool.or_eq_false_iff,
    Option.isNone_eq_false_iff, Option.isNone_eq_false_iff] at hheldBoth
  have huid := (hnext.stores read.uid read.aid).1 hheldBoth.1
  have haid := (hnext.stores read.uid read.aid).2 hheldBoth.2
  rw [huid, haid] at hmissing
  cases hmissing

/-- A full run that succeeds, on user and article tables that are empty or that it empties, has no
fallback, and its reads refer to the users and articles that it leaves there. A run on stored users and
articles has at least as many fallbacks as accepted reads of a pair that is not stored. -/
theorem run_referential {s : Seeding} {server next : Server} {report : SeedReport}
    (reachable : server.Reachable) (tables : HasTables server)
    (h : s.run server = (.ok report, next)) :
    (s.config.readsOnly = false →
      (s.config.dryRun = false → s.config.truncate ∨
        server.rowCount Keyspace.user.table = 0 ∧ server.rowCount Keyspace.article.table = 0) →
      report.referentialFallbacks = 0 ∧ ∃ g, s.generated = .ok g ∧ g.reads.length = report.reads ∧
        (∀ read ∈ g.reads, read.RefersTo g.userRows g.articleRows) ∧
        (s.config.dryRun = false → next.rows Keyspace.user.table = .ok g.userRows ∧
          next.rows Keyspace.article.table = .ok g.articleRows)) ∧
    (s.config.readsOnly = true →
      ∃ users articles reads last, next.Lists users articles ∧
        s.accepted (ofEntries users articles) = .ok (reads, last) ∧ reads.length = report.reads ∧
        reads.countP (fun read =>
          !(next.stores .user "uid" read.uid && next.stores .article "aid" read.aid)) ≤
            report.referentialFallbacks) :=
  ⟨fun full vacant => refersTo_of_run reachable tables full vacant h,
    fun stored => counted_of_run reachable tables stored h⟩

/-- A store whose only user is not called as the first one is. -/
def strayUser : Server := vacant.after
  [.insert .root { table := Keyspace.user.table, columns := ["id", "uid", "region"],
                   rows := [[.int 1, .text "u5", .text "Beijing"]] },
    .insert .root { table := Keyspace.article.table, columns := ["id", "aid", "language"],
                    rows := [[.int 1, .text "a0", .text "en"]] }]

/-- One read of what is stored. -/
def oneRead : Seeding where
  config := { reads := 1, readsOnly := true, spreadDays := 1, rngSeed := some 7 }
  retry := {}
  entropy := 0
  budget := 10

theorem run_referential_runs :
    (∃ report next g, samePair.run vacant = (.ok report, next) ∧ report.referentialFallbacks = 0 ∧
      samePair.generated = .ok g ∧ g.reads.length = 2 ∧
      (∀ read ∈ g.reads, read.RefersTo g.userRows g.articleRows) ∧
      next.rows Keyspace.user.table = .ok g.userRows) ∧
    ∃ report next, ∃ reads : List Read, oneRead.run strayUser = (.ok report, next) ∧
      reads.length = 1 ∧ report.referentialFallbacks = 4 ∧
      reads.countP (fun read =>
        !(next.stores .user "uid" read.uid && next.stores .article "aid" read.aid)) ≤ 4 := by
  constructor
  · have hreads : (samePair.run vacant).1.toOption.map (·.reads) = some 2 := by
      -- The text of a statement takes long to read in the kernel.
      unfold run perform loadReads loadQueued loadInline
      rw [insertReads_eq]
      decide +kernel
    rcases hrun : samePair.run vacant with ⟨halt | report, next⟩
    · rw [hrun] at hreads
      cases hreads
    · rw [hrun] at hreads
      obtain ⟨hnone, g, hg, hlength, hrefers, hrows⟩ :=
        (run_referential ⟨_, _, rfl⟩ hasTables_vacant hrun).1 rfl fun _ => .inr ⟨rfl, rfl⟩
      exact ⟨report, next, g, rfl, hnone, hg, hlength.trans (Option.some.inj hreads), hrefers,
        (hrows rfl).1⟩
  · have hcounts : (oneRead.run strayUser).1.toOption.map
        (fun report => (report.reads, report.referentialFallbacks)) = some (1, 4) := by
      unfold run perform loadReads loadQueued loadInline
      rw [insertReads_eq]
      decide +kernel
    have tables : HasTables strayUser := by
      intro ks hks
      simp only [List.mem_cons, List.not_mem_nil, or_false] at hks
      rcases hks with rfl | rfl | rfl <;> exact ⟨_, rfl, rfl⟩
    have reachable : strayUser.Reachable := ⟨Server.still, _, List.foldl_append.symm⟩
    rcases hrun : oneRead.run strayUser with ⟨halt | report, next⟩
    · rw [hrun] at hcounts
      cases hcounts
    · rw [hrun] at hcounts
      obtain ⟨hmade, hfallbacks⟩ := Prod.mk.inj (Option.some.inj hcounts)
      obtain ⟨users, articles, reads, last, -, -, hlength, hcounted⟩ :=
        (run_referential reachable tables hrun).2 rfl
      exact ⟨report, next, reads, rfl, hlength.trans hmade, hfallbacks, hcounted.trans hfallbacks.le⟩

end Run

end Seeding
end ReadingBench
