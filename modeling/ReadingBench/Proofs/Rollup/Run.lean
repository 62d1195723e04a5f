import ReadingBench.Proofs.Rollup.Rolled
import ReadingBench.Proofs.Store.Opening

namespace ReadingBench

open Sql Store Outcome

namespace Rollup

open Opening in
/-- The three sessions of a run enclose its work. -/
theorem run_eq_withSession (config : RollupConfig) : run config =
    Run.withSession fun articles => Run.withSession fun reads => Run.withSession fun sink => do
      let rows ← compute articles reads
      let batches ← persist config sink rows
      return {
        articles := rows.length
        reads := (rows.flatMap (·.stats.readUids)).length
        batches } := by
  refine (Brackets.session fun articles => .session fun reads => .session fun sink => ?_).withSessions_eq
  refine Closes.brackets ((closes_ofRun _).bind fun rows => ?_)
  exact (closes_ofRun _).bind fun batches => closes_pure _

/-- The reads of an article, in the order of the table. -/
def readsOf (reads : Table) (aid : String) : List Tuple :=
  reads.rows.toList.filter fun row => Keyspace.read.cell row "aid" == .text aid

/-- The uids of the reads that pass a test. -/
def uidsOf (rows : List Tuple) (test : Tuple → Bool) : List String :=
  (rows.filter test).filterMap fun row => (Keyspace.read.cell row "uid").asText?

/-- A flag of a read is set by the integer 1. -/
def isSet (column : String) (row : Tuple) : Bool := (Keyspace.read.cell row column).asInt? = some 1

def statsOf (reads : Table) (aid : String) : ReadStats :=
  { readUids := uidsOf (readsOf reads aid) fun _ => true
    commentUids := uidsOf (readsOf reads aid) (isSet "commentOrNot")
    agreeUids := uidsOf (readsOf reads aid) (isSet "agreeOrNot")
    shareUids := uidsOf (readsOf reads aid) (isSet "shareOrNot") }

def aidOf (row : Tuple) : Option String := (Keyspace.article.cell row "aid").asText?

/-- The rollup of an article's row at place `id`. -/
def rollupOf (reads : Table) (id : Nat) (row : Tuple) : BeRead :=
  { id := UInt64.ofNat id
    aid := (aidOf row).getD ""
    category := (Keyspace.article.cell row "category").asText?.getD ""
    stats := statsOf reads ((aidOf row).getD "") }

def rollups (articles reads : Table) : List BeRead :=
  (articles.rows.toList.zipIdx 1).map fun (row, id) => rollupOf reads id row

/-- An article as it is fetched. -/
def articleRow (row : Tuple) : Row :=
  ⟨["aid", "category"], ["aid", "category"].map (Keyspace.article.cell row)⟩

theorem select_articles {articles : Table} (hspec : articles.spec = Keyspace.article.spec) :
    articles.select articleSelect = .ok (articles.rows.toList.map articleRow) := by
  have hpositions : ["aid", "category"].mapM articles.spec.position = .ok [1, 4] := by
    rw [hspec]
    rfl
  rw [Table.select, show articleSelect.columns = ["aid", "category"] from rfl, hpositions, ok_bind]
  have hall : (articles.rows.filter fun _ => true) = articles.rows := by simp
  simp only [articleSelect, Option.mapM_none, pure_bind, Option.all_none, hall]
  rfl

/-- A read as it is fetched. -/
def readRow (row : Tuple) : Row :=
  ⟨["uid", "agreeOrNot", "commentOrNot", "shareOrNot"],
    ["uid", "agreeOrNot", "commentOrNot", "shareOrNot"].map (Keyspace.read.cell row)⟩

theorem select_reads {reads : Table} (hspec : reads.spec = Keyspace.read.spec) (aid : String) :
    reads.select (readSelect aid) = .ok ((readsOf reads aid).map readRow) := by
  have hpositions : (readSelect aid).columns.mapM reads.spec.position = .ok [1, 6, 7, 9] := by
    rw [hspec]
    rfl
  have hfilter : reads.spec.position "aid" = .ok 2 := by
    rw [hspec]
    rfl
  rw [Table.select, hpositions, ok_bind]
  simp only [readSelect, Option.mapM_some, hfilter, ok_bind]
  rw [map_pure, pure_bind]
  simp only [Option.all_some, Array.toList_filter]
  rfl

theorem ofRow_eq_ok {row : Tuple} {flags : ReadFlags} (h : ReadFlags.ofRow (readRow row) = .ok flags) :
    (Keyspace.read.cell row "uid").asText? = some flags.uid ∧ flags.agree = isSet "agreeOrNot" row ∧
      flags.comment = isSet "commentOrNot" row ∧ flags.share = isSet "shareOrNot" row := by
  obtain ⟨uid, huid, h⟩ := bind_eq_ok.1 h
  obtain rfl := pure_eq_ok.1 h
  exact ⟨Row.requireText_eq_ok_iff.1 huid, rfl, rfl, rfl⟩

theorem map_uid {rows : List Tuple} {flags : List ReadFlags} {p : ReadFlags → Bool} {q : Tuple → Bool}
    (h : List.Forall₂ (fun row f => (Keyspace.read.cell row "uid").asText? = some f.uid ∧ p f = q row)
      rows flags) : (flags.filter p).map (·.uid) = uidsOf rows q := by
  unfold uidsOf
  induction h with
  | nil => rfl
  | @cons row f rows flags hrow _ ih =>
    obtain ⟨huid, htest⟩ := hrow
    by_cases hq : q row = true
    · rw [List.filter_cons_of_pos (htest.trans hq), List.filter_cons_of_pos hq, List.map_cons, ih,
        List.filterMap_cons_some (f := fun row => (Keyspace.read.cell row "uid").asText?) huid]
    · rw [List.filter_cons_of_neg (htest ▸ hq), List.filter_cons_of_neg hq, ih]

theorem ofReads_eq {reads : Table} {aid : String} {flags : List ReadFlags}
    (h : ((readsOf reads aid).map readRow).mapM ReadFlags.ofRow = .ok flags) :
    ReadStats.ofReads flags = statsOf reads aid := by
  have hrows := mapM_eq_ok.1 h
  rw [List.forall₂_map_left_iff] at hrows
  have hall := map_uid (p := fun _ => true) (q := fun _ => true)
    (hrows.imp fun _ _ h => ⟨(ofRow_eq_ok h).1, rfl⟩)
  have hcomment := map_uid (hrows.imp fun _ _ h => ⟨(ofRow_eq_ok h).1, (ofRow_eq_ok h).2.2.1⟩)
  have hagree := map_uid (hrows.imp fun _ _ h => ⟨(ofRow_eq_ok h).1, (ofRow_eq_ok h).2.1⟩)
  have hshare := map_uid (hrows.imp fun _ _ h => ⟨(ofRow_eq_ok h).1, (ofRow_eq_ok h).2.2.2⟩)
  rw [List.filter_true] at hall
  rw [ReadStats.ofReads, statsOf, hall, hcomment, hagree, hshare]

/-- An article's row and those of its reads hold what the rollup needs. -/
def Readable (reads : Table) (row : Tuple) : Prop :=
  ∃ aid flags, aidOf row = some aid ∧ ((readsOf reads aid).map readRow).mapM ReadFlags.ofRow = .ok flags

/-- The rollup of a readable article, in terms of the flags that are read. -/
theorem rollupOf_eq {reads : Table} {row : Tuple} {aid : String} {flags : List ReadFlags}
    (haid : aidOf row = some aid)
    (hflags : ((readsOf reads aid).map readRow).mapM ReadFlags.ofRow = .ok flags) (id : Nat) :
    rollupOf reads id row =
      { id := UInt64.ofNat id, aid, category := ((articleRow row).getText? "category").getD ""
        stats := .ofReads flags } := by
  have hcategory : (articleRow row).getText? "category" =
      (Keyspace.article.cell row "category").asText? := rfl
  rw [rollupOf, haid, hcategory, ofReads_eq hflags]
  rfl

theorem Readable.aidOf_eq {reads : Table} {row : Tuple} (h : Readable reads row) (id : Nat) :
    aidOf row = some (rollupOf reads id row).aid := by
  obtain ⟨aid, flags, haid, hflags⟩ := h
  rw [rollupOf_eq haid hflags, haid]

/-- What does not depend on the places of the articles. -/
theorem map_rollups {β : Type} {articles reads : Table} {f : BeRead → β} {g : Tuple → β}
    (h : ∀ row ∈ articles.rows.toList, ∀ id, f (rollupOf reads id row) = g row) :
    (rollups articles reads).map f = articles.rows.toList.map g := by
  have hrows : (rollups articles reads).map f = (articles.rows.toList.zipIdx 1).map fun x => g x.1 := by
    rw [rollups, List.map_map]
    exact List.map_congr_left fun x hx => h _ (List.fst_mem_of_mem_zipIdx hx) x.2
  rw [hrows]
  conv_rhs => rw [← List.zipIdx_map_fst 1 articles.rows.toList, List.map_map]
  rfl

theorem map_aidOf {articles reads : Table} (h : ∀ row ∈ articles.rows.toList, Readable reads row) :
    articles.rows.toList.map aidOf = (rollups articles reads).map fun b => some b.aid :=
  (map_rollups fun row hrow id => ((h row hrow).aidOf_eq id).symm).symm

/-- The rollup of one article, computed from its row and the reads. -/
theorem ofArticle_eq_ok {s : Session} {id : Nat} {row : Tuple} {server next : Server} {b : BeRead}
    {reads : Table} (hreads : server.table? Keyspace.read.table = some reads)
    (hspec : reads.spec = Keyspace.read.spec)
    (h : ofArticle s id (articleRow row) server = (.ok b, next)) :
    next.tables = server.tables ∧ Readable reads row ∧ rollupOf reads id row = b := by
  rw [ofArticle, bind_apply_eq_ok] at h
  obtain ⟨aid, next₁, hlift, h⟩ := h
  obtain ⟨haid, rfl⟩ := Run.ofExcept_eq_ok.1 hlift
  obtain ⟨fetched, next₂, hfetch, h⟩ := bind_apply_eq_ok.1 h
  obtain ⟨htables, t, ht, hselect⟩ := Session.select_eq_ok (Run.ofAction_eq_ok.1 hfetch)
  obtain rfl : reads = t := Option.some.inj (hreads.symm.trans ht)
  obtain rfl := Except.ok.inj ((select_reads hspec aid).symm.trans hselect)
  obtain ⟨flags, next₃, hlift, h⟩ := bind_apply_eq_ok.1 h
  obtain ⟨hflags, rfl⟩ := Run.ofExcept_eq_ok.1 hlift
  obtain ⟨rfl, rfl⟩ := pure_apply_eq_ok.1 h
  have hsome : aidOf row = some aid := Row.requireText_eq_ok_iff.1 haid
  exact ⟨htables, ⟨aid, flags, hsome, hflags⟩, rollupOf_eq hsome hflags id⟩

theorem compute_eq_ok {s s' : Session} {server next : Server} {bs : List BeRead}
    {articles reads : Table} (harticles : server.table? Keyspace.article.table = some articles)
    (hreads : server.table? Keyspace.read.table = some reads)
    (hspec : articles.spec = Keyspace.article.spec) (hspec' : reads.spec = Keyspace.read.spec)
    (h : compute s s' server = (.ok bs, next)) :
    next.tables = server.tables ∧ (∀ row ∈ articles.rows.toList, Readable reads row) ∧
      rollups articles reads = bs := by
  rw [compute, bind_apply_eq_ok] at h
  obtain ⟨fetched, next₁, hfetch, h⟩ := h
  obtain ⟨htables, t, ht, hselect⟩ := Session.select_eq_ok (Run.ofAction_eq_ok.1 hfetch)
  obtain rfl : articles = t := Option.some.inj (harticles.symm.trans ht)
  obtain rfl := Except.ok.inj ((select_articles hspec).symm.trans hselect)
  rw [List.zipIdx_map, List.mapM_map] at h
  obtain ⟨hnext, hall⟩ := mapM_apply_eq_ok (I := fun last => last.tables = server.tables)
    (R := fun x b => Readable reads x.1 ∧ rollupOf reads x.2 x.1 = b)
    (by
      rintro ⟨row, id⟩ - last last' b hlast hstep
      have hreads' : last.table? Keyspace.read.table = some reads := by
        rw [Server.table?, hlast]
        exact hreads
      obtain ⟨hkept, hb⟩ := ofArticle_eq_ok hreads' hspec' hstep
      exact ⟨hkept.trans hlast, hb⟩) htables h
  obtain ⟨hreadable, hrollups⟩ := (List.forall₂_and_left _ _).1 hall
  refine ⟨hnext, fun row hrow => ?_, ?_⟩
  · rw [← List.zipIdx_map_fst 1 articles.rows.toList] at hrow
    obtain ⟨x, hx, rfl⟩ := List.mem_map.1 hrow
    exact hreadable x hx
  · rwa [rollups, ← List.forall₂_eq_eq_eq, List.forall₂_map_left_iff]

/-- Ids are places, so they differ while places fit 64 bits. -/
theorem nodup_ids {articles : Table} (reads : Table) (hsize : articles.rows.size < 2 ^ 64) :
    ((rollups articles reads).map (·.id)).Nodup := by
  have hids : (rollups articles reads).map (·.id) =
      ((articles.rows.toList.zipIdx 1).map Prod.snd).map UInt64.ofNat := by
    simp only [rollups, List.map_map]
    rfl
  rw [hids, List.zipIdx_map_snd]
  refine List.Nodup.map_on ?_ List.nodup_range'
  intro m hm n hn hmn
  have hlt : ∀ k ∈ List.range' 1 articles.rows.toList.length, k < 2 ^ 64 := by
    intro k hk
    rw [List.mem_range'_1, Array.length_toList] at hk
    omega
  have hnat := congrArg UInt64.toNat hmn
  rwa [UInt64.toNat_ofNat_of_lt' (hlt m hm), UInt64.toNat_ofNat_of_lt' (hlt n hn)] at hnat

theorem pairwise_rollups {articles reads : Table} (hsize : articles.rows.size < 2 ^ 64)
    (haids : articles.rows.toList.map aidOf = (rollups articles reads).map fun b => some b.aid)
    (distinct : (articles.rows.toList.map aidOf).Nodup) :
    (rollups articles reads).Pairwise Apart := by
  have hids := List.pairwise_map.1 (nodup_ids reads hsize)
  rw [haids] at distinct
  have hdistinct := List.pairwise_map.1 distinct
  exact (hids.and hdistinct).imp fun h => ⟨h.1, fun haid => h.2 (congrArg some haid)⟩

theorem persistBatch_eq_ok {sink : Session} {batch done : List BeRead} {server next : Server}
    {t u : Table} (hspec : t.spec = Keyspace.beRead.spec)
    (hu : server.table? Keyspace.beRead.table = some u) (hdone : Upserted t done u)
    (h : persistBatch sink batch server = (.ok ⟨⟩, next)) :
    ∃ u', next.tables = server.tables.insert Keyspace.beRead.table.key u' ∧
      Upserted t (done ++ batch) u' := by
  rw [persistBatch, bind_apply_eq_ok] at h
  obtain ⟨affected, next₁, hinsert, hcommit⟩ := h
  obtain ⟨v, u', now, hv, hinsert, htables⟩ := Session.insert_eq_ok (Run.ofAction_eq_ok.1 hinsert)
  obtain rfl : u = v := Option.some.inj (hu.symm.trans hv)
  refine ⟨u', ?_, hdone.insert hspec hinsert⟩
  rw [Session.commit_eq_ok (Run.ofAction_eq_ok.1 hcommit), htables]
  rfl

/-- All tables but that of the rollups are the same. -/
def SameOthers (server next : Server) : Prop :=
  ∀ ref : TableRef, ref.key ≠ Keyspace.beRead.table.key → next.table? ref = server.table? ref

theorem forM_eq_ok {sink : Session} {batches : List (List BeRead)} {done : List BeRead}
    {server next : Server} {t u : Table} (hspec : t.spec = Keyspace.beRead.spec)
    (hu : server.table? Keyspace.beRead.table = some u) (hdone : Upserted t done u)
    (h : batches.forM (persistBatch sink) server = (.ok ⟨⟩, next)) :
    SameOthers server next ∧
      ∃ u', next.table? Keyspace.beRead.table = some u' ∧ Upserted t (done ++ batches.flatten) u' := by
  induction batches generalizing done server u with
  | nil =>
    obtain ⟨-, rfl⟩ := pure_apply_eq_ok.1 h
    exact ⟨fun _ _ => rfl, u, hu, by simpa using hdone⟩
  | cons batch batches ih =>
    rw [List.flatten_cons, ← List.append_assoc]
    obtain ⟨⟨⟩, next₁, hbatch, hrest⟩ := bind_apply_eq_ok.1 h
    obtain ⟨v, htables, hv⟩ := persistBatch_eq_ok hspec hu hdone hbatch
    have hfound : next₁.table? Keyspace.beRead.table = some v := by
      rw [Server.table?, htables]
      simp
    have hothers : SameOthers server next₁ := by
      intro ref href
      rw [Server.table?, htables, Std.TreeMap.getElem?_insert]
      simp [Ne.symm href, Server.table?]
    obtain ⟨hrests, hlast⟩ := ih hfound hv hrest
    exact ⟨fun ref href => (hrests ref href).trans (hothers ref href), hlast⟩

theorem persist_eq_ok {config : RollupConfig} {sink : Session} {bs : List BeRead} {server next : Server}
    {t : Table} {count : Nat} (hspec : t.spec = Keyspace.beRead.spec)
    (htable : server.table? Keyspace.beRead.table = some t)
    (h : persist config sink bs server = (.ok count, next)) :
    (chunks config.batchSize.toNat bs).length = count ∧ SameOthers server next ∧
      ∃ u, next.table? Keyspace.beRead.table = some u ∧ Upserted t bs u := by
  rw [persist, bind_apply_eq_ok] at h
  obtain ⟨⟨⟩, next₁, hbatches, h⟩ := h
  obtain ⟨rfl, rfl⟩ := pure_apply_eq_ok.1 h
  have hbatch := forM_eq_ok hspec htable .nil hbatches
  rw [List.nil_append, flatten_chunks config.batchSize.toNat bs] at hbatch
  exact ⟨rfl, hbatch⟩

end Rollup
end ReadingBench
