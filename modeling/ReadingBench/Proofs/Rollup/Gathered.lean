import ReadingBench.Proofs.Rollup.Again
import ReadingBench.Proofs.Rollup.Tallied

namespace ReadingBench.Rollup

open Sql Store Outcome Server

/-- Groups for distinct keys hold each element whose key is among them once, and no other. -/
theorem flatMap_filter_perm {α κ : Type} [DecidableEq κ] {f : α → κ} {keys : List κ} (distinct : keys.Nodup)
    (xs : List α) : (keys.flatMap fun key => xs.filter (f · = key)).Perm (xs.filter (f · ∈ keys)) := by
  induction keys with
  | nil => simp
  | cons key keys ih =>
    obtain ⟨hnew, hkeys⟩ := List.nodup_cons.1 distinct
    -- Among the elements with one of the keys those with the first are split off.
    have hown : (xs.filter (f · ∈ key :: keys)).filter (f · = key) = xs.filter (f · = key) := by
      rw [List.filter_filter]
      exact List.filter_congr fun x _ => by by_cases hx : f x = key <;> simp [hx]
    have hothers : (xs.filter (f · ∈ key :: keys)).filter (fun x => !decide (f x = key)) =
        xs.filter (f · ∈ keys) := by
      rw [List.filter_filter]
      refine List.filter_congr fun x _ => ?_
      by_cases hx : f x = key
      · simp [hx, hnew]
      · simp [hx]
    have hsplit := List.filter_append_perm (fun x => decide (f x = key)) (xs.filter (f · ∈ key :: keys))
    rw [hown, hothers] at hsplit
    rw [List.flatMap_cons]
    exact ((ih hkeys).append_left _).trans hsplit

/-- The uids of an article's reads that pass a test, in the order of the table. -/
def listed (reads : Table) (aid : String) (test : Tuple → Bool) : List Value :=
  ((readsOf reads aid).filter test).map fun row => Keyspace.read.cell row "uid"

/-- The rollup of an article at its place. -/
structure Gathered (reads : Table) (article : Tuple × Nat) (b : BeRead) : Prop where
  id : b.id = UInt64.ofNat article.2
  aid : Keyspace.article.cell article.1 "aid" = .text b.aid
  category : b.category = (Keyspace.article.cell article.1 "category").asText?.getD ""
  all : b.stats.readUids.map Value.text = listed reads b.aid fun _ => true
  commented : b.stats.commentUids.map Value.text =
    listed reads b.aid fun row => Keyspace.read.cell row "commentOrNot" == .int 1
  agreed : b.stats.agreeUids.map Value.text =
    listed reads b.aid fun row => Keyspace.read.cell row "agreeOrNot" == .int 1
  shared : b.stats.shareUids.map Value.text =
    listed reads b.aid fun row => Keyspace.read.cell row "shareOrNot" == .int 1

/-- Who read what, by the rollups. -/
def pairsOf (bs : List BeRead) : List (Value × Value) :=
  bs.flatMap fun b => b.stats.readUids.map fun uid => (.text b.aid, .text uid)

/-- Who read what, by a read. -/
def pairOf (row : Tuple) : Value × Value := (Keyspace.read.cell row "aid", Keyspace.read.cell row "uid")

/-- The reads of articles that there are. -/
def knownReads (articles reads : Table) : List Tuple :=
  reads.rows.toList.filter fun row =>
    articles.rows.toList.any fun article => Keyspace.read.cell row "aid" == Keyspace.article.cell article "aid"

theorem beq_int (v : Value) (n : Int64) : (v == .int n) = decide (v.asInt? = some n) := by
  cases v with
  | int n => exact (decide_eq_decide.2 Option.some_inj).symm
  | null | text | float | dateTime | date => rfl

theorem eq_text_of_asText? {v : Value} {s : String} (h : v.asText? = some s) : v = .text s := by
  cases v with
  | text s => rw [Option.some.inj h]
  | null | int | float | dateTime | date => cases h

section Rollups

variable {articles reads : Table} (uids : ∀ row ∈ reads.rows, ∃ uid, Keyspace.read.cell row "uid" = .text uid)

theorem mem_of_mem_readsOf {aid : String} {row : Tuple} (h : row ∈ readsOf reads aid) :
    row ∈ reads.rows ∧ Keyspace.read.cell row "aid" = .text aid := by
  obtain ⟨hmem, haid⟩ := List.mem_filter.1 h
  rw [beq_text, decide_eq_true_eq] at haid
  exact ⟨Array.mem_toList_iff.1 hmem, eq_text_of_asText? haid⟩

include uids

/-- With a uid in each read all flags are read. -/
theorem readable_of_uids {article : Tuple} {aid : String} (haid : aidOf article = some aid) :
    Readable reads article := by
  have hrow : ∀ row ∈ (readsOf reads aid).map readRow, ∃ flags, ReadFlags.ofRow row = .ok flags := by
    intro fetched hfetched
    obtain ⟨row, hrow, rfl⟩ := List.mem_map.1 hfetched
    obtain ⟨uid, huid⟩ := uids row (mem_of_mem_readsOf hrow).1
    have htext : (readRow row).getText? "uid" = some uid := by
      change (Keyspace.read.cell row "uid").asText? = some uid
      rw [huid]
      rfl
    exact ⟨_, bind_eq_ok.2 ⟨uid, Row.requireText_eq_ok_iff.2 htext, rfl⟩⟩
  obtain ⟨flags, hflags⟩ := exists_mapM_eq_ok hrow
  exact ⟨aid, flags, haid, hflags⟩

theorem map_uidsOf (aid : String) (test : Tuple → Bool) :
    (uidsOf (readsOf reads aid) test).map Value.text = listed reads aid test := by
  have hall : ∀ rows : List Tuple, (∀ row ∈ rows, ∃ uid, Keyspace.read.cell row "uid" = .text uid) →
      (rows.filterMap fun row => (Keyspace.read.cell row "uid").asText?).map Value.text =
        rows.map fun row => Keyspace.read.cell row "uid" := by
    intro rows
    induction rows with
    | nil => exact fun _ => rfl
    | cons row rows ih =>
      intro h
      obtain ⟨uid, huid⟩ := h row List.mem_cons_self
      rw [List.filterMap_cons_some (by rw [huid]; rfl), List.map_cons, List.map_cons,
        ih fun row hrow => h row (List.mem_cons_of_mem _ hrow), huid]
  exact hall _ fun row hrow => uids row (mem_of_mem_readsOf (List.mem_filter.1 hrow).1).1

theorem gathered_rollupOf {article : Tuple} {aid : String} (haid : aidOf article = some aid) (id : Nat) :
    Gathered reads (article, id) (rollupOf reads id article) := by
  have hset : ∀ column, listed reads aid (fun row => Keyspace.read.cell row column == .int 1) =
      listed reads aid (isSet column) := by
    intro column
    rw [listed, listed, List.filter_congr fun row _ => beq_int (Keyspace.read.cell row column) 1]
    rfl
  have hname : (rollupOf reads id article).aid = aid := by rw [rollupOf, haid]; rfl
  have hstats : (rollupOf reads id article).stats = statsOf reads aid := by rw [rollupOf, haid]; rfl
  refine ⟨rfl, ?_, rfl, ?_, ?_, ?_, ?_⟩ <;> rw [hname]
  · exact eq_text_of_asText? haid
  · rw [hstats]
    exact map_uidsOf uids aid _
  · rw [hstats, hset]
    exact map_uidsOf uids aid _
  · rw [hstats, hset]
    exact map_uidsOf uids aid _
  · rw [hstats, hset]
    exact map_uidsOf uids aid _

/-- An article's list is its reads. -/
theorem pairs_rollupOf {article : Tuple} {aid : String} (haid : aidOf article = some aid) (id : Nat) :
    (rollupOf reads id article).stats.readUids.map (fun uid =>
        (Value.text (rollupOf reads id article).aid, Value.text uid)) =
      (reads.rows.toList.filter fun row => readAid row = aidOf article).map pairOf := by
  have hgathered := gathered_rollupOf uids haid id
  have hname : (rollupOf reads id article).aid = aid := by rw [rollupOf, haid]; rfl
  have huids := hgathered.all
  rw [hname] at huids ⊢
  have hreads : (reads.rows.toList.filter fun row => readAid row = aidOf article) = readsOf reads aid := by
    rw [haid]
    exact List.filter_congr fun row _ => (beq_text _ aid).symm
  have hpairs : (readsOf reads aid).map pairOf =
      ((readsOf reads aid).map fun row => Keyspace.read.cell row "uid").map fun uid => (Value.text aid, uid) := by
    rw [List.map_map]
    exact List.map_congr_left fun row hrow => by rw [pairOf, (mem_of_mem_readsOf hrow).2]; rfl
  rw [hreads, hpairs]
  rw [listed, List.filter_true] at huids
  rw [← huids, List.map_map]
  rfl

theorem pairsOf_rollups (named : ∀ article ∈ articles.rows, ∃ aid, aidOf article = some aid)
    (distinct : (articles.rows.toList.map aidOf).Nodup) :
    (pairsOf (rollups articles reads)).Perm ((knownReads articles reads).map pairOf) := by
  have hpairs : pairsOf (rollups articles reads) =
      ((articles.rows.toList.map aidOf).flatMap fun aid =>
        reads.rows.toList.filter (readAid · = aid)).map pairOf := by
    rw [pairsOf, List.flatMap_def, map_rollups fun article harticle id =>
      pairs_rollupOf uids (named article (Array.mem_toList_iff.1 harticle)).choose_spec id]
    rw [List.map_flatMap, List.flatMap_map, List.flatMap_def]
  rw [hpairs]
  refine ((flatMap_filter_perm distinct _).map pairOf).trans (.of_eq (congrArg _ ?_))
  refine List.filter_congr fun row _ => ?_
  rw [Bool.eq_iff_iff, List.any_eq_true]
  simp only [decide_eq_true_eq, List.mem_map]
  refine exists_congr fun article => and_congr_right fun harticle => ?_
  obtain ⟨aid, haid⟩ := named article (Array.mem_toList_iff.1 harticle)
  rw [haid, eq_text_of_asText? haid, beq_text, decide_eq_true_eq]
  exact eq_comm

end Rollups

/-- Of each article there is a rollup, in the order of the table and numbered from 1, with the uids of its
reads and of those with each of the flags; and together the rollups have each read of an article once and no
other. -/
theorem compute_gathers {s s' : Session} {server : Server} {articles reads : Table} (calm : Calm s server)
    (calm' : Calm s' server) (harticles : server.table? Keyspace.article.table = some articles)
    (hreads : server.table? Keyspace.read.table = some reads) (hspec : articles.spec = Keyspace.article.spec)
    (hspec' : reads.spec = Keyspace.read.spec)
    (named : ∀ article ∈ articles.rows, ∃ aid, Keyspace.article.cell article "aid" = .text aid)
    (distinct : (articles.rows.toList.map aidOf).Nodup)
    (uids : ∀ row ∈ reads.rows, ∃ uid, Keyspace.read.cell row "uid" = .text uid) :
    ∃ bs next, compute s s' server = (.ok bs, next) ∧
      List.Forall₂ (Gathered reads) (articles.rows.toList.zipIdx 1) bs ∧
      (pairsOf bs).Perm ((knownReads articles reads).map pairOf) := by
  have haids : ∀ article ∈ articles.rows, ∃ aid, aidOf article = some aid := by
    intro article harticle
    obtain ⟨aid, haid⟩ := named article harticle
    exact ⟨aid, by rw [aidOf, haid]; rfl⟩
  have readable : ∀ row ∈ articles.rows.toList, Readable reads row := fun row hrow =>
    readable_of_uids uids (haids row (Array.mem_toList_iff.1 hrow)).choose_spec
  obtain ⟨next, hcompute⟩ := compute_of_readable calm calm' harticles hreads hspec hspec' readable
  refine ⟨_, next, hcompute, ?_, pairsOf_rollups uids haids distinct⟩
  rw [rollups, List.forall₂_map_right_iff, List.forall₂_same]
  rintro ⟨article, id⟩ hplaced
  have hmem := Array.mem_toList_iff.1 (List.fst_mem_of_mem_zipIdx hplaced)
  exact gathered_rollupOf uids (haids article hmem).choose_spec id

/-- Two articles, and reads of them and of none: u1 reads both, a flag is 2, an aid is NULL, another unknown. -/
def mixed : Server := (Server.empty Server.still).after
  (standardSpecs.map .define ++
    [put .article ["id", "aid", "category"] [[.int 1, .text "a1", .text "c"], [.int 2, .text "a2", .null]],
      put .read ["id", "uid", "aid", "agreeOrNot"]
        [[.int 1, .text "u1", .text "a2", .int 1], [.int 2, .text "u1", .null, .int 1],
          [.int 3, .text "u2", .text "a2", .int 2], [.int 4, .text "u1", .text "a1", .text "1"],
          [.int 5, .text "u1", .null, .null], [.int 6, .text "u3", .text "a9", .int 1]]])

theorem compute_gathers_mixed : ∃ articles reads next,
    mixed.table? Keyspace.article.table = some articles ∧ mixed.table? Keyspace.read.table = some reads ∧
      compute .root .root mixed = (.ok [⟨1, "a1", "c", ⟨["u1"], [], [], []⟩⟩,
        ⟨2, "a2", "", ⟨["u1", "u2"], [], ["u1"], []⟩⟩], next) ∧
      ((knownReads articles reads).map pairOf).Perm
        [(.text "a1", .text "u1"), (.text "a2", .text "u1"), (.text "a2", .text "u2")] := by
  obtain ⟨articles, harticles, hspec, haids⟩ : ∃ t, mixed.table? Keyspace.article.table = some t ∧
      t.spec = Keyspace.article.spec ∧ t.rows.toList.map aidOf = [some "a1", some "a2"] := by decide +kernel
  obtain ⟨reads, hreads, hspec', huids⟩ : ∃ t, mixed.table? Keyspace.read.table = some t ∧
      t.spec = Keyspace.read.spec ∧
      t.rows.toList.all fun row => (Keyspace.read.cell row "uid").asText?.isSome := by decide +kernel
  have calm : Calm .root mixed := ⟨by decide +kernel, by decide +kernel⟩
  have named : ∀ article ∈ articles.rows, ∃ aid, Keyspace.article.cell article "aid" = .text aid := by
    intro article harticle
    have hmem := List.mem_map_of_mem (f := aidOf) (Array.mem_toList_iff.2 harticle)
    rw [haids, List.mem_pair] at hmem
    rcases hmem with haid | haid <;> exact ⟨_, eq_text_of_asText? haid⟩
  have uids : ∀ row ∈ reads.rows, ∃ uid, Keyspace.read.cell row "uid" = .text uid := by
    intro row hrow
    obtain ⟨uid, huid⟩ := Option.isSome_iff_exists.1 (List.all_eq_true.1 huids row (Array.mem_toList_iff.2 hrow))
    exact ⟨uid, eq_text_of_asText? huid⟩
  obtain ⟨bs, next, hcompute, -, hperm⟩ := compute_gathers calm calm harticles hreads hspec hspec' named
    (by rw [haids]; decide) uids
  have hbs : (compute .root .root mixed).1.toOption = some [⟨1, "a1", "c", ⟨["u1"], [], [], []⟩⟩,
      ⟨2, "a2", "", ⟨["u1", "u2"], [], ["u1"], []⟩⟩] := by decide +kernel
  rw [hcompute] at hbs
  obtain rfl := Option.some.inj hbs
  exact ⟨articles, reads, next, harticles, hreads, hcompute, hperm.symm⟩

end ReadingBench.Rollup
