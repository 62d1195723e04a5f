import ReadingBench.Proofs.Store.Run
import ReadingBench.Seeding.Load

namespace ReadingBench

open Sql Store Outcome

namespace Attribute

theorem read_text_region (r : Region) : read (text r) = .ok r := by cases r <;> rfl

theorem read_text_language (l : Language) : read (text l) = .ok l := by cases l <;> rfl

theorem text_of_read {α : Type} [Attribute α] {s : String} {a : α} (h : read s = .ok a) : text a = s := by
  unfold read at h
  split at h
  · rename_i found hfound
    obtain rfl := Except.ok.inj h
    unfold ofText? at hfound
    have htext := List.find?_some hfound
    exact of_decide_eq_true htext
  · cases h

end Attribute

namespace Sql.Row

/-- A column's value stands at the place of the column. -/
theorem get?_bind {α : Type} {columns : List String} {column : String} {i : Nat} (values : List Value)
    (h : columns.idxOf? column = some i) {as? : Value → Option α} (hnull : as? .null = none) :
    (Row.mk columns values).get? column >>= as? = as? (values.getD i .null) := by
  unfold get?
  dsimp only
  induction columns generalizing values i with
  | nil => cases h
  | cons c columns ih =>
    rw [List.idxOf?_cons] at h
    cases values with
    | nil => exact hnull.symm
    | cons v values =>
      rw [List.zip_cons_cons, List.lookup_cons]
      by_cases hc : c = column
      · subst hc
        rw [if_pos (beq_self_eq_true c)] at h
        obtain rfl := Option.some.inj h
        rw [beq_self_eq_true]
        rfl
      · have hne : (column == c) = false := beq_false_of_ne (Ne.symm hc)
        rw [if_neg (by simpa using hc)] at h
        obtain ⟨j, hj, rfl⟩ := Option.map_eq_some_iff.1 h
        rw [hne]
        exact ih values hj

theorem getText?_eq {columns : List String} {column : String} {i : Nat} (values : List Value)
    (h : columns.idxOf? column = some i) :
    (Row.mk columns values).getText? column = (values.getD i .null).asText? := get?_bind values h rfl

theorem getInt?_eq {columns : List String} {column : String} {i : Nat} (values : List Value)
    (h : columns.idxOf? column = some i) :
    (Row.mk columns values).getInt? column = (values.getD i .null).asInt? := get?_bind values h rfl

end Sql.Row

namespace ReferentialIndex

/-- A user, as the index takes it from a row. -/
def userEntry (row : Row) : Except RunError (String × Region) := do
  let uid ← row.requireText .user "uid"
  let region ← row.requireText .user "region"
  return (uid, ← Attribute.read region)

def articleEntry (row : Row) : Except RunError (String × Language) := do
  let aid ← row.requireText .article "aid"
  let language ← row.requireText .article "language"
  return (aid, ← Attribute.read language)

theorem userEntry_eq_ok {row : Row} {uid : String} {region : Region} :
    userEntry row = .ok (uid, region) ↔
      row.getText? "uid" = some uid ∧ row.getText? "region" = some (Attribute.text region) := by
  constructor
  · intro h
    obtain ⟨uid', huid, h⟩ := bind_eq_ok.1 h
    obtain ⟨text, htext, h⟩ := bind_eq_ok.1 h
    obtain ⟨region', hregion, h⟩ := bind_eq_ok.1 h
    obtain ⟨rfl, rfl⟩ := Prod.mk.inj (pure_eq_ok.1 h)
    rw [Attribute.text_of_read hregion]
    exact ⟨Row.requireText_eq_ok_iff.1 huid, Row.requireText_eq_ok_iff.1 htext⟩
  · rintro ⟨huid, hregion⟩
    rw [userEntry, Row.requireText_eq_ok_iff.2 huid, ok_bind, Row.requireText_eq_ok_iff.2 hregion,
      ok_bind, Attribute.read_text_region]
    rfl

theorem articleEntry_eq_ok {row : Row} {aid : String} {language : Language} :
    articleEntry row = .ok (aid, language) ↔
      row.getText? "aid" = some aid ∧ row.getText? "language" = some (Attribute.text language) := by
  constructor
  · intro h
    obtain ⟨aid', haid, h⟩ := bind_eq_ok.1 h
    obtain ⟨text, htext, h⟩ := bind_eq_ok.1 h
    obtain ⟨language', hlanguage, h⟩ := bind_eq_ok.1 h
    obtain ⟨rfl, rfl⟩ := Prod.mk.inj (pure_eq_ok.1 h)
    rw [Attribute.text_of_read hlanguage]
    exact ⟨Row.requireText_eq_ok_iff.1 haid, Row.requireText_eq_ok_iff.1 htext⟩
  · rintro ⟨haid, hlanguage⟩
    rw [articleEntry, Row.requireText_eq_ok_iff.2 haid, ok_bind,
      Row.requireText_eq_ok_iff.2 hlanguage, ok_bind, Attribute.read_text_language]
    rfl

def addUsers (index : ReferentialIndex) (users : List (String × Region)) : ReferentialIndex :=
  users.foldl (fun index user => index.addUser user.1 user.2) index

def addArticles (index : ReferentialIndex) (articles : List (String × Language)) : ReferentialIndex :=
  articles.foldl (fun index article => index.addArticle article.1 article.2) index

def ofEntries (users : List (String × Region)) (articles : List (String × Language)) :
    ReferentialIndex := (empty.addUsers users).addArticles articles

section Known

variable {index : ReferentialIndex} {users : List (String × Region)}
  {articles : List (String × Language)} {uid aid : String}

theorem addUsers_languages : (index.addUsers users).languages = index.languages := by
  unfold addUsers
  induction users generalizing index with
  | nil => rfl
  | cons user users ih => exact ih

theorem addArticles_regions : (index.addArticles articles).regions = index.regions := by
  unfold addArticles
  induction articles generalizing index with
  | nil => rfl
  | cons article articles ih => exact ih

/-- Entries into a map, later ones over earlier ones. -/
def enter {α : Type} (map : Std.TreeMap String α) (entries : List (String × α)) :
    Std.TreeMap String α :=
  entries.foldl (fun map entry => map.insert entry.1 entry.2) map

theorem addUsers_regions : (index.addUsers users).regions = enter index.regions users := by
  unfold addUsers enter
  induction users generalizing index with
  | nil => rfl
  | cons user users ih => exact ih

theorem addArticles_languages :
    (index.addArticles articles).languages = enter index.languages articles := by
  unfold addArticles enter
  induction articles generalizing index with
  | nil => rfl
  | cons article articles ih => exact ih

variable {α : Type} {map : Std.TreeMap String α} {entries : List (String × α)} {key : String}

theorem mem_of_getElem?_enter {a : α} (h : (enter map entries)[key]? = some a) :
    (key, a) ∈ entries ∨ map[key]? = some a := by
  induction entries generalizing map with
  | nil => exact .inr h
  | cons entry entries ih =>
    rcases ih h with hlater | hbefore
    · exact .inl (List.mem_cons_of_mem _ hlater)
    · rw [Std.TreeMap.getElem?_insert] at hbefore
      split at hbefore
      · rename_i hsame
        obtain rfl := Option.some.inj hbefore
        have hkey : entry.1 = key := by simpa using hsame
        exact .inl (hkey ▸ List.mem_cons_self)
      · exact .inr hbefore

theorem mem_enter : key ∈ enter map entries ↔ key ∈ map ∨ key ∈ entries.map (·.1) := by
  induction entries generalizing map with
  | nil => simp [enter]
  | cons entry entries ih =>
    have hrest := @ih (map.insert entry.1 entry.2)
    rw [Std.TreeMap.mem_insert] at hrest
    rw [List.map_cons, List.mem_cons]
    refine hrest.trans ?_
    have hsame : compare entry.1 key = .eq ↔ key = entry.1 := by
      rw [compare_eq_iff_eq, eq_comm]
    rw [hsame]
    tauto

/-- An entry whose key no other has. -/
theorem getElem?_enter {a : α} (fresh : key ∉ map) (distinct : (entries.map (·.1)).Nodup)
    (h : (key, a) ∈ entries) : (enter map entries)[key]? = some a := by
  have hmem : key ∈ enter map entries := mem_enter.2 (.inr (List.mem_map_of_mem h))
  obtain ⟨b, hb⟩ := Option.isSome_iff_exists.1 (Std.TreeMap.isSome_getElem?_iff_mem.2 hmem)
  rcases mem_of_getElem?_enter hb with hentry | hold
  · obtain ⟨-, rfl⟩ := Prod.mk.inj (List.inj_on_of_nodup_map distinct hentry h rfl)
    exact hb
  · exact absurd (Std.TreeMap.isSome_getElem?_iff_mem.1 (Option.isSome_of_eq_some hold)) fresh

/-- Distinct keys are as many as the entries. -/
theorem size_enter (fresh : ∀ key ∈ entries.map (·.1), key ∉ map)
    (distinct : (entries.map (·.1)).Nodup) : (enter map entries).size = map.size + entries.length := by
  induction entries generalizing map with
  | nil => rfl
  | cons entry entries ih =>
    rw [List.map_cons] at fresh distinct
    obtain ⟨hnew, hrest⟩ := List.nodup_cons.1 distinct
    have hfirst : entry.1 ∉ map := fresh _ List.mem_cons_self
    have hlater : ∀ key ∈ entries.map (·.1), key ∉ map.insert entry.1 entry.2 := by
      intro key hkey hmem
      rcases Std.TreeMap.mem_insert.1 hmem with hsame | hold
      · have hsame' : entry.1 = key := by simpa using hsame
        exact hnew (hsame' ▸ hkey)
      · exact fresh key (List.mem_cons_of_mem _ hkey) hold
    have hsize := ih hlater hrest
    rw [Std.TreeMap.size_insert, if_neg (by simpa using hfirst)] at hsize
    rw [List.length_cons, enter, List.foldl_cons]
    exact hsize.trans (by omega)

theorem regionOf?_eq_some {region : Region} (h : (ofEntries users articles).regionOf? uid = some region) :
    (uid, region) ∈ users := by
  unfold ofEntries regionOf? at h
  rw [addArticles_regions, addUsers_regions] at h
  exact (mem_of_getElem?_enter h).resolve_right (by simp [empty])

theorem languageOf?_eq_some {language : Language}
    (h : (ofEntries users articles).languageOf? aid = some language) : (aid, language) ∈ articles := by
  unfold ofEntries languageOf? at h
  rw [addArticles_languages, addUsers_languages] at h
  exact (mem_of_getElem?_enter h).resolve_right (by simp [empty])

theorem isSome_regionOf? (h : uid ∈ users.map (·.1)) :
    ((ofEntries users articles).regionOf? uid).isSome := by
  unfold ofEntries regionOf?
  rw [addArticles_regions, addUsers_regions, Std.TreeMap.isSome_getElem?_iff_mem]
  exact mem_enter.2 (.inr h)

theorem isSome_languageOf? (h : aid ∈ articles.map (·.1)) :
    ((ofEntries users articles).languageOf? aid).isSome := by
  unfold ofEntries languageOf?
  rw [addArticles_languages, addUsers_languages, Std.TreeMap.isSome_getElem?_iff_mem]
  exact mem_enter.2 (.inr h)

theorem userCount_ofEntries (distinct : (users.map (·.1)).Nodup) :
    (ofEntries users articles).userCount = users.length := by
  unfold ofEntries userCount
  rw [addArticles_regions, addUsers_regions, size_enter (by simp [empty]) distinct]
  simp [empty]

theorem articleCount_ofEntries (distinct : (articles.map (·.1)).Nodup) :
    (ofEntries users articles).articleCount = articles.length := by
  unfold ofEntries articleCount
  rw [addArticles_languages, addUsers_languages, size_enter (by simp [empty]) distinct]
  simp [empty]

end Known

end ReferentialIndex

namespace Store

theorem Table.select_all {t : Table} {ref : TableRef} {columns : List String} {positions : List Nat}
    (h : columns.mapM t.spec.position = .ok positions) :
    t.select { table := ref, columns } =
      .ok (t.rows.toList.map fun row => ⟨columns, positions.map fun i => row.getD i .null⟩) := by
  have hall : (t.rows.filter fun _ => true) = t.rows := by simp
  rw [Table.select, h, ok_bind]
  simp only [Option.mapM_none, pure_bind, Option.all_none, hall]
  rfl

/-- The users and articles that are stored, as far as reads have to know them. -/
structure Server.Lists (server : Server) (users : List (String × Region))
    (articles : List (String × Language)) : Prop where
  users : ∃ rows, server.rows Keyspace.user.table = .ok rows ∧
    rows.mapM ReferentialIndex.userEntry = .ok users
  articles : ∃ rows, server.rows Keyspace.article.table = .ok rows ∧
    rows.mapM ReferentialIndex.articleEntry = .ok articles

end Store

namespace ReferentialIndex

theorem foldlM_addUser (rows : List Row) (index : ReferentialIndex) :
    rows.foldlM (fun (index : ReferentialIndex) row => do
      let uid ← row.requireText .user "uid"
      let region ← row.requireText .user "region"
      return index.addUser uid (← Attribute.read region)) index =
    (do return index.addUsers (← rows.mapM userEntry)) := by
  induction rows generalizing index with
  | nil => rfl
  | cons row rows ih =>
    rw [List.foldlM_cons, List.mapM_cons]
    simp only [ih, userEntry, bind_assoc, pure_bind]
    rfl

theorem foldlM_addArticle (rows : List Row) (index : ReferentialIndex) :
    rows.foldlM (fun (index : ReferentialIndex) row => do
      let aid ← row.requireText .article "aid"
      let language ← row.requireText .article "language"
      return index.addArticle aid (← Attribute.read language)) index =
    (do return index.addArticles (← rows.mapM articleEntry)) := by
  induction rows generalizing index with
  | nil => rfl
  | cons row rows ih =>
    rw [List.foldlM_cons, List.mapM_cons]
    simp only [ih, articleEntry, bind_assoc, pure_bind]
    rfl

/-- An entry needs two columns only. -/
theorem userEntry_selected (row : Tuple) :
    userEntry ⟨["uid", "region"], [1, 10].map fun i => row.getD i .null⟩ =
      userEntry ⟨Keyspace.user.columns, row⟩ := by
  unfold userEntry Row.requireText
  rw [Row.getText?_eq (i := 0) _ rfl, Row.getText?_eq (i := 1) _ rfl, Row.getText?_eq (i := 1) row rfl,
    Row.getText?_eq (i := 10) row rfl]
  rfl

theorem articleEntry_selected (row : Tuple) :
    articleEntry ⟨["aid", "language"], [1, 8].map fun i => row.getD i .null⟩ =
      articleEntry ⟨Keyspace.article.columns, row⟩ := by
  unfold articleEntry Row.requireText
  rw [Row.getText?_eq (i := 0) _ rfl, Row.getText?_eq (i := 1) _ rfl, Row.getText?_eq (i := 1) row rfl,
    Row.getText?_eq (i := 8) row rfl]
  rfl

theorem mapM_selected {α : Type} {entry : Row → Except RunError α} {columns columns' : List String}
    {positions : List Nat} (rows : List Tuple)
    (same : ∀ row : Tuple, entry ⟨columns, positions.map fun i => row.getD i .null⟩ = entry ⟨columns', row⟩) :
    (rows.map fun row => (⟨columns, positions.map fun i => row.getD i .null⟩ : Row)).mapM entry =
      (rows.map fun row => (⟨columns', row⟩ : Row)).mapM entry := by
  rw [List.mapM_map, List.mapM_map]
  exact congrArg (fun f => rows.mapM f) (funext same)

variable {session : Session} {server next : Server} {t u : Table}

theorem mapM_position_user (h : t.spec = Keyspace.user.spec) :
    ["uid", "region"].mapM t.spec.position = .ok [1, 10] := by
  rw [h]
  rfl

theorem mapM_position_article (h : t.spec = Keyspace.article.spec) :
    ["aid", "language"].mapM t.spec.position = .ok [1, 8] := by
  rw [h]
  rfl

/-- The rebuilt index is that of the stored users and articles. -/
theorem load_eq_ok {index : ReferentialIndex} (ht : server.table? Keyspace.user.table = some t)
    (hspec : t.spec = Keyspace.user.spec) (hu : server.table? Keyspace.article.table = some u)
    (hspec' : u.spec = Keyspace.article.spec) (h : load session server = (.ok index, next)) :
    ∃ users articles, server.Lists users articles ∧ index = ofEntries users articles ∧
      next.tables = server.tables := by
  unfold load at h
  simp only [foldlM_addUser, foldlM_addArticle] at h
  obtain ⟨rows, first, hselect, h⟩ := bind_apply_eq_ok.1 h
  obtain ⟨hfirst, t', ht', hrows⟩ := Session.select_eq_ok (Run.ofAction_eq_ok.1 hselect)
  obtain rfl := Option.some.inj (ht.symm.trans ht')
  rw [Table.select_all (mapM_position_user hspec)] at hrows
  obtain rfl := Except.ok.inj hrows
  obtain ⟨grown, same, hgrown, h⟩ := bind_apply_eq_ok.1 h
  obtain ⟨hentered, rfl⟩ := Run.ofExcept_eq_ok.1 hgrown
  obtain ⟨users, husers, hentered⟩ := bind_eq_ok.1 hentered
  obtain rfl := pure_eq_ok.1 hentered
  obtain ⟨rows', second, hselect', h⟩ := bind_apply_eq_ok.1 h
  obtain ⟨hsecond, u', hu', hrows'⟩ := Session.select_eq_ok (Run.ofAction_eq_ok.1 hselect')
  obtain rfl := Option.some.inj (hu.symm.trans ((Server.table?_of_tables hfirst _).symm.trans hu'))
  rw [Table.select_all (mapM_position_article hspec')] at hrows'
  obtain rfl := Except.ok.inj hrows'
  obtain ⟨hindex, rfl⟩ := Run.ofExcept_eq_ok.1 h
  obtain ⟨articles, harticles, hindex⟩ := bind_eq_ok.1 hindex
  obtain rfl := pure_eq_ok.1 hindex
  rw [mapM_selected _ userEntry_selected] at husers
  rw [mapM_selected _ articleEntry_selected] at harticles
  refine ⟨users, articles, ⟨⟨_, ?_, husers⟩, _, ?_, harticles⟩, rfl, hsecond.trans hfirst⟩
  · have hcolumns : t.spec.columns = Keyspace.user.columns := congrArg TableSpec.columns hspec
    simp only [Server.rows, ht, hcolumns]
  · have hcolumns : u.spec.columns = Keyspace.article.columns := congrArg TableSpec.columns hspec'
    simp only [Server.rows, hu, hcolumns]

end ReferentialIndex
end ReadingBench
