import ReadingBench.Proofs.Ranking.Stocked

namespace ReadingBench.Ranking

open Date Granularity

variable {articles articles' : List ArticleScore}

section Range

/-- The dates of the articles determine the range. -/
theorem Spanned.unique {today initial final initial' final' : Date} (h : Spanned articles today initial final)
    (h' : Spanned articles today initial' final') : initial = initial' ∧ final = final' := by
  rcases h.attained with ⟨⟨a, ha, hfirst⟩, b, hb, hlast⟩ | ⟨hnone, rfl, rfl⟩
  · rcases h'.attained with ⟨⟨a', ha', hfirst'⟩, b', hb', hlast'⟩ | ⟨hnone, -⟩
    · have hlow := le_def.1 (h.bounds a' ha' _ hfirst').1
      have hlow' := le_def.1 (h'.bounds a ha _ hfirst).1
      have hhigh := le_def.1 (h.bounds b' hb' _ hlast').2
      have hhigh' := le_def.1 (h'.bounds b hb _ hlast).2
      exact ⟨dayNumber_injective (le_antisymm hlow hlow'), dayNumber_injective (le_antisymm hhigh' hhigh)⟩
    · cases (hnone a ha).symm.trans hfirst
  · rcases h'.attained with ⟨⟨a', ha', hfirst'⟩, -⟩ | ⟨-, rfl, rfl⟩
    · cases (hnone a' ha').symm.trans hfirst'
    · exact ⟨rfl, rfl⟩

theorem Spanned.of_perm {today initial final : Date} (h : Spanned articles today initial final)
    (perm : articles.Perm articles') : Spanned articles' today initial final where
  bounds a ha := h.bounds a (perm.mem_iff.2 ha)
  attained := by simpa only [perm.mem_iff] using h.attained

theorem dateRange_perm (perm : articles.Perm articles') (today : Date) :
    dateRange articles today = dateRange articles' today := by
  have hrange := (spanned_dateRange articles today).of_perm perm
  obtain ⟨hfirst, hlast⟩ := hrange.unique (spanned_dateRange articles' today)
  exact Prod.ext hfirst hlast

end Range

section Listed

theorem ranked_perm_ranked (perm : articles.Perm articles') : (ranked articles).Perm (ranked articles') :=
  ((ranked_perm articles).trans perm).trans (ranked_perm articles').symm

/-- Sorting by reads gives the same reads place by place. -/
theorem map_readNum_ranked_perm (perm : articles.Perm articles') :
    (ranked articles).map (·.readNum) = (ranked articles').map (·.readNum) := by
  have hsorted : ∀ as : List ArticleScore, ((ranked as).map (·.readNum)).Pairwise fun m n => n ≤ m :=
    fun as => List.pairwise_map.2 (ranked_descending as)
  exact ((ranked_perm_ranked perm).map _).eq_of_pairwise (fun m n _ _ hnm hmn => Int64.le_antisymm hmn hnm)
    (hsorted articles) (hsorted articles')

/-- Without ties there is one order by reads. -/
theorem ranked_perm_eq (perm : articles.Perm articles') (distinct : (articles.map (·.readNum)).Nodup) :
    ranked articles = ranked articles' := by
  refine (ranked_perm_ranked perm).eq_of_pairwise (fun a b ha hb hba hab => ?_) (ranked_descending articles)
    (ranked_descending articles')
  have ha' : a ∈ articles := (ranked_perm articles).mem_iff.1 ha
  have hb' : b ∈ articles := perm.mem_iff.2 ((ranked_perm articles').mem_iff.1 hb)
  exact List.inj_on_of_nodup_map distinct ha' hb' (Int64.le_antisymm hab hba)

/-- The articles that a bucket lists, the one read most first. -/
def listed (config : RankConfig) (articles : List ArticleScore) (g : Granularity) (anchor : Date) :
    List ArticleScore :=
  (ranked (eligible articles ((g.upperEdge? anchor).getD anchor))).take config.topN.toNat

theorem map_readNum_listed_perm (perm : articles.Perm articles') (config : RankConfig) (g : Granularity)
    (anchor : Date) : (listed config articles g anchor).map (·.readNum) =
      (listed config articles' g anchor).map (·.readNum) := by
  simp only [listed, List.map_take, map_readNum_ranked_perm (perm.filter _), eligible]

theorem listed_perm_eq (perm : articles.Perm articles') (distinct : (articles.map (·.readNum)).Nodup)
    (config : RankConfig) (g : Granularity) (anchor : Date) :
    listed config articles g anchor = listed config articles' g anchor := by
  have hsome : ((eligible articles ((g.upperEdge? anchor).getD anchor)).map (·.readNum)).Nodup :=
    distinct.sublist (List.filter_sublist.map _)
  exact congrArg (List.take config.topN.toNat) (ranked_perm_eq (perm.filter _) hsome)

end Listed

section Slots

/-- The buckets of one granularity in a range, by their anchors; none where one is not within the calendar. -/
def slots? (first last : Date) (g : Granularity) : Option (List (Granularity × Date)) := do
  (← g.anchors? first last).mapM fun anchor => (g.upperEdge? anchor).map fun _ => (g, anchor)

def allSlots? (first last : Date) : Option (List (Granularity × Date)) :=
  ((Attribute.all : List Granularity).mapM (slots? first last)).map List.flatten

/-- The bucket of a slot, with what it lists. -/
def fill (config : RankConfig) (articles : List ArticleScore) (slot : Granularity × Date) : Bucket :=
  bucketAt config articles slot.1 slot.2

theorem mapM_map {α β γ : Type} (f : α → Option β) (h : β → γ) (as : List α) :
    as.mapM (fun a => (f a).map h) = (as.mapM f).map (List.map h) := by
  induction as with
  | nil => rfl
  | cons a as ih =>
    rw [List.mapM_cons, List.mapM_cons, ih]
    cases f a <;> cases as.mapM f <;> rfl

theorem bucket?_eq (config : RankConfig) (articles : List ArticleScore) (g : Granularity) (anchor : Date) :
    bucket? config articles g anchor =
      ((g.upperEdge? anchor).map fun _ => (g, anchor)).map (fill config articles) := by
  cases hedge : g.upperEdge? anchor <;> simp [bucket?, fill, bucketAt, hedge]

theorem slots?_filled (config : RankConfig) (articles : List ArticleScore) (first last : Date) (g : Granularity) :
    (do (← g.anchors? first last).mapM (bucket? config articles g)) =
      (slots? first last g).map (List.map (fill config articles)) := by
  unfold slots?
  cases g.anchors? first last with
  | none => rfl
  | some anchors =>
    dsimp only [Option.bind_eq_bind, Option.bind_some]
    rw [← mapM_map, funext (bucket?_eq config articles g)]

theorem buckets?_eq (config : RankConfig) (articles : List ArticleScore) (today : Date) :
    buckets? config articles today =
      (allSlots? (dateRange articles today).1 (dateRange articles today).2).map
        (List.map (fill config articles)) := by
  obtain ⟨⟨first, last⟩, hrange⟩ : ∃ range, dateRange articles today = range := ⟨_, rfl⟩
  rw [buckets?, hrange]
  dsimp only
  rw [funext (slots?_filled config articles first last), mapM_map, allSlots?]
  cases (Attribute.all : List Granularity).mapM (slots? first last) with
  | none => rfl
  | some lists => exact congrArg some List.map_flatten.symm

/-- The ranking fills the slots of the range of its dates. -/
theorem compute?_eq (config : RankConfig) (today : Date) (present : articles ≠ []) :
    compute? config articles today =
      (allSlots? (dateRange articles today).1 (dateRange articles today).2).map fun slots =>
        rowsOf (slots.map (fill config articles)) := by
  rw [compute?, if_neg (by simpa using present), buckets?_eq, Option.map_map]
  rfl

end Slots

/-- Rows of one bucket in two rankings. What they list is read as often place by place. -/
structure SameCounts (config : RankConfig) (articles articles' : List ArticleScore) (r r' : PopularRank) :
    Prop where
  id : r.id = r'.id
  granularity : r.granularity = r'.granularity
  rankDate : r.rankDate = r'.rankDate
  aids : r.aids = (listed config articles r.granularity r.rankDate).map (·.aid)
  aids' : r'.aids = (listed config articles' r'.granularity r'.rankDate).map (·.aid)
  readNums : (listed config articles r.granularity r.rankDate).map (·.readNum) =
    (listed config articles' r'.granularity r'.rankDate).map (·.readNum)

/-- The rows of the same slots differ at most in the order of equally read articles. -/
theorem sameCounts_rowsOf (perm : articles.Perm articles') (config : RankConfig)
    (slots : List (Granularity × Date)) : List.Forall₂ (SameCounts config articles articles')
      (rowsOf (slots.map (fill config articles))) (rowsOf (slots.map (fill config articles'))) := by
  refine List.forall₂_iff_get.2 ⟨by simp [rowsOf], fun i h h' => ?_⟩
  have hi : i < slots.length := by simpa [rowsOf] using h
  simp only [List.get_eq_getElem, rowsOf, List.getElem_mapIdx, List.getElem_map]
  exact ⟨rfl, rfl, rfl, rfl, rfl, map_readNum_listed_perm perm config _ _⟩

theorem fill_perm_eq (perm : articles.Perm articles') (distinct : (articles.map (·.readNum)).Nodup)
    (config : RankConfig) : fill config articles = fill config articles' := by
  funext slot
  have haids := congrArg (List.map (·.aid)) (listed_perm_eq perm distinct config slot.1 slot.2)
  exact congrArg (Bucket.mk slot.1 slot.2) haids

/-- The ranking of the same articles in another order. It is made for both orders or for neither, and for both
where the dates are in buckets within the calendar. Its rows agree in number, ids, granularities and dates and in
the reads of what they list; without ties they are the same. -/
theorem compute?_reordered (config : RankConfig) (today : Date) (perm : articles.Perm articles') :
    Option.Rel (List.Forall₂ (SameCounts config articles articles')) (compute? config articles today)
        (compute? config articles' today) ∧
      ((articles.map (·.readNum)).Nodup → compute? config articles today = compute? config articles' today) ∧
      ((∀ a ∈ articles, ∀ d ∈ a.date, d.Bucketed) →
        (articles ≠ [] → (∀ a ∈ articles, a.date = none) → today.Bucketed) →
        ∃ ranks ranks', compute? config articles today = some ranks ∧
          compute? config articles' today = some ranks') := by
  by_cases present : articles = []
  · subst present
    obtain rfl := perm.nil_eq
    exact ⟨.some .nil, fun _ => rfl, fun _ _ => ⟨[], [], rfl, rfl⟩⟩
  have present' : articles' ≠ [] := fun h => present (h ▸ perm).eq_nil
  have hcompute := compute?_eq config today present
  have hcompute' := compute?_eq config today present'
  rw [← dateRange_perm perm today] at hcompute'
  cases hslots : allSlots? (dateRange articles today).1 (dateRange articles today).2 with
  | none =>
    rw [hslots, Option.map_none] at hcompute hcompute'
    refine ⟨?_, fun _ => hcompute.trans hcompute'.symm, fun dated undated => ?_⟩
    · rw [hcompute, hcompute']
      exact .none
    · obtain ⟨ranks, hranks⟩ := exists_compute? config dated undated
      cases hcompute.symm.trans hranks
  | some slots =>
    rw [hslots, Option.map_some] at hcompute hcompute'
    refine ⟨?_, fun distinct => ?_, fun _ _ => ⟨_, _, hcompute, hcompute'⟩⟩
    · rw [hcompute, hcompute']
      exact .some (sameCounts_rowsOf perm config slots)
    · rw [hcompute, hcompute', fill_perm_eq perm distinct]

/-- Two equally read articles, between them one that is read less. -/
def tiedArticles : List ArticleScore :=
  [⟨"article0", Date.ofParts? 2017 9 29, 4⟩, ⟨"article1", Date.ofParts? 2017 10 2, 1⟩,
    ⟨"article2", none, 4⟩]

theorem compute?_reordered_tied :
    tiedArticles.Perm tiedArticles.reverse ∧
    (∃ ranks ranks', compute? ⟨1⟩ tiedArticles defaultBaseTime.date = some ranks ∧
      compute? ⟨1⟩ tiedArticles.reverse defaultBaseTime.date = some ranks' ∧
      List.Forall₂ (SameCounts ⟨1⟩ tiedArticles tiedArticles.reverse) ranks ranks' ∧ ranks.length = 8) ∧
    compute? ⟨3⟩ (tiedArticles.take 2) defaultBaseTime.date =
      compute? ⟨3⟩ (tiedArticles.take 2).reverse defaultBaseTime.date := by
  have perm : tiedArticles.Perm tiedArticles.reverse := tiedArticles.reverse_perm.symm
  obtain ⟨hrel, -, hmade⟩ := compute?_reordered ⟨1⟩ defaultBaseTime.date perm
  have dated : ∀ a ∈ tiedArticles, ∀ d ∈ a.date, d.Inner := by decide
  obtain ⟨ranks, ranks', hranks, hranks'⟩ := hmade (fun a ha d hd => (dated a ha d hd).bucketed)
    (fun _ h => absurd (h _ List.mem_cons_self) (by decide))
  refine ⟨perm, ⟨ranks, ranks', hranks, hranks', ?_, ?_⟩, ?_⟩
  · rw [hranks, hranks'] at hrel
    cases hrel with
    | some rows => exact rows
  · have hcount : (compute? ⟨1⟩ tiedArticles defaultBaseTime.date).map (·.length) = some 8 := by
      decide +kernel
    rw [hranks] at hcount
    exact Option.some.inj hcount
  · exact (compute?_reordered ⟨3⟩ _ (tiedArticles.take 2).reverse_perm.symm).2.1 (by decide)

end ReadingBench.Ranking
