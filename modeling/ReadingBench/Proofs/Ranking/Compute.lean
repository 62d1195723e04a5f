import ReadingBench.Proofs.Calendar.Bucket
import ReadingBench.Proofs.Outcome
import ReadingBench.Proofs.Ranking.Top

namespace ReadingBench.Ranking

open Date Granularity Outcome

section Range

variable {articles : List ArticleScore} {today : Date}

/-- A fold that picks one of two dates picks the best of all, by an order that every pick follows. -/
theorem foldl_pick {pick : Date → Date → Date} (better : Date → Date → Prop)
    (refl : ∀ d, better d d) (trans : ∀ a b c, better a b → better b c → better a c)
    (picks : ∀ d e, (pick d e = d ∨ pick d e = e) ∧ better (pick d e) d ∧ better (pick d e) e)
    (d : Date) (ds : List Date) :
    ds.foldl pick d ∈ d :: ds ∧ ∀ x ∈ d :: ds, better (ds.foldl pick d) x := by
  induction ds generalizing d with
  | nil =>
    refine ⟨List.mem_singleton_self d, fun x hx => ?_⟩
    rw [List.mem_singleton.1 hx]
    exact refl d
  | cons e ds ih =>
    obtain ⟨hmem, hbest⟩ := ih (pick d e)
    obtain ⟨hone, hd, he⟩ := picks d e
    have hpicked := hbest (pick d e) List.mem_cons_self
    rw [List.foldl_cons]
    refine ⟨?_, fun x hx => ?_⟩
    · rcases List.mem_cons.1 hmem with hsame | hlater
      · rcases hone with hd | he
        · rw [hsame, hd]
          exact List.mem_cons_self
        · rw [hsame, he]
          exact List.mem_cons_of_mem _ List.mem_cons_self
      · exact List.mem_cons_of_mem _ (List.mem_cons_of_mem _ hlater)
    · rcases List.mem_cons.1 hx with rfl | hx
      · exact trans _ _ _ hpicked hd
      rcases List.mem_cons.1 hx with rfl | hx
      · exact trans _ _ _ hpicked he
      · exact hbest x (List.mem_cons_of_mem _ hx)

theorem foldl_earlier (d : Date) (ds : List Date) :
    ds.foldl earlier d ∈ d :: ds ∧ ∀ x ∈ d :: ds, ds.foldl earlier d ≤ x := by
  apply foldl_pick (fun a b => a ≤ b) (fun d => le_def.2 le_rfl)
    (fun a b c hab hbc => le_def.2 (le_trans hab hbc))
  intro d e
  unfold earlier
  simp only [le_def, lt_def]
  split <;> simp <;> omega

theorem foldl_later (d : Date) (ds : List Date) :
    ds.foldl later d ∈ d :: ds ∧ ∀ x ∈ d :: ds, x ≤ ds.foldl later d := by
  apply foldl_pick (fun a b => b ≤ a) (fun d => le_def.2 le_rfl)
    (fun a b c hab hbc => le_def.2 (le_trans hbc hab))
  intro d e
  unfold later
  simp only [le_def]
  split <;> simp <;> omega

/-- The first and the last date of an article, or `today` twice where no article has a date. -/
structure Spanned (articles : List ArticleScore) (today initial final : Date) : Prop where
  bounds : ∀ a ∈ articles, ∀ d ∈ a.date, initial ≤ d ∧ d ≤ final
  attained : ((∃ a ∈ articles, a.date = some initial) ∧ ∃ a ∈ articles, a.date = some final) ∨
    (∀ a ∈ articles, a.date = none) ∧ initial = today ∧ final = today

theorem spanned_dateRange (articles : List ArticleScore) (today : Date) :
    Spanned articles today (dateRange articles today).1 (dateRange articles today).2 := by
  have hmem : ∀ d, d ∈ articles.filterMap (·.date) ↔ ∃ a ∈ articles, a.date = some d := fun d =>
    List.mem_filterMap
  unfold dateRange
  cases hdates : articles.filterMap (·.date) with
  | nil =>
    have hnone : ∀ a ∈ articles, a.date = none := List.filterMap_eq_nil_iff.1 hdates
    refine ⟨fun a ha d hd => ?_, .inr ⟨hnone, rfl, rfl⟩⟩
    rw [hnone a ha] at hd
    cases hd
  | cons d ds =>
    obtain ⟨hfirst, hleast⟩ := foldl_earlier d ds
    obtain ⟨hlast, hgreatest⟩ := foldl_later d ds
    rw [hdates] at hmem
    refine ⟨fun a ha e he => ?_, .inl ⟨(hmem _).1 hfirst, (hmem _).1 hlast⟩⟩
    have hdate := (hmem e).2 ⟨a, ha, he⟩
    exact ⟨hleast e hdate, hgreatest e hdate⟩

theorem exists_spanned (articles : List ArticleScore) (today : Date) : ∃ initial final,
    dateRange articles today = (initial, final) ∧ Spanned articles today initial final :=
  ⟨_, _, rfl, spanned_dateRange articles today⟩

/-- The ends of the range are dates of articles, or today. -/
theorem Spanned.ends {P : Date → Prop} {initial final : Date} (h : Spanned articles today initial final)
    (dated : ∀ a ∈ articles, ∀ d ∈ a.date, P d) (undated : (∀ a ∈ articles, a.date = none) → P today) :
    P initial ∧ P final := by
  rcases h.attained with ⟨⟨a, ha, hfirst⟩, a', ha', hlast⟩ | ⟨hnone, rfl, rfl⟩
  · exact ⟨dated a ha _ hfirst, dated a' ha' _ hlast⟩
  · exact ⟨undated hnone, undated hnone⟩

theorem Spanned.le {initial final : Date} (h : Spanned articles today initial final) : initial ≤ final := by
  rcases h.attained with ⟨⟨a, ha, hfirst⟩, -⟩ | ⟨-, rfl, rfl⟩
  · exact (h.bounds a ha _ hfirst).2
  · exact le_def.2 le_rfl

end Range

variable {config : RankConfig} {articles : List ArticleScore}

/-- The bucket at an anchor that has an upper edge. -/
def bucketAt (config : RankConfig) (articles : List ArticleScore) (g : Granularity) (anchor : Date) :
    Bucket :=
  ⟨g, anchor, topAids config.topN.toNat (eligible articles ((g.upperEdge? anchor).getD anchor))⟩

theorem mapM_bucket? {g : Granularity} {anchors : List Date}
    (edges : ∀ anchor ∈ anchors, ∃ edge, g.upperEdge? anchor = some edge) :
    anchors.mapM (bucket? config articles g) = some (anchors.map (bucketAt config articles g)) := by
  induction anchors with
  | nil => rfl
  | cons anchor anchors ih =>
    obtain ⟨edge, hedge⟩ := edges anchor List.mem_cons_self
    have hrest := ih fun a ha => edges a (List.mem_cons_of_mem _ ha)
    have hbucket : bucket? config articles g anchor = some (bucketAt config articles g anchor) := by
      unfold bucket? bucketAt
      rw [hedge]
      rfl
    rw [List.mapM_cons, hbucket, hrest]
    rfl

variable {today initial final : Date} {anchors : Granularity → List Date}

/-- The buckets at the anchors of a range, if all of them end within the calendar. -/
theorem buckets?_of_anchors (hrange : dateRange articles today = (initial, final))
    (hanchors : ∀ g : Granularity, g.anchors? initial final = some (anchors g))
    (edges : ∀ g, ∀ anchor ∈ anchors g, ∃ edge, g.upperEdge? anchor = some edge) :
    buckets? config articles today = some ((Attribute.all : List Granularity).flatMap fun g =>
      (anchors g).map (bucketAt config articles g)) := by
  have hlist : ∀ g, (do
      (← g.anchors? initial final).mapM (bucket? config articles g) : Option (List Bucket)) =
        some ((anchors g).map (bucketAt config articles g)) := by
    intro g
    rw [hanchors]
    exact mapM_bucket? (edges g)
  rw [buckets?, hrange]
  dsimp only
  rw [funext hlist]
  rfl

/-- Three granularities with hardly more buckets than the calendar has days. -/
theorem length_buckets?_lt {buckets : List Bucket} (h : buckets? config articles today = some buckets) :
    buckets.length < 2 ^ 64 := by
  obtain ⟨⟨first, last⟩, hpair⟩ : ∃ pair, dateRange articles today = pair := ⟨_, rfl⟩
  rw [buckets?, hpair] at h
  obtain ⟨lists, hlists, h⟩ := Option.bind_eq_some_iff.1 h
  obtain rfl := Option.some.inj h
  have hall := mapM_eq_some.1 hlists
  have hthree : lists.length = 3 := hall.length_eq.symm
  have hcalendar : (Date.last.dayNumber - Date.first.dayNumber).toNat + 2 < 2 ^ 30 := by decide
  have hshort : ∀ list ∈ lists, list.length ≤ 2 ^ 30 := by
    intro list hlist
    obtain ⟨i, hi, rfl⟩ := List.getElem_of_mem hlist
    obtain ⟨anchors, hanchors, hmade⟩ :=
      Option.bind_eq_some_iff.1 (hall.get (hall.length_eq ▸ hi) hi)
    have hbound := Granularity.length_anchors?_le hanchors
    have hfirst := first.first_le
    have hlast := last.le_last
    have hcount : anchors.length = lists[i].length := (mapM_eq_some.1 hmade).length_eq
    omega
  have hsum := List.sum_le_card_nsmul (lists.map List.length) (2 ^ 30) (by simpa using hshort)
  rw [List.length_map, hthree, smul_eq_mul] at hsum
  rw [List.length_flatten]
  omega

/-- A row for each bucket. -/
def rowsOf (buckets : List Bucket) : List PopularRank :=
  buckets.mapIdx fun i b => ⟨UInt64.ofNat (i + 1), b.granularity, b.anchor, b.aids⟩

theorem length_rowsOf (buckets : List Bucket) : (rowsOf buckets).length = buckets.length :=
  List.length_mapIdx

theorem map_id_rowsOf {buckets : List Bucket} (few : buckets.length < 2 ^ 64) :
    (rowsOf buckets).map (·.id.toNat) = List.range' 1 (rowsOf buckets).length := by
  apply List.ext_getElem
  · simp
  intro i h h'
  have hrow : i < (rowsOf buckets).length := by simpa using h
  have hi : i < buckets.length := by rwa [length_rowsOf] at hrow
  have hsmall : i + 1 < UInt64.size := by
    rw [UInt64.size]
    omega
  have hid : (rowsOf buckets)[i].id = UInt64.ofNat (i + 1) := by
    simp [rowsOf]
  rw [List.getElem_map, List.getElem_range', hid, UInt64.toNat_ofNat_of_lt' hsmall]
  omega

end ReadingBench.Ranking
