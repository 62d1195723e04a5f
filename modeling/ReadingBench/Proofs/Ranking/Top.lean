import Mathlib
import ReadingBench.Ranking

namespace ReadingBench.Ranking

/-- The articles in descending order of their reads. -/
def ranked (articles : List ArticleScore) : List ArticleScore :=
  articles.mergeSort fun a b => b.readNum ≤ a.readNum

section Order

variable (articles : List ArticleScore)

theorem descending_trans (a b c : ArticleScore) (hab : decide (b.readNum ≤ a.readNum) = true)
    (hbc : decide (c.readNum ≤ b.readNum) = true) : decide (c.readNum ≤ a.readNum) = true :=
  decide_eq_true (Int64.le_trans (of_decide_eq_true hbc) (of_decide_eq_true hab))

theorem descending_total (a b : ArticleScore) :
    (decide (b.readNum ≤ a.readNum) || decide (a.readNum ≤ b.readNum)) = true := by
  simp only [Bool.or_eq_true, decide_eq_true_eq]
  exact Int64.le_total _ _

theorem ranked_perm : (ranked articles).Perm articles := List.mergeSort_perm _ _

theorem ranked_descending : (ranked articles).Pairwise fun a b => b.readNum ≤ a.readNum := by
  have hsorted := List.pairwise_mergeSort descending_trans descending_total articles
  apply hsorted.imp
  intro a b h
  exact of_decide_eq_true h

end Order

end ReadingBench.Ranking
