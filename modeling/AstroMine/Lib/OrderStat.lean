import AstroMine.Lib.Dict
import Mathlib.Data.Finset.Max
import Mathlib.Data.Fintype.Basic
import Mathlib.Data.Fintype.Card
import Mathlib.Data.List.FinRange

/-!
# Order statistics and how many can outrank many

Results:
* `countP_finRange`: a count over the indices is the size of a set.
* `le_orderStat_iff`: a number is at most an order statistic when few enough elements lie below it.
* `card_outranking_le`: where a relation follows a ranking, few items stand above many.
-/

namespace AstroMine

/-! ## Counting -/

theorem countP_finRange {n : ℕ} (p : Fin n → Prop) [DecidablePred p] :
    (List.finRange n).countP p = (Finset.univ.filter p).card := by
  have hfinset : Finset.univ.filter p = ((List.finRange n).filter p).toFinset := by
    ext i
    simp
  rw [hfinset, List.toFinset_card_of_nodup ((List.nodup_finRange n).filter _),
    List.countP_eq_length_filter]

/-- A count over a list, by the indices. -/
theorem countP_eq_card {α : Type*} (xs : List α) (p : α → Prop) [DecidablePred p] :
    xs.countP p = (Finset.univ.filter fun i : Fin xs.length => p xs[i]).card := by
  rw [← countP_finRange fun i : Fin xs.length => p xs[i]]
  conv_lhs => rw [← List.map_get_finRange xs, List.countP_map]
  rfl

/-! ## Order statistics -/

section OrderStat

variable {α : Type*} [LinearOrder α]

/-- In a sorted list, the elements below `x` come first. -/
theorem le_getElem_iff {l : List α} (h : l.Pairwise (· ≤ ·)) {k : ℕ} (hk : k < l.length) (x : α) :
    x ≤ l[k] ↔ l.countP (· < x) ≤ k := by
  induction l generalizing k with
  | nil => exact absurd hk (Nat.not_lt_zero k)
  | cons a l ih =>
    obtain ⟨ha, hl⟩ := List.pairwise_cons.mp h
    have hnone : x ≤ a → (a :: l).countP (· < x) = 0 := by
      intro hxa
      rw [List.countP_eq_zero]
      rintro b (_ | ⟨_, hb⟩)
      · simpa using hxa
      · simpa using hxa.trans (ha b hb)
    cases k with
    | zero =>
      rw [List.getElem_cons_zero, Nat.le_zero]
      refine ⟨hnone, fun hcount => ?_⟩
      rw [List.countP_eq_zero] at hcount
      simpa using hcount a List.mem_cons_self
    | succ k =>
      rw [List.length_cons, Nat.add_lt_add_iff_right] at hk
      rw [List.getElem_cons_succ]
      by_cases hxa : x ≤ a
      · rw [hnone hxa]
        exact iff_of_true (hxa.trans (ha _ (List.getElem_mem hk))) (Nat.zero_le _)
      · rw [List.countP_cons_of_pos (by simpa using hxa), ih hl hk, Nat.add_le_add_iff_right]

/-- The element with index `k` of the sorted list. -/
def orderStat (xs : List α) (k : ℕ) : Option α := (sortOn id xs)[k]?

/-- A number is at most an order statistic when few enough elements lie below it. -/
theorem le_orderStat_iff {xs : List α} {k : ℕ} {q : α} (h : orderStat xs k = some q) (x : α) :
    x ≤ q ↔ xs.countP (· < x) ≤ k := by
  obtain ⟨hk, rfl⟩ := List.getElem?_eq_some_iff.mp h
  rw [le_getElem_iff (sortOn_pairwise id xs) hk, (sortOn_perm id xs).countP_eq]

theorem exists_orderStat {xs : List α} {k : ℕ} (h : k < xs.length) :
    ∃ q, orderStat xs k = some q := by
  rw [← (sortOn_perm id xs).length_eq] at h
  exact ⟨_, List.getElem?_eq_getElem h⟩

end OrderStat

/-! ## Outranking -/

section Outranking

variable {ι P : Type*} [Fintype ι] [LinearOrder P] {above : ι → ι → Prop} [DecidableRel above]

/-- Where a relation follows a ranking, the items that stand above more than `t` items leave at least
`t + 1` items out: the lowest of them stands above none of them. -/
theorem card_outranking_le (rank : ι → P) (h : ∀ j i, above j i → rank i < rank j) (t : ℕ) :
    (Finset.univ.filter fun j => t < (Finset.univ.filter (above j)).card).card ≤
      Fintype.card ι - (t + 1) := by
  classical
  set many := Finset.univ.filter fun j => t < (Finset.univ.filter (above j)).card
  rcases many.eq_empty_or_nonempty with hempty | hnonempty
  · rw [hempty, Finset.card_empty]
    exact Nat.zero_le _
  · obtain ⟨j, hj, hmin⟩ := many.exists_min_image rank hnonempty
    have hdisjoint : Disjoint many (Finset.univ.filter (above j)) := by
      rw [Finset.disjoint_left]
      intro i hi habove
      exact absurd (h j i (Finset.mem_filter.mp habove).2) (not_lt_of_ge (hmin i hi))
    have hcard := Finset.card_le_univ (many ∪ Finset.univ.filter (above j))
    rw [Finset.card_union_of_disjoint hdisjoint] at hcard
    have hlarge : t < (Finset.univ.filter (above j)).card := (Finset.mem_filter.mp hj).2
    omega

end Outranking

end AstroMine
