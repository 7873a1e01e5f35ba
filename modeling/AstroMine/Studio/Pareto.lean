import AstroMine.Lib.OrderStat
import AstroMine.Lib.Peeling
import Mathlib.Algebra.Order.Ring.Int
import Mathlib.Data.Fin.VecNotation
import Mathlib.Data.Fintype.Basic
import Mathlib.Tactic.Common

/-!
# Dominance and non-dominated sorting (`studio/designspace/pareto.py`)

Each objective has a sense, maximize or minimize. A point dominates another when it is at least as
good on every objective and better on one. Deb's sort counts the dominators of every point and peels
the points front by front.

The points are vectors over a linear order, as many as their list has, and so are the senses; the
counters and the lists `dominated` are functions of the index.

Results:
* `dominates_iff`: what the two flags of `dominates` come to.
* `scan_spec`: what the inner loop finds about one point.
* `nonDominatedSort_exact`: the sort returns the exact fronts.
-/

namespace AstroMine.Studio

variable {K : Type} [LinearOrder K] {d : ℕ}

/-! ## Dominance -/

/-- The body of the loop of `dominates` (lines 23–32) on the flags `at_least_as_good` and
`strictly_better`. -/
def dominatesStep (a b : Fin d → K) (senses : Fin d → Bool) (flags : Bool × Bool) (k : Fin d) :
    Bool × Bool :=
  if senses k then
    if a k < b k then (false, flags.2) else if b k < a k then (flags.1, true) else flags
  else
    if b k < a k then (false, flags.2) else if a k < b k then (flags.1, true) else flags

/-- `dominates` (lines 18–33). -/
def dominates (a b : Fin d → K) (senses : Fin d → Bool) : Bool :=
  let flags := (List.finRange d).foldl (dominatesStep a b senses) (true, false)
  flags.1 && flags.2

/-- The value `x` is better than `y` in the given sense. -/
def Better (maximize : Bool) (x y : K) : Prop := if maximize then y < x else x < y

instance (maximize : Bool) (x y : K) : Decidable (Better maximize x y) := by
  unfold Better
  infer_instance

/-- The point `a` is nowhere worse than `b` and somewhere better. -/
def Dominates (senses : Fin d → Bool) (a b : Fin d → K) : Prop :=
  (∀ k, ¬ Better (senses k) (b k) (a k)) ∧ ∃ k, Better (senses k) (a k) (b k)

theorem dominatesStep_eq (a b : Fin d → K) (senses : Fin d → Bool) (flags : Bool × Bool)
    (k : Fin d) : dominatesStep a b senses flags k =
      (flags.1 && !decide (Better (senses k) (b k) (a k)),
        flags.2 || decide (Better (senses k) (a k) (b k))) := by
  obtain ⟨good, better⟩ := flags
  cases hs : senses k
  all_goals
    simp only [dominatesStep, hs, Better]
    rcases lt_trichotomy (a k) (b k) with h | h | h
    · simp [h, h.not_gt]
    · simp [h]
    · simp [h, h.not_gt]

/-- **Run.** The flags after the objectives of a list. -/
theorem foldl_dominatesStep (a b : Fin d → K) (senses : Fin d → Bool) (flags : Bool × Bool)
    (ks : List (Fin d)) : ks.foldl (dominatesStep a b senses) flags =
      (flags.1 && ks.all fun k => !decide (Better (senses k) (b k) (a k)),
        flags.2 || ks.any fun k => decide (Better (senses k) (a k) (b k))) := by
  induction ks generalizing flags with
  | nil => simp
  | cons k ks ih =>
    rw [List.foldl_cons, ih, dominatesStep_eq, List.all_cons, List.any_cons, Bool.and_assoc,
      Bool.or_assoc]

/-- **Spec.** The flags say what dominance means. -/
theorem dominates_iff {a b : Fin d → K} {senses : Fin d → Bool} :
    dominates a b senses = true ↔ Dominates senses a b := by
  rw [dominates, foldl_dominatesStep]
  simp [Dominates]

/-- What is better than `y` is better than what is not better than `y`. -/
theorem Better.trans_not {maximize : Bool} {x y z : K} (h : Better maximize x y)
    (h' : ¬ Better maximize z y) : Better maximize x z := by
  cases maximize
  · exact lt_of_lt_of_le h (not_lt.mp h')
  · exact lt_of_le_of_lt (not_lt.mp h') h

theorem not_dominates_self {senses : Fin d → Bool} (a : Fin d → K) : ¬ Dominates senses a a := by
  rintro ⟨hgood, k, hk⟩
  exact hgood k hk

theorem Dominates.trans {senses : Fin d → Bool} {a b c : Fin d → K} (hab : Dominates senses a b)
    (hbc : Dominates senses b c) : Dominates senses a c := by
  obtain ⟨hab, k, hk⟩ := hab
  exact ⟨fun j hj => hbc.1 j (hj.trans_not (hab j)), k, hk.trans_not (hbc.1 k)⟩

/-! ## The sort -/

section Fronts

variable (points : List (Fin d → K)) (senses : Fin d → Bool)

/-- The body of the inner loop (lines 44–50) on `dominated[p]` and `domination_count[p]`. -/
def scanStep (p : Fin points.length) (st : List (Fin points.length) × ℤ)
    (q : Fin points.length) : List (Fin points.length) × ℤ :=
  if p = q then st
  else if dominates points[p] points[q] senses then (st.1 ++ [q], st.2)
  else if dominates points[q] points[p] senses then (st.1, st.2 + 1)
  else st

/-- The inner loop about the point `p`. -/
def scan (p : Fin points.length) : List (Fin points.length) × ℤ :=
  (List.finRange points.length).foldl (scanStep points senses p) ([], 0)

/-- `non_dominated_sort` (lines 36–66). The loop over the fronts has one iteration more than there
are points; `none` when they do not suffice. -/
def nonDominatedSort : Option (List (List (Fin points.length))) :=
  let dominated p := (scan points senses p).1
  let dominationCount p := (scan points senses p).2
  Peeling.layers dominated (points.length + 1) dominationCount
    ((List.finRange points.length).filter fun p => dominationCount p = 0)

/-- The point with index `p` dominates the one with index `q`. -/
def Above (p q : Fin points.length) : Prop := Dominates senses points[p] points[q]

instance : DecidableRel (Above points senses) := fun p q =>
  decidable_of_iff (dominates points[p] points[q] senses = true) dominates_iff

instance : IsStrictOrder (Fin points.length) (Above points senses) where
  irrefl p := not_dominates_self points[p]
  trans _ _ _ := Dominates.trans

variable {points senses}

/-- **Step.** No point dominates another that dominates it, so the order of the tests is no
matter, and the test `p == q` skips a pair that would be found incomparable. -/
theorem scanStep_eq (p : Fin points.length) (st : List (Fin points.length) × ℤ)
    (q : Fin points.length) : scanStep points senses p st q =
      (st.1 ++ (if Above points senses p q then [q] else []),
        st.2 + if Above points senses q p then 1 else 0) := by
  have hself : ¬ Above points senses p p := not_dominates_self points[p]
  have hiff : ∀ p q : Fin points.length,
      dominates points[p] points[q] senses = true ↔ Above points senses p q :=
    fun _ _ => dominates_iff
  rw [scanStep]
  by_cases hpq : p = q
  · subst hpq
    rw [if_pos rfl, if_neg hself, if_neg hself, List.append_nil, add_zero]
  · rw [if_neg hpq]
    by_cases hdom : Above points senses p q
    · have hback : ¬ Above points senses q p := fun h => hself (hdom.trans h)
      rw [if_pos ((hiff p q).2 hdom), if_pos hdom, if_neg hback, add_zero]
    · rw [if_neg (hdom ∘ (hiff p q).1), if_neg hdom, List.append_nil]
      by_cases hback : Above points senses q p
      · rw [if_pos ((hiff q p).2 hback), if_pos hback]
      · rw [if_neg (hback ∘ (hiff q p).1), if_neg hback, add_zero]

/-- **Run.** The inner loop over a list of indices. -/
theorem foldl_scanStep (p : Fin points.length) (st : List (Fin points.length) × ℤ)
    (qs : List (Fin points.length)) : qs.foldl (scanStep points senses p) st =
      (st.1 ++ qs.filter fun q => Above points senses p q,
        st.2 + (qs.countP fun q => Above points senses q p : ℕ)) := by
  induction qs generalizing st with
  | nil => simp
  | cons q qs ih =>
    rw [List.foldl_cons, ih, scanStep_eq, List.filter_cons, List.countP_cons]
    refine Prod.ext ?_ ?_
    · by_cases h : Above points senses p q
      · simp [h]
      · simp [h]
    · by_cases h : Above points senses q p
      · simp only [h, decide_true, if_true, Nat.cast_add, Nat.cast_one]
        omega
      · simp [h]

/-- **Spec.** The inner loop lists what the point dominates and counts what dominates it. -/
theorem scan_spec (p : Fin points.length) :
    (scan points senses p).1 = (List.finRange points.length).filter (Above points senses p) ∧
      (scan points senses p).2 = (Peeling.above (Above points senses) [] p).card := by
  rw [scan, foldl_scanStep]
  refine ⟨List.nil_append _, ?_⟩
  simp only [zero_add, Nat.cast_inj, Peeling.above, List.not_mem_nil, not_false_eq_true, and_true]
  exact countP_finRange fun q => Above points senses q p

/-- The exact fronts: every index in one front, no point of a front dominating another, every point
of a later front dominated by one of the front before, and the non-dominated points in the first. -/
structure ExactFronts (points : List (Fin d → K)) (senses : Fin d → Bool)
    (fronts : List (List (Fin points.length))) : Prop where
  partition : fronts.flatten.Perm (List.finRange points.length)
  apart : ∀ front ∈ fronts, ∀ p ∈ front, ∀ q ∈ front, ¬ Dominates senses points[p] points[q]
  dominated : fronts.IsChain fun front next =>
    ∀ q ∈ next, ∃ p ∈ front, Dominates senses points[p] points[q]
  first : ∀ p, p ∈ fronts.headD [] ↔ ∀ q : Fin points.length, ¬ Dominates senses points[q] points[p]

/-- **Main theorem.** The sort terminates, and its fronts are exact. -/
theorem nonDominatedSort_exact (points : List (Fin d → K)) (senses : Fin d → Bool) :
    ∃ fronts, nonDominatedSort points senses = some fronts ∧ ExactFronts points senses fronts := by
  have hbelow : Peeling.Lists (Above points senses) fun p => (scan points senses p).1 := by
    intro p
    have hp : (scan points senses p).1 = _ := (scan_spec p).1
    simp only [hp]
    exact ⟨(List.nodup_finRange _).filter _, fun q => by simp⟩
  have hinit : Peeling.Peeled (Above points senses) [] (fun p => (scan points senses p).2)
      ((List.finRange points.length).filter fun p => (scan points senses p).2 = 0) :=
    ⟨(List.nodup_finRange _).filter _, fun p => (scan_spec p).2, fun p => by simp⟩
  have hfuel : Fintype.card (Fin points.length) - ([] : List (Fin points.length)).length <
      points.length + 1 := by
    rw [Fintype.card_fin]
    exact Nat.lt_succ_of_le (Nat.sub_le _ _)
  obtain ⟨fronts, hfronts, hlayered⟩ := Peeling.layers_spec hbelow hfuel hinit
  refine ⟨fronts, hfronts, ?_, hlayered.apart, hlayered.below, fun p => ?_⟩
  · refine (List.perm_ext_iff_of_nodup hlayered.nodup (List.nodup_finRange _)).2 ?_
    exact fun p => iff_of_true (hlayered.complete p) (List.mem_finRange p)
  · rw [hlayered.first, List.mem_filter, decide_eq_true_eq, (scan_spec p).2, Int.natCast_eq_zero,
      Finset.card_eq_zero, Finset.eq_empty_iff_forall_notMem,
      and_iff_right (List.mem_finRange p)]
    refine forall_congr' fun q => not_congr ?_
    rw [Peeling.mem_above, and_iff_left List.not_mem_nil]
    rfl

/-- Mass minimized, yield maximized: two designs trade off, a third is worse than both. -/
example : nonDominatedSort [![4, 9], ![3, 8], ![5, 7]] ![false, true] = some [[0, 1], [2]] := by
  decide

end Fronts

end AstroMine.Studio
