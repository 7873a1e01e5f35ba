import Mathlib.MeasureTheory.Constructions.Pi
import Mathlib.MeasureTheory.Measure.Haar.OfBasis
import Mathlib.MeasureTheory.Measure.Haar.Unique
import Mathlib.MeasureTheory.Measure.Lebesgue.Basic

/-!
# Unions of boxes at a corner

A point of `ℝᵈ` is covered when it lies above the corner and not above some point of a list. The
covered set is the union of the boxes between the corner and the points.

Results:
* `volume_slab`: the volume of what has its first coordinate in an interval and the others in a set.
* `volume_covered_concat`: the volume of the covered set, cut at the point that is lowest in the
  first coordinate.
* `volume_preimage_reflect`: reflections of coordinates keep volumes.
-/

namespace AstroMine.Boxes

open MeasureTheory

variable {d : ℕ}

/-- What lies above the corner and not above some point. -/
def covered (corner : Fin d → ℝ) (points : List (Fin d → ℝ)) : Set (Fin d → ℝ) :=
  {x | (∀ k, corner k < x k) ∧ ∃ p ∈ points, ∀ k, x k ≤ p k}

theorem mem_covered {corner : Fin d → ℝ} {points : List (Fin d → ℝ)} {x : Fin d → ℝ} :
    x ∈ covered corner points ↔ (∀ k, corner k < x k) ∧ ∃ p ∈ points, ∀ k, x k ≤ p k :=
  Iff.rfl

theorem covered_nil (corner : Fin d → ℝ) : covered corner [] = ∅ := by
  refine Set.eq_empty_of_forall_notMem ?_
  rintro x ⟨-, p, hp, -⟩
  exact List.not_mem_nil hp

theorem covered_mono {corner : Fin d → ℝ} {points points' : List (Fin d → ℝ)}
    (h : ∀ p ∈ points, ∃ p' ∈ points', ∀ k, p k ≤ p' k) :
    covered corner points ⊆ covered corner points' := by
  rintro x ⟨habove, p, hp, hle⟩
  obtain ⟨p', hp', hpp'⟩ := h p hp
  exact ⟨habove, p', hp', fun k => (hle k).trans (hpp' k)⟩

theorem covered_congr {corner : Fin d → ℝ} {points points' : List (Fin d → ℝ)}
    (h : ∀ p, p ∈ points ↔ p ∈ points') : covered corner points = covered corner points' :=
  Set.Subset.antisymm (covered_mono fun p hp => ⟨p, (h p).mp hp, fun _ => le_rfl⟩)
    (covered_mono fun p hp => ⟨p, (h p).mpr hp, fun _ => le_rfl⟩)

/-- Points that do not lie above the corner cover nothing. -/
theorem covered_filter (corner : Fin d → ℝ) (points : List (Fin d → ℝ)) :
    covered corner (points.filter fun p => ∀ k, corner k < p k) = covered corner points := by
  refine Set.Subset.antisymm (covered_mono fun p hp => ?_) ?_
  · exact ⟨p, (List.mem_filter.mp hp).1, fun _ => le_rfl⟩
  · rintro x ⟨habove, p, hp, hle⟩
    refine ⟨habove, p, List.mem_filter.mpr ⟨hp, decide_eq_true fun k => ?_⟩, hle⟩
    exact (habove k).trans_le (hle k)

theorem measurableSet_covered (corner : Fin d → ℝ) (points : List (Fin d → ℝ)) :
    MeasurableSet (covered corner points) := by
  have hunion : covered corner points =
      ⋃ p ∈ points.toFinset, Set.pi Set.univ fun k => Set.Ioc (corner k) (p k) := by
    ext x
    simp only [mem_covered, Set.mem_iUnion, List.mem_toFinset, Set.mem_pi,
      Set.mem_univ, true_implies, Set.mem_Ioc, forall_and, exists_prop]
    exact ⟨fun ⟨h, p, hp, hle⟩ => ⟨p, hp, h, hle⟩, fun ⟨p, hp, h, hle⟩ => ⟨h, p, hp, hle⟩⟩
  rw [hunion]
  exact Finset.measurableSet_biUnion _ fun p _ =>
    MeasurableSet.univ_pi fun k => measurableSet_Ioc

/-- The volume of what has its first coordinate in an interval and the others in a set. -/
theorem volume_slab (S : Set (Fin d → ℝ)) (a b : ℝ) :
    volume {x : Fin (d + 1) → ℝ | x 0 ∈ Set.Ioc a b ∧ Fin.tail x ∈ S} =
      ENNReal.ofReal (b - a) * volume S := by
  have hpreimage : {x : Fin (d + 1) → ℝ | x 0 ∈ Set.Ioc a b ∧ Fin.tail x ∈ S} =
      Set.preimage (MeasurableEquiv.piFinSuccAbove (fun _ => ℝ) 0) (Set.Ioc a b ×ˢ S) := by
    rfl
  rw [hpreimage, (volume_preserving_piFinSuccAbove (fun _ => ℝ) 0).measure_preimage_equiv,
    Measure.volume_eq_prod, Measure.prod_prod, Real.volume_Ioc]

theorem mem_covered_cons {a : ℝ} {corner : Fin d → ℝ} {points : List (Fin (d + 1) → ℝ)}
    {x : Fin (d + 1) → ℝ} : x ∈ covered (Fin.cons a corner) points ↔
      a < x 0 ∧ (∀ k, corner k < Fin.tail x k) ∧
        ∃ p ∈ points, x 0 ≤ p 0 ∧ ∀ k, Fin.tail x k ≤ Fin.tail p k := by
  simp only [mem_covered, Fin.forall_fin_succ, Fin.cons_zero, Fin.cons_succ, and_assoc]
  rfl

/-- **Step.** Below the point that is lowest in the first coordinate, the covered set is a slab;
above, that point covers nothing. -/
theorem volume_covered_concat {a : ℝ} {corner : Fin d → ℝ} {points : List (Fin (d + 1) → ℝ)}
    {p : Fin (d + 1) → ℝ} (hap : a ≤ p 0) (hlow : ∀ q ∈ points, p 0 ≤ q 0) :
    volume (covered (Fin.cons a corner : Fin (d + 1) → ℝ) (points ++ [p])) =
      volume (covered (Fin.cons (p 0) corner : Fin (d + 1) → ℝ) points) +
        ENNReal.ofReal (p 0 - a) * volume (covered corner ((points ++ [p]).map Fin.tail)) := by
  have hsplit : covered (Fin.cons a corner : Fin (d + 1) → ℝ) (points ++ [p]) =
      covered (Fin.cons (p 0) corner : Fin (d + 1) → ℝ) points ∪
        {x | x 0 ∈ Set.Ioc a (p 0) ∧ Fin.tail x ∈ covered corner ((points ++ [p]).map Fin.tail)} := by
    ext x
    rw [Set.mem_union, mem_covered_cons, mem_covered_cons]
    constructor
    · rintro ⟨ha, habove, q, hq, hle, htail⟩
      by_cases hxp : x 0 ≤ p 0
      · exact Or.inr ⟨⟨ha, hxp⟩, habove, Fin.tail q, List.mem_map_of_mem hq, htail⟩
      refine Or.inl ⟨not_le.mp hxp, habove, q, ?_, hle, htail⟩
      rcases List.mem_append.mp hq with hq | hq
      · exact hq
      · exact absurd (List.mem_singleton.mp hq ▸ hle) hxp
    · rintro (⟨hp, habove, q, hq, hle, htail⟩ | ⟨⟨ha, hxp⟩, habove, t, ht, htail⟩)
      · exact ⟨hap.trans_lt hp, habove, q, List.mem_append_left _ hq, hle, htail⟩
      obtain ⟨q, hq, rfl⟩ := List.mem_map.mp ht
      refine ⟨ha, habove, q, hq, hxp.trans ?_, htail⟩
      rcases List.mem_append.mp hq with hq | hq
      · exact hlow q hq
      · exact (congrFun (List.mem_singleton.mp hq) 0).ge
  have hdisjoint : Disjoint (covered (Fin.cons (p 0) corner : Fin (d + 1) → ℝ) points)
      {x | x 0 ∈ Set.Ioc a (p 0) ∧ Fin.tail x ∈ covered corner ((points ++ [p]).map Fin.tail)} := by
    refine Set.disjoint_left.mpr fun x hx hx' => ?_
    exact absurd (mem_covered_cons.1 hx).1 (not_lt.mpr hx'.1.2)
  rw [hsplit, measure_union' hdisjoint (measurableSet_covered _ _), volume_slab]

/-- In one dimension the covered set is an interval. -/
theorem volume_covered_one {corner : Fin 1 → ℝ} {points : List (Fin 1 → ℝ)} {top : ℝ}
    (hmax : IsGreatest {t | ∃ p ∈ points, p 0 = t} top) :
    volume (covered corner points) = ENNReal.ofReal (top - corner 0) := by
  have hslab : covered corner points =
      {x : Fin (0 + 1) → ℝ | x 0 ∈ Set.Ioc (corner 0) top ∧
        (Fin.tail x : Fin 0 → ℝ) ∈ (Set.univ : Set (Fin 0 → ℝ))} := by
    obtain ⟨⟨p, hp, hpt⟩, hub⟩ := hmax
    ext x
    simp only [mem_covered, Fin.forall_fin_one]
    constructor
    · rintro ⟨hlt, q, hq, hle⟩
      exact ⟨⟨hlt, hle.trans (hub ⟨q, hq, rfl⟩)⟩, Set.mem_univ _⟩
    · rintro ⟨⟨hlt, hle⟩, -⟩
      exact ⟨hlt, p, hp, hle.trans hpt.ge⟩
  rw [hslab, volume_slab, volume_pi, Measure.pi_empty_univ, mul_one]

/-! ## Reflections -/

/-- Coordinates are negated where `keep` does not hold. -/
def reflect (keep : Fin d → Bool) (x : Fin d → ℝ) : Fin d → ℝ :=
  fun k => if keep k then x k else -x k

/-- Reflections keep volumes. -/
theorem volume_preimage_reflect (keep : Fin d → Bool) {S : Set (Fin d → ℝ)}
    (hS : MeasurableSet S) : volume (Set.preimage (reflect keep) S) = volume S := by
  have hpreserving : MeasurePreserving (reflect keep) := by
    refine volume_preserving_pi (f := fun k t => if keep k then t else -t) fun k => ?_
    cases keep k
    · exact Measure.measurePreserving_neg volume
    · exact MeasurePreserving.id volume
  exact hpreserving.measure_preimage hS.nullMeasurableSet

end AstroMine.Boxes
