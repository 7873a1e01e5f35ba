import AstroMine.Lib.Covered
import AstroMine.Lib.Dict
import AstroMine.Studio.Pareto

/-!
# The hypervolume indicator (`studio/designspace/pareto.py`)

The dominated hypervolume of a list of points over a reference point, by slicing one objective at a
time. A point is a vector with as many entries as there are objectives. Indexing a point without
objectives raises, which is `none` here; an `ObjectiveSpec` has at least one criterion.

Results:
* `slices_concat`: the loop over the slices, cut at its last one.
* `hso_volume`: the recursion returns the volume of the covered set.
* `hypervolume_exact`: the hypervolume is the volume of the dominated region, so the order of the
  points, their repetitions and dominated points are no matter, and a point more does not lower it.
-/

namespace AstroMine.Studio

/-! ## The recursion -/

section Model

variable {K : Type} [Ring K] [LinearOrder K] {d : ℕ}

/-- `_to_maximization` (lines 94–102) on one point. -/
def toMaximization (senses : Fin d → Bool) (p : Fin d → K) : Fin d → K :=
  fun k => if senses k then p k else -p k

/-- The body of the loop of `_hso` (lines 115–121). -/
def sliceStep (inner : List (Fin d → K) → (Fin d → K) → Option K) (reference : Fin (d + 1) → K)
    (ordered : List (Fin (d + 1) → K)) (volume : K) (entry : (Fin (d + 1) → K) × ℕ) : Option K :=
  let lower := (ordered[entry.2 + 1]?.map fun q => q 0).getD (reference 0)
  let depth := entry.1 0 - lower
  if depth ≤ 0 then some volume
  else
    let slab := (ordered.take (entry.2 + 1)).map Fin.tail
    (inner slab (Fin.tail reference)).map fun v => volume + depth * v

/-- The loop of `_hso` over the ordered points. -/
def slices (inner : List (Fin d → K) → (Fin d → K) → Option K) (reference : Fin (d + 1) → K)
    (ordered : List (Fin (d + 1) → K)) : Option K :=
  ordered.zipIdx.foldlM (sliceStep inner reference ordered) 0

/-- `_hso` (lines 105–122). -/
def hso : (d : ℕ) → List (Fin d → K) → (Fin d → K) → Option K
  | 0, points, _ => if points.isEmpty then some 0 else none
  | d + 1, points, reference =>
    let active := points.filter fun p => ∀ k, reference k < p k
    if active.isEmpty then some 0
    else if d = 0 then (active.map fun p => p 0).max?.map fun top => top - reference 0
    else slices (hso d) reference (sortOn (fun p => OrderDual.toDual (p 0)) active)

/-- `hypervolume` (lines 125–131). -/
def hypervolume (points : List (Fin d → K)) (reference : Fin d → K) (senses : Fin d → Bool) :
    Option K :=
  if points.isEmpty then some 0
  else hso d (points.map (toMaximization senses)) (toMaximization senses reference)

/-- A slice above the last one sees the last point as its reference. -/
theorem sliceStep_concat {inner : List (Fin d → K) → (Fin d → K) → Option K}
    {reference : Fin (d + 1) → K} {ordered : List (Fin (d + 1) → K)} {p : Fin (d + 1) → K}
    {volume : K} {entry : (Fin (d + 1) → K) × ℕ} (hlt : entry.2 < ordered.length) :
    sliceStep inner reference (ordered ++ [p]) volume entry =
      sliceStep inner (Fin.cons (p 0) (Fin.tail reference)) ordered volume entry := by
  have htake : (ordered ++ [p]).take (entry.2 + 1) = ordered.take (entry.2 + 1) :=
    List.take_append_of_le_length hlt
  have hlower : ((ordered ++ [p])[entry.2 + 1]?.map fun q => q 0).getD (reference 0) =
      (ordered[entry.2 + 1]?.map fun q => q 0).getD (p 0) := by
    rcases (Nat.add_one_le_iff.mpr hlt).lt_or_eq with hnext | hlast
    · rw [List.getElem?_append_left hnext, List.getElem?_eq_getElem hnext]
      rfl
    · rw [hlast, List.getElem?_concat_length, List.getElem?_eq_none le_rfl]
      rfl
  rw [sliceStep, sliceStep, htake, hlower, Fin.cons_zero, Fin.tail_cons]

/-- **Step.** The last slice reaches down to the reference, and the others see its point as their
reference. -/
theorem slices_concat (inner : List (Fin d → K) → (Fin d → K) → Option K)
    (reference : Fin (d + 1) → K) (ordered : List (Fin (d + 1) → K)) (p : Fin (d + 1) → K) :
    slices inner reference (ordered ++ [p]) =
      (slices inner (Fin.cons (p 0) (Fin.tail reference)) ordered).bind fun volume =>
        if p 0 - reference 0 ≤ 0 then some volume
        else (inner ((ordered ++ [p]).map Fin.tail) (Fin.tail reference)).map fun v =>
          volume + (p 0 - reference 0) * v := by
  have hupper (entries : List ((Fin (d + 1) → K) × ℕ)) (volume : K)
      (hlt : ∀ entry ∈ entries, entry.2 < ordered.length) :
      entries.foldlM (sliceStep inner reference (ordered ++ [p])) volume =
        entries.foldlM (sliceStep inner (Fin.cons (p 0) (Fin.tail reference)) ordered) volume := by
    induction entries generalizing volume with
    | nil => rfl
    | cons entry entries ih =>
      rw [List.foldlM_cons, List.foldlM_cons, sliceStep_concat (hlt _ List.mem_cons_self)]
      exact bind_congr fun _ => ih _ fun e he => hlt e (List.mem_cons_of_mem _ he)
  rw [slices, List.zipIdx_append, List.foldlM_append, hupper _ _ fun entry he => ?_]
  · refine bind_congr fun volume => ?_
    rw [zero_add, List.zipIdx_singleton, List.foldlM_cons, sliceStep,
      List.getElem?_eq_none (by simp), List.take_of_length_le (by simp)]
    exact bind_pure _
  · exact (List.mem_zipIdx' he).1

end Model

/-! ## The volume of the covered set -/

open MeasureTheory Boxes

section Volume

variable {d : ℕ}

/-- The inner recursion returns volumes. -/
def Measures (inner : List (Fin d → ℝ) → (Fin d → ℝ) → Option ℝ) : Prop :=
  ∀ points reference, ∃ v, inner points reference = some v ∧ 0 ≤ v ∧
    volume (covered reference points) = ENNReal.ofReal v

/-- **Run.** The slices add up to the volume of the covered set. -/
theorem slices_volume {inner : List (Fin d → ℝ) → (Fin d → ℝ) → Option ℝ}
    (hinner : Measures inner) {ordered : List (Fin (d + 1) → ℝ)}
    (hsorted : ordered.Pairwise fun p q => q 0 ≤ p 0) {reference : Fin (d + 1) → ℝ}
    (habove : ∀ p ∈ ordered, reference 0 ≤ p 0) :
    ∃ v, slices inner reference ordered = some v ∧ 0 ≤ v ∧
      volume (covered reference ordered) = ENNReal.ofReal v := by
  induction ordered using List.reverseRecOn generalizing reference with
  | nil => exact ⟨0, rfl, le_rfl, by rw [covered_nil, measure_empty, ENNReal.ofReal_zero]⟩
  | append_singleton ordered p ih =>
    obtain ⟨hordered, -, hlow⟩ := List.pairwise_append.mp hsorted
    have hlow : ∀ q ∈ ordered, p 0 ≤ q 0 := fun q hq => hlow q hq p (List.mem_singleton_self p)
    have hp : reference 0 ≤ p 0 := habove p (by simp)
    have hrest : ∃ v, slices inner (Fin.cons (p 0) (Fin.tail reference)) ordered = some v ∧ 0 ≤ v ∧
        volume (covered (Fin.cons (p 0) (Fin.tail reference) : Fin (d + 1) → ℝ) ordered) =
          ENNReal.ofReal v := ih hordered hlow
    obtain ⟨upper, hupper, hupper0, hvolume⟩ := hrest
    obtain ⟨v, hv, hv0, hslab⟩ := hinner ((ordered ++ [p]).map Fin.tail) (Fin.tail reference)
    have hcut : volume (covered (Fin.cons (reference 0) (Fin.tail reference) : Fin (d + 1) → ℝ)
        (ordered ++ [p])) = _ := volume_covered_concat hp hlow
    rw [Fin.cons_self_tail, hvolume, hslab] at hcut
    have hdepth : 0 ≤ p 0 - reference 0 := sub_nonneg.mpr hp
    rw [slices_concat, hupper, hv, hcut, ← ENNReal.ofReal_mul hdepth,
      ← ENNReal.ofReal_add hupper0 (mul_nonneg hdepth hv0)]
    by_cases hflat : p 0 - reference 0 ≤ 0
    · have hzero : p 0 - reference 0 = 0 := le_antisymm hflat hdepth
      refine ⟨upper, if_pos hflat, hupper0, ?_⟩
      rw [hzero, zero_mul, add_zero]
    · exact ⟨_, if_neg hflat, add_nonneg hupper0 (mul_nonneg hdepth hv0), rfl⟩

/-- With one objective, the covered set reaches up to the greatest point. -/
theorem max?_volume {active : List (Fin 1 → ℝ)} {reference : Fin 1 → ℝ} (hne : active ≠ [])
    (habove : ∀ p ∈ active, ∀ k, reference k < p k) :
    ∃ v, ((active.map fun p => p 0).max?.map fun top => top - reference 0) = some v ∧ 0 ≤ v ∧
      volume (covered reference active) = ENNReal.ofReal v := by
  obtain ⟨top, htop⟩ := Option.isSome_iff_exists.mp
    (List.isSome_max?_of_ne_nil (mt List.map_eq_nil_iff.mp hne) : (active.map fun p => p 0).max?.isSome)
  obtain ⟨hmem, hub⟩ := List.max?_eq_some_iff.mp htop
  obtain ⟨p, hp, rfl⟩ := List.mem_map.mp hmem
  refine ⟨_, by rw [htop]; rfl, (sub_pos.mpr (habove p hp 0)).le, volume_covered_one ?_⟩
  exact ⟨⟨p, hp, rfl⟩, fun t ⟨q, hq, ht⟩ => ht ▸ hub _ (List.mem_map_of_mem hq)⟩

/-- **Spec.** The recursion returns the volume of the covered set. -/
theorem hso_volume (d : ℕ) : Measures (hso (K := ℝ) (d + 1)) := by
  induction d with
  | zero =>
    intro points reference
    rw [hso, ← covered_filter]
    by_cases hnil : (points.filter fun p => ∀ k, reference k < p k) = []
    · rw [hnil]
      exact ⟨0, rfl, le_rfl, by rw [covered_nil, measure_empty, ENNReal.ofReal_zero]⟩
    · rw [if_neg (mt List.isEmpty_iff.mp hnil), if_pos rfl]
      exact max?_volume hnil fun p hp => of_decide_eq_true (List.mem_filter.mp hp).2
  | succ d ih =>
    intro points reference
    rw [hso, ← covered_filter]
    by_cases hnil : (points.filter fun p => ∀ k, reference k < p k) = []
    · rw [hnil]
      exact ⟨0, rfl, le_rfl, by rw [covered_nil, measure_empty, ENNReal.ofReal_zero]⟩
    · rw [if_neg (mt List.isEmpty_iff.mp hnil), if_neg (Nat.succ_ne_zero d)]
      have hsame := mem_sortOn (fun p : Fin (d + 2) → ℝ => OrderDual.toDual (p 0))
        (points.filter fun p => ∀ k, reference k < p k)
      rw [← covered_congr hsame]
      refine slices_volume ih (sortOn_pairwise (fun p : Fin (d + 2) → ℝ => OrderDual.toDual (p 0)) _)
        fun p hp => ?_
      exact (of_decide_eq_true (List.mem_filter.mp ((hsame p).mp hp)).2 0).le

/-! ## The dominated region -/

/-- The box between the reference and a point. -/
def box (senses : Fin d → Bool) (reference p : Fin d → ℝ) : Set (Fin d → ℝ) :=
  {x | ∀ k, ¬ Better (senses k) (reference k) (x k) ∧ ¬ Better (senses k) (x k) (p k)}

/-- The union of the boxes between the reference and the points that dominate it. -/
def dominatedRegion (points : List (Fin d → ℝ)) (reference : Fin d → ℝ) (senses : Fin d → Bool) :
    Set (Fin d → ℝ) :=
  {x | ∃ p ∈ points, Dominates senses p reference ∧ x ∈ box senses reference p}

/-- A better value is a greater one on the scale that is maximized. -/
theorem better_iff (senses : Fin d → Bool) (x y : Fin d → ℝ) (k : Fin d) :
    Better (senses k) (x k) (y k) ↔ toMaximization senses y k < toMaximization senses x k := by
  rw [Better, toMaximization, toMaximization]
  cases senses k
  · exact neg_lt_neg_iff.symm
  · exact Iff.rfl

theorem toMaximization_inj (senses : Fin d → Bool) {x y : Fin d → ℝ} {k : Fin d} :
    toMaximization senses x k = toMaximization senses y k ↔ x k = y k := by
  rw [toMaximization, toMaximization]
  split_ifs
  · exact Iff.rfl
  · exact neg_inj

theorem toMaximization_eq (senses : Fin d → Bool) :
    toMaximization (K := ℝ) senses = reflect senses := rfl

/-- The region is the covered set, up to points level with the reference. -/
theorem volume_dominatedRegion (points : List (Fin (d + 1) → ℝ)) (reference : Fin (d + 1) → ℝ)
    (senses : Fin (d + 1) → Bool) : volume (dominatedRegion points reference senses) =
      volume (covered (toMaximization senses reference)
        (points.map (toMaximization senses))) := by
  have hcovered := measurableSet_covered (toMaximization senses reference)
    (points.map (toMaximization senses))
  rw [← volume_preimage_reflect senses hcovered, ← toMaximization_eq]
  refine le_antisymm ?_ (measure_mono ?_)
  · have hlevel : volume (⋃ k, {x : Fin (d + 1) → ℝ | x k = reference k}) = 0 :=
      measure_iUnion_null fun k => Measure.pi_hyperplane _ k _
    have hregion : dominatedRegion points reference senses ⊆
        Set.preimage (toMaximization senses) (covered (toMaximization senses reference)
          (points.map (toMaximization senses))) ∪ ⋃ k, {x | x k = reference k} := by
      rintro x ⟨p, hp, -, hbox⟩
      by_cases hlevel : ∃ k, x k = reference k
      · exact Or.inr (Set.mem_iUnion.mpr hlevel)
      push Not at hlevel
      refine Or.inl ⟨fun k => ?_, _, List.mem_map_of_mem hp, fun k => ?_⟩
      · have hle := not_lt.mp fun h => (hbox k).1 ((better_iff senses reference x k).2 h)
        exact lt_of_le_of_ne hle fun h => hlevel k ((toMaximization_inj senses).1 h.symm)
      · exact not_lt.mp fun h => (hbox k).2 ((better_iff senses x p k).2 h)
    calc
      _ ≤ _ := measure_mono hregion
      _ ≤ _ := measure_union_le _ _
      _ = _ := by rw [hlevel, add_zero]
  · rintro x ⟨habove, q, hq, hle⟩
    obtain ⟨p, hp, rfl⟩ := List.mem_map.mp hq
    have hbetter (k : Fin (d + 1)) := (better_iff senses p reference k).2
      ((habove k).trans_le (hle k))
    refine ⟨p, hp, ⟨fun k h => ?_, 0, hbetter 0⟩, fun k => ?_⟩
    · exact absurd ((better_iff senses _ _ k).1 (hbetter k))
        ((better_iff senses _ _ k).1 h).not_gt
    · rw [better_iff, better_iff]
      exact ⟨(habove k).not_gt, (hle k).not_gt⟩

/-- **Spec.** The hypervolume is returned, and it is the volume of the dominated region. -/
theorem hypervolume_spec (points : List (Fin (d + 1) → ℝ)) (reference : Fin (d + 1) → ℝ)
    (senses : Fin (d + 1) → Bool) : ∃ v, hypervolume points reference senses = some v ∧ 0 ≤ v ∧
      volume (dominatedRegion points reference senses) = ENNReal.ofReal v := by
  rw [volume_dominatedRegion, hypervolume]
  by_cases hnil : points = []
  · rw [hnil]
    exact ⟨0, rfl, le_rfl, by rw [List.map_nil, covered_nil, measure_empty, ENNReal.ofReal_zero]⟩
  · rw [if_neg (mt List.isEmpty_iff.mp hnil)]
    exact hso_volume d _ _

/-- A point that is nowhere worse bounds a greater box, and dominates the reference as well. -/
theorem dominatedRegion_mono {points points' : List (Fin d → ℝ)} {reference : Fin d → ℝ}
    {senses : Fin d → Bool}
    (h : ∀ p ∈ points, p ∈ points' ∨ ∃ p' ∈ points', Dominates senses p' p) :
    dominatedRegion points reference senses ⊆ dominatedRegion points' reference senses := by
  rintro x ⟨p, hp, hdom, hbox⟩
  rcases h p hp with hp | ⟨p', hp', hp'p⟩
  · exact ⟨p, hp, hdom, hbox⟩
  · refine ⟨p', hp', hp'p.trans hdom, fun k => ⟨(hbox k).1, fun hxp' => ?_⟩⟩
    exact (hbox k).2 (hxp'.trans_not (hp'p.1 k))

/-- Hypervolumes compare as the regions do. -/
theorem hypervolume_le {points points' : List (Fin (d + 1) → ℝ)} {reference : Fin (d + 1) → ℝ}
    {senses : Fin (d + 1) → Bool} {v v' : ℝ} (hv : hypervolume points reference senses = some v)
    (hv' : hypervolume points' reference senses = some v')
    (h : ∀ p ∈ points, p ∈ points' ∨ ∃ p' ∈ points', Dominates senses p' p) : v ≤ v' := by
  obtain ⟨w, hw, -, hvolume⟩ := hypervolume_spec points reference senses
  obtain ⟨w', hw', hw0, hvolume'⟩ := hypervolume_spec points' reference senses
  obtain rfl := Option.some.inj (hv.symm.trans hw)
  obtain rfl := Option.some.inj (hv'.symm.trans hw')
  refine (ENNReal.ofReal_le_ofReal_iff hw0).mp ?_
  rw [← hvolume, ← hvolume']
  exact measure_mono (dominatedRegion_mono h)

/-- **Main theorem.** The hypervolume is the volume of the union of the boxes between the reference
and the points that dominate it. Lists with the same points have the same hypervolume, a dominated
point does not change it, and no point lowers it. -/
theorem hypervolume_exact (points : List (Fin (d + 1) → ℝ)) (reference : Fin (d + 1) → ℝ)
    (senses : Fin (d + 1) → Bool) : ∃ v, hypervolume points reference senses = some v ∧ 0 ≤ v ∧
      volume (dominatedRegion points reference senses) = ENNReal.ofReal v ∧
      (∀ points', (∀ p, p ∈ points' ↔ p ∈ points) →
        hypervolume points' reference senses = some v) ∧
      (∀ p, (∃ q ∈ points, Dominates senses q p) →
        hypervolume (p :: points) reference senses = some v) ∧
      ∀ p, ∃ v', hypervolume (p :: points) reference senses = some v' ∧ v ≤ v' := by
  obtain ⟨v, hv, hv0, hvolume⟩ := hypervolume_spec points reference senses
  refine ⟨v, hv, hv0, hvolume, fun points' hsame => ?_, fun p ⟨q, hq, hqp⟩ => ?_, fun p => ?_⟩
  · obtain ⟨v', hv', -, -⟩ := hypervolume_spec points' reference senses
    rw [hv', le_antisymm (hypervolume_le hv' hv fun p hp => Or.inl ((hsame p).mp hp))
      (hypervolume_le hv hv' fun p hp => Or.inl ((hsame p).mpr hp))]
  · obtain ⟨v', hv', -, -⟩ := hypervolume_spec (p :: points) reference senses
    rw [hv', le_antisymm (hypervolume_le hv' hv fun r hr => ?_)
      (hypervolume_le hv hv' fun r hr => Or.inl (List.mem_cons_of_mem p hr))]
    rcases List.mem_cons.mp hr with rfl | hr
    · exact Or.inr ⟨q, hq, hqp⟩
    · exact Or.inl hr
  · obtain ⟨v', hv', -, -⟩ := hypervolume_spec (p :: points) reference senses
    exact ⟨v', hv', hypervolume_le hv hv' fun r hr => Or.inl (List.mem_cons_of_mem p hr)⟩

end Volume

/-- Three points over the reference (0, 0, 0), the first two level with each other. -/
example : hypervolume (K := ℚ) [![2, 1, 1], ![2, 3, 1], ![1, 1, 4]] ![0, 0, 0]
    ![true, true, true] = some 9 := by
  decide +kernel

end AstroMine.Studio
