import AstroMine.Prospect.Likelihood

/-!
# The grid backend (`prospect/backends/grid.py`, `_training.py`)

A constant prior over a grid, fused with observations that share one noise variance. Exact
arithmetic; the exponential function is a parameter.

Results:
* `build_eq_ok`: a field built of as many points as values is the fusion of the two.
-/

namespace AstroMine.Prospect

open scoped Numerals

section Model

variable {K : Type} [Field K] [LinearOrder K] {grid : FieldGrid K}

/-- `GridField` (lines 35–65) over a grid. -/
@[ext]
structure GridField (grid : FieldGrid K) where
  mean : Plane grid
  variance : Plane grid
  variance_nonneg : ∀ i j, 0 ≤ variance i j

/-- `GridField.__init__` (lines 43–65). -/
def GridField.new (mean variance : Plane grid) : Except ConditionError (GridField grid) :=
  if h : ∀ i j, 0 ≤ variance i j then .ok ⟨mean, variance, h⟩
  else .error (.prior .negativeVariance)

theorem GridField.new_of_nonneg {mean variance : Plane grid} (h : ∀ i j, 0 ≤ variance i j) :
    GridField.new mean variance = .ok ⟨mean, variance, h⟩ :=
  dif_pos h

/-- `validate_training` (`_training.py`, lines 26–50): the planar points with their values. -/
def validateTraining (trainPoints : Option (List (K × K × K))) (trainValues : Option (List K)) :
    Except ConditionError (List ((K × K) × K)) := do
  refuseIf (trainPoints.isNone ≠ trainValues.isNone) .training
  let points := trainPoints.getD []
  let values := trainValues.getD []
  refuseIf (points.length ≠ values.length) .training
  return (points.map fun p => (p.1, p.2.1)).zip values

/-- The length scale, or a tenth of the larger extent of the grid. -/
def resolveLengthScale (grid : FieldGrid K) (lengthScale : Option K) : K :=
  lengthScale.getD (1 / 10 * max (grid.maxX - grid.minX) (grid.maxY - grid.minY))

variable (exp : K → K)

/-- The weight of an observation at a cell in `_fuse` (lines 171–182). -/
def fuseWeight (grid : FieldGrid K) (ls : K) (xy : K × K) (i : Fin grid.nRows)
    (j : Fin grid.nCols) : K :=
  let dx := (grid.maxX - grid.minX) / (grid.nCols : K)
  let dy := (grid.maxY - grid.minY) / (grid.nRows : K)
  let x := grid.minX + ((j : ℕ) + 1 / 2) * dx
  let y := grid.minY + ((i : ℕ) + 1 / 2) * dy
  exp (-((x - xy.1) * (x - xy.1) + (y - xy.2) * (y - xy.2)) / (2 * ls * ls))

/-- `post_variance` of `_fuse` (lines 184–188), of one cell. -/
def fusePostVariance (grid : FieldGrid K) (ls : K) (training : List ((K × K) × K))
    (priorVariance noise : K) : Plane grid :=
  fun i j => 1 / (1 / priorVariance +
    (training.map fun t => fuseWeight exp grid ls t.1 i j).sum / noise)

/-- `post_mean` of `_fuse` (lines 184–189), of one cell. -/
def fusePostMean (grid : FieldGrid K) (ls : K) (training : List ((K × K) × K))
    (priorMean priorVariance noise : K) : Plane grid :=
  fun i j => fusePostVariance exp grid ls training priorVariance noise i j *
    (1 / priorVariance * priorMean +
      (training.map fun t => fuseWeight exp grid ls t.1 i j * t.2).sum / noise)

/-- `_fuse` (lines 152–191). -/
def fuse (grid : FieldGrid K) (training : List ((K × K) × K)) (priorMean priorVariance : K)
    (lengthScale : Option K) (noise : K) : Except ConditionError (Plane grid × Plane grid) := do
  refuseIf (noise ≤ 0) .nonPositive
  let ls := resolveLengthScale grid lengthScale
  refuseIf (ls ≤ 0) .nonPositive
  return (fusePostMean exp grid ls training priorMean priorVariance noise,
    fusePostVariance exp grid ls training priorVariance noise)

/-- `GridField.build` (lines 67–105). -/
def GridField.build (grid : FieldGrid K) (trainPoints : Option (List (K × K × K)))
    (trainValues : Option (List K)) (priorMean priorVariance : K) (lengthScale : Option K)
    (noise : K) : Except ConditionError (GridField grid) := do
  refuseIf (priorVariance ≤ 0) .nonPositive
  let training ← validateTraining trainPoints trainValues
  if training = [] then GridField.new (fun _ _ => priorMean) (fun _ _ => priorVariance)
  else
    let (mean, variance) ← fuse exp grid training priorMean priorVariance lengthScale noise
    GridField.new mean variance

end Model

section Fusion

variable {K : Type} [Field K] [LinearOrder K] {exp : K → K}
  {grid : FieldGrid K} {priorMean priorVariance noise : K} {lengthScale : Option K}

variable (exp grid priorMean noise) in
/-- Without observations the fusion is the prior. -/
theorem fuse_nil (hvariance : priorVariance ≠ 0) (ls : K) :
    fusePostMean exp grid ls [] priorMean priorVariance noise = (fun _ _ => priorMean) ∧
      fusePostVariance exp grid ls [] priorVariance noise = fun _ _ => priorVariance := by
  have hpost : fusePostVariance exp grid ls [] priorVariance noise = fun _ _ => priorVariance := by
    funext i j
    rw [fusePostVariance, List.map_nil, List.sum_nil, zero_div, add_zero, one_div_one_div]
  refine ⟨?_, hpost⟩
  funext i j
  rw [fusePostMean, hpost, List.map_nil, List.sum_nil, zero_div, add_zero, ← mul_assoc,
    mul_one_div, div_self hvariance, one_mul]

/-- **Spec.** A field built of as many points as values is the fusion of the two. -/
theorem build_eq_ok (hvariance : 0 < priorVariance) (hnoise : 0 < noise)
    (hlength : 0 < resolveLengthScale grid lengthScale) {points : List (K × K × K)}
    {values : List K} (hcount : points.length = values.length) {field : GridField grid}
    (hmean : field.mean = fusePostMean exp grid (resolveLengthScale grid lengthScale)
      ((points.map fun p => (p.1, p.2.1)).zip values) priorMean priorVariance noise)
    (hpost : field.variance = fusePostVariance exp grid (resolveLengthScale grid lengthScale)
      ((points.map fun p => (p.1, p.2.1)).zip values) priorVariance noise) :
    GridField.build exp grid (some points) (some values) priorMean priorVariance lengthScale noise =
      .ok field := by
  have htraining : validateTraining (some points) (some values) =
      .ok ((points.map fun p => (p.1, p.2.1)).zip values) := by
    rw [validateTraining]
    exact seq_eq_ok.2 ⟨refuseIf_eq_ok.2 (not_not.mpr rfl),
      seq_eq_ok.2 ⟨refuseIf_eq_ok.2 (not_not.mpr hcount), rfl⟩⟩
  rw [GridField.build]
  refine seq_eq_ok.2 ⟨refuseIf_eq_ok.2 (not_le.mpr hvariance), bind_eq_ok.2 ⟨_, htraining, ?_⟩⟩
  have hfield : GridField.new field.mean field.variance = .ok field :=
    GridField.new_of_nonneg field.variance_nonneg
  split_ifs with hnil
  · obtain ⟨hconst, hconst'⟩ := fuse_nil exp grid priorMean noise hvariance.ne'
      (resolveLengthScale grid lengthScale)
    rw [hnil, hconst] at hmean
    rw [hnil, hconst'] at hpost
    rw [← hmean, ← hpost]
    exact hfield
  · refine bind_eq_ok.2 ⟨(field.mean, field.variance), ?_, hfield⟩
    rw [fuse, hmean, hpost]
    exact seq_eq_ok.2 ⟨refuseIf_eq_ok.2 (not_le.mpr hnoise),
      seq_eq_ok.2 ⟨refuseIf_eq_ok.2 (not_le.mpr hlength), rfl⟩⟩

end Fusion

end AstroMine.Prospect
