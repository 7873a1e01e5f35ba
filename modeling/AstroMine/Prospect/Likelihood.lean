import AstroMine.Lib.Dict
import AstroMine.Lib.Instances
import AstroMine.Lib.RealVec
import AstroMine.Prospect.Field
import Mathlib.Algebra.Order.BigOperators.Group.List
import Mathlib.Tactic.FieldSimp
import Mathlib.Tactic.NormNum
import Mathlib.Tactic.Positivity

/-!
# Sensor likelihoods (`prospect/sensors/_likelihood.py`, `__init__.py`, `_catalog.py`)

How a reading informs the cells of a grid: the weights of its footprint, the gain of its depth
response and the precision of its noise. Exact arithmetic; the exponential function is a parameter.
A likelihood's kind, capability, nominal noise and description are not read here.

Results:
* `gain_pos`: a gain is positive.
* `gain_eq_one`: the gain of the whole reference column, evenly weighted, is one.
* `precision_pos`, `conditioningWeights_mem`: precisions are positive, and weights are in (0, 1].
-/

namespace AstroMine.Prospect

open scoped Numerals

/-- What conditioning raises. -/
inductive ConditionError
  | nonPositive
  | zeroWeights
  | unknownLikelihood
  | training
  | prior (e : PriorError)
  deriving DecidableEq

section Model

variable {K : Type} [Field K] [LinearOrder K]

/-! ## Depth -/

/-- `VerticalProfile` (lines 90–104). -/
structure VerticalProfile (K : Type) [Field K] [LinearOrder K] where
  surfaceFraction : K
  desiccationDepthM : K
  surfaceFraction_pos : 0 < surfaceFraction
  surfaceFraction_le_one : surfaceFraction ≤ 1
  desiccationDepthM_pos : 0 < desiccationDepthM

/-- `DepthResponse` (lines 120–141). -/
structure DepthResponse (K : Type) [Field K] [LinearOrder K] where
  topM : K
  bottomM : K
  attenuationLengthM : Option K
  topM_nonneg : 0 ≤ topM
  window : topM < bottomM
  attenuationLengthM_pos : ∀ l ∈ attenuationLengthM, 0 < l

variable (exp : K → K)

/-- `VerticalProfile.relative` (lines 106–110). -/
def VerticalProfile.relative (profile : VerticalProfile K) (z : K) : K :=
  1 - (1 - profile.surfaceFraction) * exp (-z / profile.desiccationDepthM)

/-- `DepthResponse.sensitivity` (lines 143–150). -/
def DepthResponse.sensitivity (depth : DepthResponse K) (z : K) : K :=
  if depth.topM ≤ z ∧ z < depth.bottomM then
    match depth.attenuationLengthM with
    | none => 1
    | some length => exp (-(z - depth.topM) / length)
  else 0

/-- `np.linspace(a, b, 512)`. -/
def linspace (a b : K) : List K :=
  (List.range 512).map fun k : ℕ => a + (k : K) * ((b - a) / 511)

/-- `np.clip`. -/
def clip (z low high : K) : K := min (max z low) high

/-- `DepthResponse.gain` (lines 152–165). `np.average` raises when the weights add up to zero. -/
def DepthResponse.gain (depth : DepthResponse K) (profile : VerticalProfile K) :
    Except ConditionError K :=
  let z := linspace depth.topM depth.bottomM
  let weight (z : K) := depth.sensitivity exp (clip z depth.topM (depth.bottomM - 1 / 10 ^ 12))
  if (z.map weight).sum = 0 then .error .zeroWeights
  else
    let sensed := (z.map fun z => profile.relative exp z * weight z).sum / (z.map weight).sum
    let column := linspace (0 : K) 1
    .ok (sensed / ((column.map (profile.relative exp)).sum / column.length))

/-! ## Likelihoods -/

/-- `SensorLikelihood` (lines 168–196), up to the fields that conditioning does not read. -/
structure SensorLikelihood (K : Type) [Field K] [LinearOrder K] where
  name : String
  footprintSigmaM : K
  depth : DepthResponse K
  profile : VerticalProfile K
  footprintSigmaM_nonneg : 0 ≤ footprintSigmaM

/-- `SensorLikelihood.gain` (lines 198–201). -/
def SensorLikelihood.gain (likelihood : SensorLikelihood K) : Except ConditionError K :=
  likelihood.depth.gain exp likelihood.profile

/-- `SensorLikelihood.to_field_value` (lines 257–259). -/
def SensorLikelihood.toFieldValue (likelihood : SensorLikelihood K) (reading : K) :
    Except ConditionError K := do
  return reading / (← likelihood.gain exp)

/-- `SensorLikelihood.precision` (lines 261–271). -/
def SensorLikelihood.precision (likelihood : SensorLikelihood K) (noiseSigma : K) :
    Except ConditionError K := do
  refuseIf (noiseSigma ≤ 0) .nonPositive
  let gain ← likelihood.gain exp
  return gain * gain / (noiseSigma * noiseSigma)

/-- `_cell_centers` (lines 321–328), of one cell. -/
def cellCenter (grid : FieldGrid K) (i : Fin grid.nRows) (j : Fin grid.nCols) : K × K :=
  let dx := (grid.maxX - grid.minX) / (grid.nCols : K)
  let dy := (grid.maxY - grid.minY) / (grid.nRows : K)
  (grid.minX + ((j : ℕ) + 1 / 2) * dx, grid.minY + ((i : ℕ) + 1 / 2) * dy)

/-- `_cell_distances_squared` (lines 331–334). -/
def cellDistanceSquared (grid : FieldGrid K) (position : K × K × K) (i : Fin grid.nRows)
    (j : Fin grid.nCols) : K :=
  let diffX := (cellCenter grid i j).1 - position.1
  let diffY := (cellCenter grid i j).2 - position.2.1
  diffX * diffX + diffY * diffY

/-- `SensorLikelihood.conditioning_weights` (lines 273–290). -/
def SensorLikelihood.conditioningWeights [HasSqrt K] (likelihood : SensorLikelihood K)
    (grid : FieldGrid K) (position : K × K × K) (correlationLengthM : K) :
    Except ConditionError (Plane grid) := do
  refuseIf (correlationLengthM ≤ 0) .nonPositive
  let effective := HasSqrt.sqrt (correlationLengthM * correlationLengthM +
    likelihood.footprintSigmaM * likelihood.footprintSigmaM)
  return fun i j => exp (-cellDistanceSquared grid position i j / (2 * effective * effective))

/-- `resolve_likelihood` (`__init__.py`, lines 100–112), in the registry `_LIKELIHOODS`. -/
def resolveLikelihood (registry : Dict String (SensorLikelihood K)) (name : Option String) :
    Except ConditionError (SensorLikelihood K) :=
  match registry.get? (name.getD "point_gaussian") with
  | some likelihood => .ok likelihood
  | none => .error .unknownLikelihood

/-- `DEFAULT_PROFILE` (line 117). -/
def defaultProfile (K : Type) [Field K] [LinearOrder K] [IsStrictOrderedRing K] :
    VerticalProfile K where
  surfaceFraction := 1 / 10
  desiccationDepthM := 1 / 5
  surfaceFraction_pos := by positivity
  surfaceFraction_le_one := by norm_num
  desiccationDepthM_pos := by positivity

/-- `POINT_GAUSSIAN` (`_catalog.py`, lines 56–67). -/
def pointGaussian (K : Type) [Field K] [LinearOrder K] [IsStrictOrderedRing K] :
    SensorLikelihood K where
  name := "point_gaussian"
  footprintSigmaM := 0
  depth :=
    { topM := 0
      bottomM := 1
      attenuationLengthM := none
      topM_nonneg := le_rfl
      window := one_pos
      attenuationLengthM_pos := by simp }
  profile := defaultProfile K
  footprintSigmaM_nonneg := le_rfl

end Model

/-! ## Weights in (0, 1] -/

section Weights

variable {K : Type} [Field K] [LinearOrder K] {exp : K → K}

/-- The weights of what lies ahead of the peak are in (0, 1]. -/
def Decays (exp : K → K) : Prop := ∀ x ≤ 0, 0 < exp x ∧ exp x ≤ 1

variable [IsStrictOrderedRing K]

theorem relative_pos (hexp : Decays exp) (profile : VerticalProfile K) {z : K} (hz : 0 ≤ z) :
    0 < profile.relative exp z := by
  have hdecay := hexp (-z / profile.desiccationDepthM)
    (div_nonpos_of_nonpos_of_nonneg (neg_nonpos.mpr hz) profile.desiccationDepthM_pos.le)
  have hdeficit : (1 - profile.surfaceFraction) * exp (-z / profile.desiccationDepthM) ≤
      1 - profile.surfaceFraction :=
    mul_le_of_le_one_right (sub_nonneg.mpr profile.surfaceFraction_le_one) hdecay.2
  have hsurface := profile.surfaceFraction_pos
  rw [VerticalProfile.relative]
  linarith

theorem sensitivity_nonneg (hexp : Decays exp) (depth : DepthResponse K) (z : K) :
    0 ≤ depth.sensitivity exp z := by
  rw [DepthResponse.sensitivity]
  split_ifs with hz
  · cases hlength : depth.attenuationLengthM with
    | none => exact zero_le_one
    | some length =>
      refine (hexp _ (div_nonpos_of_nonpos_of_nonneg ?_ ?_)).1.le
      · exact neg_nonpos.mpr (sub_nonneg.mpr hz.1)
      · exact (depth.attenuationLengthM_pos length hlength).le
  · exact le_rfl

theorem le_of_mem_linspace {a b z : K} (hab : a ≤ b) (hz : z ∈ linspace a b) : a ≤ z := by
  obtain ⟨k, -, rfl⟩ := List.mem_map.mp hz
  exact le_add_of_nonneg_right
    (mul_nonneg (Nat.cast_nonneg k) (div_nonneg (sub_nonneg.mpr hab) (by norm_num)))

omit [LinearOrder K] [IsStrictOrderedRing K] in
theorem linspace_ne_nil (a b : K) : linspace a b ≠ [] := by
  rw [linspace, Ne, List.map_eq_nil_iff, List.range_eq_nil]
  decide

/-- The mean over the reference column is positive. -/
theorem column_pos (hexp : Decays exp) (profile : VerticalProfile K) :
    0 < ((linspace (0 : K) 1).map (profile.relative exp)).sum := by
  refine List.sum_pos _ (fun y hy => ?_) (mt List.map_eq_nil_iff.mp (linspace_ne_nil _ _))
  obtain ⟨z, hz, rfl⟩ := List.mem_map.mp hy
  exact relative_pos hexp profile (le_of_mem_linspace zero_le_one hz)

/-- A sum of products with positive values is positive, unless all the weights are zero. -/
theorem weighted_pos {zs : List K} {value weight : K → K} (hvalue : ∀ z ∈ zs, 0 < value z)
    (hweight : ∀ z ∈ zs, 0 ≤ weight z) (hsum : (zs.map weight).sum ≠ 0) :
    0 < (zs.map fun z => value z * weight z).sum := by
  induction zs with
  | nil => exact absurd rfl hsum
  | cons z zs ih =>
    rw [List.forall_mem_cons] at hvalue hweight
    rw [List.map_cons, List.sum_cons] at hsum ⊢
    have hrest : 0 ≤ (zs.map fun z => value z * weight z).sum := by
      refine List.sum_nonneg fun y hy => ?_
      obtain ⟨z, hz, rfl⟩ := List.mem_map.mp hy
      exact mul_nonneg (hvalue.2 z hz).le (hweight.2 z hz)
    rcases hweight.1.eq_or_lt with hzero | hpos
    · rw [← hzero, zero_add] at hsum
      rw [← hzero, mul_zero, zero_add]
      exact ih hvalue.2 hweight.2 hsum
    · exact add_pos_of_pos_of_nonneg (mul_pos hvalue.1 hpos) hrest

/-- **Spec.** A gain is positive. -/
theorem gain_pos (hexp : Decays exp) {depth : DepthResponse K} {profile : VerticalProfile K} {g : K}
    (h : depth.gain exp profile = .ok g) : 0 < g := by
  rw [DepthResponse.gain] at h
  dsimp only at h
  split_ifs at h with hsum
  obtain rfl := Except.ok.inj h
  have hweight (z : K) (_ : z ∈ linspace depth.topM depth.bottomM) :=
    sensitivity_nonneg hexp depth (clip z depth.topM (depth.bottomM - 1 / 10 ^ 12))
  have hvalue (z : K) (hz : z ∈ linspace depth.topM depth.bottomM) : 0 < profile.relative exp z :=
    relative_pos hexp profile (depth.topM_nonneg.trans (le_of_mem_linspace depth.window.le hz))
  have htotal : 0 < ((linspace depth.topM depth.bottomM).map fun z => depth.sensitivity exp
      (clip z depth.topM (depth.bottomM - 1 / 10 ^ 12))).sum := by
    refine lt_of_le_of_ne (List.sum_nonneg fun y hy => ?_) (Ne.symm hsum)
    obtain ⟨z, hz, rfl⟩ := List.mem_map.mp hy
    exact hweight z hz
  refine div_pos (div_pos (weighted_pos hvalue hweight hsum) htotal)
    (div_pos (column_pos hexp profile) ?_)
  exact Nat.cast_pos.mpr (List.length_pos_iff.mpr (linspace_ne_nil _ _))

/-- **Spec.** The gain of the whole reference column, evenly weighted, is one. -/
theorem gain_eq_one (hexp : Decays exp) : (pointGaussian K).gain exp = .ok 1 := by
  have hone (z : K) : (pointGaussian K).depth.sensitivity exp (clip z 0 (1 - 1 / 10 ^ 12)) = 1 := by
    have hclip : 0 ≤ clip z 0 (1 - 1 / 10 ^ 12) ∧ clip z 0 (1 - 1 / 10 ^ 12) < 1 := by
      rw [clip]
      refine ⟨le_min (le_max_right _ _) (by norm_num), (min_le_right _ _).trans_lt (by norm_num)⟩
    exact if_pos hclip
  have hsum : ((linspace (0 : K) 1).map fun _ => (1 : K)).sum = (linspace (0 : K) 1).length := by
    rw [List.map_const', List.sum_replicate, nsmul_one]
  have hlength : ((linspace (0 : K) 1).length : K) ≠ 0 :=
    Nat.cast_ne_zero.mpr (List.length_pos_iff.mpr (linspace_ne_nil _ _)).ne'
  have hgain : (pointGaussian K).gain exp =
      if ((linspace (0 : K) 1).map fun z =>
          (pointGaussian K).depth.sensitivity exp (clip z 0 (1 - 1 / 10 ^ 12))).sum = 0 then
        .error .zeroWeights
      else .ok (((linspace (0 : K) 1).map fun z => (defaultProfile K).relative exp z *
          (pointGaussian K).depth.sensitivity exp (clip z 0 (1 - 1 / 10 ^ 12))).sum /
        ((linspace (0 : K) 1).map fun z =>
          (pointGaussian K).depth.sensitivity exp (clip z 0 (1 - 1 / 10 ^ 12))).sum /
        (((linspace (0 : K) 1).map ((defaultProfile K).relative exp)).sum /
          (linspace (0 : K) 1).length)) := rfl
  rw [hgain]
  simp only [hone, mul_one]
  rw [hsum, if_neg hlength, div_self]
  exact (div_pos (column_pos hexp _) (lt_of_le_of_ne (Nat.cast_nonneg _) hlength.symm)).ne'

/-- **Spec.** A precision is positive. -/
theorem precision_pos (hexp : Decays exp) {likelihood : SensorLikelihood K} {noiseSigma p : K}
    (h : likelihood.precision exp noiseSigma = .ok p) : 0 < p := by
  rw [SensorLikelihood.precision, seq_eq_ok, refuseIf_eq_ok, not_le, bind_eq_ok] at h
  obtain ⟨hnoise, gain, hgain, hp⟩ := h
  obtain rfl := Except.ok.inj hp
  have hpos := gain_pos hexp hgain
  exact div_pos (mul_pos hpos hpos) (mul_pos hnoise hnoise)

/-- **Spec.** The weights of the cells are in (0, 1]. -/
theorem conditioningWeights_mem [HasSqrt K] (hexp : Decays exp) {likelihood : SensorLikelihood K}
    {grid : FieldGrid K} {position : K × K × K} {length : K} {weights : Plane grid}
    (h : likelihood.conditioningWeights exp grid position length = .ok weights)
    (i : Fin grid.nRows) (j : Fin grid.nCols) : 0 < weights i j ∧ weights i j ≤ 1 := by
  rw [SensorLikelihood.conditioningWeights, seq_eq_ok] at h
  obtain rfl := Except.ok.inj h.2
  refine hexp _ (div_nonpos_of_nonpos_of_nonneg (neg_nonpos.mpr ?_) ?_)
  · exact add_nonneg (mul_self_nonneg _) (mul_self_nonneg _)
  · rw [mul_assoc]
    exact mul_nonneg zero_le_two (mul_self_nonneg _)

end Weights

end AstroMine.Prospect
