import AstroMine.Prospect.GridField
import Mathlib.Analysis.SpecialFunctions.Exp

/-!
# Belief fields (`prospect/belief/field.py`, `observation.py`)

A belief is a prior with the log of the observations that condition it. An update appends to the log
and conditions the prior on all of it. Exact arithmetic; the exponential function is a parameter, and
so is the digest of the content hash. The registry of likelihoods does not change on the way.

Results:
* `reading_pos`: an observation adds precision to every cell.
* `new_of_readings`, `new_of_error`: when a belief is made, and of what.
* `new_bind_update`: an update of a belief is the belief of the longer log.
* `conditioning_laws`: conditioning does not depend on how the log is split nor on its order, it
  never raises a variance, and it agrees with the grid backend.
-/

namespace AstroMine.Prospect

open scoped Numerals

section Model

variable {K : Type} [Field K] [LinearOrder K]

/-- `FieldObservation` (`observation.py`, lines 40–68). -/
structure FieldObservation (K : Type) [Field K] [LinearOrder K] where
  xM : K
  yM : K
  zM : K
  value : K
  noiseSigma : K
  timeS : K
  sensor : Option String
  likelihood : Option String
  noiseSigma_pos : 0 < noiseSigma

/-- `FieldObservation.position` (lines 70–73). -/
def FieldObservation.position (observation : FieldObservation K) : K × K × K :=
  (observation.xM, observation.yM, observation.zM)

variable [HasSqrt K] (exp : K → K) (registry : Dict String (SensorLikelihood K))
  {grid : FieldGrid K}

/-- The body of the loop of `_condition` (lines 236–243): the precision that an observation adds to
the cells, and its depth-corrected value. -/
def reading (grid : FieldGrid K) (lengthScale : K) (observation : FieldObservation K) :
    Except ConditionError (Plane grid × K) := do
  let likelihood ← resolveLikelihood registry observation.likelihood
  let weights ← likelihood.conditioningWeights exp grid observation.position lengthScale
  let precision ← likelihood.precision exp observation.noiseSigma
  let fieldValue ← likelihood.toFieldValue exp observation.value
  return (fun i j => weights i j * precision, fieldValue)

/-- The posterior variance of a cell (lines 245–249). -/
def postVariance (priorVariance : Plane grid) (readings : List (Plane grid × K)) : Plane grid :=
  fun i j => 1 / (1 / priorVariance i j + (readings.map fun r => r.1 i j).sum)

/-- The posterior mean of a cell (lines 245–250). -/
def postMean (priorMean priorVariance : Plane grid) (readings : List (Plane grid × K)) :
    Plane grid :=
  fun i j => postVariance priorVariance readings i j *
    (1 / priorVariance i j * priorMean i j + (readings.map fun r => r.1 i j * r.2).sum)

/-- `_condition` (lines 205–251). -/
def condition (priorMean priorVariance : Plane grid) (log : List (FieldObservation K))
    (lengthScale : K) : Except ConditionError (Plane grid × Plane grid) :=
  if log.isEmpty then .ok (priorMean, priorVariance)
  else do
    let readings ← log.mapM (reading exp registry grid lengthScale)
    return (postMean priorMean priorVariance readings, postVariance priorVariance readings)

/-- `BeliefField` (lines 48–97). -/
structure BeliefField (grid : FieldGrid K) where
  priorMean : Plane grid
  priorVariance : Plane grid
  log : List (FieldObservation K)
  lengthScale : K
  priorHash : String
  field : GridField grid

namespace BeliefField

/-- `BeliefField.__init__` (lines 58–97). -/
def new (priorMean priorVariance : Plane grid) (log : List (FieldObservation K))
    (lengthScale : Option K) (priorHash : String) : Except ConditionError (BeliefField grid) := do
  refuseIf (∃ i j, priorVariance i j ≤ 0) .nonPositive
  let resolvedLs := resolveLengthScale grid lengthScale
  refuseIf (resolvedLs ≤ 0) .nonPositive
  let (mean, variance) ← condition exp registry priorMean priorVariance log resolvedLs
  let field ← GridField.new mean variance
  return { priorMean, priorVariance, log, lengthScale := resolvedLs, priorHash, field }

/-- `BeliefField.from_prior` (lines 99–114). -/
def fromPrior (prior : Prior grid) (priorHash : String) (lengthScale : Option K) :
    Except ConditionError (BeliefField grid) :=
  new exp registry prior.mean prior.variance [] lengthScale priorHash

/-- `BeliefField.update` (lines 116–131). -/
def update (belief : BeliefField grid) (observations : List (FieldObservation K)) :
    Except ConditionError (BeliefField grid) :=
  new exp registry belief.priorMean belief.priorVariance (belief.log ++ observations)
    (some belief.lengthScale) belief.priorHash

/-- `BeliefField.content_hash` (lines 190–202). -/
def contentHash {H : Type} (digest : String → K → List (FieldObservation K) → H)
    (belief : BeliefField grid) : H :=
  digest belief.priorHash belief.lengthScale belief.log

end BeliefField

/-- The belief of a prior and a log. -/
def beliefOf (prior : Prior grid) (priorHash : String) (lengthScale : Option K)
    (log : List (FieldObservation K)) : Except ConditionError (BeliefField grid) := do
  let belief ← BeliefField.fromPrior exp registry prior priorHash lengthScale
  belief.update exp registry log

end Model

/-! ## Readings -/

section Readings

variable {exp : ℝ → ℝ} {registry : Dict String (SensorLikelihood ℝ)} {grid : FieldGrid ℝ}
  {lengthScale : ℝ}

/-- **Spec.** An observation adds precision to every cell. -/
theorem reading_pos (hexp : Decays exp) {observation : FieldObservation ℝ} {r : Plane grid × ℝ}
    (h : reading exp registry grid lengthScale observation = .ok r) (i : Fin grid.nRows)
    (j : Fin grid.nCols) : 0 < r.1 i j := by
  rw [reading, bind_eq_ok] at h
  obtain ⟨likelihood, -, h⟩ := h
  rw [bind_eq_ok] at h
  obtain ⟨weights, hweights, h⟩ := h
  rw [bind_eq_ok] at h
  obtain ⟨precision, hprecision, h⟩ := h
  rw [bind_eq_ok] at h
  obtain ⟨fieldValue, -, h⟩ := h
  obtain rfl := Except.ok.inj h
  exact mul_pos (conditioningWeights_mem hexp hweights i j).1 (precision_pos hexp hprecision)

/-- What a log adds to a cell. -/
theorem sum_readings_nonneg (hexp : Decays exp) {log : List (FieldObservation ℝ)}
    {readings : List (Plane grid × ℝ)}
    (h : log.mapM (reading exp registry grid lengthScale) = .ok readings) (i : Fin grid.nRows)
    (j : Fin grid.nCols) : 0 ≤ (readings.map fun r => r.1 i j).sum := by
  refine List.sum_nonneg fun y hy => ?_
  obtain ⟨r, hr, rfl⟩ := List.mem_map.mp hy
  exact forall_of_mapM h (P := fun r => 0 ≤ r.1 i j)
    (fun _ _ hread => (reading_pos hexp hread i j).le) r hr

/-- The order of a log is no matter to what its readings are. -/
theorem readings_perm {log log' : List (FieldObservation ℝ)} (hperm : log.Perm log')
    {readings : List (Plane grid × ℝ)}
    (h : log.mapM (reading exp registry grid lengthScale) = .ok readings) :
    ∃ readings', log'.mapM (reading exp registry grid lengthScale) = .ok readings' ∧
      readings'.Perm readings := by
  obtain ⟨readings', hread, hperm'⟩ :=
    List.perm_comp_forall₂ hperm.symm (mapM_eq_ok.1 h)
  exact ⟨readings', mapM_eq_ok.2 hread, hperm'⟩

/-! ## Posteriors -/

variable {priorMean priorVariance : Plane grid} {log : List (FieldObservation ℝ)}
  {readings : List (Plane grid × ℝ)}

/-- A precision in a cell is that of the prior and what the log adds. -/
theorem postPrecision_pos (hexp : Decays exp) (hprior : ∀ i j, 0 < priorVariance i j)
    (h : log.mapM (reading exp registry grid lengthScale) = .ok readings) (i : Fin grid.nRows)
    (j : Fin grid.nCols) : 0 < 1 / priorVariance i j + (readings.map fun r => r.1 i j).sum :=
  add_pos_of_pos_of_nonneg (one_div_pos.mpr (hprior i j)) (sum_readings_nonneg hexp h i j)

variable (priorMean) in
/-- Without readings the posterior is the prior. -/
theorem post_nil (hprior : ∀ i j, 0 < priorVariance i j) :
    postMean priorMean priorVariance [] = priorMean ∧
      postVariance priorVariance [] = priorVariance := by
  have hvariance : postVariance priorVariance [] = priorVariance := by
    funext i j
    rw [postVariance, List.map_nil, List.sum_nil, add_zero, one_div_one_div]
  refine ⟨?_, hvariance⟩
  funext i j
  rw [postMean, hvariance, List.map_nil, List.sum_nil, add_zero, ← mul_assoc, mul_one_div,
    div_self (hprior i j).ne', one_mul]

/-- **Spec.** Conditioning reads the log, from the empty one on. -/
theorem condition_eq (hprior : ∀ i j, 0 < priorVariance i j) :
    condition exp registry priorMean priorVariance log lengthScale =
      (log.mapM (reading exp registry grid lengthScale)).map fun readings =>
        (postMean priorMean priorVariance readings, postVariance priorVariance readings) := by
  rw [condition]
  cases log with
  | nil =>
    obtain ⟨hmean, hvariance⟩ := post_nil priorMean hprior
    exact congrArg Except.ok (Prod.ext hmean.symm hvariance.symm)
  | cons observation log => rfl

end Readings

/-! ## Beliefs -/

section Beliefs

variable {exp : ℝ → ℝ} {registry : Dict String (SensorLikelihood ℝ)} {grid : FieldGrid ℝ}
  {priorMean priorVariance : Plane grid} {log more : List (FieldObservation ℝ)}
  {lengthScale : Option ℝ} {priorHash : String}

/-- What the constructor demands of a prior and a length scale. -/
structure Accepted (priorVariance : Plane grid) (lengthScale : Option ℝ) : Prop where
  variance_pos : ∀ i j, 0 < priorVariance i j
  length_pos : 0 < resolveLengthScale grid lengthScale

/-- A belief of a log with these readings. -/
structure Conditioned (priorMean priorVariance : Plane grid) (log : List (FieldObservation ℝ))
    (lengthScale : Option ℝ) (priorHash : String) (readings : List (Plane grid × ℝ))
    (belief : BeliefField grid) : Prop where
  mean_eq : belief.priorMean = priorMean
  variance_eq : belief.priorVariance = priorVariance
  log_eq : belief.log = log
  length_eq : belief.lengthScale = resolveLengthScale grid lengthScale
  hash_eq : belief.priorHash = priorHash
  postMean_eq : belief.field.mean = postMean priorMean priorVariance readings
  postVariance_eq : belief.field.variance = postVariance priorVariance readings

/-- A prior that is not accepted is refused. -/
theorem new_of_rejected (h : ¬ Accepted priorVariance lengthScale) :
    BeliefField.new exp registry priorMean priorVariance log lengthScale priorHash =
      .error .nonPositive := by
  rw [BeliefField.new, seq_eq_error]
  by_cases hvariance : ∃ i j, priorVariance i j ≤ 0
  · exact Or.inl (refuseIf_eq_error.2 ⟨hvariance, rfl⟩)
  refine Or.inr ⟨refuseIf_eq_ok.2 hvariance, seq_eq_error.2 (Or.inl ?_)⟩
  refine refuseIf_eq_error.2 ⟨not_lt.mp fun hlength => h ⟨fun i j => ?_, hlength⟩, rfl⟩
  exact not_le.mp fun hle => hvariance ⟨i, j, hle⟩

theorem Accepted.refusals (h : Accepted priorVariance lengthScale) :
    (¬ ∃ i j, priorVariance i j ≤ 0) ∧ ¬ resolveLengthScale grid lengthScale ≤ 0 :=
  ⟨fun ⟨i, j, hle⟩ => absurd (h.variance_pos i j) (not_lt.mpr hle), not_le.mpr h.length_pos⟩

variable (priorMean priorHash) in
/-- **Spec.** An accepted prior with a log that can be read makes a belief. -/
theorem new_of_readings (hexp : Decays exp) (haccepted : Accepted priorVariance lengthScale)
    {readings : List (Plane grid × ℝ)}
    (h : log.mapM (reading exp registry grid (resolveLengthScale grid lengthScale)) =
      .ok readings) :
    ∃ belief, BeliefField.new exp registry priorMean priorVariance log lengthScale priorHash =
        .ok belief ∧
      Conditioned priorMean priorVariance log lengthScale priorHash readings belief := by
  obtain ⟨hvariance, hlength⟩ := haccepted.refusals
  have hcondition : condition exp registry priorMean priorVariance log
      (resolveLengthScale grid lengthScale) =
        .ok (postMean priorMean priorVariance readings, postVariance priorVariance readings) := by
    rw [condition_eq haccepted.variance_pos, h]
    rfl
  have hnonneg (i : Fin grid.nRows) (j : Fin grid.nCols) :
      0 ≤ postVariance priorVariance readings i j :=
    (one_div_pos.mpr (postPrecision_pos hexp haccepted.variance_pos h i j)).le
  refine ⟨⟨priorMean, priorVariance, log, resolveLengthScale grid lengthScale, priorHash,
    ⟨postMean priorMean priorVariance readings, postVariance priorVariance readings, hnonneg⟩⟩, ?_,
    ⟨rfl, rfl, rfl, rfl, rfl, rfl, rfl⟩⟩
  rw [BeliefField.new]
  refine seq_eq_ok.2 ⟨refuseIf_eq_ok.2 hvariance, seq_eq_ok.2 ⟨refuseIf_eq_ok.2 hlength, ?_⟩⟩
  exact bind_eq_ok.2 ⟨_, hcondition, bind_eq_ok.2 ⟨_, GridField.new_of_nonneg hnonneg, rfl⟩⟩

/-- **Spec.** A log that cannot be read raises where it fails first. -/
theorem new_of_error (haccepted : Accepted priorVariance lengthScale) {e : ConditionError}
    (h : log.mapM (reading exp registry grid (resolveLengthScale grid lengthScale)) = .error e) :
    BeliefField.new exp registry priorMean priorVariance log lengthScale priorHash = .error e := by
  obtain ⟨hvariance, hlength⟩ := haccepted.refusals
  have hcondition : condition exp registry priorMean priorVariance log
      (resolveLengthScale grid lengthScale) = .error e := by
    rw [condition_eq haccepted.variance_pos, h]
    rfl
  rw [BeliefField.new]
  refine seq_eq_error.2 (Or.inr ⟨refuseIf_eq_ok.2 hvariance, ?_⟩)
  refine seq_eq_error.2 (Or.inr ⟨refuseIf_eq_ok.2 hlength, ?_⟩)
  exact bind_eq_error.2 (Or.inl hcondition)

/-- What a belief was made of. -/
theorem readings_of_new (hexp : Decays exp) {belief : BeliefField grid}
    (h : BeliefField.new exp registry priorMean priorVariance log lengthScale priorHash =
      .ok belief) :
    Accepted priorVariance lengthScale ∧ ∃ readings,
      log.mapM (reading exp registry grid (resolveLengthScale grid lengthScale)) = .ok readings ∧
      Conditioned priorMean priorVariance log lengthScale priorHash readings belief := by
  by_cases haccepted : Accepted priorVariance lengthScale
  · cases hread : log.mapM (reading exp registry grid (resolveLengthScale grid lengthScale)) with
    | error e =>
      rw [new_of_error haccepted hread] at h
      cases h
    | ok readings =>
      obtain ⟨belief', hbelief', hconditioned⟩ :=
        new_of_readings priorMean priorHash hexp haccepted hread
      obtain rfl := Except.ok.inj (h.symm.trans hbelief')
      exact ⟨haccepted, readings, rfl, hconditioned⟩
  · rw [new_of_rejected haccepted] at h
    cases h

/-- **Step.** An update of a belief is the belief of the longer log. -/
theorem new_bind_update (hexp : Decays exp) :
    (BeliefField.new exp registry priorMean priorVariance log lengthScale priorHash >>= fun belief =>
        belief.update exp registry more) =
      BeliefField.new exp registry priorMean priorVariance (log ++ more) lengthScale priorHash := by
  by_cases haccepted : Accepted priorVariance lengthScale
  · cases hread : log.mapM (reading exp registry grid (resolveLengthScale grid lengthScale)) with
    | error e =>
      rw [new_of_error haccepted hread, new_of_error haccepted (e := e)]
      · rfl
      · rw [List.mapM_append, hread]
        rfl
    | ok readings =>
      obtain ⟨belief, hbelief, hconditioned⟩ :=
        new_of_readings priorMean priorHash hexp haccepted hread
      rw [hbelief]
      have hupdate : belief.update exp registry more =
          BeliefField.new exp registry priorMean priorVariance (log ++ more)
            (some (resolveLengthScale grid lengthScale)) priorHash := by
        rw [BeliefField.update, hconditioned.mean_eq, hconditioned.variance_eq,
          hconditioned.log_eq, hconditioned.length_eq, hconditioned.hash_eq]
      exact hupdate
  · rw [new_of_rejected haccepted, new_of_rejected haccepted]
    rfl

/-- **Run.** Updates one after the other condition on all of what they bring. -/
theorem foldlM_update (hexp : Decays exp) (chunks : List (List (FieldObservation ℝ))) :
    (BeliefField.new exp registry priorMean priorVariance log lengthScale priorHash >>= fun belief =>
        chunks.foldlM (BeliefField.update exp registry) belief) =
      BeliefField.new exp registry priorMean priorVariance (log ++ chunks.flatten) lengthScale
        priorHash := by
  induction chunks generalizing log with
  | nil =>
    rw [List.flatten_nil, List.append_nil]
    exact bind_pure _
  | cons chunk chunks ih =>
    rw [List.flatten_cons, ← List.append_assoc, ← ih, ← new_bind_update hexp, bind_assoc]
    rfl

/-! ## Untagged observations -/

/-- **Spec.** Under the default likelihood an observation is read as the grid backend reads it. -/
theorem reading_untagged (hexp : Decays exp)
    (hdefault : registry.get? "point_gaussian" = some (pointGaussian ℝ)) {ls : ℝ} (hls : 0 < ls)
    {observation : FieldObservation ℝ} (htag : observation.likelihood = none) :
    reading exp registry grid ls observation =
      .ok (fun i j => fuseWeight exp grid ls (observation.xM, observation.yM) i j *
        (1 / (observation.noiseSigma * observation.noiseSigma)), observation.value) := by
  have hresolve : resolveLikelihood registry observation.likelihood = .ok (pointGaussian ℝ) := by
    rw [htag, resolveLikelihood, Option.getD_none, hdefault]
  have heffective : HasSqrt.sqrt (ls * ls + (pointGaussian ℝ).footprintSigmaM *
      (pointGaussian ℝ).footprintSigmaM) = ls := by
    have hzero : (pointGaussian ℝ).footprintSigmaM = 0 := rfl
    rw [hzero, mul_zero, add_zero]
    exact Real.sqrt_mul_self hls.le
  have hweights : (pointGaussian ℝ).conditioningWeights exp grid observation.position ls =
      .ok (fuseWeight exp grid ls (observation.xM, observation.yM)) := by
    rw [SensorLikelihood.conditioningWeights]
    refine seq_eq_ok.2 ⟨refuseIf_eq_ok.2 (not_le.mpr hls), ?_⟩
    simp only [heffective]
    rfl
  have hprecision : (pointGaussian ℝ).precision exp observation.noiseSigma =
      .ok (1 / (observation.noiseSigma * observation.noiseSigma)) := by
    rw [SensorLikelihood.precision]
    refine seq_eq_ok.2 ⟨refuseIf_eq_ok.2 (not_le.mpr observation.noiseSigma_pos), ?_⟩
    exact bind_eq_ok.2 ⟨1, gain_eq_one hexp, by rw [one_mul]; rfl⟩
  have hvalue : (pointGaussian ℝ).toFieldValue exp observation.value = .ok observation.value := by
    rw [SensorLikelihood.toFieldValue]
    exact bind_eq_ok.2 ⟨1, gain_eq_one hexp, by rw [div_one]; rfl⟩
  rw [reading]
  exact bind_eq_ok.2 ⟨_, hresolve, bind_eq_ok.2 ⟨_, hweights, bind_eq_ok.2 ⟨_, hprecision,
    bind_eq_ok.2 ⟨_, hvalue, rfl⟩⟩⟩⟩

/-- A log of untagged observations that share one noise. -/
structure Untagged (log : List (FieldObservation ℝ)) (sigma : ℝ) : Prop where
  tag : ∀ o ∈ log, o.likelihood = none
  noise : ∀ o ∈ log, o.noiseSigma = sigma

theorem readings_untagged (hexp : Decays exp)
    (hdefault : registry.get? "point_gaussian" = some (pointGaussian ℝ)) {ls sigma : ℝ}
    (hls : 0 < ls) (huntagged : Untagged log sigma) :
    log.mapM (reading exp registry grid ls) = .ok (log.map fun o =>
      (fun i j => fuseWeight exp grid ls (o.xM, o.yM) i j * (1 / sigma ^ 2), o.value)) := by
  rw [mapM_eq_ok, List.forall₂_map_right_iff, List.forall₂_same]
  intro o ho
  rw [reading_untagged hexp hdefault hls (huntagged.tag o ho), huntagged.noise o ho, sq]

/-- The observations as the grid backend takes them. -/
theorem zip_training (log : List (FieldObservation ℝ)) :
    ((log.map FieldObservation.position).map fun p => (p.1, p.2.1)).zip
      (log.map FieldObservation.value) = log.map fun o => ((o.xM, o.yM), o.value) := by
  rw [List.map_map, List.zip_map']
  rfl

/-- The two fusions of untagged observations coincide. -/
theorem postVariance_untagged (v sigma ls : ℝ) :
    (postVariance (fun _ _ => v) (log.map fun o =>
        (fun i j => fuseWeight exp grid ls (o.xM, o.yM) i j * (1 / sigma ^ 2), o.value)) :
      Plane grid) =
      fusePostVariance exp grid ls (log.map fun o => ((o.xM, o.yM), o.value)) v (sigma ^ 2) := by
  funext i j
  rw [postVariance, fusePostVariance, List.map_map, List.map_map]
  simp only [Function.comp_def]
  rw [List.sum_map_mul_right, mul_one_div]

theorem postMean_untagged (m v sigma ls : ℝ) :
    (postMean (fun _ _ => m) (fun _ _ => v) (log.map fun o =>
        (fun i j => fuseWeight exp grid ls (o.xM, o.yM) i j * (1 / sigma ^ 2), o.value)) :
      Plane grid) =
      fusePostMean exp grid ls (log.map fun o => ((o.xM, o.yM), o.value)) m v (sigma ^ 2) := by
  funext i j
  rw [postMean, fusePostMean, postVariance_untagged, List.map_map, List.map_map]
  simp only [Function.comp_def, mul_right_comm _ (1 / sigma ^ 2)]
  rw [List.sum_map_mul_right, mul_one_div]

/-! ## The laws -/

/-- Conditioning a prior does not depend on how the log is split nor on its order, and it never
raises a variance. -/
structure ConditioningLaws (exp : ℝ → ℝ) (registry : Dict String (SensorLikelihood ℝ))
    (prior : Prior grid) (priorHash : String) (lengthScale : Option ℝ) : Prop where
  chunks : ∀ chunks : List (List (FieldObservation ℝ)),
    (BeliefField.fromPrior exp registry prior priorHash lengthScale >>= fun belief =>
        chunks.foldlM (BeliefField.update exp registry) belief) =
      beliefOf exp registry prior priorHash lengthScale chunks.flatten
  order : ∀ log log' belief, log.Perm log' →
    beliefOf exp registry prior priorHash lengthScale log = .ok belief →
      ∃ belief', beliefOf exp registry prior priorHash lengthScale log' = .ok belief' ∧
        belief'.field = belief.field
  contracts : ∀ log belief, beliefOf exp registry prior priorHash lengthScale log = .ok belief →
    ∀ i j, belief.field.variance i j ≤ prior.variance i j
  shrinks : ∀ log belief more belief',
    beliefOf exp registry prior priorHash lengthScale log = .ok belief →
    belief.update exp registry more = .ok belief' →
      ∀ i j, belief'.field.variance i j ≤ belief.field.variance i j

variable {prior : Prior grid}

theorem beliefOf_eq (hexp : Decays exp) : beliefOf exp registry prior priorHash lengthScale log =
    BeliefField.new exp registry prior.mean prior.variance log lengthScale priorHash := by
  rw [beliefOf, BeliefField.fromPrior, new_bind_update hexp, List.nil_append]

/-- Posteriors do not depend on the order of the readings. -/
theorem post_perm {readings readings' : List (Plane grid × ℝ)} (h : readings'.Perm readings) :
    postMean priorMean priorVariance readings' = postMean priorMean priorVariance readings ∧
      postVariance priorVariance readings' = postVariance priorVariance readings := by
  have hvariance : postVariance priorVariance readings' = postVariance priorVariance readings := by
    funext i j
    rw [postVariance, postVariance, (h.map _).sum_eq]
  refine ⟨?_, hvariance⟩
  funext i j
  rw [postMean, postMean, hvariance, (h.map _).sum_eq]

/-- More readings do not raise a posterior variance. -/
theorem postVariance_append_le (hexp : Decays exp) (haccepted : Accepted priorVariance lengthScale)
    {readings readings' : List (Plane grid × ℝ)}
    (h : log.mapM (reading exp registry grid (resolveLengthScale grid lengthScale)) = .ok readings)
    (h' : more.mapM (reading exp registry grid (resolveLengthScale grid lengthScale)) =
      .ok readings') (i : Fin grid.nRows) (j : Fin grid.nCols) :
    postVariance priorVariance (readings ++ readings') i j ≤
      postVariance priorVariance readings i j := by
  rw [postVariance, postVariance, List.map_append, List.sum_append, ← add_assoc]
  exact one_div_le_one_div_of_le (postPrecision_pos hexp haccepted.variance_pos h i j)
    (le_add_of_nonneg_right (sum_readings_nonneg hexp h' i j))

/-- The readings of a longer log begin with those of the log. -/
theorem mapM_append_eq_ok {readings : List (Plane grid × ℝ)} {ls : ℝ} :
    (log ++ more).mapM (reading exp registry grid ls) = .ok readings ↔
      ∃ before after, log.mapM (reading exp registry grid ls) = .ok before ∧
        more.mapM (reading exp registry grid ls) = .ok after ∧ readings = before ++ after := by
  rw [List.mapM_append, bind_eq_ok]
  constructor
  · rintro ⟨before, hbefore, h⟩
    obtain ⟨after, hafter, h⟩ := bind_eq_ok.1 h
    exact ⟨before, after, hbefore, hafter, (Except.ok.inj h).symm⟩
  · rintro ⟨before, after, hbefore, hafter, rfl⟩
    exact ⟨before, hbefore, bind_eq_ok.2 ⟨after, hafter, rfl⟩⟩

/-- **Step.** An update does not raise a variance. -/
theorem update_shrinks (hexp : Decays exp) {belief belief' : BeliefField grid}
    (h : beliefOf exp registry prior priorHash lengthScale log = .ok belief)
    (h' : belief.update exp registry more = .ok belief') (i : Fin grid.nRows) (j : Fin grid.nCols) :
    belief'.field.variance i j ≤ belief.field.variance i j := by
  rw [beliefOf_eq hexp] at h
  have hlonger : BeliefField.new exp registry prior.mean prior.variance (log ++ more) lengthScale
      priorHash = .ok belief' := by
    rw [← new_bind_update hexp, h]
    exact h'
  obtain ⟨haccepted, readings, hread, hbelief⟩ := readings_of_new hexp h
  obtain ⟨-, readings', hread', hbelief'⟩ := readings_of_new hexp hlonger
  obtain ⟨before, after, hbefore, hafter, rfl⟩ := mapM_append_eq_ok.1 hread'
  obtain rfl := Except.ok.inj (hread.symm.trans hbefore)
  rw [hbelief.postVariance_eq, hbelief'.postVariance_eq]
  exact postVariance_append_le hexp haccepted hread hafter i j

/-- **Spec.** The laws of conditioning. -/
theorem conditioningLaws (hexp : Decays exp) (registry : Dict String (SensorLikelihood ℝ))
    (prior : Prior grid) (priorHash : String) (lengthScale : Option ℝ) :
    ConditioningLaws exp registry prior priorHash lengthScale where
  chunks chunks := by
    rw [beliefOf_eq hexp, BeliefField.fromPrior, foldlM_update hexp, List.nil_append]
  order log log' belief hperm h := by
    rw [beliefOf_eq hexp] at h ⊢
    obtain ⟨haccepted, readings, hread, hbelief⟩ := readings_of_new hexp h
    obtain ⟨readings', hread', hperm'⟩ := readings_perm hperm hread
    obtain ⟨belief', hnew, hbelief'⟩ := new_of_readings prior.mean priorHash hexp haccepted hread'
    obtain ⟨hmean, hvariance⟩ := post_perm hperm'
    refine ⟨belief', hnew, GridField.ext ?_ ?_⟩
    · rw [hbelief'.postMean_eq, hbelief.postMean_eq, hmean]
    · rw [hbelief'.postVariance_eq, hbelief.postVariance_eq, hvariance]
  contracts log belief h i j := by
    rw [beliefOf_eq hexp] at h
    obtain ⟨haccepted, readings, hread, hbelief⟩ := readings_of_new hexp h
    have hnil : ([] : List (FieldObservation ℝ)).mapM
        (reading exp registry grid (resolveLengthScale grid lengthScale)) = .ok [] := rfl
    have hshrink := postVariance_append_le hexp haccepted hnil hread i j
    obtain ⟨-, hprior⟩ := post_nil prior.mean haccepted.variance_pos
    rwa [List.nil_append, hprior, ← hbelief.postVariance_eq] at hshrink
  shrinks log belief more belief' h h' := update_shrinks hexp h h'

/-- **Main theorem.** For every prior, length scale and log, conditioning does not depend on how the
log is split nor on its order, and never raises a variance. Of a constant prior and untagged
observations with one noise it is what the grid backend builds with that noise squared. -/
theorem conditioning_laws (hexp : Decays exp) (registry : Dict String (SensorLikelihood ℝ))
    (prior : Prior grid) (priorHash : String) (lengthScale : Option ℝ) :
    ConditioningLaws exp registry prior priorHash lengthScale ∧
      (registry.get? "point_gaussian" = some (pointGaussian ℝ) →
        ∀ m v sigma log, prior.mean = (fun _ _ => m) → prior.variance = (fun _ _ => v) → 0 < v →
          0 < resolveLengthScale grid lengthScale → 0 < sigma → Untagged log sigma →
          ∃ belief, beliefOf exp registry prior priorHash lengthScale log = .ok belief ∧
            GridField.build exp grid (some (log.map FieldObservation.position))
              (some (log.map FieldObservation.value)) m v lengthScale (sigma ^ 2) =
                .ok belief.field) := by
  refine ⟨conditioningLaws hexp registry prior priorHash lengthScale, ?_⟩
  intro hdefault m v sigma log hmean hvariance hv hls hsigma huntagged
  have haccepted : Accepted prior.variance lengthScale :=
    ⟨fun i j => by rw [hvariance]; exact hv, hls⟩
  obtain ⟨belief, hnew, hbelief⟩ := new_of_readings prior.mean priorHash hexp haccepted
    (readings_untagged hexp hdefault hls huntagged)
  rw [beliefOf_eq hexp]
  refine ⟨belief, hnew, build_eq_ok hv (pow_pos hsigma 2) hls ?_ ?_ ?_⟩
  · rw [List.length_map, List.length_map]
  · rw [zip_training, hbelief.postMean_eq, hmean, hvariance, postMean_untagged]
  · rw [zip_training, hbelief.postVariance_eq, hvariance, postVariance_untagged]

end Beliefs

/-! ## Two cells -/

theorem decays_exp : Decays Real.exp := fun _ hx => ⟨Real.exp_pos _, Real.exp_le_one_iff.mpr hx⟩

/-- A grid of one row with two cells. -/
def twoCells : FieldGrid ℝ where
  minX := 0
  minY := 0
  maxX := 2
  maxY := 1
  nRows := 1
  nCols := 2
  rows_pos := Nat.one_pos
  cols_pos := Nat.two_pos
  extent_x := by norm_num
  extent_y := Real.zero_lt_one

/-- The prior N(1, 4) in each cell. -/
def flatPrior : Prior twoCells := ⟨fun _ _ => 1, fun _ _ => 4, fun _ _ => by norm_num⟩

/-- The registry of the default likelihood. -/
noncomputable def defaultRegistry : Dict String (SensorLikelihood ℝ) :=
  Dict.empty.set "point_gaussian" (pointGaussian ℝ)

/-- A reading of 3 with the noise 1/2 at the first cell. -/
noncomputable def oneReading : FieldObservation ℝ where
  xM := 1 / 2
  yM := 1 / 2
  zM := 0
  value := 3
  noiseSigma := 1 / 2
  timeS := 0
  sensor := none
  likelihood := none
  noiseSigma_pos := by norm_num

theorem conditioning_laws_oneReading :
    ConditioningLaws Real.exp defaultRegistry flatPrior "prior" (some 1) ∧
      ∃ belief, beliefOf Real.exp defaultRegistry flatPrior "prior" (some 1) [oneReading] =
          .ok belief ∧
        GridField.build Real.exp twoCells (some [oneReading.position]) (some [oneReading.value])
          1 4 (some 1) ((1 / 2) ^ 2) = .ok belief.field := by
  obtain ⟨hlaws, hgrid⟩ :=
    conditioning_laws decays_exp defaultRegistry flatPrior "prior" (some 1)
  refine ⟨hlaws, hgrid ?_ 1 4 (1 / 2) [oneReading] rfl rfl (by norm_num) one_pos (by norm_num)
    ⟨fun o ho => ?_, fun o ho => ?_⟩⟩
  · rw [defaultRegistry, Dict.get?_set, if_pos rfl]
  · rw [List.mem_singleton.mp ho]
    rfl
  · rw [List.mem_singleton.mp ho]
    rfl

end AstroMine.Prospect
