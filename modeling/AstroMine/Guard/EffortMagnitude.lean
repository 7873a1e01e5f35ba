import AstroMine.Guard.DirectiveGate
import AstroMine.Guard.GuardedMove
import AstroMine.Guard.HoldAnchor

/-!
# The authored acceleration limit (`rust/src/model.rs`, lines 168–183)

The limit is documented as the largest magnitude of a commanded acceleration. The shield and the
recover layer apply it to every axis, and a model without keep-out terms has no shield that would
apply it at all.

Results:
* `control_effort_box`: what the recover layer commands on the effort channel is in the box.
* `run_effort_magnitude`: over a run, every effort command is within the limit when the corner of
  the box is and no larger proposal is let through without a shield; both conditions are needed.
-/

namespace AstroMine.Guard

open Flt
open scoped Numerals

namespace Backup

/-- On the effort channel the recover layer commands a vector of the box. -/
theorem control_effort_box {b : Backup ℝ} {T : ℝ} (hT : b.dt = fin T)
    (hk : b.kBrake.isFinite = true) (hdim : b.spatialDim ≤ b.ctrlDim) {kind : BackupKind}
    {pos vel action : List (Flt ℝ)} {hold : Option (List (Flt ℝ))}
    (h : b.control kind .effort pos vel hold = .ok action) :
    ∃ a : List ℝ, action = a.map fin ∧ a.length ≤ b.ctrlDim ∧ ∀ x ∈ a, fin |x| ≤ b.uMax := by
  have hbrake {a : List (Flt ℝ)} (h : b.brake vel = .ok a) : ∃ r : List ℝ,
      a = r.map fin ∧ r.length ≤ b.ctrlDim ∧ ∀ x ∈ r, fin |x| ≤ b.uMax := by
    obtain ⟨r, hr, hlen, hbox⟩ := brake_box hk h
    exact ⟨r, hr, hlen.le, hbox⟩
  have hmove {g a : List (Flt ℝ)} (h : b.guardedMove g pos vel = .ok a) : ∃ r : List ℝ,
      a = r.map fin ∧ r.length ≤ b.ctrlDim ∧ ∀ x ∈ r, fin |x| ≤ b.uMax := by
    obtain h | ⟨_, _, _, u, -, -, -, rfl, hstep⟩ := guardedMove_step hT h
    · exact hbrake h
    · exact ⟨u, rfl, hstep.length.trans_le hdim, hstep.box⟩
  cases kind with
  | brakeToStop => exact hbrake h
  | hold =>
    cases hold with
    | none => exact hbrake h
    | some g => exact hmove h
  | safeState =>
    cases hpose : b.safePose with
    | none =>
      simp only [control, hpose] at h
      exact hbrake h
    | some g =>
      simp only [control, hpose] at h
      exact hmove h

end Backup

namespace SafetyCore

/-- The largest magnitude that an effort command may have: the authored limit, and the tolerance of
the shield on every axis of its certified commands. -/
noncomputable def effortLimit (model : CompiledSafetyModel ℝ) (cfg : CoreConfig ℝ) (A : ℝ) :
    Flt ℝ :=
  fin A + cfg.shield.tol * fin √(ctrlDimOf model)

/-- An effort command within the limit: a recover command meets it without a tolerance. -/
def EffortWithin (model : CompiledSafetyModel ℝ) (cfg : CoreConfig ℝ) (A : ℝ)
    (v : SafetyVerdict ℝ) : Prop :=
  v.certifiedMode = .effort → ∃ a : List ℝ, v.certifiedAction = a.map fin ∧
    (v.layer = .backup → euclid a ≤ A) ∧ fin (euclid a) ≤ effortLimit model cfg A

/-- The corner of the box of commands is within the limit. -/
def CornerFits (model : CompiledSafetyModel ℝ) (cfg : CoreConfig ℝ) (A : ℝ) : Prop :=
  ∀ u, accelCeiling model cfg = fin u → √(ctrlDimOf model) * u ≤ A

/-- No effort proposal beyond the limit reaches the gate of a model without keep-out terms. -/
def ProposalFits (model : CompiledSafetyModel ℝ) (cfg : CoreConfig ℝ) (A : ℝ)
    (before : SafetyCore ℝ) (t : Tick ℝ) : Prop :=
  model.keepOutTerms = [] → before.ReachesGate t →
    ∀ a : List ℝ, t.1.proposed = .effort (a.map fin) → fin (euclid a) ≤ effortLimit model cfg A

section Ceiling

variable {model : CompiledSafetyModel ℝ} {cfg : CoreConfig ℝ} {A u : ℝ}

/-- An authored limit makes the ceiling a number that is at most the limit. -/
theorem accelCeiling_authored (hA : model.actionLimits.maxAccelMps2 = some (fin A)) (hpos : 0 < A)
    (hcfg : 0 ≤ cfg.shield.uMax) : ∃ u, accelCeiling model cfg = fin u ∧ 0 ≤ u ∧ u ≤ A := by
  unfold accelCeiling tighten
  rw [hA]
  dsimp only
  rw [if_pos ⟨rfl, hpos⟩]
  cases hu : cfg.shield.uMax with
  | nan => exact (hu ▸ hcfg : (0 : Flt ℝ) ≤ nan).elim
  | negInf => exact (hu ▸ hcfg : (0 : Flt ℝ) ≤ negInf).elim
  | posInf => exact ⟨A, rfl, hpos.le, le_rfl⟩
  | fin x =>
    have hx : 0 ≤ x := (hu ▸ hcfg : (0 : Flt ℝ) ≤ fin x)
    exact ⟨min x A, min_fin x A, le_min hx hpos.le, min_le_right x A⟩

theorem sqrt_dim_pos (model : CompiledSafetyModel ℝ) : 0 < √(ctrlDimOf model : ℝ) := by
  have hdim : 0 < ctrlDimOf model := by
    unfold ctrlDimOf
    omega
  exact Real.sqrt_pos.mpr (Nat.cast_pos.mpr hdim)

theorem le_effortLimit {x : ℝ} (htol : 0 ≤ cfg.shield.tol) (hx : x ≤ A) :
    fin x ≤ effortLimit model cfg A :=
  le_add_of_le hx (mul_fin_nonneg htol (sqrt_dim_pos model))

/-- A vector of the box, widened by the tolerance, is within the limit when the corner is. -/
theorem within_of_box (htol : 0 ≤ cfg.shield.tol) (hu : 0 ≤ u)
    (hfits : √(ctrlDimOf model) * u ≤ A) {a : List ℝ} (hlen : a.length ≤ ctrlDimOf model)
    (hbox : ∀ x ∈ a, fin |x| ≤ fin u + cfg.shield.tol) :
    fin (euclid a) ≤ effortLimit model cfg A := by
  unfold effortLimit
  cases hcase : cfg.shield.tol with
  | nan => exact (hcase ▸ htol : (0 : Flt ℝ) ≤ nan).elim
  | negInf => exact (hcase ▸ htol : (0 : Flt ℝ) ≤ negInf).elim
  | posInf =>
    have hinf : (posInf : Flt ℝ) * fin √(ctrlDimOf model) = posInf :=
      if_pos (sqrt_dim_pos model)
    rw [hinf]
    trivial
  | fin r =>
    have hr : 0 ≤ r := (hcase ▸ htol : (0 : Flt ℝ) ≤ fin r)
    rw [hcase] at hbox
    rw [fin_mul, fin_add, fin_le_fin]
    calc euclid a ≤ √(ctrlDimOf model) * (u + r) := euclid_le_of_box hlen (add_nonneg hu hr) hbox
      _ = √(ctrlDimOf model) * u + r * √(ctrlDimOf model) := by ring
      _ ≤ A + r * √(ctrlDimOf model) := by linarith

end Ceiling

/-! ## Ticks -/

/-- The pose of an input that passes the checks is real. -/
theorem pose_of_passes {core : SafetyCore ℝ} {input : SafetyInput ℝ}
    (h : core.passes input false = true) (hdim : 0 < core.dim) :
    ∃ pose : List ℝ, input.position.take core.dim = pose.map fin ∧ pose.length = core.dim := by
  have hlen := position_length_of_passes h hdim
  unfold passes goodState at h
  simp only [Bool.and_eq_true, Bool.or_eq_true, decide_eq_true_eq] at h
  obtain ⟨⟨-, hzero | ⟨⟨-, hfin⟩, -⟩⟩, -⟩ := h
  · omega
  · obtain ⟨pose, hpose⟩ := exists_map_fin hfin
    refine ⟨pose, hpose, ?_⟩
    rw [← List.length_map (f := fin), ← hpose, List.length_take, min_eq_left hlen]

section Tick

variable {model : CompiledSafetyModel ℝ} {cfg : CoreConfig ℝ} {A u T : ℝ}
  {core core' : SafetyCore ℝ} {v : SafetyVerdict ℝ}

/-- A recover command is within the limit when the corner of the box is. -/
theorem recovered_within (hs : SameStatic (fromModel model cfg) core) (hcfg : cfg.Physical)
    (hperiod : model.samplePeriodS = fin T) (hT : 0 < T) (hu : accelCeiling model cfg = fin u)
    (hu0 : 0 ≤ u) (hfits : CornerFits model cfg A) {input : SafetyInput ℝ} {kind : BackupKind}
    (h : core.Recovered input kind core' v) : EffortWithin model cfg A v := by
  intro hmode
  have hcommand := h.command
  rw [hs.backup, hmode] at hcommand
  have hdt : (fromModel model cfg).backup.dt = fin T := by
    show soundDt model.samplePeriodS = fin T
    rw [hperiod]
    exact if_pos ⟨rfl, hT⟩
  obtain ⟨a, ha, hlen, hbox⟩ :=
    Backup.control_effort_box hdt hcfg.kBrake (le_max_left _ _) hcommand
  have hnorm : euclid a ≤ A := by
    refine (euclid_le_of_box hlen hu0 fun x hx => ?_).trans (hfits u hu)
    have hx := hbox x hx
    rw [show (fromModel model cfg).backup.uMax = fin u from hu] at hx
    exact hx
  exact ⟨a, ha, fun _ => hnorm, le_effortLimit hcfg.tol hnorm⟩

/-- A certified command is within the limit when the corner of the box is. -/
theorem certified_within {d : ℕ} (h : Deployed model cfg d T core)
    (hu : accelCeiling model cfg = fin u) (hu0 : 0 ≤ u) (hfits : CornerFits model cfg A)
    {input : SafetyInput ℝ} (hpass : core.passes input false = true) {shield : Shield ℝ}
    (hshield : core.shield = some shield) {out : ShieldOutcome ℝ}
    (hsolve : shield.solveMode .effort input.position input.velocity input.proposed.setpoint =
      .ok out) (hcert : out.certified = true) :
    ∃ a : List ℝ, out.action = a.map fin ∧ fin (euclid a) ≤ effortLimit model cfg A := by
  have hdim : core.dim = d := by
    rw [h.static.dim]
    show model.spatialDim.getD 0 = d
    rw [h.spatialDim]
    rfl
  obtain ⟨pose, hpose, hlen⟩ := pose_of_passes hpass (hdim ▸ h.dim_pos)
  rw [hdim] at hpose hlen
  rw [h.shield] at hshield
  cases hshield
  obtain ⟨a, ha, hal, hset, -⟩ := Shield.solveMode_certified rfl h.period_pos
    (tighten_nonneg _ h.physical.uMax) (tighten_nonneg _ h.physical.vMax) (by
      show 0 ≤ speedCeiling model cfg * soundDt (fin T)
      rw [soundDt, if_pos ⟨rfl, h.period_pos⟩]
      exact h.speedStep_nonneg) h.physical.tol hpose hlen hsolve hcert
  refine ⟨a, ha, within_of_box h.physical.tol hu0 (hfits u hu) ?_ ?_⟩
  · rw [hal, ctrlDimOf, h.spatialDim]
    exact le_max_left _ _
  · rw [← hu]
    exact hset

/-- Without a shield the model has no keep-out terms. -/
theorem keepOuts_nil_of_unshielded (hvalid : model.Valid)
    (hs : SameStatic (fromModel model cfg) core) : core.shield = none ↔ model.keepOutTerms = [] := by
  rw [hs.shield]
  unfold fromModel
  dsimp only
  split_ifs with hspatial
  · refine iff_of_false (by simp) fun hnil => hspatial.2 ?_
    rw [hnil, List.length_nil]
  · refine iff_of_true rfl ?_
    by_contra hne
    obtain ⟨term, hterm⟩ := List.exists_mem_of_ne_nil _ hne
    obtain ⟨d, -, hd⟩ := hvalid.keepOutTerms term hterm
    refine hspatial ⟨?_, fun hlen => hne (List.length_eq_zero_iff.mp hlen)⟩
    rw [hd]
    exact (hvalid.spatialDim d hd).1

/-- A numeric proposal that passes the checks is real. -/
theorem setpoint_of_passes {core : SafetyCore ℝ} {input : SafetyInput ℝ}
    (h : core.passes input false = true) {mode : ControlMode}
    (hmode : input.proposed.controlMode = some mode) :
    ∃ a : List ℝ, input.proposed.setpoint = a.map fin := by
  unfold passes goodCommand at h
  simp only [Bool.and_eq_true, Bool.or_eq_true, hmode, Option.isNone_some, Bool.false_eq_true,
    false_or] at h
  exact exists_map_fin h.2.2

/-- **Step.** A tick of a run commands an effort within the limit when the corner and the proposal
fit. -/
theorem tick_within {t : Tick ℝ} (hvalid : model.Valid) (hcfg : cfg.Physical)
    (hA : model.actionLimits.maxAccelMps2 = some (fin A)) (hpos : 0 < A)
    {ticks : List (Tick ℝ)} {vs : List (SafetyVerdict ℝ)}
    (hrun : (fromModel model cfg).run ticks = .ok (core, vs))
    (htick : core.tick t = .ok (core', v)) (hcorner : CornerFits model cfg A)
    (hproposal : ProposalFits model cfg A core t) : EffortWithin model cfg A v := by
  obtain ⟨u, hu, hu0, -⟩ := accelCeiling_authored hA hpos hcfg.uMax
  obtain ⟨T, hT, hperiod⟩ := hvalid.samplePeriodS
  have hs := run_static hrun
  obtain ⟨kind, hrec, -⟩ | ⟨hidle, hdec, hlayer, -, -⟩ := tick_verdict htick
  · exact recovered_within hs hcfg hperiod hT hu hu0 hcorner hrec
  · intro hmode
    cases hdec with
    | badInput hbad h => exact absurd (emitBackup_recovered h).1.layer hlayer
    | scalar hpass hdet h => exact absurd (emitBackup_recovered h).1.layer hlayer
    | monitor hpass hdet h => exact absurd (emitBackup_recovered h).1.layer hlayer
    | refused hpass hdet hnone hadmits h => exact absurd (emitBackup_recovered h).1.layer hlayer
    | uncertifiable hpass hdet hm hshield hsolve hcert h =>
      exact absurd (emitBackup_recovered h).1.layer hlayer
    | admitted =>
      have hzero : euclid [] ≤ A := (euclid_of_forall_zero (by simp)).trans_le hpos.le
      exact ⟨[], rfl, fun _ => hzero, le_effortLimit hcfg.tol hzero⟩
    | unshielded hpass hdet hm hshield =>
      obtain ⟨a, ha⟩ := setpoint_of_passes hpass hm
      refine ⟨a, ha, fun hbackup => absurd hbackup hlayer, ?_⟩
      refine hproposal ((keepOuts_nil_of_unshielded hvalid hs).1 hshield)
        ⟨hidle, hpass, _, _, hdet.predicates, hdet.monitors, hdet.scalars⟩ a ?_
      cases hp : t.1.proposed <;> rw [hp] at hm ha <;> cases hm
      · exact congrArg _ ha
      all_goals cases hmode
    | certified hpass hdet hm hshield hsolve hcert =>
      have hterms : model.keepOutTerms ≠ [] := fun hnil => by
        rw [(keepOuts_nil_of_unshielded hvalid hs).2 hnil] at hshield
        cases hshield
      obtain ⟨term, hterm⟩ := List.exists_mem_of_ne_nil _ hterms
      obtain ⟨d, -, hd⟩ := hvalid.keepOutTerms term hterm
      obtain rfl : _ = ControlMode.effort := hmode
      obtain ⟨a, ha, hle⟩ := certified_within (.of_run hvalid hcfg hterms hperiod hT hd hrun) hu
        hu0 hcorner hpass hshield hsolve hcert
      exact ⟨a, ha, fun hbackup => absurd hbackup hlayer, hle⟩

/-- **Step.** Where there is no shield, a tick within the limit has let through a proposal that
fits. -/
theorem proposalFits_of_within {t : Tick ℝ} (hvalid : model.Valid)
    (hs : SameStatic (fromModel model cfg) core) (htick : core.tick t = .ok (core', v))
    (hwithin : EffortWithin model cfg A v) : ProposalFits model cfg A core t := by
  intro hnil hgate a ha
  have hshield := (keepOuts_nil_of_unshielded hvalid hs).2 hnil
  have hmode : t.1.proposed.controlMode = some .effort := by
    rw [ha]
    rfl
  have hadmits : core.Admits t.1 := by
    unfold Admits
    rw [hmode]
    rintro shield hsome
    rw [hshield] at hsome
    cases hsome
  have hanswers := (tick_answers htick).1
  obtain ⟨kind, hrec, -⟩ | ⟨-, hdec, hlayer, -, -⟩ := tick_verdict htick
  · exact absurd ⟨hgate.1, hgate.2.1, hgate.2.2, hadmits⟩ (hanswers.1 hrec.intervention)
  · cases hdec with
    | badInput hbad h => exact absurd (emitBackup_recovered h).1.layer hlayer
    | scalar hpass hdet h => exact absurd (emitBackup_recovered h).1.layer hlayer
    | monitor hpass hdet h => exact absurd (emitBackup_recovered h).1.layer hlayer
    | refused hpass hdet hnone hadmits h => exact absurd (emitBackup_recovered h).1.layer hlayer
    | uncertifiable hpass hdet hm hshield hsolve hcert h =>
      exact absurd (emitBackup_recovered h).1.layer hlayer
    | admitted hpass hdet hnone =>
      rw [hmode] at hnone
      cases hnone
    | unshielded hpass hdet hm =>
      rw [hmode] at hm
      cases hm
      obtain ⟨b, hb, -, hle⟩ := hwithin rfl
      have hab : a.map fin = b.map fin := by
        rw [← hb, ha]
        rfl
      rw [map_fin_injective hab]
      exact hle
    | certified hpass hdet hm hsome =>
      rw [hshield] at hsome
      cases hsome

/-- A forced brake reaches the corner of the box. -/
theorem corner_of_within {k : ℝ} (hk : cfg.kBrake = fin k) (hk0 : k ≠ 0)
    (hnonneg : 0 ≤ accelCeiling model cfg)
    (h : ∀ (ticks : List (Tick ℝ)) (core : SafetyCore ℝ) (vs : List (SafetyVerdict ℝ)),
      (fromModel model cfg).run ticks = .ok (core, vs) → ∀ v ∈ vs, EffortWithin model cfg A v) :
    CornerFits model cfg A := by
  intro u hu
  have hu0 : 0 ≤ u := by
    rw [hu] at hnonneg
    exact hnonneg
  have hfit : fin |k * (-u / k)| ≤ (fromModel model cfg).backup.uMax := by
    rw [show (fromModel model cfg).backup.uMax = fin u from hu, mul_div_cancel₀ _ hk0, abs_neg,
      abs_of_nonneg hu0]
    exact le_refl u
  have hvel : ((List.replicate (ctrlDimOf model) (-u / k)).map fin).take (ctrlDimOf model) =
      (List.replicate (ctrlDimOf model) (-u / k)).map fin :=
    List.take_of_length_le (by rw [List.length_map, List.length_replicate])
  have hbrake := Backup.brake_replicate (b := (fromModel model cfg).backup) hk hfit hvel
  obtain ⟨core, v, hrun, hv, ha⟩ := run_forced hbrake
  obtain ⟨a, hav, hbackup, -⟩ := h _ _ _ hrun v (by simp) hv.2
  have hcorner : a = List.replicate (ctrlDimOf model) u := by
    apply map_fin_injective
    rw [← hav, ha, neg_mul, mul_div_cancel₀ _ hk0, neg_neg]
    rfl
  have hlayer : v.layer = .backup := by
    obtain ⟨t, before, after, -, -, htick, -⟩ := run_at hrun (i := 0) rfl
    obtain ⟨kind, hrec, -⟩ | ⟨-, -, -, hnone, -⟩ := tick_verdict htick
    · exact hrec.layer
    · rw [hv.1] at hnone
      cases hnone
  have hle := hbackup hlayer
  rw [hcorner, euclid_replicate, abs_of_nonneg hu0] at hle
  exact hle

end Tick

/-! ## Runs -/

/-- **Main theorem.** For an accepted model with an authored limit: when the corner of the box fits,
a tick of a run commands an effort within the limit exactly when the proposal that it lets through
without a shield does; and a brake with a gain reaches the corner. -/
theorem run_effort_magnitude {p : Proto.CompiledSafetyModel ℝ} {cfg : CoreConfig ℝ}
    {model : CompiledSafetyModel ℝ} {A : ℝ}
    (hmodel : CompiledSafetyModel.fromProto p cfg.maxHistoryCap = .ok model)
    (hcfg : cfg.Physical) (hA : model.actionLimits.maxAccelMps2 = some (fin A)) :
    (CornerFits model cfg A →
      ∀ (ticks : List (Tick ℝ)) (core : SafetyCore ℝ) (vs : List (SafetyVerdict ℝ)),
        (fromModel model cfg).run ticks = .ok (core, vs) →
        ∀ (i : ℕ) (v : SafetyVerdict ℝ), vs[i]? = some v → ∃ t before, ticks[i]? = some t ∧
          (fromModel model cfg).run (ticks.take i) = .ok (before, vs.take i) ∧
          (EffortWithin model cfg A v ↔ ProposalFits model cfg A before t)) ∧
    (cfg.kBrake ≠ 0 →
      (∀ (ticks : List (Tick ℝ)) (core : SafetyCore ℝ) (vs : List (SafetyVerdict ℝ)),
        (fromModel model cfg).run ticks = .ok (core, vs) → ∀ v ∈ vs, EffortWithin model cfg A v) →
      CornerFits model cfg A) := by
  have hvalid := CompiledSafetyModel.fromProto_valid hmodel
  obtain ⟨B, hpos, hB⟩ := hvalid.limits _ (.inr hA)
  obtain rfl : A = B := by injection hB
  constructor
  · intro hcorner ticks core vs hrun i v hv
    obtain ⟨t, before, after, ht, hbefore, htick, -⟩ := run_at hrun hv
    exact ⟨t, before, ht, hbefore, proposalFits_of_within hvalid (run_static hbefore) htick,
      tick_within hvalid hcfg hA hpos hbefore htick hcorner⟩
  · intro hk hall
    obtain ⟨k, hkB⟩ := isFinite_iff.1 hcfg.kBrake
    refine corner_of_within hkB (fun hzero => hk ?_) (tighten_nonneg _ hcfg.uMax) hall
    rw [hkB, hzero]
    rfl

/-- A model without signals that limits the acceleration to 5, with these keep-out terms. -/
noncomputable def limitedProto (terms : List (Proto.KeepOutTerm ℝ)) :
    Proto.CompiledSafetyModel ℝ where
  compiledVersion := "0.1"
  specId := "limited"
  specContentHash := "sha256:0"
  samplePeriodS := .fin 1
  predicateTable := some { signals := [], atoms := [] }
  scalarBounds := []
  keepOutTerms := terms
  monitors := []
  resourceBounds := none
  safePose := none
  actionLimits := some { maxVelocityMps := none, maxAccelMps2 := some (.fin 5) }
  admissibleDirectives := none

/-- A half-plane. -/
noncomputable def planeTerm : Proto.KeepOutTerm ℝ where
  constraintId := "edge"
  onUncertain := "fallback"
  shape := "half_space"
  marginM := .fin 0
  center := []
  halfExtents := []
  radius := none
  normal := [.fin 1, .fin 0]
  offset := some (.fin 10)
  frameRef := none

/-- The decoded form of `limitedProto []`. -/
noncomputable def limitedModel : CompiledSafetyModel ℝ where
  compiledVersion := "0.1"
  specId := "limited"
  specContentHash := "sha256:0"
  samplePeriodS := .fin 1
  signals := []
  atoms := []
  scalarBounds := []
  keepOutTerms := []
  monitors := []
  resourceBounds := ⟨0, 0, 0, 0, 0, 0⟩
  actionLimits := { maxAccelMps2 := some (.fin 5) }
  spatialDim := none
  safePose := none
  admissibleDirectives := none

theorem limited_fromProto (terms : List (Proto.KeepOutTerm ℝ))
    (hterms : terms = [] ∨ terms = [planeTerm]) (cap : ℕ) :
    ∃ model, CompiledSafetyModel.fromProto (limitedProto terms) cap = .ok model ∧
      model.actionLimits.maxAccelMps2 = some (fin 5) ∧
      if terms = [] then model = limitedModel
      else model.keepOutTerms ≠ [] ∧ ctrlDimOf model = 2 := by
  have hperiod : (limitedProto terms).samplePeriodS.isFinite = true ∧
      0 < (limitedProto terms).samplePeriodS := ⟨rfl, (zero_lt_one : (0 : ℝ) < 1)⟩
  have hlimit : decodeLimits (limitedProto terms).actionLimits =
      .ok { maxAccelMps2 := some (fin 5) } := by
    have hcheck : checkLimit (some (fin (5 : ℝ))) "max_accel_mps2" = .ok (some (fin 5)) :=
      bind_eq_ok.2 ⟨(), ensure_eq_ok.2 ⟨rfl, (by norm_num : (0 : ℝ) < 5)⟩, rfl⟩
    exact bind_eq_ok.2 ⟨none, rfl, bind_eq_ok.2 ⟨_, hcheck, rfl⟩⟩
  unfold CompiledSafetyModel.fromProto ensure
  rw [if_pos hperiod, hlimit]
  obtain rfl | rfl := hterms
  · exact ⟨_, rfl, rfl, rfl⟩
  · exact ⟨_, rfl, rfl, by rintro ⟨⟩, rfl⟩

theorem default_physical : (CoreConfig.default : CoreConfig ℝ).Physical where
  uMax := (by norm_num : (0 : ℝ) ≤ 20)
  vMax := (by norm_num : (0 : ℝ) ≤ 2)
  tol := (by norm_num : (0 : ℝ) ≤ 1 / 10 ^ 7)
  kBrake := rfl

theorem accelCeiling_limited {model : CompiledSafetyModel ℝ}
    (hA : model.actionLimits.maxAccelMps2 = some (fin 5)) :
    accelCeiling model CoreConfig.default = fin 5 := by
  unfold accelCeiling tighten
  rw [hA]
  dsimp only
  rw [if_pos ⟨rfl, (by norm_num : (0 : ℝ) < 5)⟩]
  show Flt.min (fin 20) (fin 5) = fin 5
  rw [min_fin]
  norm_num

theorem run_effort_magnitude_limited :
    ∃ model, CompiledSafetyModel.fromProto (limitedProto [])
        (CoreConfig.default : CoreConfig ℝ).maxHistoryCap = .ok model ∧
      CornerFits model .default 5 ∧
      ∀ (ticks : List (Tick ℝ)) (core : SafetyCore ℝ) (vs : List (SafetyVerdict ℝ)),
        (fromModel model .default).run ticks = .ok (core, vs) →
        ∀ (i : ℕ) (v : SafetyVerdict ℝ), vs[i]? = some v → ∃ t before, ticks[i]? = some t ∧
          (EffortWithin model .default 5 v ↔ ProposalFits model .default 5 before t) := by
  obtain ⟨model, hmodel, hA, hlimited⟩ := limited_fromProto [] (.inl rfl)
    (CoreConfig.default : CoreConfig ℝ).maxHistoryCap
  rw [if_pos rfl] at hlimited
  have hdim : ctrlDimOf model = 1 := by
    rw [hlimited]
    rfl
  have hcorner : CornerFits model .default 5 := by
    intro u hu
    rw [accelCeiling_limited hA] at hu
    injection hu with hu
    rw [← hu, hdim, Nat.cast_one, Real.sqrt_one, one_mul]
  refine ⟨model, hmodel, hcorner, fun ticks core vs hrun i v hv => ?_⟩
  obtain ⟨t, before, ht, -, hiff⟩ :=
    (run_effort_magnitude hmodel default_physical hA).1 hcorner ticks core vs hrun i v hv
  exact ⟨t, before, ht, hiff⟩

/-- A tick that proposes twice the limit. -/
def hardTick : Tick ℝ :=
  ({ signals := [], position := [], velocity := [], proposed := .effort [.fin 10] }, .idle)

theorem limited_tick : ∃ core v, (fromModel limitedModel .default).run [hardTick] = .ok (core, [v]) ∧
    v.certifiedAction = [fin 10] ∧ v.certifiedMode = .effort :=
  ⟨_, _, rfl, rfl, rfl⟩

/-- **Counterexample.** In the plane a brake at the corner of the box has √2 times the limit, and
without keep-out terms a proposal of twice the limit is certified. -/
theorem effort_not_always_within :
    (¬ ∀ (p : Proto.CompiledSafetyModel ℝ) (cfg : CoreConfig ℝ) (model : CompiledSafetyModel ℝ)
      (A : ℝ), cfg.Physical → CompiledSafetyModel.fromProto p cfg.maxHistoryCap = .ok model →
      model.actionLimits.maxAccelMps2 = some (fin A) → model.keepOutTerms ≠ [] →
      ∀ (ticks : List (Tick ℝ)) (core : SafetyCore ℝ) (vs : List (SafetyVerdict ℝ)),
        (fromModel model cfg).run ticks = .ok (core, vs) → ∀ v ∈ vs, EffortWithin model cfg A v) ∧
    ¬ ∀ (p : Proto.CompiledSafetyModel ℝ) (cfg : CoreConfig ℝ) (model : CompiledSafetyModel ℝ)
      (A : ℝ), cfg.Physical → CompiledSafetyModel.fromProto p cfg.maxHistoryCap = .ok model →
      model.actionLimits.maxAccelMps2 = some (fin A) → model.keepOutTerms = [] →
      ∀ (ticks : List (Tick ℝ)) (core : SafetyCore ℝ) (vs : List (SafetyVerdict ℝ)),
        (fromModel model cfg).run ticks = .ok (core, vs) → ∀ v ∈ vs, EffortWithin model cfg A v := by
  constructor
  · intro hclaim
    obtain ⟨model, hmodel, hA, hplane⟩ := limited_fromProto [planeTerm] (.inr rfl)
      (CoreConfig.default : CoreConfig ℝ).maxHistoryCap
    rw [if_neg (by simp)] at hplane
    obtain ⟨hterms, hdim⟩ := hplane
    have hceiling := accelCeiling_limited hA
    have hcorner := corner_of_within (k := 4) rfl (by norm_num)
      (by rw [hceiling]; exact (by norm_num : (0 : ℝ) ≤ 5))
      (hclaim _ _ model 5 default_physical hmodel hA hterms)
    have hle := hcorner 5 hceiling
    rw [hdim, Nat.cast_ofNat] at hle
    have hsqrt : (1 : ℝ) < √2 := (Real.lt_sqrt zero_le_one).mpr (by norm_num)
    linarith
  · intro hclaim
    obtain ⟨core, v, hrun, haction, hmode⟩ := limited_tick
    obtain ⟨model, hmodel, hA, hlimited⟩ := limited_fromProto [] (.inl rfl)
      (CoreConfig.default : CoreConfig ℝ).maxHistoryCap
    rw [if_pos rfl] at hlimited
    subst hlimited
    obtain ⟨a, ha, -, hle⟩ := hclaim _ _ limitedModel 5 default_physical hmodel hA rfl _ core [v]
      hrun v (by simp) hmode
    obtain rfl : [10] = a := map_fin_injective (haction.symm.trans ha)
    have hbound : √(ctrlDimOf limitedModel : ℝ) = 1 := by
      show √(((1 : ℕ) : ℝ)) = 1
      rw [Nat.cast_one, Real.sqrt_one]
    have hle : euclid [10] ≤ 5 + 1 / 10 ^ 7 * √(ctrlDimOf limitedModel) := hle
    have hten : euclid [10] = 10 := by
      have h := euclid_replicate 1 10
      rw [Nat.cast_one, Real.sqrt_one, one_mul, abs_of_pos (by norm_num)] at h
      exact h
    rw [hbound, hten] at hle
    norm_num at hle

end SafetyCore

end AstroMine.Guard
