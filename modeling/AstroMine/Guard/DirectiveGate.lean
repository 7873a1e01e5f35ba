import AstroMine.Guard.Verdicts
import Mathlib.Data.Set.Basic

/-!
# The directive gate (`rust/src/arbiter.rs`, lines 149–187 and 524–545)

A directive carries nothing that the shield could project: it is certified only by being named,
both by the grant of the reviewed model and by the configuration. What a policy allows is a set of
directives, and narrowing is the intersection of two such sets.

Results:
* `allowed_narrowedTo`: narrowing intersects what is allowed with what is granted.
* `run_directive_gate`: over a run, a directive passes as certified exactly when it is granted and
  configured and no layer before the gate answers; an opaque action never does; and no run and no
  narrowing allows more.
-/

namespace AstroMine.Guard

/-- A discrete directive: a mode or a task kind. -/
inductive Directive where
  | mode (name : String)
  | task (kind : String)
  deriving DecidableEq

/-- The proposal that carries the directive. -/
def Directive.proposal {K : Type} : Directive → ProposedAction K
  | mode name => .mode name
  | task kind => .task kind

/-- The names that a list of modes and a list of tasks give to directives. -/
def directives (modes tasks : List String) : Set Directive :=
  {d | match d with
    | .mode name => name ∈ modes
    | .task kind => kind ∈ tasks}

@[simp]
theorem mode_mem_directives {modes tasks : List String} {name : String} :
    .mode name ∈ directives modes tasks ↔ name ∈ modes := Iff.rfl

@[simp]
theorem task_mem_directives {modes tasks : List String} {kind : String} :
    .task kind ∈ directives modes tasks ↔ kind ∈ tasks := Iff.rfl

/-- The directives that a policy allows. -/
def ActionPolicy.allowed (policy : ActionPolicy) : Set Directive :=
  directives policy.certifiedModes policy.certifiedTasks

/-- The directives that a grant names; without a grant there is none. -/
def granted : Option AdmissibleDirectives → Set Directive
  | none => ∅
  | some grant => directives grant.modes grant.tasks

/-- The directives that the grant of a wire model names. -/
def Proto.CompiledSafetyModel.granted {K : Type} (p : Proto.CompiledSafetyModel K) :
    Set Directive :=
  Guard.granted (p.admissibleDirectives.map fun ad => { modes := ad.modes, tasks := ad.tasks })

theorem mem_narrow {configured : List String} {authored : Option (List String)} {name : String} :
    name ∈ narrow configured authored ↔
      name ∈ configured ∧ ∃ grant, authored = some grant ∧ name ∈ grant := by
  cases authored with
  | none => simp [narrow]
  | some grant => simp [narrow]

/-- Narrowing intersects what is allowed with what is granted. -/
theorem allowed_narrowedTo (policy : ActionPolicy) (authored : Option AdmissibleDirectives) :
    (policy.narrowedTo authored).allowed = policy.allowed ∩ granted authored := by
  ext d
  cases authored with
  | none => cases d <;> simp [ActionPolicy.allowed, ActionPolicy.narrowedTo, granted, mem_narrow]
  | some grant =>
    cases d <;> simp [ActionPolicy.allowed, ActionPolicy.narrowedTo, granted, mem_narrow]

/-- No sequence of narrowings allows more. -/
theorem allowed_foldl_narrowedTo (grants : List (Option AdmissibleDirectives))
    (policy : ActionPolicy) :
    (grants.foldl ActionPolicy.narrowedTo policy).allowed ⊆ policy.allowed := by
  induction grants generalizing policy with
  | nil => exact subset_rfl
  | cons grant grants ih =>
    refine (ih _).trans ?_
    rw [allowed_narrowedTo]
    exact Set.inter_subset_left

theorem admits_proposal {K : Type} (policy : ActionPolicy) (d : Directive) :
    policy.admits (d.proposal (K := K)) = true ↔ d ∈ policy.allowed := by
  cases d <;> simp [Directive.proposal, ActionPolicy.admits, ActionPolicy.allowed]

variable {K : Type} [Field K] [LinearOrder K] [HasSqrt K]

/-- The verdict re-emits the proposal untouched, as certified. -/
structure PassedAsCertified (v : SafetyVerdict K) : Prop where
  layer : v.layer = .primary
  intervention : v.intervention = .none
  reason : v.reason = .certified
  noBackup : v.backupKind = none

theorem decodeDirectives_eq {ad : Option Proto.CompiledAdmissibleDirectives}
    {r : Option AdmissibleDirectives} (h : decodeDirectives ad = .ok r) :
    r = ad.map fun ad => { modes := ad.modes, tasks := ad.tasks } := by
  cases ad with
  | none =>
    cases h
    rfl
  | some ad =>
    simp only [decodeDirectives, bind_eq_ok] at h
    obtain ⟨-, -, h⟩ := h
    cases h
    rfl

omit [HasSqrt K] in
theorem fromProto_granted {p : Proto.CompiledSafetyModel K} {cap : ℕ} {m : CompiledSafetyModel K}
    (h : CompiledSafetyModel.fromProto p cap = .ok m) :
    granted m.admissibleDirectives = p.granted := by
  simp only [CompiledSafetyModel.fromProto, bind_eq_ok] at h
  obtain ⟨-, -, table, -, atoms, -, bounds, -, terms, -, dim, -, monitors, -, pose, -, limits, -,
    directives, hdirectives, rb, -, h⟩ := h
  cases h
  rw [decodeDirectives_eq hdirectives]
  rfl

namespace SafetyCore

/-- No layer before the gate answers the tick: the watchdog, the input checks, the scalar bounds and
the monitors. -/
def ReachesGate (core : SafetyCore K) (t : Tick K) : Prop :=
  t.2 = .idle ∧ core.passes t.1 false = true ∧ core.Clear t.1.signals

/-- A proposal without a setpoint is let through in one way only: it is re-emitted untouched. -/
theorem Decided.eq_admitted {core core' : SafetyCore K} {input : SafetyInput K}
    {v : SafetyVerdict K} (h : core.Decided input core' v) (hlayer : v.layer ≠ .backup)
    (hmode : input.proposed.controlMode = none) :
    v = certifiedVerdict [] core.cfg.actionPolicy.fallbackMode false .posInf := by
  cases h with
  | admitted => rfl
  | unshielded hpass hdet hmode' =>
    rw [hmode] at hmode'
    cases hmode'
  | certified hpass hdet hmode' =>
    rw [hmode] at hmode'
    cases hmode'
  | badInput hbad h => exact absurd (emitBackup_recovered h).1.layer hlayer
  | scalar hpass hdet h => exact absurd (emitBackup_recovered h).1.layer hlayer
  | monitor hpass hdet h => exact absurd (emitBackup_recovered h).1.layer hlayer
  | refused hpass hdet hmode' hadmits h => exact absurd (emitBackup_recovered h).1.layer hlayer
  | uncertifiable hpass hdet hmode' =>
    rw [hmode] at hmode'
    cases hmode'

/-- **Step.** A directive passes as certified exactly when it reaches the gate and is allowed. -/
theorem tick_directive {core core' : SafetyCore K} {t : Tick K} {v : SafetyVerdict K}
    (h : core.tick t = .ok (core', v)) {d : Directive} (hd : t.1.proposed = d.proposal) :
    PassedAsCertified v ↔ core.ReachesGate t ∧ d ∈ core.cfg.actionPolicy.allowed := by
  have hmode : t.1.proposed.controlMode = none := by
    rw [hd]
    cases d <;> rfl
  have hanswers := (tick_answers h).1
  unfold Admits at hanswers
  rw [hmode] at hanswers
  dsimp only at hanswers
  rw [hd, admits_proposal] at hanswers
  have hgate : core.ReachesGate t ∧ d ∈ core.cfg.actionPolicy.allowed ↔
      v.intervention ≠ .fallback := by
    rw [Ne, hanswers, not_not]
    unfold ReachesGate
    rw [and_assoc, and_assoc]
  rw [hgate]
  obtain ⟨kind, hrec, -⟩ | ⟨-, hdec, hlayer, -, -⟩ := tick_verdict h
  · refine iff_of_false (fun hpass => ?_) fun hne => hne hrec.intervention
    exact absurd (hpass.layer.symm.trans hrec.layer) (by simp)
  · obtain rfl := hdec.eq_admitted hlayer hmode
    exact iff_of_true ⟨rfl, rfl, rfl, rfl⟩ (by simp [certifiedVerdict])

/-- **Step.** An opaque action is answered by the recover layer. -/
theorem tick_opaque {core core' : SafetyCore K} {t : Tick K} {v : SafetyVerdict K}
    (h : core.tick t = .ok (core', v)) (hcommand : t.1.proposed = .opaqueCommand) :
    v.layer = .backup := by
  obtain ⟨kind, hrec, -⟩ | ⟨hidle, hdec, hlayer, -, -⟩ := tick_verdict h
  · exact hrec.layer
  · have hmode : t.1.proposed.controlMode = none := by rw [hcommand]; rfl
    obtain rfl := hdec.eq_admitted hlayer hmode
    have hanswers := (tick_answers h).1
    unfold Admits at hanswers
    rw [hmode, hcommand] at hanswers
    simp [certifiedVerdict, ActionPolicy.admits] at hanswers

/-- The gate's law for a tick: a directive passes as certified exactly when the wire model grants
it, the configuration allows it and no layer before the gate answers; an opaque action never does. -/
structure GateLaw (p : Proto.CompiledSafetyModel K) (cfg : CoreConfig K) (before : SafetyCore K)
    (t : Tick K) (v : SafetyVerdict K) : Prop where
  directive : ∀ d : Directive, t.1.proposed = d.proposal →
    (PassedAsCertified v ↔ d ∈ p.granted ∧ d ∈ cfg.actionPolicy.allowed ∧ before.ReachesGate t)
  opaqueCommand : t.1.proposed = .opaqueCommand → v.layer = .backup

/-- **Main theorem.** The gate's law holds at every tick of every run of a core that is built from
an accepted model, and no run followed by any narrowings allows a directive that the model does
not grant or the configuration does not allow. -/
theorem run_directive_gate {p : Proto.CompiledSafetyModel K} {cfg : CoreConfig K}
    {model : CompiledSafetyModel K}
    (hmodel : CompiledSafetyModel.fromProto p cfg.maxHistoryCap = .ok model)
    {ticks : List (Tick K)} {core : SafetyCore K} {vs : List (SafetyVerdict K)}
    (h : (fromModel model cfg).run ticks = .ok (core, vs)) :
    (∀ i v, vs[i]? = some v → ∃ t before, ticks[i]? = some t ∧
        (fromModel model cfg).run (ticks.take i) = .ok (before, vs.take i) ∧
        GateLaw p cfg before t v) ∧
      ∀ grants : List (Option AdmissibleDirectives),
        (grants.foldl ActionPolicy.narrowedTo core.cfg.actionPolicy).allowed ⊆
          p.granted ∩ cfg.actionPolicy.allowed := by
  have hallowed : (fromModel model cfg).cfg.actionPolicy.allowed =
      cfg.actionPolicy.allowed ∩ p.granted := by
    rw [← fromProto_granted hmodel]
    exact allowed_narrowedTo cfg.actionPolicy model.admissibleDirectives
  constructor
  · intro i v hv
    obtain ⟨t, before, after, ht, hbefore, htick, -⟩ := run_at h hv
    refine ⟨t, before, ht, hbefore, fun d hd => ?_, tick_opaque htick⟩
    rw [tick_directive htick hd, (run_static hbefore).cfg, hallowed]
    constructor
    · rintro ⟨hgate, hcfg, hgrant⟩
      exact ⟨hgrant, hcfg, hgate⟩
    · rintro ⟨hgrant, hcfg, hgate⟩
      exact ⟨hgate, hcfg, hgrant⟩
  · intro grants
    refine (allowed_foldl_narrowedTo grants _).trans ?_
    rw [(run_static h).cfg, hallowed, Set.inter_comm]

/-- A model without signals that grants the mode `survey`. -/
def surveyProto : Proto.CompiledSafetyModel ℚ where
  compiledVersion := "0.1"
  specId := "survey"
  specContentHash := "sha256:0"
  samplePeriodS := .fin 1
  predicateTable := some { signals := [], atoms := [] }
  scalarBounds := []
  keepOutTerms := []
  monitors := []
  resourceBounds := none
  safePose := none
  actionLimits := none
  admissibleDirectives := some { modes := ["survey"], tasks := [] }

/-- A configuration that allows two modes. -/
def surveyConfig : CoreConfig ℚ :=
  { CoreConfig.default with actionPolicy := { certifiedModes := ["survey", "drill"] } }

/-- A tick that proposes a mode. -/
def modeTick (name : String) : Tick ℚ :=
  ({ signals := [], position := [], velocity := [], proposed := .mode name }, .idle)

theorem run_directive_gate_survey :
    ∃ (model : CompiledSafetyModel ℚ) (core : SafetyCore ℚ) (vs : List (SafetyVerdict ℚ)),
      CompiledSafetyModel.fromProto surveyProto surveyConfig.maxHistoryCap = .ok model ∧
      (fromModel model surveyConfig).run [modeTick "survey", modeTick "drill"] = .ok (core, vs) ∧
      vs.map (·.intervention) = [.none, .fallback] ∧
      core.cfg.actionPolicy.allowed ⊆ surveyProto.granted ∩ surveyConfig.actionPolicy.allowed := by
  have h : ((CompiledSafetyModel.fromProto surveyProto surveyConfig.maxHistoryCap).toOption.any
      fun model => ((fromModel model surveyConfig).run
        [modeTick "survey", modeTick "drill"]).toOption.any fun r =>
          Decidable.decide (r.2.map (·.intervention) = [.none, .fallback])) = true := by
    decide +kernel
  obtain ⟨model, hmodel, h⟩ := exists_ok_of_any h
  obtain ⟨⟨core, vs⟩, hrun, h⟩ := exists_ok_of_any h
  exact ⟨model, core, vs, hmodel, hrun, of_decide_eq_true h, (run_directive_gate hmodel hrun).2 []⟩

end SafetyCore

end AstroMine.Guard
