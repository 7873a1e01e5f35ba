import AstroMine.Core.Messages
import AstroMine.Guard.Arbiter
import AstroMine.Lib.Dict

/-!
# The policy shield (`guard/wrap/shield.py`)

The wrapper that routes every action of a policy through the safety core of its agent. The policy is
untrusted: a batch is any list of actions. A deadline miss of the armed watchdog is data of the
proposal, and the verdicts handed to the audit sink are returned beside the actions.

Results:
* `decide_core`: the core of an agent after a batch has run the ticks of its own actions, in order.
* `run_core`: over a run, the core of an agent runs the ticks of its own actions and no others.
* `certify_granted`, `certify_mode`: what one action is answered with.
* `run_batchLaw_iff`: a batch keeps its agents and passes only granted directives, and answers every
  modelled command in its own control mode exactly when the commands of the wrong arity are in the
  configured one.
-/

namespace AstroMine.Guard

section Codec

variable {K : Type} [Field K]

/-! ## The codec -/

/-- `MODELLED_CONTROL_MODES` (lines 128–132). -/
def modelledControlMode : Core.ControlMode → Option ControlMode
  | .effort => some .effort
  | .velocity => some .velocity
  | .position => some .position
  | .impedance | .trajectory => none

/-- The message value of a mode of the core (`ControlMode(verdict["certified_control_mode"])`). -/
def messageControlMode : ControlMode → Core.ControlMode
  | .effort => .effort
  | .velocity => .velocity
  | .position => .position

/-- `_UNIT_OF` (lines 138–142). -/
def unitOf : ControlMode → String
  | .effort => "m/s^2"
  | .velocity => "m/s"
  | .position => "m"

/-- A command of the core in a control mode (`rust/src/py.rs`, the match on `action_kind`). -/
def proposeIn (mode : ControlMode) (setpoint : List (Flt K)) : ProposedAction K :=
  match mode with
  | .effort => .effort setpoint
  | .velocity => .velocity setpoint
  | .position => .position setpoint

/-- `ActionCodec.classify` (lines 280–302), read by the core. -/
def classify (action : Core.Action K) (spatialDim : ℕ) : ProposedAction K :=
  match action.kind, action.actuator, action.mode, action.task with
  | .actuator, some command, _, _ =>
    match modelledControlMode command.controlMode with
    | none => .opaqueCommand
    | some mode =>
      if spatialDim = 0 ∨ command.setpoint.length ≠ spatialDim then .opaqueCommand
      else proposeIn mode command.setpoint
  | .mode, _, some command, _ => .mode command.mode
  | .task, _, _, some directive => .task directive.taskKind.value
  | _, _, _, _ => .opaqueCommand

/-- `_fit` (lines 355–358). -/
def fit (values : List (Flt K)) (n : ℕ) : List (Flt K) := (values ++ List.replicate n 0).take n

/-- The coordinates of a vector. -/
def coords (v : Core.Vec3 K) : List (Flt K) := [v.x, v.y, v.z]

/-- `read_position` (lines 304–309). -/
def readPosition (observation : Option (Core.Observation K)) (spatialDim : ℕ) : List (Flt K) :=
  match observation with
  | none => List.replicate spatialDim 0
  | some o => fit (coords o.selfState.translationM) spatialDim

/-- `read_velocity` (lines 311–316). -/
def readVelocity (observation : Option (Core.Observation K)) (spatialDim : ℕ) : List (Flt K) :=
  match observation.bind fun o => o.selfState.linearVelocityMps with
  | none => List.replicate spatialDim 0
  | some v => fit (coords v) spatialDim

/-- `write_certified_action` (lines 318–325). -/
def writeCertifiedAction (action : Core.Action K) (certified : List (Flt K)) :
    Except Panic (Core.Action K) := do
  let actuator ← expect action.actuator
  return { action with actuator := some { actuator with setpoint := certified } }

/-- `write_safe_action` (lines 327–353). -/
def writeSafeAction (action : Core.Action K) (certified : List (Flt K)) (mode : ControlMode)
    (target : String) : Core.Action K where
  agentId := action.agentId
  kind := .actuator
  actuator := some
    { target := (action.actuator.map Core.ActuatorCommand.target).getD target
      controlMode := messageControlMode mode
      setpoint := certified
      unit := some (unitOf mode) }

/-! ## Signals -/

/-- `SignalResolver` (lines 156–167): the values of the keys, from the observation. -/
abbrev SignalResolver (K : Type) := List String → Option (Core.Observation K) → List (Flt K)

/-- The scalar fields of a state sample (`_STATE_SCALAR_FIELDS`). -/
def stateScalar (state : Core.StateSample K) (key : String) : Flt K :=
  if key = "battery_soc_j" then state.batterySocJ.getD .nan
  else if key = "temperature_k" then state.temperatureK.getD .nan
  else .nan

/-- The value of one key (lines 189–198). -/
def resolveKey (o : Core.Observation K) (key : String) : Flt K :=
  match ((Dict.ofList (o.sensors.map fun r => (r.sensor, r.values))).getD key []).head? with
  | some value => value
  | none => stateScalar o.selfState key

/-- `DefaultSignalResolver.resolve` (lines 185–199). -/
def defaultResolver : SignalResolver K := fun keys observation =>
  keys.map fun key => (observation.map fun o => resolveKey o key).getD .nan

/-- `MappingSignalResolver.resolve` (lines 202–214). -/
def mappingResolver (values : Dict String (Flt K)) : SignalResolver K := fun keys _ =>
  keys.map fun key => values.getD key .nan

/-- `_fit_signals` (lines 637–643). -/
def fitSignals (values : List (Flt K)) (n : ℕ) : List (Flt K) :=
  values.take n ++ List.replicate (n - values.length) .nan

end Codec

/-! ## The shield -/

/-- An action of a batch, and whether the core overruns its deadline on it. -/
structure Proposal (K : Type) where
  action : Core.Action K
  late : Bool := false

/-- `PolicyShield` (lines 413–456): the cores are those of the agents seen so far. -/
structure PolicyShield (K : Type) where
  signalOrder : List String
  resolver : SignalResolver K
  fresh : SafetyCore K
  fallbackTarget : String
  watchdog : Bool
  cores : Dict String (SafetyCore K)

/-- One call of `decide`: the observations of the agents, and the batch the policy proposes. -/
structure DecideCall (K : Type) where
  observations : Dict String (Core.Observation K)
  proposed : List (Proposal K)

namespace PolicyShield

variable {K : Type} [Field K] [LinearOrder K] [HasSqrt K]

/-- `PolicyShield.__init__` (lines 425–456); `cfg` is what `CoreConfig.build` hands to the core. -/
def new (compiled : Proto.CompiledSafetyModel K) (cfg : CoreConfig K) (fallbackTarget : String)
    (resolver : SignalResolver K) (watchdog : Bool) : Except CoreError (PolicyShield K) := do
  let model ← CompiledSafetyModel.fromProto compiled cfg.maxHistoryCap
  .ok
    { signalOrder := (compiled.predicateTable.map Proto.PredicateTable.signals).getD []
      resolver := resolver
      fresh := SafetyCore.fromModel model cfg
      fallbackTarget := fallbackTarget
      watchdog := watchdog
      cores := .empty }

variable (shield : PolicyShield K)

/-- `spatial_dim`. -/
def spatialDim : ℕ := shield.fresh.dim

/-- `_core_for` (lines 512–517). -/
def coreFor (agentId : String) : SafetyCore K := (shield.cores.get? agentId).getD shield.fresh

/-- What `_certify` marshals into the core (lines 529–534). -/
def safetyInput (observation : Option (Core.Observation K)) (action : Core.Action K) :
    SafetyInput K where
  signals := fitSignals (shield.resolver shield.signalOrder observation) shield.signalOrder.length
  position := readPosition observation shield.spatialDim
  velocity := readVelocity observation shield.spatialDim
  proposed := classify action shield.spatialDim

/-- The tick of the core for one proposal. -/
def tickOf (observation : Option (Core.Observation K)) (p : Proposal K) : SafetyCore.Tick K :=
  (shield.safetyInput observation p.action, if shield.watchdog && p.late then .expired else .idle)

/-- `_emit_action` (lines 560–578). -/
def emitAction (action : Core.Action K) (verdict : SafetyVerdict K) :
    Except Panic (Core.Action K) :=
  if verdict.intervention = .fallback then
    .ok (writeSafeAction action verdict.certifiedAction verdict.certifiedMode shield.fallbackTarget)
  else if verdict.certifiedAction = [] then .ok action
  else writeCertifiedAction action verdict.certifiedAction

/-- `_certify` (lines 519–558). -/
def certify (observation : Option (Core.Observation K)) (p : Proposal K) :
    Except Panic (PolicyShield K × Core.Action K × SafetyVerdict K) := do
  let (core, verdict) ← (shield.coreFor p.action.agentId).tick (shield.tickOf observation p)
  let action ← shield.emitAction p.action verdict
  return ({ shield with cores := shield.cores.set p.action.agentId core }, action, verdict)

/-- The actions of a batch, certified in order (lines 503–509). -/
def decide (shield : PolicyShield K) (observations : Dict String (Core.Observation K)) :
    List (Proposal K) →
      Except Panic (PolicyShield K × List (Core.Action K × SafetyVerdict K))
  | [] => .ok (shield, [])
  | p :: ps => do
    let (shield, out) ← shield.certify (observations.get? p.action.agentId) p
    let (shield, outs) ← shield.decide observations ps
    return (shield, out :: outs)

/-- A run of `decide` calls. -/
def run (shield : PolicyShield K) : List (DecideCall K) →
    Except Panic (PolicyShield K × List (List (Core.Action K × SafetyVerdict K)))
  | [] => .ok (shield, [])
  | call :: calls => do
    let (shield, out) ← shield.decide call.observations call.proposed
    let (shield, outs) ← shield.run calls
    return (shield, out :: outs)

/-! ## The cores of a run -/

variable {shield}

/-- The shield with other cores. -/
def withCores (shield : PolicyShield K) (cores : Dict String (SafetyCore K)) : PolicyShield K :=
  { shield with cores := cores }

omit [Field K] [LinearOrder K] [HasSqrt K] in
theorem coreFor_set (shield : PolicyShield K) (agentId : String) (core : SafetyCore K) (a : String) :
    (shield.withCores (shield.cores.set agentId core)).coreFor a =
      if a = agentId then core else shield.coreFor a := by
  show ((shield.cores.set agentId core).get? a).getD shield.fresh = _
  rw [Dict.get?_set]
  split_ifs <;> rfl

/-- What one proposal does: a tick of the core of its agent. -/
theorem certify_ok {observation : Option (Core.Observation K)} {p : Proposal K}
    {shield' : PolicyShield K} {action : Core.Action K} {v : SafetyVerdict K}
    (h : shield.certify observation p = .ok (shield', action, v)) :
    ∃ core', (shield.coreFor p.action.agentId).tick (shield.tickOf observation p) = .ok (core', v) ∧
      shield.emitAction p.action v = .ok action ∧
      shield' = shield.withCores (shield.cores.set p.action.agentId core') := by
  simp only [certify, bind_eq_ok] at h
  obtain ⟨⟨core', v'⟩, htick, action', hemit, h⟩ := h
  cases h
  exact ⟨core', htick, hemit, rfl⟩

/-- All the cores are cores of the model of the shield. -/
def Consistent (shield : PolicyShield K) : Prop :=
  ∀ a, SafetyCore.SameStatic shield.fresh (shield.coreFor a)

theorem certify_consistent {observation : Option (Core.Observation K)} {p : Proposal K}
    {shield' : PolicyShield K} {action : Core.Action K} {v : SafetyVerdict K}
    (hc : shield.Consistent) (h : shield.certify observation p = .ok (shield', action, v)) :
    shield'.Consistent := by
  obtain ⟨core', htick, -, rfl⟩ := certify_ok h
  intro a
  rw [coreFor_set]
  split_ifs with ha
  · exact (hc p.action.agentId).trans (SafetyCore.tick_static htick)
  · exact hc a

/-- A batch changes nothing but the cores, and keeps them consistent. -/
theorem decide_static {observations : Dict String (Core.Observation K)} {ps : List (Proposal K)}
    {shield' : PolicyShield K} {out : List (Core.Action K × SafetyVerdict K)}
    (h : shield.decide observations ps = .ok (shield', out)) :
    (∃ cores, shield' = shield.withCores cores) ∧ (shield.Consistent → shield'.Consistent) := by
  induction ps generalizing shield out with
  | nil =>
    cases h
    exact ⟨⟨shield'.cores, rfl⟩, id⟩
  | cons p ps ih =>
    simp only [decide, bind_eq_ok] at h
    obtain ⟨⟨shield₁, o⟩, hp, ⟨shield₂, os⟩, hps, h⟩ := h
    cases h
    obtain ⟨core', -, -, rfl⟩ := certify_ok hp
    obtain ⟨⟨cores, rfl⟩, hcons⟩ := ih hps
    exact ⟨⟨cores, rfl⟩, fun hc => hcons (certify_consistent hc hp)⟩

/-- The ticks a call gives the core of an agent: its own actions, in order. -/
def ticksOf (shield : PolicyShield K) (a : String) (call : DecideCall K) :
    List (SafetyCore.Tick K) :=
  (call.proposed.filter fun p => p.action.agentId = a).map fun p =>
    shield.tickOf (call.observations.get? a) p

/-- The core of an agent after a batch has run the ticks of its own actions. -/
theorem decide_core {observations : Dict String (Core.Observation K)} {ps : List (Proposal K)}
    {shield' : PolicyShield K} {out : List (Core.Action K × SafetyVerdict K)}
    (h : shield.decide observations ps = .ok (shield', out)) (a : String) :
    ∃ vs, (shield.coreFor a).run (shield.ticksOf a ⟨observations, ps⟩) =
      .ok (shield'.coreFor a, vs) := by
  induction ps generalizing shield out with
  | nil =>
    cases h
    exact ⟨[], rfl⟩
  | cons p ps ih =>
    simp only [decide, bind_eq_ok] at h
    obtain ⟨⟨shield₁, o⟩, hp, ⟨shield₂, os⟩, hps, h⟩ := h
    cases h
    obtain ⟨core', htick, -, rfl⟩ := certify_ok hp
    obtain ⟨vs, hvs⟩ := ih hps
    rw [coreFor_set] at hvs
    by_cases ha : p.action.agentId = a
    · subst ha
      rw [if_pos rfl] at hvs
      refine ⟨o.2 :: vs, ?_⟩
      rw [ticksOf, List.filter_cons_of_pos (by simp), List.map_cons]
      exact bind_eq_ok.2 ⟨_, htick, bind_eq_ok.2 ⟨_, hvs, rfl⟩⟩
    · rw [if_neg (Ne.symm ha)] at hvs
      refine ⟨vs, ?_⟩
      rw [ticksOf, List.filter_cons_of_neg (by simpa using ha)]
      exact hvs

/-- A run changes nothing but the cores, and keeps them consistent; the core of an agent has run
    the ticks of its own actions. -/
theorem run_core {calls : List (DecideCall K)} {shield' : PolicyShield K}
    {outs : List (List (Core.Action K × SafetyVerdict K))}
    (h : shield.run calls = .ok (shield', outs)) :
    (∃ cores, shield' = shield.withCores cores) ∧ (shield.Consistent → shield'.Consistent) ∧
      ∀ a, ∃ vs, (shield.coreFor a).run (calls.flatMap (shield.ticksOf a)) =
        .ok (shield'.coreFor a, vs) := by
  induction calls generalizing shield outs with
  | nil =>
    cases h
    exact ⟨⟨shield'.cores, rfl⟩, id, fun a => ⟨[], rfl⟩⟩
  | cons call calls ih =>
    simp only [run, bind_eq_ok] at h
    obtain ⟨⟨shield₁, o⟩, hcall, ⟨shield₂, os⟩, hcalls, h⟩ := h
    cases h
    obtain ⟨⟨cores₁, rfl⟩, hcons₁⟩ := decide_static hcall
    obtain ⟨⟨cores, rfl⟩, hcons, hrun⟩ := ih hcalls
    refine ⟨⟨cores, rfl⟩, fun hc => hcons (hcons₁ hc), fun a => ?_⟩
    obtain ⟨vs₁, hvs₁⟩ := decide_core hcall a
    obtain ⟨vs, hvs⟩ := hrun a
    exact ⟨vs₁ ++ vs, by rw [List.flatMap_cons]; exact SafetyCore.run_append hvs₁ hvs⟩

/-! ## The law of a batch -/

/-- An actuator command in a mode of the core. -/
def Modelled (action : Core.Action K) (mode : ControlMode) : Prop :=
  action.kind = .actuator ∧ ∃ command, action.actuator = some command ∧
    modelledControlMode command.controlMode = some mode

/-- The action is a command in the control mode. -/
def AnsweredIn (action : Core.Action K) (mode : ControlMode) : Prop :=
  action.actuator.map Core.ActuatorCommand.controlMode = some (messageControlMode mode)

/-- A directive is in the configured grant and in the grant of the spec. -/
def Granted (model : CompiledSafetyModel K) (cfg : CoreConfig K) : ProposedAction K → Prop
  | .mode name => name ∈ cfg.actionPolicy.certifiedModes ∧
      ∃ grant, model.admissibleDirectives = some grant ∧ name ∈ grant.modes
  | .task kind => kind ∈ cfg.actionPolicy.certifiedTasks ∧
      ∃ grant, model.admissibleDirectives = some grant ∧ kind ∈ grant.tasks
  | _ => True

/-- The batch law: the agents in order, directives passed only if granted, and modelled commands
that are not passed answered in their own control mode. -/
structure BatchLaw (model : CompiledSafetyModel K) (cfg : CoreConfig K) (spatialDim : ℕ)
    (proposed : List (Proposal K)) (out : List (Core.Action K × SafetyVerdict K)) : Prop where
  agents : out.map (fun o => o.1.agentId) = proposed.map fun p => p.action.agentId
  granted : ∀ q ∈ proposed.zip out, q.2.1 = q.1.action →
    Granted model cfg (classify q.1.action spatialDim)
  channel : ∀ q ∈ proposed.zip out, q.2.1 ≠ q.1.action →
    ∀ mode, Modelled q.1.action mode → AnsweredIn q.2.1 mode

/-- A modelled command has the arity of a spatial model, or is in the configured mode. -/
def OwnChannel (cfg : CoreConfig K) (spatialDim : ℕ) (action : Core.Action K) : Prop :=
  ∀ command mode, action.kind = .actuator → action.actuator = some command →
    modelledControlMode command.controlMode = some mode →
    0 < spatialDim ∧ command.setpoint.length = spatialDim ∨ mode = cfg.actionPolicy.fallbackMode

theorem messageControlMode_of_modelled {c : Core.ControlMode} {mode : ControlMode}
    (h : modelledControlMode c = some mode) : messageControlMode mode = c := by
  cases c <;> cases h <;> rfl

theorem messageControlMode_injective : Function.Injective messageControlMode := by
  intro a b h
  cases a <;> cases b <;> first | rfl | cases h

omit [Field K] [LinearOrder K] [HasSqrt K] in
@[simp]
theorem controlMode_proposeIn (mode : ControlMode) (setpoint : List (Flt K)) :
    (proposeIn mode setpoint).controlMode = some mode := by
  cases mode <;> rfl

omit [Field K] [LinearOrder K] [HasSqrt K] in
/-- A modelled command of the arity of a spatial model is proposed in its mode, any other one is
opaque. -/
theorem classify_modelled {action : Core.Action K} {command : Core.ActuatorCommand K}
    {mode : ControlMode} (hk : action.kind = .actuator) (ha : action.actuator = some command)
    (hm : modelledControlMode command.controlMode = some mode) (spatialDim : ℕ) :
    classify action spatialDim =
      if 0 < spatialDim ∧ command.setpoint.length = spatialDim then
        proposeIn mode command.setpoint
      else .opaqueCommand := by
  unfold classify
  rw [hk, ha]
  simp only [hm]
  by_cases h : 0 < spatialDim ∧ command.setpoint.length = spatialDim
  · rw [if_pos h, if_neg (by omega)]
  · rw [if_neg h, if_pos (by omega)]

omit [Field K] [LinearOrder K] [HasSqrt K] in
/-- What the effective allowlist admits is granted. -/
theorem granted_of_admits {model : CompiledSafetyModel K} {cfg : CoreConfig K}
    {proposed : ProposedAction K}
    (h : (cfg.actionPolicy.narrowedTo model.admissibleDirectives).admits proposed = true) :
    Granted model cfg proposed := by
  have hnarrow : ∀ (configured : List String) (get : AdmissibleDirectives → List String) name,
      (narrow configured (model.admissibleDirectives.map get)).any (· = name) = true →
      name ∈ configured ∧ ∃ grant, model.admissibleDirectives = some grant ∧ name ∈ get grant := by
    intro configured get name hname
    cases hd : model.admissibleDirectives with
    | none => simp [hd, narrow] at hname
    | some grant => simpa [hd, narrow] using hname
  cases proposed with
  | mode name => exact hnarrow _ _ _ h
  | task kind => exact hnarrow _ _ _ h
  | effort | velocity | position | opaqueCommand => trivial

omit [Field K] [LinearOrder K] [HasSqrt K] in
/-- A proposal that is not a directive needs no grant. -/
theorem granted_of_not_directive {model : CompiledSafetyModel K} {cfg : CoreConfig K}
    {proposed : ProposedAction K} (h : ∀ name, proposed ≠ .mode name ∧ proposed ≠ .task name) :
    Granted model cfg proposed := by
  cases proposed with
  | mode name => exact absurd rfl (h name).1
  | task kind => exact absurd rfl (h kind).2
  | effort | velocity | position | opaqueCommand => trivial

omit [Field K] [LinearOrder K] [HasSqrt K] in
theorem classify_actuator_not_directive {action : Core.Action K} (hk : action.kind = .actuator)
    (spatialDim : ℕ) (name : String) :
    classify action spatialDim ≠ .mode name ∧ classify action spatialDim ≠ .task name := by
  unfold classify
  rw [hk]
  cases action.actuator with
  | none => simp
  | some command =>
    simp only
    cases modelledControlMode command.controlMode with
    | none => simp
    | some mode =>
      simp only
      split_ifs
      · simp
      · cases mode <;> simp [proposeIn]

omit [Field K] [LinearOrder K] [HasSqrt K] in
/-- The action a verdict becomes: a safe command for a fallback, otherwise the proposal, with the
certified command as its setpoint if there is one. -/
theorem emitAction_ok {action out : Core.Action K} {v : SafetyVerdict K}
    (h : shield.emitAction action v = .ok out) :
    (v.intervention = .fallback ∧ out = writeSafeAction action v.certifiedAction v.certifiedMode
      shield.fallbackTarget) ∨
    v.intervention ≠ .fallback ∧ out.agentId = action.agentId ∧
      out.actuator.map Core.ActuatorCommand.controlMode =
        action.actuator.map Core.ActuatorCommand.controlMode := by
  unfold emitAction at h
  split_ifs at h with hfall hnil
  · exact .inl ⟨hfall, (Except.ok.inj h).symm⟩
  · obtain rfl := Except.ok.inj h
    exact .inr ⟨hfall, rfl, rfl⟩
  · simp only [writeCertifiedAction, bind_eq_ok] at h
    obtain ⟨command, hcommand, h⟩ := h
    cases hact : action.actuator with
    | none =>
      rw [hact] at hcommand
      cases hcommand
    | some command' =>
      rw [hact] at hcommand
      cases hcommand
      cases h
      exact .inr ⟨hfall, rfl, rfl⟩

section Deployed

variable {model : CompiledSafetyModel K} {cfg : CoreConfig K}
  {observation : Option (Core.Observation K)} {p : Proposal K} {shield' : PolicyShield K}
  {action : Core.Action K} {v : SafetyVerdict K}

/-- What the core decides on a proposal: a fallback is in the mode of the proposal, or in the
configured one, and a proposal without a mode is only let through if the allowlist admits it. -/
theorem certify_verdict (hfresh : shield.fresh = SafetyCore.fromModel model cfg)
    (hc : shield.Consistent) (h : shield.certify observation p = .ok (shield', action, v)) :
    (v.intervention = .fallback → v.certifiedMode =
      (classify p.action shield.spatialDim).controlMode.getD cfg.actionPolicy.fallbackMode) ∧
    (v.intervention ≠ .fallback → (classify p.action shield.spatialDim).controlMode = none →
      (cfg.actionPolicy.narrowedTo model.admissibleDirectives).admits
        (classify p.action shield.spatialDim) = true) := by
  obtain ⟨core', htick, -, -⟩ := certify_ok h
  have hcfg : (shield.coreFor p.action.agentId).cfg.actionPolicy =
      cfg.actionPolicy.narrowedTo model.admissibleDirectives := by
    rw [(hc p.action.agentId).cfg, hfresh]
    rfl
  have hproposed : (shield.tickOf observation p).1.proposed =
      classify p.action shield.spatialDim := rfl
  obtain ⟨hiff, hmode⟩ := SafetyCore.tick_answers htick
  refine ⟨fun hfall => ?_, fun hne hnone => ?_⟩
  · rw [hmode hfall]
    unfold SafetyCore.fallbackMode
    rw [hproposed, hcfg]
    rfl
  · obtain ⟨-, -, -, ha⟩ := not_not.mp (mt hiff.mpr hne)
    unfold SafetyCore.Admits at ha
    rw [hproposed, hnone] at ha
    rw [← hcfg]
    exact ha

theorem certify_agentId (h : shield.certify observation p = .ok (shield', action, v)) :
    action.agentId = p.action.agentId := by
  obtain ⟨core', -, hemit, -⟩ := certify_ok h
  rcases emitAction_ok hemit with ⟨-, rfl⟩ | ⟨-, hid, -⟩
  · rfl
  · exact hid

/-- A directive that comes back unchanged is granted. -/
theorem certify_granted (hfresh : shield.fresh = SafetyCore.fromModel model cfg)
    (hc : shield.Consistent) (h : shield.certify observation p = .ok (shield', action, v))
    (heq : action = p.action) : Granted model cfg (classify p.action shield.spatialDim) := by
  obtain ⟨-, hadmits⟩ := certify_verdict hfresh hc h
  obtain ⟨core', -, hemit, -⟩ := certify_ok h
  rcases emitAction_ok hemit with ⟨-, rfl⟩ | ⟨hne, -, -⟩
  · have hk : p.action.kind = .actuator := by
      rw [← heq]
      rfl
    exact granted_of_not_directive (classify_actuator_not_directive hk _)
  · cases hm : (classify p.action shield.spatialDim).controlMode with
    | none => exact granted_of_admits (hadmits hne hm)
    | some mode =>
      refine granted_of_not_directive fun name => ⟨fun hd => ?_, fun hd => ?_⟩
      · rw [hd] at hm
        cases hm
      · rw [hd] at hm
        cases hm

/-- A modelled command is answered in its own mode if it has the arity of a spatial model, and in
the configured mode otherwise. -/
theorem certify_mode (hfresh : shield.fresh = SafetyCore.fromModel model cfg)
    (hc : shield.Consistent) (h : shield.certify observation p = .ok (shield', action, v))
    {command : Core.ActuatorCommand K} {mode : ControlMode} (hk : p.action.kind = .actuator)
    (ha : p.action.actuator = some command)
    (hm : modelledControlMode command.controlMode = some mode) :
    AnsweredIn action (if 0 < shield.spatialDim ∧ command.setpoint.length = shield.spatialDim then
      mode else cfg.actionPolicy.fallbackMode) := by
  obtain ⟨hfallback, hadmits⟩ := certify_verdict hfresh hc h
  obtain ⟨core', -, hemit, -⟩ := certify_ok h
  rw [classify_modelled hk ha hm] at hfallback hadmits
  rcases emitAction_ok hemit with ⟨hfall, rfl⟩ | ⟨hne, -, hcm⟩
  · show some (messageControlMode v.certifiedMode) = _
    rw [hfallback hfall]
    split_ifs
    · rw [controlMode_proposeIn]
      rfl
    · rfl
  · split_ifs with harity
    · unfold AnsweredIn
      rw [hcm, ha, messageControlMode_of_modelled hm]
      rfl
    · rw [if_neg harity] at hadmits
      exact absurd (hadmits hne rfl) (by simp [ActionPolicy.admits])

/-- A proposal that is not passed is answered in its own mode exactly when it has its own
channel. -/
theorem certify_channel_iff (hfresh : shield.fresh = SafetyCore.fromModel model cfg)
    (hc : shield.Consistent) (h : shield.certify observation p = .ok (shield', action, v)) :
    (action ≠ p.action → ∀ mode, Modelled p.action mode → AnsweredIn action mode) ↔
      OwnChannel cfg shield.spatialDim p.action := by
  constructor
  · intro hchannel command mode hk ha hm
    by_contra hno
    obtain ⟨harity, hne⟩ := not_or.mp hno
    have hans := certify_mode hfresh hc h hk ha hm
    rw [if_neg harity] at hans
    have hother : ¬ AnsweredIn action mode := fun hown =>
      hne (messageControlMode_injective (Option.some.inj (hown.symm.trans hans)))
    refine hother (hchannel ?_ mode ⟨hk, command, ha, hm⟩)
    rintro rfl
    refine hother ?_
    unfold AnsweredIn
    rw [ha, messageControlMode_of_modelled hm]
    rfl
  · rintro hown - mode ⟨hk, command, ha, hm⟩
    have hans := certify_mode hfresh hc h hk ha hm
    rcases hown command mode hk ha hm with harity | rfl
    · rwa [if_pos harity] at hans
    · rwa [ite_self] at hans

/-- The batch law of one call, by its proposals. -/
theorem decide_batchLaw_iff (hfresh : shield.fresh = SafetyCore.fromModel model cfg)
    (hc : shield.Consistent) {observations : Dict String (Core.Observation K)}
    {ps : List (Proposal K)} {out : List (Core.Action K × SafetyVerdict K)}
    (h : shield.decide observations ps = .ok (shield', out)) :
    BatchLaw model cfg shield.spatialDim ps out ↔
      ∀ p ∈ ps, OwnChannel cfg shield.spatialDim p.action := by
  have hpairs : List.Forall₂ (fun (p : Proposal K) (o : Core.Action K × SafetyVerdict K) =>
      o.1.agentId = p.action.agentId ∧
        (o.1 = p.action → Granted model cfg (classify p.action shield.spatialDim)) ∧
        ((o.1 ≠ p.action → ∀ mode, Modelled p.action mode → AnsweredIn o.1 mode) ↔
          OwnChannel cfg shield.spatialDim p.action)) ps out := by
    induction ps generalizing shield out with
    | nil =>
      cases h
      exact .nil
    | cons p ps ih =>
      simp only [decide, bind_eq_ok] at h
      obtain ⟨⟨shield₁, o⟩, hp, ⟨shield₂, os⟩, hps, h⟩ := h
      cases h
      have hc₁ := certify_consistent hc hp
      obtain ⟨core', -, -, rfl⟩ := certify_ok hp
      have hfresh₁ : (shield.withCores (shield.cores.set p.action.agentId core')).fresh = _ := hfresh
      have hrest := ih hfresh₁ hc₁ hps
      exact .cons ⟨certify_agentId hp, certify_granted hfresh hc hp,
        certify_channel_iff hfresh hc hp⟩ hrest
  obtain ⟨hlen, hzip⟩ := List.forall₂_iff_zip.mp hpairs
  constructor
  · intro hlaw p hp
    obtain ⟨i, hi, rfl⟩ := List.getElem_of_mem hp
    have hmem : (ps[i], out[i]) ∈ ps.zip out := by
      have hi' : i < (ps.zip out).length := by
        rw [List.length_zip]
        omega
      rw [← List.getElem_zip (h := hi')]
      exact List.getElem_mem _
    exact (hzip hmem).2.2.mp (hlaw.channel _ hmem)
  · intro hown
    refine ⟨?_, fun q hq => (hzip hq).2.1, fun q hq => (hzip hq).2.2.mpr (hown _ ?_)⟩
    · clear hlen hzip hown h
      induction hpairs with
      | nil => rfl
      | cons hpo _ ih => rw [List.map_cons, List.map_cons, hpo.1, ih]
    · exact (List.of_mem_zip hq).1

/-- A new shield has the fresh core of its model for every agent. -/
theorem new_ok {compiled : Proto.CompiledSafetyModel K} {target : String}
    {resolver : SignalResolver K} {watchdog : Bool}
    (hmodel : CompiledSafetyModel.fromProto compiled cfg.maxHistoryCap = .ok model)
    (h : new compiled cfg target resolver watchdog = .ok shield) :
    shield.fresh = SafetyCore.fromModel model cfg ∧ shield.Consistent ∧
      shield.cores = .empty ∧ shield.watchdog = watchdog ∧ shield.resolver = resolver ∧
      shield.signalOrder = model.signals := by
  simp only [new, bind_eq_ok] at h
  obtain ⟨model', hmodel', h⟩ := h
  cases Except.ok.inj (hmodel.symm.trans hmodel')
  cases h
  refine ⟨rfl, fun a => ⟨rfl, rfl, rfl, rfl, rfl, rfl⟩, rfl, rfl, rfl, ?_⟩
  simp only [CompiledSafetyModel.fromProto, bind_eq_ok, ensure_eq_ok, okOr_eq_ok] at hmodel
  obtain ⟨-, -, table, htable, atoms, -, bounds, -, terms, -, dim, -, monitors, -, pose, -,
    limits, -, directives, -, rb, -, hmodel⟩ := hmodel
  cases hmodel
  rw [htable]
  rfl

/-- **Main theorem.** In every run of a shield over an accepted model, a batch obeys the batch law
if and only if each of its modelled commands has the arity of a spatial model or is in the
configured fallback mode. -/
theorem run_batchLaw_iff {compiled : Proto.CompiledSafetyModel K} {target : String}
    {resolver : SignalResolver K} {watchdog : Bool}
    (hmodel : CompiledSafetyModel.fromProto compiled cfg.maxHistoryCap = .ok model)
    (hnew : new compiled cfg target resolver watchdog = .ok shield)
    {calls : List (DecideCall K)} {outs : List (List (Core.Action K × SafetyVerdict K))}
    (hrun : shield.run calls = .ok (shield', outs)) :
    List.Forall₂ (fun call out => BatchLaw model cfg shield.spatialDim call.proposed out ↔
      ∀ p ∈ call.proposed, OwnChannel cfg shield.spatialDim p.action) calls outs := by
  obtain ⟨hfresh, hc, -⟩ := new_ok hmodel hnew
  clear hnew
  induction calls generalizing shield outs with
  | nil =>
    cases hrun
    exact .nil
  | cons call calls ih =>
    simp only [run, bind_eq_ok] at hrun
    obtain ⟨⟨shield₁, o⟩, hcall, ⟨shield₂, os⟩, hcalls, h⟩ := hrun
    cases h
    have hlaw := decide_batchLaw_iff hfresh hc hcall
    obtain ⟨⟨cores, rfl⟩, hcons⟩ := decide_static hcall
    have hfresh₁ : (shield.withCores cores).fresh = _ := hfresh
    have hrest := ih hcalls hfresh₁ (hcons hc)
    exact .cons hlaw hrest

end Deployed

/-! ## A shield on a line -/

/-- A model on a line whose agents stay at or above `-10`, and whose spec grants the mode
`survey`. -/
def lineProto : Proto.CompiledSafetyModel ℚ where
  compiledVersion := "0.1"
  specId := "line"
  specContentHash := "sha256:0"
  samplePeriodS := .fin 1
  predicateTable := some { signals := [], atoms := [] }
  scalarBounds := []
  keepOutTerms := [
    { constraintId := "edge", onUncertain := "fallback", shape := "half_space", marginM := .fin 0
      center := [], halfExtents := [], radius := none, normal := [.fin 1], offset := some (.fin 10)
      frameRef := none }]
  monitors := []
  resourceBounds := none
  safePose := none
  actionLimits := none
  admissibleDirectives := some { modes := ["survey"], tasks := [] }

/-- A velocity command. -/
def velocityCommand (agentId : String) (setpoint : List (Flt ℚ)) : Core.Action ℚ where
  agentId := agentId
  kind := .actuator
  actuator := some { target := "base", controlMode := .velocity, setpoint := setpoint }

/-- Two commands of one agent and one of another, each of the arity of the line. -/
def lineCall : DecideCall ℚ where
  observations := .empty
  proposed := [⟨velocityCommand "a" [.fin (1 / 2)], false⟩, ⟨velocityCommand "b" [.fin 0], false⟩,
    ⟨velocityCommand "a" [.fin 1], false⟩]

theorem lineCall_batchLaw : ∃ model shield shield' out,
    CompiledSafetyModel.fromProto lineProto (2 ^ 20) = .ok model ∧
    new lineProto .default "base" defaultResolver false = .ok shield ∧
    shield.run [lineCall] = .ok (shield', [out]) ∧
    BatchLaw model .default shield.spatialDim lineCall.proposed out := by
  have h : ((CompiledSafetyModel.fromProto lineProto (2 ^ 20)).toOption.any fun _ =>
      (new lineProto .default "base" defaultResolver false).toOption.any fun shield =>
        (shield.run [lineCall]).toOption.any fun _ =>
          Decidable.decide (shield.spatialDim = 1)) = true := by
    decide +kernel
  obtain ⟨model, hmodel, h⟩ := exists_ok_of_any h
  obtain ⟨shield, hnew, h⟩ := exists_ok_of_any h
  obtain ⟨⟨shield', outs⟩, hrun, hdim⟩ := exists_ok_of_any h
  have hdim := of_decide_eq_true hdim
  have hlaw := run_batchLaw_iff hmodel hnew hrun
  cases hlaw with
  | @cons _ out _ _ hlaw hnil =>
    cases hnil
    refine ⟨model, shield, shield', out, hmodel, hnew, hrun, hlaw.mpr ?_⟩
    intro p hp command mode _ ha _
    simp only [lineCall, List.mem_cons, List.not_mem_nil, or_false] at hp
    rcases hp with rfl | rfl | rfl <;> obtain rfl := Option.some.inj ha <;>
      exact .inl ⟨by omega, hdim.symm⟩

/-- A velocity command with one coordinate too many is answered on the effort channel. -/
theorem wideCommand_not_batchLaw : ∃ model shield shield' out,
    CompiledSafetyModel.fromProto lineProto (2 ^ 20) = .ok model ∧
    new lineProto .default "base" defaultResolver false = .ok shield ∧
    shield.decide .empty [⟨velocityCommand "a" [.fin 0, .fin 0], false⟩] = .ok (shield', out) ∧
    ¬ BatchLaw model .default shield.spatialDim
      [⟨velocityCommand "a" [.fin 0, .fin 0], false⟩] out := by
  have h : ((CompiledSafetyModel.fromProto lineProto (2 ^ 20)).toOption.any fun _ =>
      (new lineProto .default "base" defaultResolver false).toOption.any fun shield =>
        (shield.decide .empty [⟨velocityCommand "a" [.fin 0, .fin 0], false⟩]).toOption.any fun r =>
          Decidable.decide (r.2.map (fun o => o.1.actuator.map Core.ActuatorCommand.controlMode) =
            [some Core.ControlMode.effort])) = true := by
    decide +kernel
  obtain ⟨model, hmodel, h⟩ := exists_ok_of_any h
  obtain ⟨shield, hnew, h⟩ := exists_ok_of_any h
  obtain ⟨⟨shield', out⟩, hdecide, hout⟩ := exists_ok_of_any h
  have hout := of_decide_eq_true hout
  refine ⟨model, shield, shield', out, hmodel, hnew, hdecide, fun hlaw => ?_⟩
  obtain ⟨o, rest, rfl, hmode, hrest⟩ := List.map_eq_cons_iff.mp hout
  obtain rfl := List.map_eq_nil_iff.mp hrest
  have hchanged : o.1 ≠ velocityCommand "a" [.fin 0, .fin 0] := by
    intro heq
    rw [heq] at hmode
    cases hmode
  have hans := hlaw.channel (_, o) (List.mem_singleton_self _) hchanged .velocity ⟨rfl, _, rfl, rfl⟩
  cases hmode.symm.trans hans

end PolicyShield

end AstroMine.Guard
