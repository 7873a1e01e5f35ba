import AstroMine.Guard.Monitors
import AstroMine.Guard.Backup

/-!
# The arbiter

The decision core (`rust/src/arbiter.rs`): one certified action per tick under the precedence
watchdog, bad input, scalar bounds, monitors, action gate, shield. The predicate buffer of the
source is rewritten on every tick that reads it, and the fired catalogue is an index into the
scalar bounds followed by the monitors. A tick that panics is an error.

Results:
* `SafetyCore.tick_cases`: a tick that passes the watchdog and the input checks advances every
  monitor by one sample, any other tick leaves them alone, and no tick changes the model, the
  configuration, the shield or the backup.
-/

namespace AstroMine.Guard

open scoped Numerals

/-- `Layer` (`arbiter.rs:57-64`). -/
inductive Layer where
  | primary | shield | backup
  deriving DecidableEq, Repr

/-- `Intervention` (`arbiter.rs:68-72`). -/
inductive Intervention where
  | none | modified | fallback
  deriving DecidableEq, Repr

/-- `Reason` (`arbiter.rs:76-88`). -/
inductive Reason where
  | certified | shieldCorrected | scalarViolated | monitorFired | qpUncertifiable | badInput
  | watchdogExpired | notCertifiable
  deriving DecidableEq, Repr

/-- `ProposedAction` (`arbiter.rs:92-106`). -/
inductive ProposedAction (K : Type) where
  | effort (x : List (Flt K))
  | velocity (x : List (Flt K))
  | position (x : List (Flt K))
  | opaqueCommand
  | mode (name : String)
  | task (kind : String)

/-- `ProposedAction::control_mode` (`arbiter.rs:111-118`). -/
def ProposedAction.controlMode {K : Type} : ProposedAction K → Option ControlMode
  | effort _ => some .effort
  | velocity _ => some .velocity
  | position _ => some .position
  | opaqueCommand | mode _ | task _ => none

/-- `ProposedAction::setpoint` (`arbiter.rs:122-127`). -/
def ProposedAction.setpoint {K : Type} : ProposedAction K → List (Flt K)
  | effort x | velocity x | position x => x
  | opaqueCommand | mode _ | task _ => []

/-- `ActionPolicy` (`arbiter.rs:149-156`). -/
structure ActionPolicy where
  certifiedModes : List String := []
  certifiedTasks : List String := []
  fallbackMode : ControlMode := .effort

/-- `ActionPolicy::admits` (`arbiter.rs:167-173`). -/
def ActionPolicy.admits {K : Type} (policy : ActionPolicy) : ProposedAction K → Bool
  | .mode name => policy.certifiedModes.any (· = name)
  | .task kind => policy.certifiedTasks.any (· = kind)
  | _ => false

/-- `ActionPolicy::narrowed_to` (`arbiter.rs:180-186`). -/
def ActionPolicy.narrowedTo (policy : ActionPolicy) (authored : Option AdmissibleDirectives) :
    ActionPolicy :=
  { certifiedModes := narrow policy.certifiedModes (authored.map AdmissibleDirectives.modes)
    certifiedTasks := narrow policy.certifiedTasks (authored.map AdmissibleDirectives.tasks)
    fallbackMode := policy.fallbackMode }

/-- `SafetyInput` (`arbiter.rs:196-205`). -/
structure SafetyInput (K : Type) where
  signals : List (Flt K)
  position : List (Flt K)
  velocity : List (Flt K)
  proposed : ProposedAction K

/-- `SafetyVerdict` (`arbiter.rs:209-223`). -/
structure SafetyVerdict (K : Type) where
  certifiedAction : List (Flt K)
  certifiedMode : ControlMode
  layer : Layer
  intervention : Intervention
  reason : Reason
  fired : List ℕ
  backupKind : Option BackupKind
  minBarrierMargin : Flt K

/-- `backup_kind` (`arbiter.rs:240-246`). -/
def backupKindOf : OnUncertain → BackupKind
  | .fallback => .brakeToStop
  | .hold => .hold
  | .safeState => .safeState

section Numbers

variable {K : Type} [Field K] [LinearOrder K]

/-- `CoreConfig` (`arbiter.rs:250-266`), without the wall-clock deadline. -/
structure CoreConfig (K : Type) where
  predictiveHorizonSamples : ℕ
  shield : ShieldConfig K
  kBrake : Flt K
  maxHistoryCap : ℕ
  unchangedTol : Flt K
  actionPolicy : ActionPolicy

/-- `CoreConfig::default` (`arbiter.rs:269-279`). -/
def CoreConfig.default : CoreConfig K where
  predictiveHorizonSamples := 5
  shield := ShieldConfig.default
  kBrake := .fin 4
  maxHistoryCap := 2 ^ 20
  unchangedTol := .fin (1 / 10 ^ 6)
  actionPolicy := {}

/-- `SafetyCore` (`arbiter.rs:284-301`). -/
structure SafetyCore (K : Type) where
  model : CompiledSafetyModel K
  cfg : CoreConfig K
  dim : ℕ
  monitors : List (Monitor K)
  shield : Option (Shield K)
  backup : Backup K
  scalarOffset : ℕ
  holdAnchor : List (Flt K)
  holdActive : Bool

variable [HasSqrt K]

namespace SafetyCore

/-- `SafetyCore::from_model` (`arbiter.rs:317-373`). -/
def fromModel (model : CompiledSafetyModel K) (cfg : CoreConfig K) : SafetyCore K :=
  let cfg := { cfg with actionPolicy := cfg.actionPolicy.narrowedTo model.admissibleDirectives }
  let dim := model.spatialDim.getD 0
  { model := model, cfg := cfg, dim := dim, monitors := model.monitors.map Monitor.new
    shield :=
      if 0 < dim ∧ model.keepOutTerms.length ≠ 0 then
        some (Shield.new model.keepOutTerms dim cfg.shield model.samplePeriodS model.actionLimits)
      else none
    backup := Backup.new dim cfg.shield cfg.kBrake model.samplePeriodS model.safePose
      model.keepOutTerms model.actionLimits
    scalarOffset := model.scalarBounds.length, holdAnchor := [], holdActive := false }

/-- `fallback_mode` (`arbiter.rs:443-448`). -/
def fallbackMode (core : SafetyCore K) (input : SafetyInput K) : ControlMode :=
  input.proposed.controlMode.getD core.cfg.actionPolicy.fallbackMode

/-- The hold-anchor update of `emit_backup` (`arbiter.rs:608-617`). -/
def latchHold (core : SafetyCore K) (input : SafetyInput K) (kind : BackupKind) : SafetyCore K :=
  if kind = .hold then
    if core.holdActive = false ∧ 0 < core.dim ∧ core.dim ≤ input.position.length then
      { core with holdAnchor := input.position.take core.dim, holdActive := true }
    else core
  else { core with holdActive := false }

/-- `emit_backup` (`arbiter.rs:596-637`), on the fired list and margin already written. -/
def emitBackup (core : SafetyCore K) (input : SafetyInput K) (kind : BackupKind) (reason : Reason)
    (fired : List ℕ) (minH : Flt K) : Except Panic (SafetyCore K × SafetyVerdict K) := do
  let core := core.latchHold input kind
  let holdTarget := if kind = .hold ∧ core.holdActive = true then some core.holdAnchor else none
  let mode := core.fallbackMode input
  let action ← core.backup.control kind mode input.position input.velocity holdTarget
  return (core,
    { certifiedAction := action, certifiedMode := mode, layer := .backup
      intervention := .fallback, reason := reason, fired := fired, backupKind := some kind
      minBarrierMargin := minH })

/-- `emit_watchdog` (`arbiter.rs:639-658`). -/
def emitWatchdog (core : SafetyCore K) (input : SafetyInput K) :
    Except Panic (SafetyCore K × SafetyVerdict K) := do
  let core := { core with holdActive := false }
  let mode := core.fallbackMode input
  let action ← core.backup.control .brakeToStop mode input.position input.velocity none
  return (core,
    { certifiedAction := action, certifiedMode := mode, layer := .backup
      intervention := .fallback, reason := .watchdogExpired, fired := []
      backupKind := some .brakeToStop, minBarrierMargin := .negInf })

/-- `good_signals` (`arbiter.rs:462-463`). -/
def goodSignals (core : SafetyCore K) (input : SafetyInput K) : Bool :=
  decide (input.signals.length = core.model.signals.length) && input.signals.all Flt.isFinite

/-- `good_state` (`arbiter.rs:466-470`). -/
def goodState (core : SafetyCore K) (input : SafetyInput K) : Bool :=
  decide (core.dim = 0) ||
    decide (core.dim ≤ input.position.length) && decide (core.dim ≤ input.velocity.length) &&
      (input.position.take core.dim).all Flt.isFinite &&
      (input.velocity.take core.dim).all Flt.isFinite

/-- `good_command` (`arbiter.rs:471-472`). -/
def goodCommand (core : SafetyCore K) (input : SafetyInput K) : Bool :=
  input.proposed.controlMode.isNone ||
    decide (core.dim ≤ input.proposed.setpoint.length) &&
      input.proposed.setpoint.all Flt.isFinite

/-- The predicate vector of the tick (`arbiter.rs:480-483`). -/
def predicates (core : SafetyCore K) (signals : List (Flt K)) : Except Panic (List (Flt K)) :=
  core.model.atoms.mapM fun atom => do
    let value ← index signals atom.signalIndex
    return atom.op.robustness value atom.threshold

/-- Advance every monitor (`arbiter.rs:484-492`); the index and recovery of the first that fires. -/
def stepMonitors (predRob : List (Flt K)) (horizon : ℕ) :
    List (Monitor K) → ℕ → Except Panic (List (Monitor K) × Option (ℕ × OnUncertain))
  | [], _ => .ok ([], none)
  | m :: ms, mi => do
    let (m', verdict) ← m.step (index predRob) horizon
    let (ms', rest) ← stepMonitors predRob horizon ms (mi + 1)
    return (m' :: ms', if verdict.fired then some (mi, m.onUncertain) else rest)

/-- The first violated scalar bound (`arbiter.rs:496-502`). -/
def scalarHit (predRob : List (Flt K)) :
    List ScalarBound → ℕ → Except Panic (Option (ℕ × OnUncertain))
  | [], _ => .ok none
  | b :: bs, bi => do
    let rob ← index predRob b.atomIndex
    if rob < 0 then return some (bi, b.onUncertain) else scalarHit predRob bs (bi + 1)

/-- A verdict of the primary or shield layer. -/
def certifiedVerdict (action : List (Flt K)) (mode : ControlMode) (modified : Bool)
    (minH : Flt K) : SafetyVerdict K :=
  { certifiedAction := action, certifiedMode := mode
    layer := if modified then .shield else .primary
    intervention := if modified then .modified else .none
    reason := if modified then .shieldCorrected else .certified
    fired := [], backupKind := none, minBarrierMargin := minH }

/-- Whether the certified command differs from the setpoint (`arbiter.rs:569-573`). -/
def isModified (core : SafetyCore K) (action setpoint : List (Flt K)) : Bool :=
  (List.zipWith (fun certified proposed => decide (core.cfg.unchangedTol <
    Flt.abs (certified - proposed))) (action.take core.dim) (setpoint.take core.dim)).any id

/-- Layers 5 to 7 of `decide`: the action gate and the shield (`arbiter.rs:524-593`). -/
def gateAndShield (core : SafetyCore K) (input : SafetyInput K) :
    Except Panic (SafetyCore K × SafetyVerdict K) :=
  let released := { core with holdActive := false }
  match input.proposed.controlMode with
  | none =>
    if core.cfg.actionPolicy.admits input.proposed then
      .ok (released, certifiedVerdict [] core.cfg.actionPolicy.fallbackMode false .posInf)
    else core.emitBackup input .brakeToStop .notCertifiable [] .posInf
  | some mode =>
    match core.shield with
    | none => .ok (released, certifiedVerdict input.proposed.setpoint mode false .posInf)
    | some shield => do
      let out ← shield.solveMode mode input.position input.velocity input.proposed.setpoint
      if out.certified then
        return (released, certifiedVerdict out.action mode
          (core.isModified out.action input.proposed.setpoint) out.minH)
      else core.emitBackup input .brakeToStop .qpUncertifiable [] out.minH

/-- Layers 3 to 7 of `decide`, after the monitors have advanced (`arbiter.rs:494-593`). -/
def arbitrate (core : SafetyCore K) (input : SafetyInput K) (predRob : List (Flt K))
    (monitorFired : Option (ℕ × OnUncertain)) : Except Panic (SafetyCore K × SafetyVerdict K) := do
  let hit ← scalarHit predRob core.model.scalarBounds 0
  match hit with
  | some (bi, onUncertain) =>
    core.emitBackup input (backupKindOf onUncertain) .scalarViolated [bi] .posInf
  | none =>
    match monitorFired with
    | some (mi, onUncertain) =>
      core.emitBackup input (backupKindOf onUncertain) .monitorFired
        [core.scalarOffset + mi] .posInf
    | none => core.gateAndShield input

/-- `decide` (`arbiter.rs:450-594`). -/
def decide (core : SafetyCore K) (input : SafetyInput K) (forceWatchdog : Bool) :
    Except Panic (SafetyCore K × SafetyVerdict K) :=
  if forceWatchdog then core.emitWatchdog input
  else if !core.goodSignals input || !core.goodState input || !core.goodCommand input then
    core.emitBackup input .brakeToStop .badInput [] .posInf
  else do
    let predRob ← core.predicates input.signals
    let (monitors, monitorFired) ←
      stepMonitors predRob core.cfg.predictiveHorizonSamples core.monitors 0
    { core with monitors := monitors }.arbitrate input predRob monitorFired

/-- `SafetyCore::from_wire` (`arbiter.rs:305-308`); `decode` is the protobuf decoder. -/
def fromWire (decode : List UInt8 → Except String (Proto.CompiledSafetyModel K))
    (bytes : List UInt8) (cfg : CoreConfig K) : Except CoreError (SafetyCore K) := do
  let model ← CompiledSafetyModel.fromWire decode bytes cfg.maxHistoryCap
  return fromModel model cfg

/-- What the watchdog does at a tick: nothing, expire after the decision (`step_guarded` over its
    budget), or pre-empt it (`force_watchdog`). -/
inductive Watchdog where
  | idle | expired | forced
  deriving DecidableEq, Repr

/-- A tick of a run: the input and the watchdog. -/
abbrev Tick (K : Type) := SafetyInput K × Watchdog

/-- `step_into`, `step_guarded` and `force_watchdog` (`arbiter.rs:410-437`). -/
def tick (core : SafetyCore K) (t : Tick K) : Except Panic (SafetyCore K × SafetyVerdict K) :=
  match t.2 with
  | .idle => core.decide t.1 false
  | .forced => core.decide t.1 true
  | .expired => do
    let (core, _) ← core.decide t.1 false
    core.emitWatchdog t.1

/-- A run of ticks. -/
def run (core : SafetyCore K) : List (Tick K) → Except Panic (SafetyCore K × List (SafetyVerdict K))
  | [] => .ok (core, [])
  | t :: ticks => do
    let (core, verdict) ← core.tick t
    let (core, verdicts) ← core.run ticks
    return (core, verdict :: verdicts)

/-! ## What a tick changes -/

/-- The hold anchor is the only state the arbitration itself writes. -/
def withHold (core : SafetyCore K) (anchor : List (Flt K)) (active : Bool) : SafetyCore K :=
  { core with holdAnchor := anchor, holdActive := active }

omit [Field K] [LinearOrder K] [HasSqrt K] in
theorem latchHold_eq (core : SafetyCore K) (input : SafetyInput K) (kind : BackupKind) :
    ∃ a b, core.latchHold input kind = core.withHold a b := by
  unfold latchHold
  split_ifs
  · exact ⟨_, _, rfl⟩
  · exact ⟨core.holdAnchor, core.holdActive, rfl⟩
  · exact ⟨core.holdAnchor, false, rfl⟩

theorem emitBackup_core {core core' : SafetyCore K} {input : SafetyInput K} {kind : BackupKind}
    {reason : Reason} {fired : List ℕ} {minH : Flt K} {v : SafetyVerdict K}
    (h : core.emitBackup input kind reason fired minH = .ok (core', v)) :
    ∃ a b, core' = core.withHold a b := by
  obtain ⟨a, b, hlatch⟩ := latchHold_eq core input kind
  simp only [emitBackup, bind_eq_ok] at h
  obtain ⟨action, -, h⟩ := h
  cases h
  exact ⟨a, b, hlatch⟩

theorem emitWatchdog_core {core core' : SafetyCore K} {input : SafetyInput K}
    {v : SafetyVerdict K} (h : core.emitWatchdog input = .ok (core', v)) :
    ∃ a b, core' = core.withHold a b := by
  simp only [emitWatchdog, bind_eq_ok] at h
  obtain ⟨action, -, h⟩ := h
  cases h
  exact ⟨core.holdAnchor, false, rfl⟩

theorem gateAndShield_core {core core' : SafetyCore K} {input : SafetyInput K}
    {v : SafetyVerdict K} (h : core.gateAndShield input = .ok (core', v)) :
    ∃ a b, core' = core.withHold a b := by
  unfold gateAndShield at h
  split at h
  · split_ifs at h
    · cases h
      exact ⟨core.holdAnchor, false, rfl⟩
    · exact emitBackup_core h
  · split at h
    · cases h
      exact ⟨core.holdAnchor, false, rfl⟩
    · obtain ⟨out, -, h⟩ := bind_eq_ok.1 h
      split_ifs at h
      · cases h
        exact ⟨core.holdAnchor, false, rfl⟩
      · exact emitBackup_core h

theorem arbitrate_core {core core' : SafetyCore K} {input : SafetyInput K} {predRob : List (Flt K)}
    {fired : Option (ℕ × OnUncertain)} {v : SafetyVerdict K}
    (h : core.arbitrate input predRob fired = .ok (core', v)) :
    ∃ a b, core' = core.withHold a b := by
  unfold arbitrate at h
  obtain ⟨hit, -, h⟩ := bind_eq_ok.1 h
  split at h
  · exact emitBackup_core h
  · split at h
    · exact emitBackup_core h
    · exact gateAndShield_core h

/-- Whether a tick passes the watchdog and the input checks, and so reaches the monitors. -/
def passes (core : SafetyCore K) (input : SafetyInput K) (forceWatchdog : Bool) : Bool :=
  !forceWatchdog && core.goodSignals input && core.goodState input && core.goodCommand input

/-- The monitors after one sample of the signals. -/
def advance (core : SafetyCore K) (signals : List (Flt K)) :
    Except Panic (List (Monitor K)) := do
  let predRob ← core.predicates signals
  let (monitors, _) ← stepMonitors predRob core.cfg.predictiveHorizonSamples core.monitors 0
  return monitors

/-- A tick that passes the checks advances the monitors by its sample, any other tick leaves them
    alone, and nothing else of the core changes but the hold anchor. -/
theorem decide_cases {core core' : SafetyCore K} {input : SafetyInput K} {fw : Bool}
    {v : SafetyVerdict K} (h : core.decide input fw = .ok (core', v)) :
    (core.passes input fw = false ∧ ∃ a b, core' = core.withHold a b) ∨
      core.passes input fw = true ∧ ∃ monitors, core.advance input.signals = .ok monitors ∧
        ∃ a b, core' = { core with monitors := monitors }.withHold a b := by
  unfold SafetyCore.decide at h
  cases fw with
  | true =>
    rw [if_pos rfl] at h
    exact .inl ⟨rfl, emitWatchdog_core h⟩
  | false =>
    rw [if_neg (by simp)] at h
    by_cases hbad : (!core.goodSignals input || !core.goodState input ||
        !core.goodCommand input) = true
    · rw [if_pos hbad] at h
      refine .inl ⟨?_, emitBackup_core h⟩
      unfold passes
      revert hbad
      cases core.goodSignals input <;> cases core.goodState input <;>
        cases core.goodCommand input <;> simp
    · rw [if_neg hbad] at h
      obtain ⟨predRob, hpred, h⟩ := bind_eq_ok.1 h
      obtain ⟨⟨monitors, fired⟩, hmon, h⟩ := bind_eq_ok.1 h
      refine .inr ⟨?_, monitors, ?_, arbitrate_core h⟩
      · unfold passes
        revert hbad
        cases core.goodSignals input <;> cases core.goodState input <;>
          cases core.goodCommand input <;> simp
      · simp only [advance, bind_eq_ok]
        exact ⟨predRob, hpred, ⟨monitors, fired⟩, hmon, rfl⟩

/-- Whether a tick reaches the monitors. -/
def reaches (core : SafetyCore K) (t : Tick K) : Bool :=
  core.passes t.1 (t.2 = .forced)

/-- `decide_cases` for every kind of tick. -/
theorem tick_cases {core core' : SafetyCore K} {t : Tick K} {v : SafetyVerdict K}
    (h : core.tick t = .ok (core', v)) :
    (core.reaches t = false ∧ ∃ a b, core' = core.withHold a b) ∨
      core.reaches t = true ∧ ∃ monitors, core.advance t.1.signals = .ok monitors ∧
        ∃ a b, core' = { core with monitors := monitors }.withHold a b := by
  unfold tick at h
  unfold reaches
  obtain ⟨input, w⟩ := t
  cases w with
  | idle => exact decide_cases h
  | forced => exact decide_cases h
  | expired =>
    obtain ⟨⟨core₁, v₁⟩, hd, h⟩ := bind_eq_ok.1 h
    obtain ⟨a', b', rfl⟩ := emitWatchdog_core h
    obtain ⟨hp, a, b, rfl⟩ | ⟨hp, ms, hadv, a, b, rfl⟩ := decide_cases hd
    · exact .inl ⟨hp, a', b', rfl⟩
    · exact .inr ⟨hp, ms, hadv, a', b', rfl⟩

/-! ## What no tick changes -/

/-- Two cores that differ in the monitors and the hold anchor only. -/
structure SameStatic (core core' : SafetyCore K) : Prop where
  model : core'.model = core.model
  cfg : core'.cfg = core.cfg
  dim : core'.dim = core.dim
  shield : core'.shield = core.shield
  backup : core'.backup = core.backup
  scalarOffset : core'.scalarOffset = core.scalarOffset

omit [Field K] [LinearOrder K] [HasSqrt K] in
theorem SameStatic.trans {a b c : SafetyCore K} (h : SameStatic a b) (h' : SameStatic b c) :
    SameStatic a c :=
  ⟨h'.model.trans h.model, h'.cfg.trans h.cfg, h'.dim.trans h.dim, h'.shield.trans h.shield,
    h'.backup.trans h.backup, h'.scalarOffset.trans h.scalarOffset⟩

theorem decide_static {core core' : SafetyCore K} {input : SafetyInput K} {fw : Bool}
    {v : SafetyVerdict K} (h : core.decide input fw = .ok (core', v)) : SameStatic core core' := by
  obtain ⟨-, a, b, rfl⟩ | ⟨-, ms, -, a, b, rfl⟩ := decide_cases h
  · exact ⟨rfl, rfl, rfl, rfl, rfl, rfl⟩
  · exact ⟨rfl, rfl, rfl, rfl, rfl, rfl⟩

theorem tick_static {core core' : SafetyCore K} {t : Tick K} {v : SafetyVerdict K}
    (h : core.tick t = .ok (core', v)) : SameStatic core core' := by
  obtain ⟨-, a, b, rfl⟩ | ⟨-, ms, -, a, b, rfl⟩ := tick_cases h
  · exact ⟨rfl, rfl, rfl, rfl, rfl, rfl⟩
  · exact ⟨rfl, rfl, rfl, rfl, rfl, rfl⟩

theorem run_static {ticks : List (Tick K)} {core core' : SafetyCore K}
    {vs : List (SafetyVerdict K)} (h : core.run ticks = .ok (core', vs)) :
    SameStatic core core' := by
  induction ticks generalizing core vs with
  | nil =>
    cases h
    exact ⟨rfl, rfl, rfl, rfl, rfl, rfl⟩
  | cons t ts ih =>
    simp only [run, bind_eq_ok] at h
    obtain ⟨⟨core₁, v⟩, hd, ⟨core₂, vs'⟩, hr, h⟩ := h
    cases h
    exact (tick_static hd).trans (ih hr)

/-- Two runs in a row are one run. -/
theorem run_append {ticks ticks' : List (Tick K)} {core core₁ core' : SafetyCore K}
    {vs vs' : List (SafetyVerdict K)} (h : core.run ticks = .ok (core₁, vs))
    (h' : core₁.run ticks' = .ok (core', vs')) :
    core.run (ticks ++ ticks') = .ok (core', vs ++ vs') := by
  induction ticks generalizing core vs with
  | nil =>
    cases h
    exact h'
  | cons t ts ih =>
    simp only [run, bind_eq_ok] at h
    obtain ⟨⟨core₂, v⟩, hd, ⟨core₃, vs₁⟩, hr, h⟩ := h
    cases h
    exact bind_eq_ok.2 ⟨_, hd, bind_eq_ok.2 ⟨_, ih hr, rfl⟩⟩

/-! ## When the core answers with a fallback -/

/-- No scalar bound and no monitor fires on the signals. -/
def Clear (core : SafetyCore K) (signals : List (Flt K)) : Prop :=
  ∃ predRob monitors, core.predicates signals = .ok predRob ∧
    stepMonitors predRob core.cfg.predictiveHorizonSamples core.monitors 0 =
      .ok (monitors, none) ∧
    scalarHit predRob core.model.scalarBounds 0 = .ok none

/-- The action gate admits the directive, or the shield certifies the command. -/
def Admits (core : SafetyCore K) (input : SafetyInput K) : Prop :=
  match input.proposed.controlMode with
  | none => core.cfg.actionPolicy.admits input.proposed = true
  | some mode => ∀ shield, core.shield = some shield → ∃ out,
      shield.solveMode mode input.position input.velocity input.proposed.setpoint = .ok out ∧
        out.certified = true

theorem emitBackup_verdict {core core' : SafetyCore K} {input : SafetyInput K} {kind : BackupKind}
    {reason : Reason} {fired : List ℕ} {minH : Flt K} {v : SafetyVerdict K}
    (h : core.emitBackup input kind reason fired minH = .ok (core', v)) :
    v.intervention = .fallback ∧ v.certifiedMode = core.fallbackMode input := by
  obtain ⟨a, b, hlatch⟩ := latchHold_eq core input kind
  simp only [emitBackup, bind_eq_ok] at h
  obtain ⟨action, -, h⟩ := h
  cases h
  rw [hlatch]
  exact ⟨rfl, rfl⟩

theorem emitWatchdog_verdict {core core' : SafetyCore K} {input : SafetyInput K}
    {v : SafetyVerdict K} (h : core.emitWatchdog input = .ok (core', v)) :
    v.intervention = .fallback ∧ v.certifiedMode = core.fallbackMode input := by
  simp only [emitWatchdog, bind_eq_ok] at h
  obtain ⟨action, -, h⟩ := h
  cases h
  exact ⟨rfl, rfl⟩

omit [Field K] [LinearOrder K] [HasSqrt K] in
theorem certifiedVerdict_ne_fallback (action : List (Flt K)) (mode : ControlMode) (modified : Bool)
    (minH : Flt K) : (certifiedVerdict action mode modified minH).intervention ≠ .fallback := by
  unfold certifiedVerdict
  cases modified <;> simp

/-- A verdict is a fallback, in the fallback mode of the input, exactly when `p` fails. -/
def Answers (core : SafetyCore K) (input : SafetyInput K) (p : Prop) (v : SafetyVerdict K) : Prop :=
  (v.intervention = .fallback ↔ ¬ p) ∧
    (v.intervention = .fallback → v.certifiedMode = core.fallbackMode input)

omit [Field K] [LinearOrder K] [HasSqrt K] in
theorem answers_backup {core : SafetyCore K} {input : SafetyInput K} {p : Prop}
    {v : SafetyVerdict K}
    (h : v.intervention = .fallback ∧ v.certifiedMode = core.fallbackMode input) (hp : ¬ p) :
    core.Answers input p v := ⟨iff_of_true h.1 hp, fun _ => h.2⟩

omit [Field K] [LinearOrder K] [HasSqrt K] in
theorem answers_certified {core : SafetyCore K} {input : SafetyInput K} {p : Prop}
    {v : SafetyVerdict K} (h : v.intervention ≠ .fallback) (hp : p) : core.Answers input p v :=
  ⟨iff_of_false h (not_not.mpr hp), fun h' => absurd h' h⟩

theorem gateAndShield_answers {core core' : SafetyCore K} {input : SafetyInput K}
    {v : SafetyVerdict K} (h : core.gateAndShield input = .ok (core', v)) :
    core.Answers input (core.Admits input) v := by
  unfold gateAndShield at h
  unfold Admits
  cases hmode : input.proposed.controlMode with
  | none =>
    rw [hmode] at h
    dsimp only at h ⊢
    split_ifs at h with hadmits
    · cases h
      exact answers_certified (certifiedVerdict_ne_fallback _ _ _ _) hadmits
    · exact answers_backup (emitBackup_verdict h) hadmits
  | some mode =>
    rw [hmode] at h
    dsimp only at h ⊢
    cases hshield : core.shield with
    | none =>
      rw [hshield] at h
      cases h
      exact answers_certified (certifiedVerdict_ne_fallback _ _ _ _) (by rintro s ⟨⟩)
    | some shield =>
      rw [hshield] at h
      obtain ⟨out, hout, h⟩ := bind_eq_ok.1 h
      split_ifs at h with hcert
      · cases h
        refine answers_certified (certifiedVerdict_ne_fallback _ _ _ _) ?_
        rintro _ ⟨⟩
        exact ⟨out, hout, hcert⟩
      · refine answers_backup (emitBackup_verdict h) fun hall => ?_
        obtain ⟨out', hout', hcert'⟩ := hall shield rfl
        rw [hout] at hout'
        cases hout'
        exact hcert hcert'

/-- A tick is answered with a fallback exactly when the watchdog expires, an input check fails, a
    bound or monitor fires, or the gate or the shield refuses the proposal. -/
theorem tick_answers {core core' : SafetyCore K} {t : Tick K} {v : SafetyVerdict K}
    (h : core.tick t = .ok (core', v)) :
    core.Answers t.1 (t.2 = .idle ∧ core.passes t.1 false = true ∧ core.Clear t.1.signals ∧
      core.Admits t.1) v := by
  obtain ⟨input, w⟩ := t
  cases w with
  | forced => exact answers_backup (emitWatchdog_verdict h) (by simp)
  | expired =>
    obtain ⟨⟨core₁, v₁⟩, hd, h⟩ := bind_eq_ok.1 h
    obtain ⟨hfall, hmode⟩ := emitWatchdog_verdict h
    have hcfg := (decide_static hd).cfg
    refine answers_backup ⟨hfall, ?_⟩ (by simp)
    rw [hmode]
    unfold fallbackMode
    rw [hcfg]
  | idle =>
    change core.decide input false = .ok (core', v) at h
    unfold SafetyCore.decide at h
    rw [if_neg (by simp)] at h
    cases hpass : core.passes input false with
    | false =>
      rw [if_pos] at h
      · exact answers_backup (emitBackup_verdict h) (by simp)
      · unfold passes at hpass
        revert hpass
        cases core.goodSignals input <;> cases core.goodState input <;>
          cases core.goodCommand input <;> simp
    | true =>
      rw [if_neg] at h
      · obtain ⟨predRob, hpred, h⟩ := bind_eq_ok.1 h
        obtain ⟨⟨monitors, fired⟩, hmon, h⟩ := bind_eq_ok.1 h
        unfold arbitrate at h
        obtain ⟨hit, hhit, h⟩ := bind_eq_ok.1 h
        -- the detect layer is clear when neither a bound nor a monitor has fired
        have hclear : core.Clear input.signals ↔ hit = none ∧ fired = none := by
          constructor
          · rintro ⟨predRob', monitors', hpred', hmon', hhit'⟩
            obtain rfl := Except.ok.inj (hpred.symm.trans hpred')
            have hm := Except.ok.inj (hmon.symm.trans hmon')
            exact ⟨Except.ok.inj (hhit.symm.trans hhit'), (Prod.mk.inj hm).2⟩
          · rintro ⟨rfl, rfl⟩
            exact ⟨predRob, monitors, hpred, hmon, hhit⟩
        rw [hclear]
        cases hit with
        | some hit =>
          have hv := emitBackup_verdict h
          exact answers_backup hv (by simp)
        | none =>
          cases fired with
          | some fired =>
            have hv := emitBackup_verdict h
            exact answers_backup hv (by simp)
          | none =>
            obtain ⟨hiff, hmode⟩ := gateAndShield_answers h
            refine ⟨hiff.trans (not_congr ?_), hmode⟩
            exact ⟨fun ha => ⟨rfl, rfl, ⟨rfl, rfl⟩, ha⟩, fun ha => ha.2.2.2⟩
      · unfold passes at hpass
        revert hpass
        cases core.goodSignals input <;> cases core.goodState input <;>
          cases core.goodCommand input <;> simp

end SafetyCore

end Numbers

end AstroMine.Guard
