import Mathlib.Tactic.Ring
import AstroMine.Lib.Commute
import AstroMine.Lib.Instances
import AstroMine.Sim.Engines

/-!
# The multi-domain coupler (`sim/coupling/__init__.py`)

`CoupledEngine` advances its sub-engines over a macro step and then hands poses over the coupling
boundaries, one boundary after the other: each boundary exports its producer and its consumer,
bridges the producer's sample into the consumer's frame, and imports the pose at once.

A call that raises (`FrameBridgeError`) ends the run of the coupler: its result is the error.

Results:
* `exchangeBoundary_eq_ok`: what one boundary does.
* `layout_exchangeBoundary`, `keys_of_advance`: the labels and the agents of the sub-engines stay.
-/

namespace AstroMine.Sim

open AstroMine.Core
open scoped Numerals

variable {K σ ρ : Type}

/-! ## Frame bridges -/

section FrameBridges

variable [Field K] [LinearOrder K] [HasSqrt K]

/-- `FrameBridgeError` (`_frames.py`, lines 41–48): both frames and the epoch it names. -/
structure FrameBridgeError (K : Type) where
  source : String
  target : String
  tdbSeconds : K
  deriving DecidableEq

/-- `FrameBridge` (lines 51–66): a sample re-expressed in a frame at an epoch, the identity when
the frames already match. -/
structure FrameBridge (K : Type) where
  bridge : StateSample K → ReferenceFrame → Epoch K → Except (FrameBridgeError K) (StateSample K)
  bridge_self : ∀ s epoch, bridge s s.frame epoch = .ok s

/-- A row-major rotation (line 39). -/
structure Matrix3 (K : Type) where
  r0 : Vec3 K
  r1 : Vec3 K
  r2 : Vec3 K

/-- `_apply` (lines 132–138). -/
def applyRotation (rotation : Matrix3 K) (v : Vec3 K) : Vec3 K where
  x := rotation.r0.x * v.x + rotation.r0.y * v.y + rotation.r0.z * v.z
  y := rotation.r1.x * v.x + rotation.r1.y * v.y + rotation.r1.z * v.z
  z := rotation.r2.x * v.x + rotation.r2.y * v.y + rotation.r2.z * v.z

/-- `_matrix_to_quat` (lines 150–184). -/
def matrixToQuat (m : Matrix3 K) : Quat K :=
  let trace := m.r0.x + m.r1.y + m.r2.z
  if trace > 0 then
    let s := HasSqrt.sqrt (trace + 1) * 2
    ⟨(m.r2.y - m.r1.z) / s, (m.r0.z - m.r2.x) / s, (m.r1.x - m.r0.y) / s, 1 / 4 * s⟩
  else if m.r0.x > m.r1.y ∧ m.r0.x > m.r2.z then
    let s := HasSqrt.sqrt (1 + m.r0.x - m.r1.y - m.r2.z) * 2
    ⟨1 / 4 * s, (m.r0.y + m.r1.x) / s, (m.r0.z + m.r2.x) / s, (m.r2.y - m.r1.z) / s⟩
  else if m.r1.y > m.r2.z then
    let s := HasSqrt.sqrt (1 + m.r1.y - m.r0.x - m.r2.z) * 2
    ⟨(m.r0.y + m.r1.x) / s, 1 / 4 * s, (m.r1.z + m.r2.y) / s, (m.r0.z - m.r2.x) / s⟩
  else
    let s := HasSqrt.sqrt (1 + m.r2.z - m.r0.x - m.r1.y) * 2
    ⟨(m.r0.z + m.r2.x) / s, (m.r1.z + m.r2.y) / s, 1 / 4 * s, (m.r1.x - m.r0.y) / s⟩

/-- `_quat_multiply` (lines 187–194). -/
def quatMultiply (a b : Quat K) : Quat K where
  x := a.w * b.x + a.x * b.w + a.y * b.z - a.z * b.y
  y := a.w * b.y - a.x * b.z + a.y * b.w + a.z * b.x
  z := a.w * b.z + a.x * b.y - a.y * b.x + a.z * b.w
  w := a.w * b.w - a.x * b.x - a.y * b.y - a.z * b.z

/-- `SpiceFrameBridge` (lines 69–129); `frameTransform` is the rotation of the kernel pool, `none`
when the pool cannot resolve it. -/
def spiceFrameBridge
    (frameTransform : ReferenceFrame → ReferenceFrame → Epoch K → Option (Matrix3 K)) :
    FrameBridge K where
  bridge sample target epoch :=
    if sample.frame = target then .ok sample
    else match frameTransform sample.frame target epoch with
      | none => .error ⟨sample.frame.name, target.name, epoch.tdbSeconds⟩
      | some rotation => .ok { sample with
          frame := target
          pose := ⟨applyRotation rotation sample.pose.translationM,
            quatMultiply (matrixToQuat rotation) sample.pose.rotationQuatXyzw⟩
          linearVelocityMps := sample.linearVelocityMps.map (applyRotation rotation) }
  bridge_self _ _ := if_pos rfl

end FrameBridges

/-! ## The coupler -/

/-- `CouplingBoundary` (lines 100–114). -/
structure CouplingBoundary where
  name : String
  producer : String
  consumer : String
  agents : List String
  deriving DecidableEq

/-- `CouplingResidual` (lines 117–127). -/
structure CouplingResidual (K : Type) where
  boundary : String
  agentId : String
  positionResidualM : K
  deriving DecidableEq

/-- `CouplingSchedule` (lines 130–143). -/
structure CouplingSchedule where
  substeps : Dict String ℤ

/-- `CouplingSchedule.for_label`. -/
def CouplingSchedule.forLabel (s : CouplingSchedule) (label : String) : ℤ :=
  s.substeps.getD label 1

/-- What a call of the coupler raises. -/
inductive CouplerError (K : Type)
  | frameBridge (err : FrameBridgeError K)
  | unknownLabel (label : String)

/-- `CoupledEngine` (lines 146–190), with the `shared` state of its sub-engines. The constructor
refuses a boundary between unknown sub-engines and a sub-step count below one. -/
structure CoupledEngine (K σ ρ : Type) where
  engines : Dict String (SubEngine K σ ρ)
  boundaries : List CouplingBoundary
  schedule : CouplingSchedule
  frameBridge : FrameBridge K
  startEpoch : Epoch K
  elapsedS : K
  residuals : List (CouplingResidual K)
  shared : ρ
  labels_known : ∀ b ∈ boundaries, b.producer ∈ engines.keys ∧ b.consumer ∈ engines.keys
  one_le_substeps : ∀ label, 1 ≤ schedule.forLabel label

/-- One agent handed over a boundary: the producer's sample, the sample the consumer imports, and
the residual. -/
structure Handover (K : Type) where
  source : StateSample K
  handed : StateSample K
  residual : CouplingResidual K

/-- The import of what a boundary hands over, if anything, by its consumer (lines 303–306). -/
def importHandovers (clock : K) (engines : Dict String (SubEngine K σ ρ)) (b : CouplingBoundary)
    (hs : List (Handover K)) : Dict String (SubEngine K σ ρ) :=
  if hs.isEmpty then engines
  else engines.mapWithKey fun label e =>
    if label = b.consumer then
      e.importCouplingState { simTimeS := clock, samples := hs.map Handover.handed }
    else e

/-! ## Labels, agents and samples -/

/-- The labels of the sub-engines in order, each with its agents in order. -/
def layout (engines : Dict String (SubEngine K σ ρ)) : Dict String (List String) :=
  engines.mapValues SubEngine.agents

/-- The sample the sub-engine `label` exports for an agent. -/
def sampleAt (engines : Dict String (SubEngine K σ ρ)) (label a : String) :
    Option (StateSample K) :=
  (engines.get? label).bind fun e => e.exportCouplingState.byAgent.get? a

/-- The agents a sub-engine of the layout has. -/
def agentsOf (lay : Dict String (List String)) (label : String) : List String :=
  lay.getD label []

theorem sampleAt_isSome_iff (engines : Dict String (SubEngine K σ ρ)) (label a : String) :
    (sampleAt engines label a).isSome ↔ a ∈ agentsOf (layout engines) label := by
  rw [sampleAt, agentsOf, Dict.getD, layout, Dict.get?_mapValues]
  cases engines.get? label with
  | none => simp
  | some e => simp [SubEngine.get?_byAgent_export, SubEngine.mem_agents]

theorem agentId_of_sampleAt {engines : Dict String (SubEngine K σ ρ)} {label a : String}
    {s : StateSample K} (h : sampleAt engines label a = some s) : s.agentId = a := by
  obtain ⟨e, -, he⟩ := Option.bind_eq_some_iff.mp h
  rw [SubEngine.get?_byAgent_export] at he
  obtain ⟨st, -, rfl⟩ := Option.map_eq_some_iff.mp he
  exact e.kind.sample_agentId a st

theorem get?_importHandovers (clock : K) (engines : Dict String (SubEngine K σ ρ))
    (b : CouplingBoundary) (hs : List (Handover K)) (label : String) :
    (importHandovers clock engines b hs).get? label =
      (engines.get? label).map fun e =>
        if label = b.consumer ∧ hs ≠ [] then
          e.importCouplingState { simTimeS := clock, samples := hs.map Handover.handed }
        else e := by
  rw [importHandovers]
  cases hs with
  | nil => simp
  | cons h hs =>
    rw [if_neg (by simp), Dict.get?_mapWithKey]
    simp

@[simp]
theorem keys_importHandovers (clock : K) (engines : Dict String (SubEngine K σ ρ))
    (b : CouplingBoundary) (hs : List (Handover K)) :
    (importHandovers clock engines b hs).keys = engines.keys := by
  rw [importHandovers]
  split_ifs
  · rfl
  · exact Dict.keys_mapWithKey _ _

@[simp]
theorem layout_importHandovers (clock : K) (engines : Dict String (SubEngine K σ ρ))
    (b : CouplingBoundary) (hs : List (Handover K)) :
    layout (importHandovers clock engines b hs) = layout engines := by
  apply Dict.ext_get?
  · rw [layout, layout, Dict.keys_mapValues, Dict.keys_mapValues, keys_importHandovers]
  · intro label
    rw [layout, layout, Dict.get?_mapValues, Dict.get?_mapValues, get?_importHandovers,
      Option.map_map]
    congr 1
    funext e
    show SubEngine.agents (if _ then _ else _) = e.agents
    split_ifs
    · exact SubEngine.agents_importCouplingState _ _
    · rfl

namespace CoupledEngine

/-- Why `__init__` refuses (lines 164, 177–189). -/
inductive InitError
  | noSubEngines
  | boundaryLabel (boundary label : String)
  | scheduleLabel (label : String)
  | substepCount (label : String) (count : ℤ)
  deriving DecidableEq

/-- The first refusal of `__init__` (lines 163–187). -/
def initError (engines : Dict String (SubEngine K σ ρ)) (boundaries : List CouplingBoundary)
    (schedule : CouplingSchedule) : Option InitError :=
  if engines.entries.isEmpty then some .noSubEngines
  else
    (boundaries.findSome? fun b => [b.producer, b.consumer].findSome? fun label =>
      if label ∈ engines.keys then none else some (.boundaryLabel b.name label)).or
    (schedule.substeps.entries.findSome? fun p =>
      if p.1 ∉ engines.keys then some (.scheduleLabel p.1)
      else if p.2 < 1 then some (.substepCount p.1 p.2)
      else none)

theorem one_le_forLabel_of_initError {engines : Dict String (SubEngine K σ ρ)}
    {boundaries : List CouplingBoundary} {schedule : CouplingSchedule}
    (h : initError engines boundaries schedule = none) (label : String) :
    1 ≤ schedule.forLabel label := by
  rw [initError] at h
  split_ifs at h
  rw [Option.or_eq_none_iff] at h
  rw [CouplingSchedule.forLabel, Dict.getD]
  cases hl : schedule.substeps.get? label with
  | none => exact le_rfl
  | some n =>
    have hm := (Dict.get?_eq_some_iff _ _ _).mp hl
    have hn := List.findSome?_eq_none_iff.mp h.2 _ hm
    simp only at hn
    split_ifs at hn with hk hlt
    exact not_lt.mp hlt

theorem labels_known_of_initError {engines : Dict String (SubEngine K σ ρ)}
    {boundaries : List CouplingBoundary} {schedule : CouplingSchedule}
    (h : initError engines boundaries schedule = none) (b : CouplingBoundary)
    (hb : b ∈ boundaries) : b.producer ∈ engines.keys ∧ b.consumer ∈ engines.keys := by
  rw [initError] at h
  split_ifs at h
  rw [Option.or_eq_none_iff] at h
  have hn := List.findSome?_eq_none_iff.mp h.1 b hb
  have hknown : ∀ label ∈ [b.producer, b.consumer], label ∈ engines.keys := by
    intro label hl
    have hl' := List.findSome?_eq_none_iff.mp hn label hl
    simpa using hl'
  exact ⟨hknown _ (by simp), hknown _ (by simp)⟩

/-- `CoupledEngine.__init__` (lines 155–190). -/
def init [Zero K] (engines : Dict String (SubEngine K σ ρ)) (boundaries : List CouplingBoundary)
    (schedule : CouplingSchedule) (frameBridge : FrameBridge K) (startEpoch : Epoch K)
    (shared : ρ) : Except InitError (CoupledEngine K σ ρ) :=
  match h : initError engines boundaries schedule with
  | some err => .error err
  | none => .ok
    { engines := engines
      boundaries := boundaries
      schedule := schedule
      frameBridge := frameBridge
      startEpoch := startEpoch
      elapsedS := 0
      residuals := []
      shared := shared
      labels_known := labels_known_of_initError h
      one_le_substeps := one_le_forLabel_of_initError h }

end CoupledEngine

/-! ## One step -/

variable [Field K]

/-- The sub-steps of one sub-engine (lines 221–224). -/
def SubEngine.advanceSteps (e : SubEngine K σ ρ) (h : K) : ℕ → ρ → SubEngine K σ ρ × ρ
  | 0, r => (e, r)
  | n + 1, r =>
    let (e₁, r₁) := e.advance h r
    e₁.advanceSteps h n r₁

theorem SubEngine.agents_advanceSteps (e : SubEngine K σ ρ) (h : K) (n : ℕ) (r : ρ) :
    (e.advanceSteps h n r).1.agents = e.agents := by
  induction n generalizing e r with
  | zero => rfl
  | succ n ih =>
    rw [SubEngine.advanceSteps, ih]
    exact e.agents_advance h r

theorem SubEngine.elapsedS_advanceSteps (e : SubEngine K σ ρ) (h : K) (n : ℕ) (r : ρ) :
    (e.advanceSteps h n r).1.elapsedS = e.elapsedS + n * h := by
  induction n generalizing e r with
  | zero => simp [SubEngine.advanceSteps]
  | succ n ih =>
    rw [SubEngine.advanceSteps, ih, SubEngine.elapsedS_advance]
    push_cast
    ring

/-- The sub-engines after the first loop of `advance` (lines 220–224). -/
def CoupledEngine.advanceEngines (C : CoupledEngine K σ ρ) (dt : K) :
    Dict String (SubEngine K σ ρ) × ρ :=
  C.engines.mapAccum (fun label e r =>
    let steps := C.schedule.forLabel label
    e.advanceSteps (dt / steps) steps.toNat r) C.shared

theorem CoupledEngine.layout_advanceEngines (C : CoupledEngine K σ ρ) (dt : K) :
    layout (C.advanceEngines dt).1 = layout C.engines := by
  have hkeys : (C.advanceEngines dt).1.keys = C.engines.keys := Dict.keys_mapAccum _ _ _
  apply Dict.ext_get?
  · rw [layout, layout, Dict.keys_mapValues, Dict.keys_mapValues, hkeys]
  · intro label
    rw [layout, layout, Dict.get?_mapValues, Dict.get?_mapValues]
    cases hw : (C.advanceEngines dt).1.get? label with
    | none =>
      have hn : C.engines.get? label = none := by
        rw [← Option.not_isSome_iff_eq_none, ← Dict.mem_keys, ← hkeys, Dict.mem_keys, hw]
        simp
      rw [hn]
    | some w =>
      obtain ⟨e, r, he, rfl⟩ := Dict.get?_mapAccum hw
      rw [he, Option.map_some, Option.map_some, SubEngine.agents_advanceSteps]

variable [HasSqrt K]

/-- `_vecmath.norm` of the difference (`_position_residual`, lines 338–341). -/
def positionResidual (consumer producer : StateSample K) : K :=
  let a := consumer.pose.translationM
  let b := producer.pose.translationM
  HasSqrt.sqrt ((a.x - b.x) * (a.x - b.x) + (a.y - b.y) * (a.y - b.y) +
    (a.z - b.z) * (a.z - b.z))

/-- The loop over a boundary's agents (lines 287–302). -/
def handovers (frameBridge : FrameBridge K) (epoch : Epoch K) (b : CouplingBoundary)
    (producer consumer : Dict String (StateSample K)) :
    List String → Except (CouplerError K) (List (Handover K))
  | [] => .ok []
  | a :: as =>
    match producer.get? a, consumer.get? a with
    | some src, some dst =>
      match frameBridge.bridge src dst.frame epoch with
      | .error err => .error (.frameBridge err)
      | .ok bridged => do
        let hs ← handovers frameBridge epoch b producer consumer as
        .ok (⟨src, { dst with pose := bridged.pose },
          ⟨b.name, a, positionResidual dst bridged⟩⟩ :: hs)
    | _, _ => handovers frameBridge epoch b producer consumer as

/-- One pass of the loop of `_exchange_boundaries` (lines 283–307). -/
def exchangeBoundary (frameBridge : FrameBridge K) (epoch : Epoch K) (clock : K)
    (engines : Dict String (SubEngine K σ ρ)) (b : CouplingBoundary) :
    Except (CouplerError K) (Dict String (SubEngine K σ ρ) × List (Handover K)) :=
  match engines.get? b.producer, engines.get? b.consumer with
  | some producer, some consumer => do
    let hs ← handovers frameBridge epoch b producer.exportCouplingState.byAgent
      consumer.exportCouplingState.byAgent b.agents
    .ok (importHandovers clock engines b hs, hs)
  | none, _ => .error (.unknownLabel b.producer)
  | some _, none => .error (.unknownLabel b.consumer)

namespace CoupledEngine

variable (C : CoupledEngine K σ ρ)

/-- The epoch the exchange of a step is resolved at (lines 280–283). -/
def exchangeEpoch (dt : K) : Epoch K where
  tdbSeconds := C.startEpoch.tdbSeconds + C.elapsedS + dt
  scale := C.startEpoch.scale

/-- `_exchange_boundaries` (lines 274–308): the sub-engines after it, and what each boundary
handed over. -/
def exchangeBoundaries (dt : K) (engines : Dict String (SubEngine K σ ρ))
    (boundaries : List CouplingBoundary) :
    Except (CouplerError K)
      (Dict String (SubEngine K σ ρ) × List (CouplingBoundary × List (Handover K))) :=
  runList (exchangeBoundary C.frameBridge (C.exchangeEpoch dt) C.elapsedS) engines boundaries

/-- The samples of a list, the first of each agent (lines 234–241). -/
def dedupSamples : List (StateSample K) → List String → List (StateSample K)
  | [], _ => []
  | s :: ss, seen =>
    if s.agentId ∈ seen then dedupSamples ss seen
    else s :: dedupSamples ss (s.agentId :: seen)

/-- `export_coupling_state` (lines 228–246). -/
def exportCouplingState : CouplingState K where
  simTimeS := C.elapsedS
  samples := dedupSamples (C.engines.entries.flatMap fun p => p.2.exportCouplingState.samples) []
  excavatedKg := .ofList (C.engines.entries.flatMap fun p =>
    p.2.exportCouplingState.excavatedKg.entries)

/-- `import_coupling_state` (lines 248–253). -/
def importCouplingState (state : CouplingState K) : CoupledEngine K σ ρ :=
  { C with
    engines := C.engines.mapValues fun e => e.importCouplingState state
    elapsedS := state.simTimeS
    labels_known := by
      rw [Dict.keys_mapValues]
      exact C.labels_known }

end CoupledEngine

/-! ## What one boundary does -/

theorem handovers_cons_eq_ok {frameBridge : FrameBridge K} {epoch : Epoch K}
    {b : CouplingBoundary} {producer consumer : Dict String (StateSample K)} {a : String}
    {as : List String} {hs : List (Handover K)} :
    handovers frameBridge epoch b producer consumer (a :: as) = .ok hs ↔
      ((producer.get? a = none ∨ consumer.get? a = none) ∧
        handovers frameBridge epoch b producer consumer as = .ok hs) ∨
      ∃ src dst bridged hs', producer.get? a = some src ∧ consumer.get? a = some dst ∧
        frameBridge.bridge src dst.frame epoch = .ok bridged ∧
        handovers frameBridge epoch b producer consumer as = .ok hs' ∧
        hs = ⟨src, { dst with pose := bridged.pose },
          ⟨b.name, a, positionResidual dst bridged⟩⟩ :: hs' := by
  rw [handovers]
  cases hp : producer.get? a with
  | none => simp
  | some src =>
    cases hc : consumer.get? a with
    | none => simp
    | some dst =>
      cases hb : frameBridge.bridge src dst.frame epoch with
      | error err => simp [hb]
      | ok bridged =>
        cases hr : handovers frameBridge epoch b producer consumer as with
        | error err => simp [hb, bind, Except.bind]
        | ok hs' => simp [hb, bind, Except.bind, eq_comm]

theorem exchangeBoundary_eq_ok {frameBridge : FrameBridge K} {epoch : Epoch K} {clock : K}
    {engines engines' : Dict String (SubEngine K σ ρ)} {b : CouplingBoundary}
    {hs : List (Handover K)} :
    exchangeBoundary frameBridge epoch clock engines b = .ok (engines', hs) ↔
      ∃ producer consumer, engines.get? b.producer = some producer ∧
        engines.get? b.consumer = some consumer ∧
        handovers frameBridge epoch b producer.exportCouplingState.byAgent
          consumer.exportCouplingState.byAgent b.agents = .ok hs ∧
        engines' = importHandovers clock engines b hs := by
  rw [exchangeBoundary]
  cases hp : engines.get? b.producer with
  | none => simp
  | some producer =>
    cases hc : engines.get? b.consumer with
    | none => simp
    | some consumer =>
      cases hh : handovers frameBridge epoch b producer.exportCouplingState.byAgent
          consumer.exportCouplingState.byAgent b.agents with
      | error err => simp [hh, bind, Except.bind]
      | ok hs' =>
        simp only [hh, bind, Except.bind, Except.ok.injEq, Prod.mk.injEq, Option.some.injEq,
          exists_eq_left', exists_and_left]
        constructor
        · rintro ⟨rfl, rfl⟩
          exact ⟨rfl, rfl⟩
        · rintro ⟨rfl, rfl⟩
          exact ⟨rfl, rfl⟩

theorem layout_exchangeBoundary {frameBridge : FrameBridge K} {epoch : Epoch K} {clock : K}
    {engines engines' : Dict String (SubEngine K σ ρ)} {b : CouplingBoundary}
    {hs : List (Handover K)}
    (h : exchangeBoundary frameBridge epoch clock engines b = .ok (engines', hs)) :
    layout engines' = layout engines := by
  obtain ⟨-, -, -, -, -, rfl⟩ := exchangeBoundary_eq_ok.1 h
  exact layout_importHandovers _ _ _ _

/-! ## A macro step -/

namespace CoupledEngine

variable (C : CoupledEngine K σ ρ)

theorem layout_exchangeBoundaries {dt : K} {engines engines' : Dict String (SubEngine K σ ρ)}
    {bs : List CouplingBoundary} {trace : List (CouplingBoundary × List (Handover K))}
    (h : C.exchangeBoundaries dt engines bs = .ok (engines', trace)) :
    layout engines' = layout engines := by
  refine runList_invariant (fun s => layout s = layout engines) ?_ _ _ _ rfl h
  intro b _ s s' hs hlay hstep
  exact (layout_exchangeBoundary hstep).trans hlay

theorem keys_of_advance {dt : K} {engines' : Dict String (SubEngine K σ ρ)}
    {trace : List (CouplingBoundary × List (Handover K))}
    (h : C.exchangeBoundaries dt (C.advanceEngines dt).1 C.boundaries = .ok (engines', trace)) :
    engines'.keys = C.engines.keys := by
  have hlay := (C.layout_exchangeBoundaries h).trans (C.layout_advanceEngines dt)
  rw [← Dict.keys_mapValues engines' SubEngine.agents, ← Dict.keys_mapValues C.engines
    SubEngine.agents]
  exact congrArg Dict.keys hlay

/-- `advance` (lines 217–226). -/
def advance (dt : K) : Except (CouplerError K) (CoupledEngine K σ ρ) :=
  match h : C.exchangeBoundaries dt (C.advanceEngines dt).1 C.boundaries with
  | .error err => .error err
  | .ok (engines, trace) => .ok
    { C with
      engines := engines
      shared := (C.advanceEngines dt).2
      residuals := trace.flatMap fun t => t.2.map Handover.residual
      elapsedS := C.elapsedS + dt
      labels_known := by
        rw [C.keys_of_advance h]
        exact C.labels_known }

end CoupledEngine

end AstroMine.Sim
