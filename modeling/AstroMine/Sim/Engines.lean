import Mathlib.Algebra.Order.Field.Basic
import AstroMine.Core.Units
import AstroMine.Lib.Dict
import AstroMine.Lib.Flt

/-!
# Regime engines and the coupling state they exchange

The part of `sim/engines` the coupler drives: the state samples of the messages, the coupling
state, and an engine as every module of `sim/engines` writes it, namely the integration states of
its agents in insertion order and its elapsed time. What differs between the engines (how they
integrate, sample and overwrite one agent's state) is a field of `EngineKind`, with what
`adapter.py` says of it; `kinematicKind` is the reference engine. Times and lengths are exact
numbers of an ordered field.

Results:
* `SubEngine.get?_byAgent_export`: what an engine exports for one agent.
* `SubEngine.get?_states_import`: what an import does to one agent.
-/

namespace AstroMine.Sim

open AstroMine.Core

/-! ## Messages -/

/-- `Vec3` (`core/messages/model.py`, lines 70–73). -/
@[ext]
structure Vec3 (K : Type) where
  x : K
  y : K
  z : K
  deriving DecidableEq

/-- `Quat`, scalar last (lines 76–82). -/
structure Quat (K : Type) where
  x : K
  y : K
  z : K
  w : K
  deriving DecidableEq

/-- `Transform` (lines 85–89). -/
structure Transform (K : Type) where
  translationM : Vec3 K
  rotationQuatXyzw : Quat K
  deriving DecidableEq

/-- `StateSample` (`core/messages/model.py`, lines 122–134). -/
structure StateSample (K : Type) where
  agentId : String
  frame : ReferenceFrame
  pose : Transform K
  linearVelocityMps : Option (Vec3 K) := none
  angularVelocityRps : Option (Vec3 K) := none
  batterySocJ : Option K := none
  temperatureK : Option K := none
  mode : Option String := none
  deriving DecidableEq

/-- `CouplingState` (`sim/engines/adapter.py`, lines 124–157). -/
structure CouplingState (K : Type) where
  simTimeS : K
  samples : List (StateSample K)
  excavatedKg : Dict String K := .empty

/-- `CouplingState.by_agent` (lines 154–157). -/
def CouplingState.byAgent {K : Type} (state : CouplingState K) : Dict String (StateSample K) :=
  .ofList (state.samples.map fun s => (s.agentId, s))

/-! ## Engines -/

/-- What an engine class does with the states `σ` of its agents. `ρ` is what the engines share
(the random streams). The laws are those of the adapter: an engine advances exactly the agents it
has, samples carry their agent's id, and an import is the inverse of an export. -/
structure EngineKind (K σ ρ : Type) where
  integrate : K → Dict String σ → ρ → Dict String σ × ρ
  sample : String → σ → StateSample K
  importSample : σ → StateSample K → σ
  excavated : String → σ → Option K
  keys_integrate : ∀ dt states r, (integrate dt states r).1.keys = states.keys
  sample_agentId : ∀ a st, (sample a st).agentId = a
  importSample_sample : ∀ a st, importSample st (sample a st) = st

/-- An engine: its class, the states of its agents, and its elapsed time. -/
structure SubEngine (K σ ρ : Type) where
  kind : EngineKind K σ ρ
  states : Dict String σ
  elapsedS : K

namespace SubEngine

variable {K σ ρ : Type}

/-- `advance` (`reference.py`, lines 137–145): the clock, then every agent. -/
def advance [Add K] (e : SubEngine K σ ρ) (dt : K) (r : ρ) : SubEngine K σ ρ × ρ :=
  let (states, r₁) := e.kind.integrate dt e.states r
  ({ e with elapsedS := e.elapsedS + dt, states := states }, r₁)

/-- `export_coupling_state` (`reference.py`, lines 147–151; with the excavated mass of
`granular.py`, lines 153–161). -/
def exportCouplingState (e : SubEngine K σ ρ) : CouplingState K where
  simTimeS := e.elapsedS
  samples := e.states.entries.map fun p => e.kind.sample p.1 p.2
  excavatedKg := .ofList (e.states.entries.filterMap fun p =>
    (e.kind.excavated p.1 p.2).map fun m => (p.1, m))

/-- `import_coupling_state` (`reference.py`, lines 153–174). -/
def importCouplingState (e : SubEngine K σ ρ) (state : CouplingState K) : SubEngine K σ ρ where
  kind := e.kind
  states := e.states.mapWithKey fun aid current =>
    match state.byAgent.get? aid with
    | none => current
    | some sample => e.kind.importSample current sample
  elapsedS := state.simTimeS

/-- The agents an engine has. -/
def agents (e : SubEngine K σ ρ) : List String := e.states.keys

@[simp]
theorem agents_advance [Add K] (e : SubEngine K σ ρ) (dt : K) (r : ρ) :
    (e.advance dt r).1.agents = e.agents :=
  e.kind.keys_integrate dt e.states r

@[simp]
theorem elapsedS_advance [Add K] (e : SubEngine K σ ρ) (dt : K) (r : ρ) :
    (e.advance dt r).1.elapsedS = e.elapsedS + dt := rfl

@[simp]
theorem agents_importCouplingState (e : SubEngine K σ ρ) (state : CouplingState K) :
    (e.importCouplingState state).agents = e.agents :=
  Dict.keys_mapWithKey _ _

@[simp]
theorem elapsedS_importCouplingState (e : SubEngine K σ ρ) (state : CouplingState K) :
    (e.importCouplingState state).elapsedS = state.simTimeS := rfl

@[simp]
theorem kind_importCouplingState (e : SubEngine K σ ρ) (state : CouplingState K) :
    (e.importCouplingState state).kind = e.kind := rfl

/-- An export holds one sample of every agent of the engine. -/
theorem get?_byAgent_export (e : SubEngine K σ ρ) (a : String) :
    e.exportCouplingState.byAgent.get? a = (e.states.get? a).map (e.kind.sample a) := by
  have hkeys : ∀ p ∈ (e.states.entries.map fun p => e.kind.sample p.1 p.2).map
      (fun s => (s.agentId, s)), ∃ q ∈ e.states.entries, p = (q.1, e.kind.sample q.1 q.2) := by
    intro p hp
    obtain ⟨s, hs, rfl⟩ := List.mem_map.mp hp
    obtain ⟨q, hq, rfl⟩ := List.mem_map.mp hs
    exact ⟨q, hq, by rw [e.kind.sample_agentId]⟩
  rw [CouplingState.byAgent, exportCouplingState]
  cases ha : e.states.get? a with
  | none =>
    rw [Option.map_none]
    apply Dict.get?_ofList_eq_none
    intro p hp hpa
    obtain ⟨q, hq, rfl⟩ := hkeys p hp
    have hq' := (Dict.get?_eq_some_iff e.states q.1 q.2).mpr hq
    rw [hpa, ha] at hq'
    cases hq'
  | some st =>
    rw [Option.map_some]
    apply Dict.get?_ofList_of_forall
    · have hm := (Dict.get?_eq_some_iff e.states a st).mp ha
      refine List.mem_map.mpr ⟨e.kind.sample a st, List.mem_map.mpr ⟨(a, st), hm, rfl⟩, ?_⟩
      rw [e.kind.sample_agentId]
    · intro p hp hpa
      obtain ⟨q, hq, rfl⟩ := hkeys p hp
      have hq' := (Dict.get?_eq_some_iff e.states q.1 q.2).mpr hq
      rw [hpa, ha] at hq'
      obtain rfl := Option.some.inj hq'
      rw [hpa]

/-- An import overwrites the agents it names, each from its own sample. -/
theorem get?_states_import (e : SubEngine K σ ρ) (state : CouplingState K) (a : String) :
    (e.importCouplingState state).states.get? a =
      (e.states.get? a).map fun st =>
        match state.byAgent.get? a with
        | none => st
        | some s => e.kind.importSample st s :=
  Dict.get?_mapWithKey _ _ _

theorem mem_agents (e : SubEngine K σ ρ) (a : String) :
    a ∈ e.agents ↔ (e.states.get? a).isSome :=
  Dict.mem_keys e.states a

end SubEngine

/-! ## The reference engine -/

section Kinematic

variable {K : Type} [Field K] [LinearOrder K]

/-- `_RoverState` (`reference.py`, lines 62–95); the agent's id is the key of its entry. -/
structure RoverState (K : Type) where
  frame : ReferenceFrame
  positionM : Vec3 K
  velocityMps : Vec3 K
  batterySocJ : K
  batteryFloorJ : K
  mode : Option String

/-- `_IDENTITY_QUAT` (line 43). -/
def identityQuat : Quat K := ⟨0, 0, 0, 1⟩

/-- `_JITTER_M` (line 46). -/
def jitterM : K := 1 / 100

/-- `_BATTERY_DRAW_W` (line 48). -/
def batteryDrawW : K := 1

/-- `_RoverState.sample` (lines 76–95). -/
def RoverState.sample (aid : String) (st : RoverState K) : StateSample K where
  agentId := aid
  frame := st.frame
  pose := ⟨st.positionM, identityQuat⟩
  linearVelocityMps := some st.velocityMps
  batterySocJ := some st.batterySocJ
  mode := st.mode

/-- The body of `KinematicEngine.advance` for one agent (lines 139–145); `uniform` draws from the
agent's random stream. -/
def RoverState.advance {ρ : Type} (uniform : ρ → String → K → K → K × ρ) (dt : K) (aid : String)
    (st : RoverState K) (r : ρ) : RoverState K × ρ :=
  let (jx, r₁) := uniform r aid (-jitterM) jitterM
  let (jy, r₂) := uniform r₁ aid (-jitterM) jitterM
  let (jz, r₃) := uniform r₂ aid (-jitterM) jitterM
  let drained := st.batterySocJ - batteryDrawW * dt
  ({ st with
      positionM := ⟨st.positionM.x + st.velocityMps.x * dt + jx,
        st.positionM.y + st.velocityMps.y * dt + jy, st.positionM.z + st.velocityMps.z * dt + jz⟩
      batterySocJ := max st.batteryFloorJ drained }, r₃)

/-- The body of `KinematicEngine.import_coupling_state` for one agent (lines 158–173). -/
def RoverState.importSample (current : RoverState K) (sample : StateSample K) : RoverState K where
  frame := current.frame
  positionM := sample.pose.translationM
  velocityMps := sample.linearVelocityMps.getD current.velocityMps
  batterySocJ := sample.batterySocJ.getD current.batterySocJ
  batteryFloorJ := current.batteryFloorJ
  mode := sample.mode.or current.mode

/-- `KinematicEngine` (lines 98–178). -/
def kinematicKind {ρ : Type} (uniform : ρ → String → K → K → K × ρ) :
    EngineKind K (RoverState K) ρ where
  integrate dt states r := states.mapAccum (RoverState.advance uniform dt) r
  sample := RoverState.sample
  importSample := RoverState.importSample
  excavated _ _ := none
  keys_integrate _ _ _ := Dict.keys_mapAccum _ _ _
  sample_agentId _ _ := rfl
  importSample_sample _ st := by
    cases st with
    | mk frame p v soc floor mode => cases mode <;> rfl

end Kinematic

end AstroMine.Sim
