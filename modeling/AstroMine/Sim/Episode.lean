import Mathlib.Data.List.Nodup
import AstroMine.Sim.Engines

/-!
# An episode (`sim/runtime/episode.py`)

The simulator observes every agent its engine exports and then retires those whose battery is at
their floor, so that the tick at which an agent reaches its floor is the last one it reports. The
engine is any that keeps the laws of `RegimeEngine`; the power and thermal models and the policy
are any functions. Sensors, comms masks, logistics and ISRU do not touch the fields kept here.

Results:
* `SubEngine.regime`: the engines of `sim/engines` keep the laws.
* `Simulation.mem_agents_run_succ`: which agents an engine has after a step.
* `Simulation.mem_agents_frame_iff`: which agents report at a tick.
* `Simulation.isSome_battery_frame`: whether an agent reports a battery does not change in a run.
-/

namespace AstroMine.Sim

open AstroMine.Core

/-! ## Engines behind the adapter -/

/-- The agents of a list of samples. -/
def agentIds {K : Type} (samples : List (StateSample K)) : List String :=
  samples.map StateSample.agentId

/-- `RegimeEngine` (`sim/engines/adapter.py`, lines 158–199). `E` is the state of an engine with
the random streams it draws from, `α` a batch of actions. Commands and steps keep the agents, the
retired ones are not exported again, and whether an agent's samples carry a battery does not change
in a run. -/
structure RegimeEngine (E α K : Type) where
  applyActions : E → α → E
  advance : E → K → E
  samples : E → List (StateSample K)
  retire : E → List String → E
  reportsBattery : String → Bool
  nodup_samples : ∀ e, (agentIds (samples e)).Nodup
  agentIds_applyActions : ∀ e actions, agentIds (samples (applyActions e actions)) =
    agentIds (samples e)
  agentIds_advance : ∀ e dt, agentIds (samples (advance e dt)) = agentIds (samples e)
  agentIds_retire : ∀ e ids, agentIds (samples (retire e ids)) =
    (agentIds (samples e)).filter (· ∉ ids)
  isSome_battery : ∀ e, ∀ s ∈ samples e, s.batterySocJ.isSome = reportsBattery s.agentId

/-! ## The engines of `sim/engines` -/

section Engines

variable {K σ ρ α : Type}

/-- `retire` (`reference.py`, lines 176–178; the other engines have the same). -/
def SubEngine.retire (e : SubEngine K σ ρ) (ids : List String) : SubEngine K σ ρ :=
  { e with states := e.states.filterKeys (· ∉ ids) }

theorem SubEngine.agentIds_samples (e : SubEngine K σ ρ) :
    agentIds e.exportCouplingState.samples = e.agents := by
  rw [agentIds, exportCouplingState, List.map_map]
  exact List.map_congr_left fun p _ => e.kind.sample_agentId p.1 p.2

/-- An engine of one kind, behind the adapter. `actuate` applies a batch of actions to the state of
one agent. -/
def SubEngine.regime [Add K] (kind : EngineKind K σ ρ) (actuate : α → String → σ → σ)
    (reportsBattery : String → Bool)
    (hbattery : ∀ a st, (kind.sample a st).batterySocJ.isSome = reportsBattery a) :
    RegimeEngine ({e : SubEngine K σ ρ // e.kind = kind} × ρ) α K where
  applyActions e actions :=
    (⟨{ e.1.1 with states := e.1.1.states.mapWithKey (actuate actions) }, e.1.2⟩, e.2)
  advance e dt := (⟨(e.1.1.advance dt e.2).1, e.1.2⟩, (e.1.1.advance dt e.2).2)
  samples e := e.1.1.exportCouplingState.samples
  retire e ids := (⟨e.1.1.retire ids, e.1.2⟩, e.2)
  reportsBattery := reportsBattery
  nodup_samples e := by
    rw [SubEngine.agentIds_samples]
    exact e.1.1.states.nodup_keys
  agentIds_applyActions e actions := by
    rw [SubEngine.agentIds_samples, SubEngine.agentIds_samples]
    exact Dict.keys_mapWithKey _ _
  agentIds_advance e dt := by
    rw [SubEngine.agentIds_samples, SubEngine.agentIds_samples, SubEngine.agents_advance]
  agentIds_retire e ids := by
    rw [SubEngine.agentIds_samples, SubEngine.agentIds_samples]
    exact Dict.keys_filterKeys _ _
  isSome_battery e s hs := by
    obtain ⟨p, -, rfl⟩ := List.mem_map.mp hs
    rw [e.1.2, kind.sample_agentId]
    exact hbattery p.1 p.2

end Engines

/-! ## Power and thermal -/

/-- `PowerThermalState` (`sim/power_thermal`, lines 74–80). -/
structure PowerThermalState (K : Type) where
  socJ : K
  temperatureK : Option K

/-- A budgeted agent: its model's `step`, a function of the time, the step width and the sample,
and its state. -/
structure PowerThermal (K : Type) where
  step : K → K → StateSample K → PowerThermalState K → PowerThermalState K
  state : PowerThermalState K

variable {E α K : Type}

/-- `_apply_power_thermal` (`episode.py`, lines 447–477). -/
def applyPowerThermal (time dt : K) : List (StateSample K) → Dict String (PowerThermal K) →
    List (StateSample K) × Dict String (PowerThermal K)
  | [], power => ([], power)
  | sample :: samples, power =>
    match power.get? sample.agentId with
    | none =>
      let (evolved, power') := applyPowerThermal time dt samples power
      (sample :: evolved, power')
    | some model =>
      let state := model.step time dt sample model.state
      let (evolved, power') :=
        applyPowerThermal time dt samples (power.set sample.agentId { model with state := state })
      ({ sample with batterySocJ := some state.socJ, temperatureK := state.temperatureK } :: evolved,
        power')

theorem agentIds_applyPowerThermal (time dt : K) (samples : List (StateSample K))
    (power : Dict String (PowerThermal K)) :
    agentIds (applyPowerThermal time dt samples power).1 = agentIds samples := by
  induction samples generalizing power with
  | nil => rfl
  | cons sample samples ih =>
    rw [applyPowerThermal]
    cases power.get? sample.agentId with
    | none => exact congrArg (sample.agentId :: ·) (ih power)
    | some model => exact congrArg (sample.agentId :: ·) (ih _)

theorem keys_set_of_get? {power : Dict String (PowerThermal K)} {a : String}
    {model : PowerThermal K} (h : power.get? a = some model) (model' : PowerThermal K) :
    (power.set a model').keys = power.keys := by
  have hmem : a ∈ power.keys := by
    rw [Dict.mem_keys, h]
    rfl
  rw [Dict.set, Dict.keys_update, if_pos hmem]

/-- The budgeted agents stay the same. -/
theorem keys_applyPowerThermal (time dt : K) (samples : List (StateSample K))
    (power : Dict String (PowerThermal K)) :
    (applyPowerThermal time dt samples power).2.keys = power.keys := by
  induction samples generalizing power with
  | nil => rfl
  | cons sample samples ih =>
    rw [applyPowerThermal]
    cases hmodel : power.get? sample.agentId with
    | none => exact ih power
    | some model => exact (ih _).trans (keys_set_of_get? hmodel _)

/-- A budgeted agent has a battery; the others have one if their engine gives them one. -/
theorem isSome_battery_applyPowerThermal {time dt : K} {samples : List (StateSample K)}
    {power : Dict String (PowerThermal K)} {reports : String → Bool}
    (h : ∀ s ∈ samples, s.batterySocJ.isSome = reports s.agentId) :
    ∀ s ∈ (applyPowerThermal time dt samples power).1,
      s.batterySocJ.isSome = (reports s.agentId || decide (s.agentId ∈ power.keys)) := by
  induction samples generalizing power with
  | nil =>
    intro s hs
    cases hs
  | cons sample samples ih =>
    obtain ⟨hsample, hsamples⟩ := List.forall_mem_cons.mp h
    rw [applyPowerThermal]
    cases hmodel : power.get? sample.agentId with
    | none =>
      refine List.forall_mem_cons.mpr ⟨?_, ih hsamples⟩
      have hnot : sample.agentId ∉ power.keys := by
        rw [Dict.mem_keys, hmodel]
        exact Bool.false_ne_true
      rw [hsample, decide_eq_false hnot, Bool.or_false]
    | some model =>
      refine List.forall_mem_cons.mpr ⟨?_, fun s hs => ?_⟩
      · have hmem : sample.agentId ∈ power.keys := by
          rw [Dict.mem_keys, hmodel]
          rfl
        rw [decide_eq_true hmem, Bool.or_true]
        rfl
      · rw [ih hsamples s hs, keys_set_of_get? hmodel]

/-! ## The simulator -/

/-- The fields of `AgentSpec` that retirement reads (`sim/runtime/scenario.py`, lines 352–394). -/
structure AgentSpec (K : Type) where
  agentId : String
  batteryFloorJ : K

/-- `Scenario` (lines 397–430), with what it validates. -/
structure Scenario (K : Type) [Zero K] [LT K] where
  agents : List (AgentSpec K)
  dtS : K
  horizonSteps : ℕ
  agents_ne : agents ≠ []
  nodup_ids : (agents.map AgentSpec.agentId).Nodup
  dtS_pos : 0 < dtS
  horizonSteps_pos : 0 < horizonSteps

/-- An `Observation` (`core/messages/model.py`, lines 170–186), as `_observe` makes it. -/
structure Observation (K : Type) where
  tick : ℕ
  simTimeS : K
  agentId : String
  selfState : StateSample K

/-- What `Simulator(scenario)` is built from (`episode.py`, lines 100–206): the scenario, the engine
the factory makes for its agents, and the power and thermal models of the budgeted ones. -/
structure Simulation (E α K : Type) [Zero K] [LT K] where
  scenario : Scenario K
  engine : RegimeEngine E α K
  built : E
  agentIds_built : (agentIds (engine.samples built)).Perm (scenario.agents.map AgentSpec.agentId)
  power : Dict String (PowerThermal K) := .empty

/-- The mutable state of a `Simulator`. -/
structure SimState (E K : Type) where
  engine : E
  power : Dict String (PowerThermal K)
  active : List String
  tick : ℕ

namespace Simulation

variable [Field K] [LinearOrder K] (S : Simulation E α K)

/-- `sim_time_s` of a tick (`SimClock`). -/
def timeAt (tick : ℕ) : K := tick * S.scenario.dtS

/-- `_battery_floor` (line 154). -/
def batteryFloor : Dict String K :=
  .ofList (S.scenario.agents.map fun a => (a.agentId, a.batteryFloorJ))

/-- `_observe` (lines 286–314): the sample without the velocities, at the clock's tick. -/
def observe (tick : ℕ) (sample : StateSample K) : Observation K where
  tick := tick
  simTimeS := S.timeAt tick
  agentId := sample.agentId
  selfState := { sample with linearVelocityMps := none, angularVelocityRps := none }

/-- The termination of a sample (lines 269–273). An engine has agents of the scenario only, so that
the look-up does not fail. -/
def terminates (sample : StateSample K) : Bool :=
  match sample.batterySocJ, S.batteryFloor.get? sample.agentId with
  | some soc, some floor => decide (soc ≤ floor)
  | _, _ => false

/-- `reset` (lines 226–249): the state and the observations of the reset frame. -/
def reset : SimState E K × List (Observation K) :=
  let (samples, power) := applyPowerThermal (S.timeAt 0) 0 (S.engine.samples S.built) S.power
  ({ engine := S.built, power := power,
     active := S.scenario.agents.map AgentSpec.agentId, tick := 0 },
    samples.map (S.observe 0))

/-- `step` (lines 251–284): the state and the observations of the step's frame. -/
def step (st : SimState E K) (actions : α) : SimState E K × List (Observation K) :=
  let tick := st.tick + 1
  let engine := S.engine.advance (S.engine.applyActions st.engine actions) S.scenario.dtS
  let (samples, power) :=
    applyPowerThermal (S.timeAt tick) S.scenario.dtS (S.engine.samples engine) st.power
  let retired := (samples.filter S.terminates).map StateSample.agentId
  ({ engine := S.engine.retire engine retired, power := power,
     active := st.active.filter (· ∉ retired), tick := tick },
    samples.map (S.observe tick))

/-- The first `n` steps of `_iter_frames` (lines 606–631): the state after them, with the frame of
the last. `policy` decides from the tick and the last frame. -/
def run (policy : ℕ → List (Observation K) → α) : ℕ → SimState E K × List (Observation K)
  | 0 => S.reset
  | n + 1 => S.step (run policy n).1 (policy n (run policy n).2)

/-- The observations of the frame of one tick. -/
def frame (policy : ℕ → List (Observation K) → α) (tick : ℕ) : List (Observation K) :=
  (S.run policy tick).2

/-- `observations_from` (`sim/bench/_scoring.py`, lines 74–85) of the trace of an episode: the reset
frame, then one frame for each step of the horizon. -/
def observations (policy : ℕ → List (Observation K) → α) : List (Observation K) :=
  (List.range (S.scenario.horizonSteps + 1)).flatMap (S.frame policy)

/-! ## Who reports -/

/-- An agent has a battery: its engine or its power model reports one. -/
def hasBattery (a : String) : Bool :=
  S.engine.reportsBattery a || decide (a ∈ S.power.keys)

/-- An agent reports a battery at its floor at a tick. -/
def AtFloor (policy : ℕ → List (Observation K) → α) (tick : ℕ) (a : String) : Prop :=
  ∃ o ∈ S.frame policy tick, o.agentId = a ∧
    ∃ spec ∈ S.scenario.agents, spec.agentId = a ∧
      ∃ soc ∈ o.selfState.batterySocJ, soc ≤ spec.batteryFloorJ

variable {S} {policy : ℕ → List (Observation K) → α}

theorem get?_batteryFloor_iff (a : String) (floor : K) :
    S.batteryFloor.get? a = some floor ↔
      ∃ spec ∈ S.scenario.agents, spec.agentId = a ∧ spec.batteryFloorJ = floor := by
  have hentries : (S.scenario.agents.map fun a => (a.agentId, a.batteryFloorJ)).map Prod.fst =
      S.scenario.agents.map AgentSpec.agentId := by
    rw [List.map_map]
    rfl
  rw [batteryFloor, Dict.get?_eq_some_iff, Dict.entries_ofList (hentries ▸ S.scenario.nodup_ids),
    List.mem_map]
  simp only [Prod.mk.injEq]

theorem terminates_iff (sample : StateSample K) :
    S.terminates sample = true ↔ ∃ spec ∈ S.scenario.agents, spec.agentId = sample.agentId ∧
      ∃ soc ∈ sample.batterySocJ, soc ≤ spec.batteryFloorJ := by
  rw [terminates]
  constructor
  · intro h
    split at h
    · rename_i soc floor hsoc hfloor
      obtain ⟨spec, hspec, hid, rfl⟩ := (get?_batteryFloor_iff _ _).1 hfloor
      exact ⟨spec, hspec, hid, soc, hsoc, of_decide_eq_true h⟩
    · cases h
  · rintro ⟨spec, hspec, hid, soc, hsoc, hle⟩
    rw [Option.mem_def.mp hsoc, (get?_batteryFloor_iff _ _).2 ⟨spec, hspec, hid, rfl⟩]
    exact decide_eq_true hle

theorem agentIds_frame_zero :
    (S.frame policy 0).map Observation.agentId = agentIds (S.engine.samples S.built) := by
  refine (List.map_map ..).trans ?_
  exact agentIds_applyPowerThermal _ _ _ _

/-- The engine at the time a step exports its samples. -/
def advanced (S : Simulation E α K) (st : SimState E K) (actions : α) : E :=
  S.engine.advance (S.engine.applyActions st.engine actions) S.scenario.dtS

theorem agentIds_advanced (st : SimState E K) (actions : α) :
    agentIds (S.engine.samples (S.advanced st actions)) = agentIds (S.engine.samples st.engine) := by
  rw [advanced, S.engine.agentIds_advance, S.engine.agentIds_applyActions]

/-- The agents of the engine report at the next tick. -/
theorem agentIds_frame_succ (n : ℕ) :
    (S.frame policy (n + 1)).map Observation.agentId =
      agentIds (S.engine.samples (S.run policy n).1.engine) := by
  rw [← agentIds_advanced _ (policy n (S.run policy n).2)]
  refine (List.map_map ..).trans ?_
  exact agentIds_applyPowerThermal _ _ _ _

/-- **Step.** The agents of the engine after a step are those it had, without those that reported
a battery at the floor. -/
theorem mem_agents_run_succ (n : ℕ) (a : String) :
    a ∈ agentIds (S.engine.samples (S.run policy (n + 1)).1.engine) ↔
      a ∈ agentIds (S.engine.samples (S.run policy n).1.engine) ∧
        ¬ S.AtFloor policy (n + 1) a := by
  have hrun : agentIds (S.engine.samples (S.run policy (n + 1)).1.engine) = _ :=
    S.engine.agentIds_retire (S.advanced (S.run policy n).1 (policy n (S.run policy n).2)) _
  rw [hrun, List.mem_filter, agentIds_advanced, decide_eq_true_eq]
  refine and_congr_right fun _ => not_congr ?_
  rw [List.mem_map]
  constructor
  · rintro ⟨sample, hsample, rfl⟩
    obtain ⟨hmem, hterm⟩ := List.mem_filter.mp hsample
    exact ⟨S.observe ((S.run policy n).1.tick + 1) sample, List.mem_map_of_mem hmem, rfl,
      (terminates_iff sample).1 hterm⟩
  · rintro ⟨o, ho, rfl, hfloor⟩
    obtain ⟨sample, hmem, rfl⟩ := List.mem_map.mp ho
    exact ⟨sample, List.mem_filter.mpr ⟨hmem, (terminates_iff sample).2 hfloor⟩, rfl⟩

/-- **Run.** The agents of the engine after a run are those of the scenario that were at no step at
their floor. -/
theorem mem_agents_run_iff (n : ℕ) (a : String) :
    a ∈ agentIds (S.engine.samples (S.run policy n).1.engine) ↔
      a ∈ S.scenario.agents.map AgentSpec.agentId ∧
        ∀ r, 1 ≤ r → r ≤ n → ¬ S.AtFloor policy r a := by
  induction n with
  | zero =>
    refine S.agentIds_built.mem_iff.trans ⟨fun h => ⟨h, ?_⟩, And.left⟩
    intro r h1 h0
    omega
  | succ n ih =>
    rw [mem_agents_run_succ, ih, and_assoc]
    refine and_congr_right fun _ => ⟨?_, ?_⟩
    · rintro ⟨hbefore, hlast⟩ r h1 hr
      rcases Nat.lt_or_eq_of_le hr with hr | rfl
      · exact hbefore r h1 (by omega)
      · exact hlast
    · intro h
      exact ⟨fun r h1 hr => h r h1 (by omega), h (n + 1) (by omega) le_rfl⟩

/-- An agent reports at a tick if it was at its floor at no step before it. -/
theorem mem_agents_frame_iff (tick : ℕ) (a : String) :
    (∃ o ∈ S.frame policy tick, o.agentId = a) ↔
      a ∈ S.scenario.agents.map AgentSpec.agentId ∧
        ∀ r, 1 ≤ r → r < tick → ¬ S.AtFloor policy r a := by
  rw [← List.mem_map]
  cases tick with
  | zero =>
    rw [agentIds_frame_zero]
    refine S.agentIds_built.mem_iff.trans ⟨fun h => ⟨h, ?_⟩, And.left⟩
    intro r h1 h0
    omega
  | succ n =>
    rw [agentIds_frame_succ, mem_agents_run_iff]
    simp only [Nat.lt_succ_iff]

theorem nodup_frame (tick : ℕ) : ((S.frame policy tick).map Observation.agentId).Nodup := by
  cases tick with
  | zero =>
    rw [agentIds_frame_zero]
    exact S.engine.nodup_samples _
  | succ n =>
    rw [agentIds_frame_succ]
    exact S.engine.nodup_samples _

/-- The ids the simulator lists as active are those of its engine's agents. -/
theorem mem_active_run (n : ℕ) (a : String) :
    a ∈ (S.run policy n).1.active ↔
      a ∈ agentIds (S.engine.samples (S.run policy n).1.engine) := by
  induction n with
  | zero => exact S.agentIds_built.mem_iff.symm
  | succ n ih =>
    have hrun : agentIds (S.engine.samples (S.run policy (n + 1)).1.engine) = _ :=
      S.engine.agentIds_retire (S.advanced (S.run policy n).1 (policy n (S.run policy n).2)) _
    rw [hrun, List.mem_filter, agentIds_advanced, ← ih]
    exact List.mem_filter

/-! ## What is reported -/

theorem simTimeS_frame {tick : ℕ} {o : Observation K} (ho : o ∈ S.frame policy tick) :
    o.simTimeS = S.timeAt tick := by
  have htick (n : ℕ) : (S.run policy n).1.tick = n := by
    induction n with
    | zero => rfl
    | succ n ih => exact congrArg (· + 1) ih
  cases tick with
  | zero =>
    obtain ⟨sample, -, rfl⟩ := List.mem_map.mp ho
    rfl
  | succ n =>
    obtain ⟨sample, -, rfl⟩ := List.mem_map.mp ho
    exact congrArg (fun t => S.timeAt (t + 1)) (htick n)

theorem keys_power_run (n : ℕ) : (S.run policy n).1.power.keys = S.power.keys := by
  induction n with
  | zero => exact keys_applyPowerThermal _ _ _ _
  | succ n ih => exact (keys_applyPowerThermal _ _ _ _).trans ih

/-- Whether an agent reports a battery does not change in a run. -/
theorem isSome_battery_frame {tick : ℕ} {o : Observation K} (ho : o ∈ S.frame policy tick) :
    o.selfState.batterySocJ.isSome = S.hasBattery o.agentId := by
  cases tick with
  | zero =>
    obtain ⟨sample, hsample, rfl⟩ := List.mem_map.mp ho
    exact isSome_battery_applyPowerThermal (S.engine.isSome_battery _) sample hsample
  | succ n =>
    obtain ⟨sample, hsample, rfl⟩ := List.mem_map.mp ho
    refine (isSome_battery_applyPowerThermal (S.engine.isSome_battery _) sample hsample).trans ?_
    rw [keys_power_run]
    rfl

theorem mem_observations {o : Observation K} :
    o ∈ S.observations policy ↔ ∃ tick ≤ S.scenario.horizonSteps, o ∈ S.frame policy tick := by
  rw [observations, List.mem_flatMap]
  simp only [List.mem_range, Nat.lt_succ_iff]

end Simulation

end AstroMine.Sim
