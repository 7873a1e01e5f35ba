import Mathlib.Algebra.Order.Field.Basic
import Mathlib.Data.List.Nodup
import AstroMine.Sim.Episode

/-!
# Nights survived (`NightsSurvived`, `bench/metrics/_reference.py`)

The metric looks at the battery readings inside a window and counts the night if there is one and
none is bad. An agent that was retired before has no reading there, so that a night is also counted
if some of the fleet died before it and the rest did not die in it.

Results:
* `survived_iff`: what the loop over the observations decides.
* `survived_iff_of_episode`: what that is in terms of who was retired when.
* `outlived_iff`: when the whole fleet lives through a night.
* `nightsSurvived_iff`: when the two agree.
* `dead_digger_survives`: a rover that dies before the night.
-/

namespace AstroMine.Bench

open AstroMine.Sim

variable {K : Type} [Field K] [LinearOrder K]

/-! ## The metric -/

/-- The survival inputs of `ScoringContext` (`core/scoring.py`, lines 66–93). -/
structure SurvivalContext (K : Type) where
  nightIntervals : List (K × K) := []
  survivableTemperatureK : Option K := none

namespace SurvivalContext

variable (ctx : SurvivalContext K)

/-- `frozen` (`_reference.py`, lines 231–235). -/
def frozen (state : StateSample K) : Bool :=
  match ctx.survivableTemperatureK, state.temperatureK with
  | some survivable, some temperature => decide (temperature < survivable)
  | _, _ => false

/-- The loop over the observations for one window (lines 223–238): whether a battery was `sampled`,
and whether the fleet is still `alive`. -/
def scanWindow (window : K × K) : List (Observation K) → Bool → Bool × Bool
  | [], sampled => (sampled, true)
  | o :: observations, sampled =>
    if window.1 ≤ o.simTimeS ∧ o.simTimeS ≤ window.2 then
      match o.selfState.batterySocJ with
      | none => scanWindow window observations sampled
      | some soc =>
        if decide (soc ≤ 0) || ctx.frozen o.selfState then (true, false)
        else scanWindow window observations true
    else scanWindow window observations sampled

/-- `sampled and alive` (line 239). -/
def survived (observations : List (Observation K)) (window : K × K) : Bool :=
  let (sampled, alive) := ctx.scanWindow window observations false
  sampled && alive

/-- `NightsSurvived.compute` (lines 213–241). -/
def nightsSurvived (observations : List (Observation K)) : Option K :=
  if ctx.nightIntervals = [] then none
  else some (ctx.nightIntervals.foldl
    (fun (survived : ℕ) window => if ctx.survived observations window then survived + 1
      else survived) 0 : ℕ)

/-- A battery reading is bad: the battery is empty or the agent is below the survivable
temperature. -/
def Fails (state : StateSample K) : Prop :=
  ∃ soc ∈ state.batterySocJ, soc ≤ 0 ∨ ctx.frozen state = true

/-- An agent is alive: its battery is above zero and its temperature, when set, not below the
survivable one. -/
def Alive (state : StateSample K) : Prop :=
  (∃ soc ∈ state.batterySocJ, 0 < soc) ∧
    ∀ temperature ∈ state.temperatureK, ∀ survivable ∈ ctx.survivableTemperatureK,
      survivable ≤ temperature

variable {ctx}

omit [Field K] in
theorem frozen_eq_false_iff (state : StateSample K) :
    ctx.frozen state = false ↔ ∀ temperature ∈ state.temperatureK,
      ∀ survivable ∈ ctx.survivableTemperatureK, survivable ≤ temperature := by
  rw [frozen]
  cases ctx.survivableTemperatureK with
  | none => simp
  | some survivable =>
    cases state.temperatureK with
    | none => simp
    | some temperature => simp

theorem alive_iff {state : StateSample K} (hbattery : state.batterySocJ.isSome = true) :
    ctx.Alive state ↔ ¬ ctx.Fails state := by
  obtain ⟨soc, hsoc⟩ := Option.isSome_iff_exists.mp hbattery
  rw [Alive, Fails, ← frozen_eq_false_iff, hsoc]
  simp

/-! ## The loop -/

/-- **Spec.** A window is counted if it has a battery reading and none of its battery readings is
bad. -/
theorem survived_iff (observations : List (Observation K)) (window : K × K) :
    ctx.survived observations window = true ↔
      (∃ o ∈ observations, (window.1 ≤ o.simTimeS ∧ o.simTimeS ≤ window.2) ∧
        o.selfState.batterySocJ.isSome = true) ∧
      ∀ o ∈ observations, window.1 ≤ o.simTimeS ∧ o.simTimeS ≤ window.2 →
        ¬ ctx.Fails o.selfState := by
  have hscan (sampled : Bool) : ((ctx.scanWindow window observations sampled).1 &&
      (ctx.scanWindow window observations sampled).2) = true ↔
      (sampled = true ∨ ∃ o ∈ observations, (window.1 ≤ o.simTimeS ∧ o.simTimeS ≤ window.2) ∧
        o.selfState.batterySocJ.isSome = true) ∧
      ∀ o ∈ observations, window.1 ≤ o.simTimeS ∧ o.simTimeS ≤ window.2 →
        ¬ ctx.Fails o.selfState := by
    induction observations generalizing sampled with
    | nil => simp [scanWindow]
    | cons o observations ih =>
      rw [scanWindow, List.forall_mem_cons]
      simp only [List.exists_mem_cons_iff]
      by_cases hin : window.1 ≤ o.simTimeS ∧ o.simTimeS ≤ window.2
      · rw [if_pos hin]
        cases hsoc : o.selfState.batterySocJ with
        | none =>
          have hfine : ¬ ctx.Fails o.selfState := by simp [Fails, hsoc]
          simp [ih, hin, hfine]
        | some soc =>
          by_cases hbad : soc ≤ 0 ∨ ctx.frozen o.selfState = true
          · have hfails : ctx.Fails o.selfState := ⟨soc, hsoc, hbad⟩
            simp [hbad, hin, hfails]
          · have hfine : ¬ ctx.Fails o.selfState := by simpa [Fails, hsoc] using hbad
            simp [hbad, ih, hin, hfine]
      · simp [hin, ih]
  simpa [survived] using hscan false

theorem nightsSurvived_eq (observations : List (Observation K)) (hnights : ctx.nightIntervals ≠ []) :
    ctx.nightsSurvived observations =
      some ((ctx.nightIntervals.countP (ctx.survived observations) : ℕ) : K) := by
  have hcount (windows : List (K × K)) (n : ℕ) : windows.foldl
      (fun (survived : ℕ) window => if ctx.survived observations window then survived + 1
        else survived) n = n + windows.countP (ctx.survived observations) := by
    induction windows generalizing n with
    | nil => rfl
    | cons window windows ih =>
      rw [List.foldl_cons, ih, List.countP_cons]
      split_ifs <;> omega
  rw [nightsSurvived, if_neg hnights, hcount, Nat.zero_add]

end SurvivalContext

/-! ## The fleet -/

section Episode

variable {E α : Type} (S : Simulation E α K) (policy : ℕ → List (Observation K) → α)
  (ctx : SurvivalContext K)

/-- A tick of the episode inside a window. -/
def InNight (window : K × K) (tick : ℕ) : Prop :=
  tick ≤ S.scenario.horizonSteps ∧ window.1 ≤ S.timeAt tick ∧ S.timeAt tick ≤ window.2

/-- Every agent that reported a battery at the start of the episode reports at every tick of the
window, alive. -/
def Outlived (window : K × K) : Prop :=
  ∀ a, (∃ o ∈ S.frame policy 0, o.agentId = a ∧ o.selfState.batterySocJ.isSome = true) →
    ∀ tick, InNight S window tick →
      ∃ o ∈ S.frame policy tick, o.agentId = a ∧ ctx.Alive o.selfState

/-- An agent was at its floor at a step before a tick. -/
def RetiredBefore (tick : ℕ) (a : String) : Prop :=
  ∃ r, 1 ≤ r ∧ r < tick ∧ S.AtFloor policy r a

/-- Some agent was retired before the last tick of the window. -/
def SomeRetired (window : K × K) : Prop :=
  ∃ tick, InNight S window tick ∧ ∃ a, RetiredBefore S policy tick a

/-- Every agent with a battery was retired before the first tick of the window. -/
def AllRetired (window : K × K) : Prop :=
  ∀ a ∈ S.scenario.agents.map AgentSpec.agentId, S.hasBattery a = true →
    ∀ tick, InNight S window tick → RetiredBefore S policy tick a

/-- Some agent that still reports in the window has a bad battery reading there. -/
def SomeFails (window : K × K) : Prop :=
  ∃ tick, InNight S window tick ∧ ∃ o ∈ S.frame policy tick, ctx.Fails o.selfState

/-- The fleet has a battery to watch, and where an agent is retired before the last tick of the
window, all are before the first or one of the others fails in it. -/
def JudgedRight (window : K × K) : Prop :=
  (∃ a ∈ S.scenario.agents.map AgentSpec.agentId, S.hasBattery a = true) ∧
    (SomeRetired S policy window → AllRetired S policy window ∨ SomeFails S policy ctx window)

variable {S policy ctx}

theorem reports_iff (tick : ℕ) (a : String) :
    (∃ o ∈ S.frame policy tick, o.agentId = a) ↔
      a ∈ S.scenario.agents.map AgentSpec.agentId ∧ ¬ RetiredBefore S policy tick a := by
  rw [Simulation.mem_agents_frame_iff, RetiredBefore]
  simp only [not_exists, not_and]

/-- The agents that report a battery at the start are those that have one. -/
theorem reports_start_iff (a : String) :
    (∃ o ∈ S.frame policy 0, o.agentId = a ∧ o.selfState.batterySocJ.isSome = true) ↔
      a ∈ S.scenario.agents.map AgentSpec.agentId ∧ S.hasBattery a = true := by
  constructor
  · rintro ⟨o, ho, rfl, hsoc⟩
    rw [Simulation.isSome_battery_frame ho] at hsoc
    exact ⟨((reports_iff 0 o.agentId).1 ⟨o, ho, rfl⟩).1, hsoc⟩
  · rintro ⟨ha, hbattery⟩
    have hlive : ¬ RetiredBefore S policy 0 a := by
      rintro ⟨r, -, hr, -⟩
      omega
    obtain ⟨o, ho, rfl⟩ := (reports_iff 0 a).2 ⟨ha, hlive⟩
    exact ⟨o, ho, rfl, by rw [Simulation.isSome_battery_frame ho, hbattery]⟩

theorem hasBattery_of_retiredBefore {tick : ℕ} {a : String} (h : RetiredBefore S policy tick a) :
    a ∈ S.scenario.agents.map AgentSpec.agentId ∧ S.hasBattery a = true := by
  obtain ⟨r, -, -, o, ho, rfl, -, -, -, soc, hsoc, -⟩ := h
  refine ⟨((reports_iff r o.agentId).1 ⟨o, ho, rfl⟩).1, ?_⟩
  rw [← Simulation.isSome_battery_frame ho, Option.mem_def.mp hsoc]
  rfl

theorem hasBattery_of_fails {tick : ℕ} {o : Observation K} (ho : o ∈ S.frame policy tick)
    (h : ctx.Fails o.selfState) : S.hasBattery o.agentId = true := by
  obtain ⟨soc, hsoc, -⟩ := h
  rw [← Simulation.isSome_battery_frame ho, Option.mem_def.mp hsoc]
  rfl

/-- The observations of an episode in a window, tick by tick. -/
theorem mem_observations_window {window : K × K} {o : Observation K} :
    (o ∈ S.observations policy ∧ window.1 ≤ o.simTimeS ∧ o.simTimeS ≤ window.2) ↔
      ∃ tick, InNight S window tick ∧ o ∈ S.frame policy tick := by
  rw [Simulation.mem_observations]
  constructor
  · rintro ⟨⟨tick, htick, ho⟩, hin⟩
    rw [Simulation.simTimeS_frame ho] at hin
    exact ⟨tick, ⟨htick, hin⟩, ho⟩
  · rintro ⟨tick, ⟨htick, hin⟩, ho⟩
    rw [Simulation.simTimeS_frame ho]
    exact ⟨⟨tick, htick, ho⟩, hin⟩

/-- The metric counts a window if an agent with a battery is left in it and none of those left
fails. -/
theorem survived_iff_of_episode (window : K × K) :
    ctx.survived (S.observations policy) window = true ↔
      ¬ AllRetired S policy window ∧ ¬ SomeFails S policy ctx window := by
  rw [SurvivalContext.survived_iff]
  refine and_congr ?_ ?_
  · rw [AllRetired]
    constructor
    · rintro ⟨o, ho, hin, hsoc⟩ hall
      obtain ⟨tick, htick, ho⟩ := mem_observations_window.1 ⟨ho, hin⟩
      rw [Simulation.isSome_battery_frame ho] at hsoc
      obtain ⟨hid, hlive⟩ := (reports_iff tick o.agentId).1 ⟨o, ho, rfl⟩
      exact hlive (hall o.agentId hid hsoc tick htick)
    · intro hsome
      push Not at hsome
      obtain ⟨a, ha, hbattery, tick, htick, hlive⟩ := hsome
      obtain ⟨o, ho, rfl⟩ := (reports_iff tick a).2 ⟨ha, hlive⟩
      obtain ⟨hmem, hin⟩ := mem_observations_window.2 ⟨tick, htick, ho⟩
      exact ⟨o, hmem, hin, by rw [Simulation.isSome_battery_frame ho, hbattery]⟩
  · constructor
    · rintro hfine ⟨tick, htick, o, ho, hfails⟩
      obtain ⟨hmem, hin⟩ := mem_observations_window.2 ⟨tick, htick, ho⟩
      exact hfine o hmem hin hfails
    · intro hfine o ho hin hfails
      obtain ⟨tick, htick, ho⟩ := mem_observations_window.1 ⟨ho, hin⟩
      exact hfine ⟨tick, htick, o, ho, hfails⟩

/-- The fleet lives through a window if no agent was retired before its last tick and none fails in
it. -/
theorem outlived_iff (window : K × K) :
    Outlived S policy ctx window ↔
      ¬ SomeRetired S policy window ∧ ¬ SomeFails S policy ctx window := by
  constructor
  · intro h
    have halive {a : String} (ha : a ∈ S.scenario.agents.map AgentSpec.agentId)
        (hbattery : S.hasBattery a = true) := h a ((reports_start_iff a).2 ⟨ha, hbattery⟩)
    constructor
    · rintro ⟨tick, htick, a, hretired⟩
      obtain ⟨ha, hbattery⟩ := hasBattery_of_retiredBefore hretired
      obtain ⟨o, ho, hid, -⟩ := halive ha hbattery tick htick
      exact ((reports_iff tick a).1 ⟨o, ho, hid⟩).2 hretired
    · rintro ⟨tick, htick, o, ho, hfails⟩
      have hid := ((reports_iff tick o.agentId).1 ⟨o, ho, rfl⟩).1
      have hbattery := hasBattery_of_fails ho hfails
      obtain ⟨o', ho', heq, hlive⟩ := halive hid hbattery tick htick
      obtain rfl := List.inj_on_of_nodup_map (Simulation.nodup_frame tick) ho' ho heq
      exact (SurvivalContext.alive_iff (by rw [Simulation.isSome_battery_frame ho, hbattery])).1
        hlive hfails
  · rintro ⟨hretired, hfails⟩ a ha tick htick
    obtain ⟨ha, hbattery⟩ := (reports_start_iff a).1 ha
    obtain ⟨o, ho, rfl⟩ := (reports_iff tick a).2
      ⟨ha, fun hr => hretired ⟨tick, htick, a, hr⟩⟩
    refine ⟨o, ho, rfl, (SurvivalContext.alive_iff ?_).2 fun hf => hfails ⟨tick, htick, o, ho, hf⟩⟩
    rw [Simulation.isSome_battery_frame ho, hbattery]

/-- **Main theorem.** The metric is the number of windows it counts, and it counts a window that
has a tick exactly if the fleet lives through it, exactly if the window is one it judges right. -/
theorem nightsSurvived_iff (S : Simulation E α K) (policy : ℕ → List (Observation K) → α)
    (ctx : SurvivalContext K)
    (hticks : ∀ window ∈ ctx.nightIntervals, ∃ tick, InNight S window tick) :
    (ctx.nightIntervals ≠ [] → ctx.nightsSurvived (S.observations policy) =
      some ((ctx.nightIntervals.countP (ctx.survived (S.observations policy)) : ℕ) : K)) ∧
    ∀ window ∈ ctx.nightIntervals,
      (ctx.survived (S.observations policy) window = true ↔ Outlived S policy ctx window) ↔
        JudgedRight S policy ctx window := by
  refine ⟨SurvivalContext.nightsSurvived_eq _, fun window hwindow => ?_⟩
  obtain ⟨tick, htick⟩ := hticks window hwindow
  rw [survived_iff_of_episode, outlived_iff, JudgedRight]
  have hsome : (∃ a ∈ S.scenario.agents.map AgentSpec.agentId, S.hasBattery a = true) →
      AllRetired S policy window → SomeRetired S policy window := by
    rintro ⟨a, ha, hbattery⟩ hall
    exact ⟨tick, htick, a, hall a ha hbattery tick htick⟩
  have hall : ¬ (∃ a ∈ S.scenario.agents.map AgentSpec.agentId, S.hasBattery a = true) →
      AllRetired S policy window :=
    fun hnone a ha hbattery => absurd ⟨a, ha, hbattery⟩ hnone
  have hretired : SomeRetired S policy window →
      ∃ a ∈ S.scenario.agents.map AgentSpec.agentId, S.hasBattery a = true := by
    rintro ⟨t, -, a, hr⟩
    exact ⟨a, hasBattery_of_retiredBefore hr⟩
  have hfails : SomeFails S policy ctx window →
      ∃ a ∈ S.scenario.agents.map AgentSpec.agentId, S.hasBattery a = true := by
    rintro ⟨t, -, o, ho, hf⟩
    exact ⟨o.agentId, ((reports_iff t o.agentId).1 ⟨o, ho, rfl⟩).1, hasBattery_of_fails ho hf⟩
  by_cases hf : SomeFails S policy ctx window
  · -- neither verdict is for the night, and the window is one judged right
    have hright : SomeRetired S policy window →
        AllRetired S policy window ∨ SomeFails S policy ctx window := fun _ => Or.inr hf
    exact iff_of_true (iff_of_false (fun h => h.2 hf) fun h => h.2 hf) ⟨hfails hf, hright⟩
  · simp only [hf, not_false_eq_true, and_true, or_false, not_iff_not]
    constructor
    · intro h
      refine ⟨?_, h.2⟩
      by_contra hnone
      exact hnone (hretired (h.1 (hall hnone)))
    · rintro ⟨hbattery, himp⟩
      exact ⟨hsome hbattery, himp⟩

end Episode

/-! ## A rover that dies before the night -/

section Run

/-- A rover of the reference engine, at rest, with `socJ` in its battery. -/
def roverAtRest (socJ : ℚ) : RoverState ℚ where
  frame := ⟨"MOON_BODY_FIXED", .bodyFixed, some "MOON"⟩
  positionM := ⟨0, 0, 0⟩
  velocityMps := ⟨0, 0, 0⟩
  batterySocJ := socJ
  batteryFloorJ := 0
  mode := some "idle"

/-- The reference engine without jitter. -/
def still : EngineKind ℚ (RoverState ℚ) Unit := kinematicKind fun r _ _ _ => (0, r)

/-- A digger whose battery lasts one tick and a hauler, for three steps. -/
def twoRovers : Simulation ({e : SubEngine ℚ (RoverState ℚ) Unit // e.kind = still} × Unit) Unit ℚ
    where
  scenario :=
    { agents := [⟨"digger", 0⟩, ⟨"hauler", 0⟩], dtS := 1, horizonSteps := 3,
      agents_ne := List.cons_ne_nil _ _, nodup_ids := by decide, dtS_pos := one_pos,
      horizonSteps_pos := by decide }
  engine := SubEngine.regime still (fun _ _ state => state) (fun _ => true) fun _ _ => rfl
  built := (⟨⟨still, .ofList [("digger", roverAtRest 1), ("hauler", roverAtRest 9)], 0⟩, rfl⟩, ())
  agentIds_built := .refl _

/-- A night of the last two ticks. -/
def lastTicks : SurvivalContext ℚ where
  nightIntervals := [(2, 3)]

theorem lastTicks_hasTick :
    ∀ window ∈ lastTicks.nightIntervals, ∃ tick, InNight twoRovers window tick := by
  intro window hwindow
  obtain rfl := List.mem_singleton.mp hwindow
  exact ⟨2, by decide, by decide +kernel⟩

/-- The theorem, for the two rovers. -/
theorem nightsSurvived_iff_twoRovers :
    lastTicks.nightsSurvived (twoRovers.observations fun _ _ => ()) =
      some ((lastTicks.nightIntervals.countP
        (lastTicks.survived (twoRovers.observations fun _ _ => ())) : ℕ) : ℚ) ∧
    ∀ window ∈ lastTicks.nightIntervals,
      (lastTicks.survived (twoRovers.observations fun _ _ => ()) window = true ↔
        Outlived twoRovers (fun _ _ => ()) lastTicks window) ↔
      JudgedRight twoRovers (fun _ _ => ()) lastTicks window := by
  have h := nightsSurvived_iff twoRovers (fun _ _ => ()) lastTicks lastTicks_hasTick
  exact ⟨h.1 (List.cons_ne_nil _ _), h.2⟩

/-- **Counterexample.** The digger's battery is empty after the first step and it is retired. The
night of the second and third tick is counted as survived. -/
theorem dead_digger_survives :
    lastTicks.nightsSurvived (twoRovers.observations fun _ _ => ()) = some 1 ∧
      RetiredBefore twoRovers (fun _ _ => ()) 2 "digger" ∧
      ¬ Outlived twoRovers (fun _ _ => ()) lastTicks (2, 3) := by
  have hretired : RetiredBefore twoRovers (fun _ _ => ()) 2 "digger" := by
    refine ⟨1, le_rfl, by decide, ?_⟩
    rw [Simulation.AtFloor]
    decide +kernel
  refine ⟨by decide +kernel, hretired, fun h => ?_⟩
  exact ((outlived_iff (2, 3)).1 h).1 ⟨2, ⟨by decide, by decide +kernel⟩, "digger", hretired⟩

end Run

end AstroMine.Bench
