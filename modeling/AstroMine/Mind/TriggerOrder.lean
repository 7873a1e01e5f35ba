import Mathlib.Data.List.Forall2
import AstroMine.Mind.StackPolicy

/-!
# The order of the replan triggers (`mind/exec/executive.py`, `mind/exec/_tick.py`)

`runFrom` is the loop of the executive: a tick asks the strategy, shields its batch and steps the
environment. Two stacks that differ in the order in which the triggers of their tiers are written
are run side by side. `_due` returns the first trigger that fires, and in a blackout the mission
tier is held back if that is `plan_expired`, whatever else fires.

The shield and the environment are any functions that share their states, `none` where they raise.

Results:
* `decideTier_congr`, `decideTier_torn`: when a tier decides whatever the order of its triggers.
* `run_decisions`: which tiers decide at a tick is settled when it starts.
* `runFrom_reordered_iff`: when runs agree whatever the order of the triggers.
-/

namespace AstroMine.Mind

open AstroMine.Core

/-! ## The executive -/

/-- `StepResult` of `env.step`, as far as the executive reads it. -/
structure StepResult (O T : Type) where
  observations : Dict String O
  simTimeS : T
  terminations : Dict String Bool := .empty
  truncations : Dict String Bool := .empty

/-- What surrounds the strategy: the context that `decide_tick` builds (`_tick.py`, lines 60–66),
without its `upstream`, the shield and the environment. -/
structure Surroundings (K O C T ε ς : Type) where
  context : Dict String O → T → C
  shield : ς → Dict String O → C → ActionBatch K → Option (ActionBatch K × ς)
  step : ε → ActionBatch K → Option (StepResult O T × ε)

/-- The values of the loop of `Executive.run`. -/
structure RunState (K O T σ ε ς : Type) where
  strategy : StrategyState K T := {}
  policies : σ
  shield : ς
  env : ε
  observations : Dict String O
  simTimeS : T

/-- What a tick decides: which tiers decide again, the batch they propose, and the one that is
emitted, if the shield does not raise. -/
structure TickLog (K : Type) where
  decisions : List (String × Bool)
  proposed : ActionBatch K
  emitted : Option (ActionBatch K)

/-- How a run ends. -/
inductive RunEnd
  | maxTicks
  | noAgents
  | terminated
  | truncated
  | raised
  deriving DecidableEq

/-- The `break`s of the loop (lines 115–123). -/
def StepResult.ends {O T : Type} (result : StepResult O T) : Option RunEnd :=
  let active := result.observations.keys
  if active = [] then some .noAgents
  else if active.all fun agent => result.terminations.getD agent false then some .terminated
  else if active.all fun agent => result.truncations.getD agent false then some .truncated
  else none

/-- Which tiers decide again. -/
def Pass.decisions {K T σ : Type} (pass : Pass K T σ) : List (String × Bool) :=
  pass.records.map fun record => (record.role, record.replanned)

section Executive

variable {K O C σ T ε ς : Type} [Sub T] [LE T] [DecidableLE T]

/-- `strategy.decide` of the strategy that `build_strategy` chooses. -/
def Execution.decide (execution : Execution) (posture : Posture K C)
    (graph : HierarchyGraph K O C σ T) (strategy : StrategyState K T) (policies : σ)
    (call : Tick K O C T) : Except PrimitiveError (Pass K T σ) :=
  match execution with
  | .behaviorTree tree =>
    let tiers := Dict.ofList (graph.tiers.map fun node => (node.role.value, node.policy))
    (Mind.tick tree tiers policies call.observations call.context).map fun answer =>
      { strategy, policies := answer.2.2, upstream := answer.1, records := answer.2.1 }
  | .composed kind => .ok (kind.decide posture graph strategy policies call)

/-- What the strategy is called with at a tick. -/
def RunState.call (state : RunState K O T σ ε ς) (surroundings : Surroundings K O C T ε ς)
    (tick : ℕ) : Tick K O C T where
  observations := state.observations
  context := { upstream := none, rest := surroundings.context state.observations state.simTimeS }
  tick := tick
  simTimeS := state.simTimeS

/-- A tick after the strategy proposed its batch: `shield_egress` and `env.step`. -/
def RunState.emit (surroundings : Surroundings K O C T ε ς) (state : RunState K O T σ ε ς)
    (decisions : List (String × Bool)) (strategy : StrategyState K T) (policies : σ)
    (proposed : ActionBatch K) : List (TickLog K) × (RunEnd ⊕ RunState K O T σ ε ς) :=
  let context := surroundings.context state.observations state.simTimeS
  match surroundings.shield state.shield state.observations context proposed with
  | none => ([⟨decisions, proposed, none⟩], .inl .raised)
  | some (emitted, shield) =>
    match surroundings.step state.env emitted with
    | none => ([⟨decisions, proposed, some emitted⟩], .inl .raised)
    | some (result, env) =>
      ([⟨decisions, proposed, some emitted⟩],
        match result.ends with
        | some ended => .inl ended
        | none => .inr
          { strategy, policies, shield, env
            observations := result.observations
            simTimeS := result.simTimeS })

/-- One round of the loop (lines 99–123). -/
def RunState.tick (execution : Execution) (posture : Posture K C)
    (surroundings : Surroundings K O C T ε ς) (graph : HierarchyGraph K O C σ T) (tick : ℕ)
    (state : RunState K O T σ ε ς) : List (TickLog K) × (RunEnd ⊕ RunState K O T σ ε ς) :=
  match execution.decide posture graph state.strategy state.policies
    (state.call surroundings tick) with
  | .error _ => ([], .inl .raised)
  | .ok pass => state.emit surroundings pass.decisions pass.strategy pass.policies pass.upstream

/-- The loop of `Executive.run` (lines 99–123), of so many ticks from this one on. -/
def runFrom (execution : Execution) (posture : Posture K C)
    (surroundings : Surroundings K O C T ε ς) (graph : HierarchyGraph K O C σ T) :
    ℕ → ℕ → RunState K O T σ ε ς → List (TickLog K) × RunEnd
  | 0, _, _ => ([], .maxTicks)
  | left + 1, tick, state =>
    match state.tick execution posture surroundings graph tick with
    | (log, .inl ended) => (log, ended)
    | (log, .inr next) =>
      let rest := runFrom execution posture surroundings graph left (tick + 1) next
      (log ++ rest.1, rest.2)

end Executive

/-! ## The triggers of one tier -/

section Tier

variable {K O C σ T : Type}

/-- The same tier with its triggers written in another order. -/
structure Reorders (node node' : TierNode K O C σ T) : Prop where
  role : node'.role = node.role
  policy : node'.policy = node.policy
  horizon : node'.validityHorizonS = node.validityHorizonS
  fallback : node'.fallback = node.fallback
  triggers : node'.replanTriggers.Perm node.replanTriggers

theorem Reorders.refl (node : TierNode K O C σ T) : Reorders node node :=
  ⟨rfl, rfl, rfl, rfl, .refl _⟩

/-- The same tier with one of its triggers written first. -/
def TierNode.startingWith (node : TierNode K O C σ T) (first : ReplanTrigger)
    (h : first ∈ node.replanTriggers) : TierNode K O C σ T :=
  { node with
    replanTriggers := first :: node.replanTriggers.erase first
    expires := fun hmem => node.expires ((List.perm_cons_erase h).mem_iff.mpr hmem) }

theorem TierNode.reorders_startingWith (node : TierNode K O C σ T) {first : ReplanTrigger}
    (h : first ∈ node.replanTriggers) : Reorders node (node.startingWith first h) :=
  ⟨rfl, rfl, rfl, rfl, (List.perm_cons_erase h).symm⟩

variable [Sub T] [LE T] [DecidableLE T] {node node' : TierNode K O C σ T} {state : TierState K T}
  {tick : ℤ} {simTimeS : T} {denied recovered justLost : Bool}

/-- Only `plan_expired` fires under that name. -/
theorem firing_eq_some {trigger : ReplanTrigger} {text : String}
    (h : firing node state tick simTimeS trigger = some text) :
    text = "plan_expired" ↔ trigger = .planExpired := by
  cases trigger with
  | planExpired =>
    rw [firing] at h
    split at h
    · split_ifs at h
      exact iff_of_true (Option.some.inj h).symm rfl
    · cases h
  | periodic everyTicks =>
    rw [firing] at h
    split at h
    · split_ifs at h
      rw [← Option.some.inj h]
      exact iff_of_false (by decide) (by simp)
    · cases h
  | onFallback =>
    rw [firing] at h
    split_ifs at h
    rw [← Option.some.inj h]
    exact iff_of_false (by decide) (by simp)
  | commsLost => cases h

theorem Reorders.firing_eq (h : Reorders node node') :
    firing node' state tick simTimeS = firing node state tick simTimeS := by
  funext trigger
  cases trigger with
  | planExpired => rw [firing, firing, h.horizon]
  | _ => rfl

/-- In a blackout the mission tier has a batch, the loss of the comms does not make it decide, and
both `plan_expired` and another trigger of it fire. -/
structure Torn (node : TierNode K O C σ T) (state : TierState K T) (tick : ℤ) (simTimeS : T)
    (denied justLost : Bool) : Prop where
  mission : node.role = .mission
  denied : denied = true
  cached : state.cached.isNone = false
  not_lost : ¬ (justLost = true ∧ .commsLost ∈ node.replanTriggers)
  listed : .planExpired ∈ node.replanTriggers
  expired : (firing node state tick simTimeS .planExpired).isSome
  other : ∃ trigger ∈ node.replanTriggers, trigger ≠ .planExpired ∧
    (firing node state tick simTimeS trigger).isSome

/-- The order of the triggers does not change whether one of them fires. -/
theorem findSome?_isSome_perm {α β : Type} {l l' : List α} (h : l'.Perm l) (f : α → Option β) :
    (l'.findSome? f).isSome = (l.findSome? f).isSome := by
  rw [Bool.eq_iff_iff, List.findSome?_isSome_iff, List.findSome?_isSome_iff]
  simp only [h.mem_iff]

variable (state tick simTimeS) in
theorem Reorders.due_isSome (h : Reorders node node') :
    (due node' state tick simTimeS).isSome = (due node state tick simTimeS).isSome := by
  have hempty : node'.replanTriggers.isEmpty = node.replanTriggers.isEmpty := h.triggers.isEmpty_eq
  rw [due, due, h.firing_eq, h.horizon, hempty]
  split_ifs
  · rfl
  · rfl
  · exact findSome?_isSome_perm h.triggers _

/-- The reason a tier is due is one of its triggers that fires, unless it is always due. -/
theorem due_eq_some {base : String} (hcached : state.cached.isNone = false)
    (h : due node state tick simTimeS = some base) :
    base = "reactive" ∧ node.replanTriggers = [] ∨
      ∃ trigger ∈ node.replanTriggers, firing node state tick simTimeS trigger = some base := by
  rw [due, hcached, if_neg Bool.false_ne_true] at h
  split_ifs at h with hreactive
  · rw [Bool.and_eq_true, List.isEmpty_iff] at hreactive
    exact .inl ⟨(Option.some.inj h).symm, hreactive.2⟩
  · exact .inr (List.exists_of_findSome?_eq_some h)

/-- Unless a tier is torn, the order of its triggers does not change whether it is held back. -/
theorem Reorders.planExpired_iff (h : Reorders node node') {base base' : String}
    (hcached : state.cached.isNone = false)
    (hlost : ¬ (justLost = true ∧ .commsLost ∈ node.replanTriggers))
    (hdenied : denied = true) (hmission : node.role = .mission)
    (hsteady : ¬ Torn node state tick simTimeS denied justLost)
    (hbase : due node state tick simTimeS = some base)
    (hbase' : due node' state tick simTimeS = some base') :
    base = "plan_expired" ↔ base' = "plan_expired" := by
  rcases due_eq_some hcached hbase with ⟨rfl, hnil⟩ | ⟨trigger, hmem, hfires⟩
  · rcases due_eq_some hcached hbase' with ⟨rfl, -⟩ | ⟨trigger', hmem', -⟩
    · exact Iff.rfl
    · rw [h.triggers.mem_iff, hnil] at hmem'
      cases hmem'
  · rcases due_eq_some hcached hbase' with ⟨-, hnil⟩ | ⟨trigger', hmem', hfires'⟩
    · have hperm := h.triggers
      rw [hnil] at hperm
      rw [hperm.nil_eq.symm] at hmem
      cases hmem
    · rw [h.firing_eq] at hfires'
      rw [h.triggers.mem_iff] at hmem'
      rw [firing_eq_some hfires, firing_eq_some hfires']
      by_contra hne
      -- one of the two is `plan_expired`, the other is not
      by_cases hexpired : trigger = .planExpired
      · subst hexpired
        have hother : trigger' ≠ .planExpired := fun heq => hne (iff_of_true rfl heq)
        exact hsteady ⟨hmission, hdenied, hcached, hlost, hmem, by rw [hfires]; rfl,
          trigger', hmem', hother, by rw [hfires']; rfl⟩
      · by_cases hexpired' : trigger' = .planExpired
        · subst hexpired'
          exact hsteady ⟨hmission, hdenied, hcached, hlost, hmem', by rw [hfires']; rfl,
            trigger, hmem, hexpired, by rw [hfires]; rfl⟩
        · exact hne (iff_of_false hexpired hexpired')

/-- A tier that is not torn decides whatever the order of its triggers. -/
theorem decideTier_congr (h : Reorders node node')
    (hsteady : ¬ Torn node state tick simTimeS denied justLost) :
    (decideTier node' state tick simTimeS denied recovered justLost).1.isSome =
      (decideTier node state tick simTimeS denied recovered justLost).1.isSome := by
  have hlisted : .commsLost ∈ node'.replanTriggers ↔ .commsLost ∈ node.replanTriggers :=
    h.triggers.mem_iff
  rw [decideTier, decideTier, h.role]
  simp only [hlisted]
  by_cases hcached : state.cached.isNone = true
  · rw [if_pos hcached, if_pos hcached]
  rw [if_neg hcached, if_neg hcached]
  by_cases hrecovered : node.role = .mission ∧ recovered = true
  · rw [if_pos hrecovered, if_pos hrecovered]
  rw [if_neg hrecovered, if_neg hrecovered]
  by_cases hlost : justLost = true ∧ .commsLost ∈ node.replanTriggers
  · rw [if_pos hlost, if_pos hlost]
  rw [if_neg hlost, if_neg hlost]
  have hsome := h.due_isSome state tick simTimeS
  cases hbase : due node state tick simTimeS with
  | none =>
    rw [hbase, Option.isSome_none, Option.isSome_eq_false_iff, Option.isNone_iff_eq_none] at hsome
    rw [hsome]
  | some base =>
    rw [hbase, Option.isSome_some] at hsome
    obtain ⟨base', hbase'⟩ := Option.isSome_iff_exists.mp hsome
    rw [hbase']
    have hheld : (base' = "plan_expired" ∧ denied = true ∧ node.role = .mission) ↔
        (base = "plan_expired" ∧ denied = true ∧ node.role = .mission) := by
      refine and_congr_left fun hblackout => ?_
      exact (h.planExpired_iff (Bool.eq_false_of_not_eq_true hcached) hlost hblackout.1 hblackout.2
        hsteady hbase hbase').symm
    simp only [hheld]
    split_ifs <;> rfl

/-- A tier whose first trigger fires is due for it. -/
theorem due_startingWith {first : ReplanTrigger} {base : String} (hmem : first ∈ node.replanTriggers)
    (hcached : state.cached.isNone = false)
    (hfires : firing node state tick simTimeS first = some base) :
    due (node.startingWith first hmem) state tick simTimeS = some base := by
  have hlist : (node.startingWith first hmem).replanTriggers.isEmpty = false := rfl
  rw [due, hcached, if_neg Bool.false_ne_true, hlist, Bool.and_false, if_neg Bool.false_ne_true,
    (node.reorders_startingWith hmem).firing_eq]
  show (first :: node.replanTriggers.erase first).findSome? _ = some base
  rw [List.findSome?_cons, hfires]

/-- A torn tier is held back in one order of its triggers and decides in another. -/
theorem decideTier_torn (h : Torn node state tick simTimeS denied justLost)
    (hrecovered : recovered = false) :
    ∃ node', Reorders node node' ∧
      (decideTier node' state tick simTimeS denied recovered justLost).1.isSome ≠
        (decideTier node state tick simTimeS denied recovered justLost).1.isSome := by
  have hreach : ∀ {first : ReplanTrigger} {base : String} (hmem : first ∈ node.replanTriggers),
      firing node state tick simTimeS first = some base →
        (decideTier (node.startingWith first hmem) state tick simTimeS denied recovered
          justLost).1.isSome = !decide (base = "plan_expired") := by
    intro first base hmem hfires
    have hreorders := node.reorders_startingWith hmem
    have hlost : ¬ (justLost = true ∧
        .commsLost ∈ (node.startingWith first hmem).replanTriggers) :=
      fun hlost => h.not_lost ⟨hlost.1, hreorders.triggers.mem_iff.mp hlost.2⟩
    rw [decideTier, hreorders.role, h.cached, if_neg Bool.false_ne_true, hrecovered,
      if_neg (fun hr => Bool.false_ne_true hr.2), if_neg hlost,
      due_startingWith hmem h.cached hfires]
    simp only [h.denied, h.mission, and_true]
    by_cases hexpired : base = "plan_expired"
    · rw [if_pos hexpired, decide_eq_true hexpired]
      rfl
    · rw [if_neg hexpired, decide_eq_false hexpired]
      rfl
  obtain ⟨base, hbase⟩ := Option.isSome_iff_exists.mp h.expired
  obtain ⟨trigger, hmem, hne, hfires⟩ := h.other
  obtain ⟨base', hbase'⟩ := Option.isSome_iff_exists.mp hfires
  have hholds := hreach h.listed hbase
  have hdecides := hreach hmem hbase'
  rw [decide_eq_true ((firing_eq_some hbase).2 rfl), Bool.not_true] at hholds
  rw [decide_eq_false (fun heq => hne ((firing_eq_some hbase').1 heq)), Bool.not_false] at hdecides
  cases hown : (decideTier node state tick simTimeS denied recovered justLost).1.isSome with
  | true =>
    refine ⟨_, node.reorders_startingWith h.listed, ?_⟩
    rw [hholds]
    exact Bool.false_ne_true
  | false =>
    refine ⟨_, node.reorders_startingWith hmem, ?_⟩
    rw [hdecides]
    exact Bool.false_ne_true.symm

end Tier

/-! ## The tiers of one tick -/

section Passes

variable {K O C σ T : Type}

/-- Passes that differ at most in the texts of their triggers and notes. -/
structure SamePass (pass pass' : Pass K T σ) : Prop where
  strategy : pass'.strategy = pass.strategy
  policies : pass'.policies = pass.policies
  upstream : pass'.upstream = pass.upstream
  decisions : pass'.decisions = pass.decisions

theorem SamePass.refl (pass : Pass K T σ) : SamePass pass pass := ⟨rfl, rfl, rfl, rfl⟩

variable {node node' : TierNode K O C σ T} {loop : TierLoop K O C σ T} {pass pass' : Pass K T σ}

theorem Reorders.invoke_eq (h : Reorders node node') : invoke (T := T) node' = invoke node := by
  funext state observations context policies
  rw [invoke, invoke, computes, computes, h.policy, h.fallback]

/-- What a step adds to the decisions. -/
theorem TierLoop.step_decisions :
    (loop.step pass node).decisions = pass.decisions ++
      [(node.role.value, (loop.trigger node (pass.strategy.tiers node.role)).1.isSome)] := by
  rw [TierLoop.step]
  cases loop.trigger node (pass.strategy.tiers node.role) with
  | mk trigger note =>
    cases trigger with
    | none => exact List.map_append
    | some trigger => exact List.map_append

/-- Which tiers decide is settled when the loop starts. -/
theorem run_decisions (loop : TierLoop K O C σ T) (pass : Pass K T σ)
    {nodes : List (TierNode K O C σ T)} (hroles : (nodes.map TierNode.role).Nodup) :
    (loop.run pass nodes).decisions = pass.decisions ++ nodes.map fun node =>
      (node.role.value, (loop.trigger node (pass.strategy.tiers node.role)).1.isSome) := by
  induction nodes generalizing pass with
  | nil => exact (List.append_nil _).symm
  | cons node rest ih =>
    rw [List.map_cons, List.nodup_cons] at hroles
    show (loop.run (loop.step pass node) rest).decisions = _
    rw [ih _ hroles.2, TierLoop.step_decisions, List.append_assoc, List.map_cons,
      List.singleton_append]
    congr 2
    refine List.map_congr_left fun other hother => ?_
    have hne : other.role ≠ node.role := fun heq =>
      hroles.1 (heq ▸ List.mem_map_of_mem hother)
    rw [(loop.step_other pass hne).1]

/-- **Step.** Tiers that agree on whether they decide make the same of passes that are the same. -/
theorem TierLoop.step_congr (h : Reorders node node')
    (hissue : ∀ batch, loop.issue node' batch = loop.issue node batch)
    (htrigger : (loop.trigger node' (pass.strategy.tiers node.role)).1.isSome =
      (loop.trigger node (pass.strategy.tiers node.role)).1.isSome)
    (hsame : SamePass pass pass') : SamePass (loop.step pass node) (loop.step pass' node') := by
  have hdecisions : (loop.step pass' node').decisions = (loop.step pass node).decisions := by
    rw [TierLoop.step_decisions, TierLoop.step_decisions, hsame.decisions, hsame.strategy, h.role,
      htrigger]
  have hdue : loop.Due pass' node' ↔ loop.Due pass node := by
    rw [TierLoop.Due, TierLoop.Due, hsame.strategy, h.role, htrigger]
  by_cases hown : loop.Due pass node
  · obtain ⟨trigger, note, hstep⟩ := TierLoop.step_of_due hown
    obtain ⟨trigger', note', hstep'⟩ := TierLoop.step_of_due (hdue.2 hown)
    rw [hstep, hstep'] at hdecisions ⊢
    refine ⟨?_, ?_, ?_, hdecisions⟩
    · rw [TierLoop.replan, TierLoop.replan, h.invoke_eq, h.role, hsame.strategy, hsame.policies,
        hsame.upstream, hissue]
    · rw [TierLoop.replan, TierLoop.replan, h.invoke_eq, h.role, hsame.strategy, hsame.policies,
        hsame.upstream]
    · rw [TierLoop.replan, TierLoop.replan, h.invoke_eq, h.role, hsame.strategy, hsame.policies,
        hsame.upstream]
  · obtain ⟨note, hstep⟩ := TierLoop.step_of_not_due hown
    obtain ⟨note', hstep'⟩ := TierLoop.step_of_not_due fun hdue' => hown (hdue.1 hdue')
    rw [hstep, hstep'] at hdecisions ⊢
    refine ⟨hsame.strategy, hsame.policies, ?_, hdecisions⟩
    rw [TierLoop.hold, TierLoop.hold, h.role, hsame.strategy]

/-- **Run.** So do all the tiers of a tick. -/
theorem TierLoop.run_congr {nodes nodes' : List (TierNode K O C σ T)}
    (h : List.Forall₂ Reorders nodes nodes') (hroles : (nodes.map TierNode.role).Nodup)
    (hissue : ∀ node node', Reorders node node' →
      ∀ batch, loop.issue node' batch = loop.issue node batch)
    (htrigger : ∀ node ∈ nodes, ∀ node', Reorders node node' →
      (loop.trigger node' (pass.strategy.tiers node.role)).1.isSome =
        (loop.trigger node (pass.strategy.tiers node.role)).1.isSome)
    (hsame : SamePass pass pass') : SamePass (loop.run pass nodes) (loop.run pass' nodes') := by
  induction h generalizing pass pass' with
  | nil => exact hsame
  | @cons node node' rest rest' hnode _ ih =>
    rw [List.map_cons, List.nodup_cons] at hroles
    refine ih hroles.2 ?_ (TierLoop.step_congr hnode (hissue node node' hnode)
      (htrigger node List.mem_cons_self node' hnode) hsame)
    intro other hother other' hreorders
    have hne : other.role ≠ node.role := fun heq =>
      hroles.1 (heq ▸ List.mem_map_of_mem hother)
    rw [(loop.step_other pass hne).1]
    exact htrigger other (List.mem_cons_of_mem _ hother) other' hreorders

/-- The coordination changes notes only. -/
theorem coordinate_decisions (region : Action K → Option String) (pass : Pass K T σ) :
    (coordinate region pass).decisions = pass.decisions := by
  rw [coordinate]
  split
  · rfl
  · dsimp only
    split
    · rfl
    · rw [Pass.decisions, Pass.decisions, List.map_map]
      refine List.map_congr_left fun record _ => ?_
      rw [Function.comp_apply]
      split_ifs <;> rfl

/-- It makes the same of passes that are the same. -/
theorem coordinate_congr (region : Action K → Option String) (h : SamePass pass pass') :
    SamePass (coordinate region pass) (coordinate region pass') := by
  refine ⟨?_, ?_, ?_, ?_⟩
  · rw [coordinate_strategy, coordinate_strategy, h.strategy]
  · rw [coordinate_policies, coordinate_policies, h.policies]
  · rw [coordinate, coordinate, h.strategy]
    split
    · exact h.upstream
    · dsimp only
      split_ifs
      · exact h.upstream
      · show pass'.upstream.filter _ = pass.upstream.filter _
        rw [h.upstream]
  · rw [coordinate_decisions, coordinate_decisions, h.decisions]

end Passes

/-! ## The strategies -/

section Strategies

variable {K O C σ T : Type}

/-- The same tiers, each with its triggers written in another order. -/
def Reordered (graph graph' : HierarchyGraph K O C σ T) : Prop :=
  List.Forall₂ Reorders graph.tiers graph'.tiers

/-- The graph with another tier in the place of the one of its role. -/
def HierarchyGraph.replaceTier (graph : HierarchyGraph K O C σ T) (node : TierNode K O C σ T) :
    HierarchyGraph K O C σ T where
  tiers := graph.tiers.map fun other => if other.role = node.role then node else other
  roles_nodup := by
    have hroles : (graph.tiers.map fun other => if other.role = node.role then node else other).map
        TierNode.role = graph.tiers.map TierNode.role := by
      rw [List.map_map]
      refine List.map_congr_left fun other _ => ?_
      rw [Function.comp_apply]
      split_ifs with heq
      · exact heq.symm
      · rfl
    rw [hroles]
    exact graph.roles_nodup

theorem HierarchyGraph.reordered_replaceTier (graph : HierarchyGraph K O C σ T)
    {node node' : TierNode K O C σ T} (hmem : node ∈ graph.tiers) (h : Reorders node node') :
    Reordered graph (graph.replaceTier node') := by
  rw [Reordered, HierarchyGraph.replaceTier, List.forall₂_map_right_iff, List.forall₂_same]
  intro other hother
  split_ifs with heq
  · rw [List.inj_on_of_nodup_map graph.roles_nodup hother hmem (heq.trans h.role)]
    exact h
  · exact .refl other

variable [Sub T] [LE T] [DecidableLE T] {posture : Posture K C}
  {graph graph' : HierarchyGraph K O C σ T} {strategy : StrategyState K T} {policies : σ}
  {call : Tick K O C T}

/-- No tier is torn at the call. -/
def Steady (posture : Posture K C) (graph : HierarchyGraph K O C σ T) (strategy : StrategyState K T)
    (call : Tick K O C T) : Prop :=
  ∀ node ∈ graph.tiers, ¬ Torn node (strategy.tiers node.role) call.tick call.simTimeS
    (commsDenied (posture.belief call.context.rest))
    (commsDenied (posture.belief call.context.rest) && !strategy.wasDenied)

theorem CompositionStrategy.decide_congr (h : Reordered graph graph') :
    SamePass (CompositionStrategy.decide graph strategy policies call)
      (CompositionStrategy.decide graph' strategy policies call) :=
  TierLoop.run_congr h graph.roles_nodup (fun _ _ _ _ => rfl)
    (fun _ _ _ hreorders => hreorders.due_isSome _ _ _) (.refl _)

theorem DecentralizedStrategy.decide_congr (h : Reordered graph graph')
    (hsteady : Steady posture graph strategy call) :
    SamePass (DecentralizedStrategy.decide posture graph strategy policies call)
      (DecentralizedStrategy.decide posture graph' strategy policies call) := by
  have hrun : SamePass
      ((DecentralizedStrategy.loop (commsDenied (posture.belief call.context.rest))
        strategy.wasDenied call).run
          ⟨strategy, policies, call.context.upstream.getD [], []⟩ graph.tiers)
      ((DecentralizedStrategy.loop (commsDenied (posture.belief call.context.rest))
        strategy.wasDenied call).run
          ⟨strategy, policies, call.context.upstream.getD [], []⟩ graph'.tiers) := by
    refine TierLoop.run_congr h graph.roles_nodup ?_ ?_ (.refl _)
    · intro node node' hreorders batch
      simp only [DecentralizedStrategy.loop, buildContingentPlan, hreorders.role,
        hreorders.horizon]
    · intro node hnode node' hreorders
      exact decideTier_congr hreorders (hsteady node hnode)
  rw [DecentralizedStrategy.decide, DecentralizedStrategy.decide]
  by_cases hdenied : commsDenied (posture.belief call.context.rest) = true
  · have hcoordinate := coordinate_congr posture.region hrun
    simp only [hdenied, if_true] at hcoordinate ⊢
    exact ⟨by rw [hcoordinate.strategy], hcoordinate.policies, hcoordinate.upstream,
      hcoordinate.decisions⟩
  · simp only [hdenied, Bool.false_eq_true, if_false] at hrun ⊢
    exact ⟨by rw [hrun.strategy], hrun.policies, hrun.upstream, hrun.decisions⟩

/-- What a call of the decentralized strategy decides. -/
theorem DecentralizedStrategy.decide_decisions :
    (DecentralizedStrategy.decide posture graph strategy policies call).decisions =
      graph.tiers.map fun node => (node.role.value,
        (decideTier node (strategy.tiers node.role) call.tick call.simTimeS
          (commsDenied (posture.belief call.context.rest))
          (strategy.wasDenied && !commsDenied (posture.belief call.context.rest))
          (commsDenied (posture.belief call.context.rest) && !strategy.wasDenied)).1.isSome) := by
  have hrun := run_decisions (DecentralizedStrategy.loop
    (commsDenied (posture.belief call.context.rest)) strategy.wasDenied call)
    ⟨strategy, policies, call.context.upstream.getD [], []⟩ graph.roles_nodup
  rw [DecentralizedStrategy.decide]
  by_cases hdenied : commsDenied (posture.belief call.context.rest) = true
  · rw [← coordinate_decisions posture.region] at hrun
    simp only [hdenied, if_true] at hrun ⊢
    exact hrun
  · simp only [hdenied, Bool.false_eq_true, if_false] at hrun ⊢
    exact hrun

/-- A tier that is torn decides in one order of its triggers and not in another. -/
theorem DecentralizedStrategy.decide_torn (policies : σ)
    (h : ¬ Steady posture graph strategy call) :
    ∃ graph', Reordered graph graph' ∧
      (DecentralizedStrategy.decide posture graph' strategy policies call).decisions ≠
        (DecentralizedStrategy.decide posture graph strategy policies call).decisions := by
  simp only [Steady, not_forall, not_not] at h
  obtain ⟨node, hmem, htorn⟩ := h
  have hrecovered : (strategy.wasDenied && !commsDenied (posture.belief call.context.rest)) =
      false := by rw [htorn.denied, Bool.not_true, Bool.and_false]
  obtain ⟨node', hreorders, hdiffer⟩ := decideTier_torn htorn hrecovered
  refine ⟨graph.replaceTier node', graph.reordered_replaceTier hmem hreorders, fun heq => hdiffer ?_⟩
  rw [DecentralizedStrategy.decide_decisions, DecentralizedStrategy.decide_decisions,
    HierarchyGraph.replaceTier, List.map_map, List.map_inj_left] at heq
  have hnode := (Prod.ext_iff.mp (heq node hmem)).2
  simp only [Function.comp_apply, hreorders.role, if_true] at hnode
  exact hnode

/-! ## Runs -/

variable {ε ς : Type} {execution : Execution} {surroundings : Surroundings K O C T ε ς}
  {tick : ℕ} {state : RunState K O T σ ε ς}

omit [Sub T] [LE T] [DecidableLE T] in
/-- The tiers of a behaviour tree do not depend on the triggers. -/
theorem Reordered.tiers_eq (h : Reordered graph graph') :
    graph'.tiers.map (fun node => (node.role.value, node.policy)) =
      graph.tiers.map fun node => (node.role.value, node.policy) := by
  rw [Reordered] at h
  generalize graph.tiers = tiers at h
  generalize graph'.tiers = tiers' at h
  induction h with
  | nil => rfl
  | cons hnode _ ih => rw [List.map_cons, List.map_cons, ih, hnode.role, hnode.policy]

/-- A tick at which no tier is torn goes the same way whatever the order of the triggers. -/
theorem tick_congr (h : Reordered graph graph')
    (hsteady : execution = .composed .decentralized →
      Steady posture graph state.strategy (state.call surroundings tick)) :
    state.tick execution posture surroundings graph' tick =
      state.tick execution posture surroundings graph tick := by
  rw [RunState.tick, RunState.tick]
  cases execution with
  | behaviorTree tree => rw [Execution.decide, Execution.decide, h.tiers_eq]
  | composed kind =>
    have hsame : SamePass
        (kind.decide posture graph state.strategy state.policies (state.call surroundings tick))
        (kind.decide posture graph' state.strategy state.policies
          (state.call surroundings tick)) := by
      cases kind with
      | composition => exact CompositionStrategy.decide_congr h
      | decentralized => exact DecentralizedStrategy.decide_congr h (hsteady rfl)
    rw [Execution.decide, Execution.decide]
    simp only
    rw [hsame.strategy, hsame.policies, hsame.upstream, hsame.decisions]

variable (posture surroundings graph tick state) in
/-- A tick of tiers is logged with its decisions. -/
theorem tick_log (kind : StrategyKind) :
    ∃ proposed emitted, (state.tick (.composed kind) posture surroundings graph tick).1 =
      [⟨(kind.decide posture graph state.strategy state.policies
        (state.call surroundings tick)).decisions, proposed, emitted⟩] := by
  rw [RunState.tick, Execution.decide]
  simp only
  rw [RunState.emit]
  split
  · exact ⟨_, _, rfl⟩
  · split
    · exact ⟨_, _, rfl⟩
    · exact ⟨_, _, rfl⟩

variable (execution posture surroundings graph tick state) in
/-- The log of a run starts with that of its first tick. -/
theorem runFrom_log (left : ℕ) :
    ∃ rest, (runFrom execution posture surroundings graph (left + 1) tick state).1 =
      (state.tick execution posture surroundings graph tick).1 ++ rest := by
  rw [runFrom]
  split
  · rename_i log ended heq
    exact ⟨[], by rw [heq, List.append_nil]⟩
  · rename_i log next heq
    exact ⟨_, by rw [heq]⟩

/-- No tier is torn at any tick of the run. -/
def SteadyRun (execution : Execution) (posture : Posture K C)
    (surroundings : Surroundings K O C T ε ς) (graph : HierarchyGraph K O C σ T) :
    ℕ → ℕ → RunState K O T σ ε ς → Prop
  | 0, _, _ => True
  | left + 1, tick, state =>
    (execution = .composed .decentralized →
      Steady posture graph state.strategy (state.call surroundings tick)) ∧
    ∀ next, (state.tick execution posture surroundings graph tick).2 = .inr next →
      SteadyRun execution posture surroundings graph left (tick + 1) next

/-- A tick at which a tier is torn shows in the log. -/
theorem steady_of_runFrom {left : ℕ}
    (h : ∀ graph', Reordered graph graph' →
      runFrom execution posture surroundings graph' (left + 1) tick state =
        runFrom execution posture surroundings graph (left + 1) tick state)
    (hexecution : execution = .composed .decentralized) :
    Steady posture graph state.strategy (state.call surroundings tick) := by
  subst hexecution
  by_contra htorn
  obtain ⟨graph', hreordered, hdiffer⟩ :=
    DecentralizedStrategy.decide_torn state.policies htorn
  refine hdiffer ?_
  obtain ⟨rest, hlog⟩ :=
    runFrom_log posture graph (.composed .decentralized) surroundings tick state left
  obtain ⟨rest', hlog'⟩ :=
    runFrom_log posture graph' (.composed .decentralized) surroundings tick state left
  obtain ⟨proposed, emitted, hown⟩ :=
    tick_log posture graph surroundings tick state .decentralized
  obtain ⟨proposed', emitted', hother⟩ :=
    tick_log posture graph' surroundings tick state .decentralized
  rw [h graph' hreordered, hlog, hown, hother] at hlog'
  exact (congrArg TickLog.decisions (List.cons.inj hlog').1).symm

/-- **Main theorem.** The executive decides the same tiers at the same ticks, and returns the same
batches, whatever the order in which the triggers of the tiers are written, exactly if at no tick
of the run a blackout finds the mission tier with both `plan_expired` and another trigger firing. -/
theorem runFrom_reordered_iff (execution : Execution) (posture : Posture K C)
    (surroundings : Surroundings K O C T ε ς) (graph : HierarchyGraph K O C σ T) (left tick : ℕ)
    (state : RunState K O T σ ε ς) :
    (∀ graph', Reordered graph graph' →
      runFrom execution posture surroundings graph' left tick state =
        runFrom execution posture surroundings graph left tick state) ↔
      SteadyRun execution posture surroundings graph left tick state := by
  induction left generalizing tick state with
  | zero => exact iff_of_true (fun _ _ => rfl) trivial
  | succ left ih =>
    constructor
    · intro h
      have hsteady := steady_of_runFrom h
      refine ⟨hsteady, fun next hnext => (ih (tick + 1) next).1 fun graph' hreordered => ?_⟩
      have hruns := h graph' hreordered
      rw [runFrom, runFrom, tick_congr hreordered hsteady] at hruns
      cases htick : state.tick execution posture surroundings graph tick with
      | mk log outcome =>
        rw [htick] at hnext hruns
        obtain rfl : outcome = .inr next := hnext
        obtain ⟨hlogs, hends⟩ := Prod.ext_iff.mp hruns
        exact Prod.ext (List.append_cancel_left hlogs) hends
    · rintro ⟨hsteady, hrest⟩ graph' hreordered
      rw [runFrom, runFrom, tick_congr hreordered hsteady]
      cases htick : state.tick execution posture surroundings graph tick with
      | mk log outcome =>
        cases outcome with
        | inl ended => rfl
        | inr next =>
          simp only
          rw [(ih (tick + 1) next).2 (hrest next (by rw [htick])) graph' hreordered]

end Strategies

/-! ## A mission tier that is torn -/

/-- A mission tier that stays put, with a horizon of five seconds and these triggers. -/
def idleMission (replanTriggers : List ReplanTrigger) : HierarchyGraph ℚ Unit BeliefView Unit ℤ where
  tiers := [
    { role := .mission
      policy := { decide := fun policies _ _ => (some [], policies) }
      validityHorizonS := some 5
      replanTriggers
      fallback := none
      expires := fun _ => Option.some_ne_none 5 }]
  roles_nodup := List.nodup_singleton _

/-- What is read of a context is the belief, and no action claims a region. -/
def beliefPosture : Posture ℚ BeliefView where
  belief := some
  region _ := none

/-- A rover without earth contact, ten seconds later at every tick. -/
def darkSurroundings : Surroundings ℚ Unit BeliefView ℤ ℤ Unit where
  context observations _ := { agents := observations.keys, earthContact := fun _ => false }
  shield shield _ _ proposed := some (proposed, shield)
  step now _ := some ({ observations := .ofList [("rover", ())], simTimeS := now + 10 }, now + 10)

/-- The rover before the first tick. -/
def darkStart : RunState ℚ Unit ℤ Unit ℤ Unit where
  policies := ()
  shield := ()
  env := 0
  observations := .ofList [("rover", ())]
  simTimeS := 0

/-- **Counterexample.** With `plan_expired` written first the mission tier is held back at the
second tick; with `periodic` written first it decides. -/
theorem idleMission_order_matters :
    (runFrom (.composed .decentralized) beliefPosture darkSurroundings
        (idleMission [.planExpired, .periodic 1]) 2 0 darkStart).1.map TickLog.decisions =
      [[("mission", true)], [("mission", false)]] ∧
    (runFrom (.composed .decentralized) beliefPosture darkSurroundings
        (idleMission [.periodic 1, .planExpired]) 2 0 darkStart).1.map TickLog.decisions =
      [[("mission", true)], [("mission", true)]] ∧
    ¬ ∀ graph', Reordered (idleMission [.planExpired, .periodic 1]) graph' →
      runFrom (.composed .decentralized) beliefPosture darkSurroundings graph' 2 0 darkStart =
        runFrom (.composed .decentralized) beliefPosture darkSurroundings
          (idleMission [.planExpired, .periodic 1]) 2 0 darkStart := by
  have hexpired : (runFrom (.composed .decentralized) beliefPosture darkSurroundings
      (idleMission [.planExpired, .periodic 1]) 2 0 darkStart).1.map TickLog.decisions =
      [[("mission", true)], [("mission", false)]] := by decide +kernel
  have hperiodic : (runFrom (.composed .decentralized) beliefPosture darkSurroundings
      (idleMission [.periodic 1, .planExpired]) 2 0 darkStart).1.map TickLog.decisions =
      [[("mission", true)], [("mission", true)]] := by decide +kernel
  refine ⟨hexpired, hperiodic, fun h => ?_⟩
  have hreordered : Reordered (idleMission [.planExpired, .periodic 1])
      (idleMission [.periodic 1, .planExpired]) :=
    .cons ⟨rfl, rfl, rfl, rfl, .swap _ _ _⟩ .nil
  rw [h _ hreordered, hexpired] at hperiodic
  exact absurd hperiodic (by decide)

end AstroMine.Mind
