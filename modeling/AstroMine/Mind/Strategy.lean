import Mathlib.Logic.Function.Basic
import AstroMine.Mind.BehaviorTree

/-!
# The composition strategies (`mind/exec/strategy.py`, `mind/exec/degrade.py`, `mind/exec/plan.py`)

Once a tick the tiers are asked in canonical order, each with the batch of the one before it. A
tier that no trigger fires for answers with its cached batch; one that is due is asked again, and
degrades to its fallback, to its cached batch, and last to an empty batch. The decentralized
strategy adds what depends on the comms to the mission tier: triggers that are forced or held
back, the contingent plan of the mission tier, and the coordination of the agents in a blackout.

Both strategies run one loop over the tiers, `TierLoop`, with their own trigger and their own
plan. Sim times are of any type `T` with the operations the code uses. What the extras of a
context say of the comms (`C → Option (BeliefView)`), the text of the region an action claims, and
the identifiers and description texts of plans are left open or left out.

Results:
* `TierLoop.run_batch`: the upstream of the loop is the batch of the last tier.
* `TierLoop.step_other`: a tier changes nothing of another one.
* `due_initial`, `decideTier_initial`: a tier that holds no batch is due.
* `coordinate_sublist`: the coordination only drops actions.
-/

namespace AstroMine.Mind

open AstroMine.Core

/-! ## The hierarchy graph -/

/-- `TierRole` (`mind/spec/enums.py`, lines 24–38). -/
inductive TierRole
  | mission
  | allocator
  | tamp
  | control
  deriving DecidableEq, Repr

/-- The values of `TierRole`. -/
def TierRole.value : TierRole → String
  | .mission => "mission"
  | .allocator => "allocator"
  | .tamp => "tamp"
  | .control => "control"

/-- `ReplanTrigger` (`mind/spec/model.py`, lines 66–73), by its `ReplanTriggerKind`; the loader
makes sure that a periodic one has its `every_ticks`. -/
inductive ReplanTrigger
  | planExpired
  | periodic (everyTicks : ℕ)
  | onFallback
  | commsLost
  deriving DecidableEq, Repr

/-- `TierNode` (`mind/compose/graph.py`, lines 26–40): the loader makes sure that a tier with a
`plan_expired` trigger has a horizon. -/
structure TierNode (K O C σ T : Type) where
  role : TierRole
  policy : Policy K O C σ
  validityHorizonS : Option T
  replanTriggers : List ReplanTrigger
  fallback : Option (Policy K O C σ)
  expires : .planExpired ∈ replanTriggers → validityHorizonS ≠ none

/-- `HierarchyGraph` (lines 53–67), as far as the strategies read it; the stack spec has every
role once. -/
structure HierarchyGraph (K O C σ T : Type) where
  tiers : List (TierNode K O C σ T)
  roles_nodup : (tiers.map TierNode.role).Nodup

/-- `BeliefView` (`mind/belief/view.py`, lines 34–61): the observed agents, and which of them
reach a gateway. -/
structure BeliefView where
  agents : List String
  earthContact : String → Bool

/-- `_comms_denied` (`degrade.py`, lines 211–214). -/
def commsDenied : Option BeliefView → Bool
  | none => false
  | some belief => !belief.agents.isEmpty && !belief.agents.any belief.earthContact

/-! ## Plans -/

/-- `PlanValidity` (`core/plan/model.py`, lines 49–55). -/
structure PlanValidity (T : Type) where
  issuedAtS : T
  horizonS : Option T

/-- `Assumption` (lines 58–65), without its description. -/
structure Assumption where
  key : String
  holds : Option Bool

/-- `ContingencyBranch` (lines 68–77), without its description. -/
structure ContingencyBranch where
  trigger : String
  action : String
  deriving DecidableEq

/-- `Plan` (lines 92–103). -/
structure Plan (K T : Type) where
  tier : String
  validity : PlanValidity T
  actions : ActionBatch K
  assumptions : List Assumption

/-- `ContingentPlan` (lines 106–112). -/
structure ContingentPlan (K T : Type) where
  base : Plan K T
  branches : List ContingencyBranch

section Plans

variable {T : Type} [Add T] [LT T] [DecidableLT T]

/-- `expires_at_s` (`plan.py`, lines 57–61). -/
def expiresAtS (validity : PlanValidity T) : Option T :=
  validity.horizonS.map (validity.issuedAtS + ·)

/-- `is_valid` (lines 64–67). -/
def isValid (validity : PlanValidity T) (nowS : T) : Bool :=
  match expiresAtS validity with
  | none => true
  | some expiry => nowS < expiry

/-- `is_stale` (lines 70–72). -/
def isStale (validity : PlanValidity T) (nowS : T) : Bool := !isValid validity nowS

end Plans

/-- `branch_for` (lines 75–77). -/
def branchFor {K T : Type} (plan : ContingentPlan K T) (trigger : String) :
    Option ContingencyBranch :=
  plan.branches.find? fun branch => branch.trigger = trigger

/-- `build_contingent_plan` (lines 80–115). -/
def buildContingentPlan {K O C σ T : Type} (node : TierNode K O C σ T) (batch : ActionBatch K)
    (simTimeS : T) (denied : Bool) : ContingentPlan K T where
  base :=
    { tier := node.role.value
      validity := { issuedAtS := simTimeS, horizonS := node.validityHorizonS }
      actions := batch
      assumptions := [{ key := "earth_contact", holds := some (!denied) }] }
  branches :=
    [{ trigger := "comms_lost", action := "hold_cached" },
     { trigger := "plan_expired", action := "reconcile" }]

/-! ## The state of a strategy -/

/-- `_TierState` (`strategy.py`, lines 57–64). -/
structure TierState (K T : Type) where
  cached : Option (ActionBatch K) := none
  decidedAtS : Option T := none
  decidedTick : Option ℤ := none
  lastWasFallback : Bool := false

/-- The state of a strategy: `_state` of both, `_contingent` and `_was_denied` of the decentralized
one (`degrade.py`, lines 57–61), which the other never touches. -/
structure StrategyState (K T : Type) where
  tiers : TierRole → TierState K T := fun _ => {}
  contingent : TierRole → Option (ContingentPlan K T) := fun _ => none
  wasDenied : Bool := false

/-- What `decide` is called with. -/
structure Tick (K O C T : Type) where
  observations : Dict String O
  context : DecisionContext K C
  tick : ℤ
  simTimeS : T

section Due

variable {K O C σ T : Type} [Sub T] [LE T] [DecidableLE T]

/-- One round of the loop of `_due` (lines 123–135). -/
def firing (node : TierNode K O C σ T) (state : TierState K T) (tick : ℤ) (simTimeS : T) :
    ReplanTrigger → Option String
  | .planExpired =>
    match node.validityHorizonS, state.decidedAtS with
    | some horizon, some decided =>
      if horizon ≤ simTimeS - decided then some "plan_expired" else none
    | _, _ => none
  | .periodic everyTicks =>
    match state.decidedTick with
    | some decided => if (everyTicks : ℤ) ≤ tick - decided then some "periodic" else none
    | none => none
  | .onFallback => if state.lastWasFallback then some "on_fallback" else none
  | .commsLost => none

/-- `_due` (lines 115–136): why the tier must decide again, or `none`. -/
def due (node : TierNode K O C σ T) (state : TierState K T) (tick : ℤ) (simTimeS : T) :
    Option String :=
  if state.cached.isNone then some "initial"
  else if node.validityHorizonS.isNone && node.replanTriggers.isEmpty then some "reactive"
  else node.replanTriggers.findSome? (firing node state tick simTimeS)

/-- `_decide_tier` (`degrade.py`, lines 128–158): the trigger, if any, and the note. -/
def decideTier (node : TierNode K O C σ T) (state : TierState K T) (tick : ℤ) (simTimeS : T)
    (denied recovered justLost : Bool) : Option String × Option String :=
  if state.cached.isNone then (some "initial", none)
  else if node.role = .mission ∧ recovered then (some "comms_recovered", some "comms_recovered")
  else if justLost ∧ .commsLost ∈ node.replanTriggers then (some "comms_lost", none)
  else match due node state tick simTimeS with
    | none => (none, none)
    | some base =>
      if base = "plan_expired" ∧ denied ∧ node.role = .mission then (none, some "comms_stale_hold")
      else (some base, none)

theorem due_initial (node : TierNode K O C σ T) {state : TierState K T} (tick : ℤ) (simTimeS : T)
    (h : state.cached = none) : due node state tick simTimeS = some "initial" := by
  simp only [due, h, Option.isNone_none, if_true]

theorem decideTier_initial (node : TierNode K O C σ T) {state : TierState K T} (tick : ℤ)
    (simTimeS : T) (denied recovered justLost : Bool) (h : state.cached = none) :
    decideTier node state tick simTimeS denied recovered justLost = (some "initial", none) := by
  simp only [decideTier, h, Option.isNone_none, if_true]

end Due

/-! ## Asking a tier -/

section Invoke

variable {K O C σ T : Type}

/-- The two `try` blocks of `_invoke`: the batch the policy computes or, where it raises, the one
its fallback does, with the flag of the fallback. -/
def computes (node : TierNode K O C σ T) (observations : Dict String O)
    (context : DecisionContext K C) (policies : σ) : Option (ActionBatch K × Bool) × σ :=
  let first := node.policy.decide policies observations context
  match first.1, node.fallback with
  | some batch, _ => (some (batch, false), first.2)
  | none, none => (none, first.2)
  | none, some fallback =>
    let second := fallback.decide first.2 observations context
    (second.1.map (·, true), second.2)

/-- `_invoke` (lines 138–158): where neither computes a batch, the cached one, or none at all. -/
def invoke (node : TierNode K O C σ T) (state : TierState K T) (observations : Dict String O)
    (context : DecisionContext K C) (policies : σ) : (ActionBatch K × Bool) × σ :=
  let answer := computes node observations context policies
  (answer.1.getD (state.cached.getD [], true), answer.2)

/-- What the loop over the tiers changes: the state of the strategy and of the policies, the batch
handed on, and the records. -/
structure Pass (K T σ : Type) where
  strategy : StrategyState K T
  policies : σ
  upstream : ActionBatch K
  records : List TierDecisionRecord

/-- The loop over the tiers, by what the two strategies differ in: the trigger and the note of a
tier, and the contingent plan it issues. -/
structure TierLoop (K O C σ T : Type) where
  call : Tick K O C T
  trigger : TierNode K O C σ T → TierState K T → Option String × Option String
  issue : TierNode K O C σ T → ActionBatch K → Option (ContingentPlan K T)

/-- The contingent plans after a tier decided: the one it issues, if any, replaces its last. -/
def recordPlan (contingent : TierRole → Option (ContingentPlan K T)) (role : TierRole) :
    Option (ContingentPlan K T) → TierRole → Option (ContingentPlan K T)
  | some plan => Function.update contingent role (some plan)
  | none => contingent

/-- A tier decides (`strategy.py`, lines 91–105; `degrade.py`, lines 90–111). -/
def TierLoop.replan (loop : TierLoop K O C σ T) (pass : Pass K T σ) (node : TierNode K O C σ T)
    (trigger : String) (note : Option String) : Pass K T σ :=
  let answer := invoke node (pass.strategy.tiers node.role) loop.call.observations
    { loop.call.context with upstream := some pass.upstream } pass.policies
  { strategy :=
      { pass.strategy with
        tiers := Function.update pass.strategy.tiers node.role
          { cached := some answer.1.1
            decidedAtS := some loop.call.simTimeS
            decidedTick := some loop.call.tick
            lastWasFallback := answer.1.2 }
        contingent :=
          recordPlan pass.strategy.contingent node.role (loop.issue node answer.1.1) }
    policies := answer.2
    upstream := answer.1.1
    records := pass.records ++
      [{ role := node.role.value, replanned := true, trigger := some trigger,
         fallbackUsed := answer.1.2, note }] }

/-- A tier answers with its cached batch (`strategy.py`, lines 106–113; `degrade.py`,
lines 112–122). -/
def TierLoop.hold (pass : Pass K T σ) (node : TierNode K O C σ T) (note : Option String) :
    Pass K T σ :=
  { pass with
    upstream := (pass.strategy.tiers node.role).cached.getD []
    records := pass.records ++
      [{ role := node.role.value, replanned := false, trigger := none, fallbackUsed := false,
         note }] }

/-- One round of the loop over the tiers. -/
def TierLoop.step (loop : TierLoop K O C σ T) (pass : Pass K T σ) (node : TierNode K O C σ T) :
    Pass K T σ :=
  match loop.trigger node (pass.strategy.tiers node.role) with
  | (some trigger, note) => loop.replan pass node trigger note
  | (none, note) => TierLoop.hold pass node note

/-- The loop over the tiers. -/
def TierLoop.run (loop : TierLoop K O C σ T) (pass : Pass K T σ)
    (nodes : List (TierNode K O C σ T)) : Pass K T σ :=
  nodes.foldl loop.step pass

/-- The tier is due when its turn comes. -/
def TierLoop.Due (loop : TierLoop K O C σ T) (pass : Pass K T σ) (node : TierNode K O C σ T) :
    Prop :=
  (loop.trigger node (pass.strategy.tiers node.role)).1.isSome

instance (loop : TierLoop K O C σ T) (pass : Pass K T σ) (node : TierNode K O C σ T) :
    Decidable (loop.Due pass node) :=
  inferInstanceAs (Decidable (_ = true))

/-- The batch the tier or its fallback computes when its turn comes, if one of them does. -/
def TierLoop.computed (loop : TierLoop K O C σ T) (pass : Pass K T σ)
    (node : TierNode K O C σ T) : Option (ActionBatch K) :=
  (computes node loop.call.observations
    { loop.call.context with upstream := some pass.upstream } pass.policies).1.map Prod.fst

variable {loop : TierLoop K O C σ T} {pass : Pass K T σ} {node : TierNode K O C σ T}

theorem recordPlan_other (contingent : TierRole → Option (ContingentPlan K T))
    {role role' : TierRole} (h : role' ≠ role) (plan : Option (ContingentPlan K T)) :
    recordPlan contingent role plan role' = contingent role' := by
  cases plan with
  | none => rfl
  | some plan => exact Function.update_of_ne h _ _

theorem TierLoop.step_of_due (h : loop.Due pass node) :
    ∃ trigger note, loop.step pass node = loop.replan pass node trigger note := by
  unfold TierLoop.Due at h
  unfold TierLoop.step
  split
  · exact ⟨_, _, rfl⟩
  · rename_i heq
    rw [heq] at h
    exact absurd h Bool.false_ne_true

theorem TierLoop.step_of_not_due (h : ¬loop.Due pass node) :
    ∃ note, loop.step pass node = TierLoop.hold pass node note := by
  unfold TierLoop.Due at h
  unfold TierLoop.step
  split
  · rename_i heq
    rw [heq] at h
    exact absurd rfl h
  · exact ⟨_, rfl⟩

variable (loop pass) in
/-- A tier changes nothing of another one. -/
theorem TierLoop.step_other {role : TierRole} (h : role ≠ node.role) :
    (loop.step pass node).strategy.tiers role = pass.strategy.tiers role ∧
      (loop.step pass node).strategy.contingent role = pass.strategy.contingent role := by
  by_cases hdue : loop.Due pass node
  · obtain ⟨trigger, note, hstep⟩ := TierLoop.step_of_due hdue
    rw [hstep]
    exact ⟨Function.update_of_ne h _ _, recordPlan_other _ h _⟩
  · obtain ⟨note, hstep⟩ := TierLoop.step_of_not_due hdue
    rw [hstep]
    exact ⟨rfl, rfl⟩

/-- A tier hands on the batch it holds after its turn. -/
theorem TierLoop.step_upstream :
    (loop.step pass node).upstream =
      ((loop.step pass node).strategy.tiers node.role).cached.getD [] := by
  by_cases hdue : loop.Due pass node
  · obtain ⟨trigger, note, hstep⟩ := TierLoop.step_of_due hdue
    rw [hstep]
    simp only [TierLoop.replan, Function.update_self, Option.getD_some]
  · obtain ⟨note, hstep⟩ := TierLoop.step_of_not_due hdue
    rw [hstep]
    rfl

/-- What the loop proposes is the batch that its last tier holds. -/
theorem TierLoop.run_batch (nodes : List (TierNode K O C σ T)) :
    (loop.run pass (nodes ++ [node])).upstream =
      ((loop.run pass (nodes ++ [node])).strategy.tiers node.role).cached.getD [] := by
  simp only [TierLoop.run, List.foldl_append, List.foldl_cons, List.foldl_nil]
  exact TierLoop.step_upstream

end Invoke

/-! ## Coordination (`mind/coord/model.py`) -/

/-- `Intent` (lines 21–26). -/
structure Intent where
  agentId : String
  taskId : String

/-- `Resolution` (lines 29–36). -/
structure Resolution where
  assignments : Dict String (Option String)
  conflictsResolved : ℕ
  yielded : List String

/-- The claimants of one task: the lowest agent id keeps it (lines 50–59). -/
def resolveTask (resolution : Resolution) (task : String × List String) : Resolution :=
  let winner := (sortOn id task.2).head?
  { assignments := task.2.foldl (fun assignments agentId =>
      assignments.set agentId (if some agentId = winner then some task.1 else none))
      resolution.assignments
    conflictsResolved := resolution.conflictsResolved + if 1 < task.2.length then 1 else 0
    yielded := resolution.yielded ++ task.2.filter fun agentId => some agentId ≠ winner }

/-- `GossipCoordinator.resolve` (lines 42–64). -/
def resolve (intents : List Intent) : Resolution :=
  let claimants := Dict.group (intents.map fun intent => (intent.taskId, intent.agentId))
  let resolution := claimants.entries.foldl resolveTask ⟨.empty, 0, []⟩
  { resolution with yielded := sortOn id resolution.yielded }

section Coordinate

variable {K T σ : Type}

/-- `_coordinate` (`degrade.py`, lines 160–184); `region` is the text of the centre of the region
an action prospects. -/
def coordinate (region : Action K → Option String) (pass : Pass K T σ) : Pass K T σ :=
  match (pass.strategy.tiers .mission).cached with
  | none => pass
  | some cached =>
    let resolution := resolve (cached.filterMap fun action =>
      (region action).map fun taskId => { agentId := action.agentId, taskId })
    if resolution.yielded = [] then pass
    else
      { pass with
        upstream := pass.upstream.filter fun action => action.agentId ∉ resolution.yielded
        records := pass.records.map fun record =>
          if record.role = TierRole.control.value then { record with note := some "coord_yield" }
          else record }

/-- The coordination leaves the state alone. -/
@[simp]
theorem coordinate_strategy (region : Action K → Option String) (pass : Pass K T σ) :
    (coordinate region pass).strategy = pass.strategy := by
  unfold coordinate
  split
  · rfl
  · dsimp only
    split <;> rfl

@[simp]
theorem coordinate_policies (region : Action K → Option String) (pass : Pass K T σ) :
    (coordinate region pass).policies = pass.policies := by
  unfold coordinate
  split
  · rfl
  · dsimp only
    split <;> rfl

/-- The coordination only drops actions. -/
theorem coordinate_sublist (region : Action K → Option String) (pass : Pass K T σ) :
    (coordinate region pass).upstream.Sublist pass.upstream := by
  unfold coordinate
  split
  · exact List.Sublist.refl _
  · dsimp only
    split
    · exact List.Sublist.refl _
    · exact List.filter_sublist

end Coordinate

/-! ## The two strategies -/

section Decide

variable {K O C σ T : Type} [Sub T] [LE T] [DecidableLE T]

/-- What the two strategies share with their callers: the tiers, and what is read of a context and
of an action. -/
structure Posture (K C : Type) where
  belief : C → Option BeliefView
  region : Action K → Option String

/-- The loop of `CompositionStrategy.decide` (`strategy.py`, lines 86–113). -/
def CompositionStrategy.loop (call : Tick K O C T) : TierLoop K O C σ T where
  call := call
  trigger node state := (due node state call.tick call.simTimeS, none)
  issue _ _ := none

/-- `CompositionStrategy.decide` (lines 74–114). -/
def CompositionStrategy.decide (graph : HierarchyGraph K O C σ T) (strategy : StrategyState K T)
    (policies : σ) (call : Tick K O C T) : Pass K T σ :=
  (CompositionStrategy.loop call).run
    { strategy, policies, upstream := call.context.upstream.getD [], records := [] } graph.tiers

/-- The loop of `DecentralizedStrategy.decide` (`degrade.py`, lines 71–122). -/
def DecentralizedStrategy.loop (denied wasDenied : Bool) (call : Tick K O C T) :
    TierLoop K O C σ T where
  call := call
  trigger node state :=
    decideTier node state call.tick call.simTimeS denied (wasDenied && !denied)
      (denied && !wasDenied)
  issue node batch :=
    if node.role = .mission then some (buildContingentPlan node batch call.simTimeS denied)
    else none

/-- `DecentralizedStrategy.decide` (lines 63–126). -/
def DecentralizedStrategy.decide (posture : Posture K C) (graph : HierarchyGraph K O C σ T)
    (strategy : StrategyState K T) (policies : σ) (call : Tick K O C T) : Pass K T σ :=
  let denied := commsDenied (posture.belief call.context.rest)
  let pass := (DecentralizedStrategy.loop denied strategy.wasDenied call).run
    { strategy, policies, upstream := call.context.upstream.getD [], records := [] } graph.tiers
  let pass := if denied then coordinate posture.region pass else pass
  { pass with strategy := { pass.strategy with wasDenied := denied } }

/-- The strategies of `build_strategy` (`mind/exec/executive.py`, lines 45–54) that cache the
batches of their tiers. -/
inductive StrategyKind
  | composition
  | decentralized
  deriving DecidableEq, Repr

/-- The loop that a strategy runs at a call. -/
def StrategyKind.loop (posture : Posture K C) (kind : StrategyKind) (strategy : StrategyState K T)
    (call : Tick K O C T) : TierLoop K O C σ T :=
  match kind with
  | .composition => CompositionStrategy.loop call
  | .decentralized =>
    DecentralizedStrategy.loop (commsDenied (posture.belief call.context.rest))
      strategy.wasDenied call

/-- `decide` of either strategy. -/
def StrategyKind.decide (posture : Posture K C) (graph : HierarchyGraph K O C σ T)
    (kind : StrategyKind) (strategy : StrategyState K T) (policies : σ) (call : Tick K O C T) :
    Pass K T σ :=
  match kind with
  | .composition => CompositionStrategy.decide graph strategy policies call
  | .decentralized => DecentralizedStrategy.decide posture graph strategy policies call

end Decide

end AstroMine.Mind
