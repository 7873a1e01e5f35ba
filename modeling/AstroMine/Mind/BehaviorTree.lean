import Mathlib.Data.String.Basic
import AstroMine.Core.Messages
import AstroMine.Lib.Dict
import AstroMine.Lib.Except

/-!
# The behaviour-tree engine (`mind/bt/model.py`, `mind/bt/engine.py`)

One tick evaluates the tree from its root and threads a proposed batch of actions through it: a
tier leaf decides against the current proposal and replaces it, a primitive leaf emits an action,
a condition reads the proposal. The tiers are any policies that share a state `σ`; a policy that
raises is `none`. The observations of an agent, the context without its `upstream` and the numbers
of an action are left open (`O`, `C`, `K`).

`leafVisits` lists the leaves that an evaluation ticks, in order, with the proposal each of them
was given and the batch it wrote.

Results:
* `proposal_eq_lastBatch`: a node leaves behind the batch of the last leaf below it that wrote one.
* `eval_residue`: what a failed node leaves behind.
* `leafVisits_chained`: every leaf is given the batch that the leaves before it left.
-/

namespace AstroMine.Mind

open AstroMine.Core

/-! ## The tree -/

/-- `NodeStatus` (`model.py`, lines 42–50). -/
inductive NodeStatus
  | success
  | failure
  | running
  deriving DecidableEq, Repr

/-- `ControlKind` (lines 53–62). -/
inductive ControlKind
  | sequence
  | fallback
  deriving DecidableEq, Repr

/-- `DecoratorKind` (lines 65–73). -/
inductive DecoratorKind
  | inverter
  | forceSuccess
  | forceFailure
  deriving DecidableEq, Repr

/-- `InvokeKind` (lines 76–84). -/
inductive InvokeKind
  | planner
  | policy
  | primitive
  deriving DecidableEq, Repr

/-- `ConditionKind` (lines 87–93). -/
inductive ConditionKind
  | freshUpstream
  deriving DecidableEq, Repr

/-- `BTNode` (lines 96–138): composites, decorators, actions and conditions. -/
inductive BTNode
  | control (kind : ControlKind) (children : List BTNode) (nodeId : Option String)
  | decorator (kind : DecoratorKind) (child : BTNode) (nodeId : Option String)
  | action (invoke : InvokeKind) (ref nodeId : String) (params : Dict String String)
  | condition (check : ConditionKind) (nodeId : String) (params : Dict String String)

/-- `BehaviorTree` (lines 141–149). -/
structure BehaviorTree where
  treeId : String
  root : BTNode
  formatVersion : String

/-! ## One tick -/

section Engine

variable {K O C σ : Type}

/-- `ActionBatch` (`core/messages/model.py`, lines 311–315). -/
abbrev ActionBatch (K : Type) := List (Action K)

/-- `DecisionContext` (`core/policy/model.py`, lines 44–59): its `upstream`, and the rest. -/
structure DecisionContext (K C : Type) where
  upstream : Option (ActionBatch K)
  rest : C

/-- A tier policy: `decide` reads the state of the policies, the observations and the context,
and returns a batch, or `none` where it raises. -/
structure Policy (K O C σ : Type) where
  decide : σ → Dict String O → DecisionContext K C → Option (ActionBatch K) × σ

/-- `TierDecisionRecord` (`mind/trace/model.py`, lines 33–47). -/
structure TierDecisionRecord where
  role : String
  replanned : Bool
  trigger : Option String
  fallbackUsed : Bool
  note : Option String := none
  deriving DecidableEq

/-- `PrimitiveError` (`engine.py`, lines 52–53): the leaf and the action it names. -/
structure PrimitiveError where
  nodeId : String
  ref : String
  deriving DecidableEq

/-- `_TickState` (lines 56–61), with the state of the policies. -/
structure TickState (K O C σ : Type) where
  observations : Dict String O
  context : DecisionContext K C
  proposal : ActionBatch K
  records : List TierDecisionRecord := []
  policies : σ

/-- `_BT_TRIGGER` (line 49). -/
def btTrigger : String := "bt_tick"

/-- `_primitive` (lines 171–183): only the standby of every observed agent can be emitted. -/
def primitive (ref nodeId : String) (state : TickState K O C σ) :
    Except PrimitiveError (ActionBatch K) :=
  if ref = "standby" then
    .ok ((sortOn id state.observations.keys).map fun agentId =>
      { agentId, kind := .task, task := some { taskKind := .standby } })
  else
    .error { nodeId, ref }

/-- `_eval_action` (lines 127–163). -/
def evalAction (tiers : Dict String (Policy K O C σ)) (invoke : InvokeKind) (ref nodeId : String)
    (underFallback : Bool) (state : TickState K O C σ) :
    Except PrimitiveError (NodeStatus × TickState K O C σ) :=
  if invoke = .primitive then do
    let batch ← primitive ref nodeId state
    return (.success, { state with
      proposal := batch
      records := state.records ++
        [{ role := "primitive." ++ ref, replanned := true, trigger := some btTrigger,
           fallbackUsed := underFallback }] })
  else
    match tiers.get? ref with
    | none => .ok (.failure, state)
    | some policy =>
      let (answer, policies) := policy.decide state.policies state.observations
        { state.context with upstream := some state.proposal }
      match answer with
      | none =>
        .ok (.failure, { state with
          policies
          records := state.records ++
            [{ role := ref, replanned := true, trigger := some btTrigger, fallbackUsed := true }] })
      | some batch =>
        .ok (.success, { state with
          policies
          proposal := batch
          records := state.records ++
            [{ role := ref, replanned := true, trigger := some btTrigger,
               fallbackUsed := underFallback }] })

/-- `_eval_condition` (lines 165–169). -/
def evalCondition : ConditionKind → TickState K O C σ → NodeStatus
  | .freshUpstream, state => if state.proposal.isEmpty then .failure else .success

/-- The status a decorator makes of the one of its child (`_eval_decorator`, lines 112–125). -/
def DecoratorKind.apply (kind : DecoratorKind) (status : NodeStatus) : NodeStatus :=
  match status, kind with
  | .running, _ => .running
  | .success, .inverter => .failure
  | .failure, .inverter => .success
  | _, .forceSuccess => .success
  | _, .forceFailure => .failure

mutual

/-- `_eval` (lines 86–93), with `_eval_control` (lines 95–110) as the two loops below. -/
def eval (tiers : Dict String (Policy K O C σ)) :
    BTNode → Bool → TickState K O C σ → Except PrimitiveError (NodeStatus × TickState K O C σ)
  | .control .sequence children _, underFallback, state =>
    evalSequence tiers children underFallback state
  | .control .fallback children _, underFallback, state =>
    evalFallback tiers children underFallback state
  | .decorator kind child _, underFallback, state => do
    let (status, state) ← eval tiers child underFallback state
    return (kind.apply status, state)
  | .action invoke ref nodeId _, underFallback, state =>
    evalAction tiers invoke ref nodeId underFallback state
  | .condition check _ _, _, state => .ok (evalCondition check state, state)

/-- The children of a sequence up to the first that does not succeed. -/
def evalSequence (tiers : Dict String (Policy K O C σ)) :
    List BTNode → Bool → TickState K O C σ →
      Except PrimitiveError (NodeStatus × TickState K O C σ)
  | [], _, state => .ok (.success, state)
  | child :: rest, underFallback, state => do
    let (status, state) ← eval tiers child underFallback state
    if status ≠ .success then return (status, state)
    evalSequence tiers rest underFallback state

/-- The children of a fallback up to the first that does not fail; the ones after the first are
reached through the fallback. -/
def evalFallback (tiers : Dict String (Policy K O C σ)) :
    List BTNode → Bool → TickState K O C σ →
      Except PrimitiveError (NodeStatus × TickState K O C σ)
  | [], _, state => .ok (.failure, state)
  | child :: rest, underFallback, state => do
    let (status, state) ← eval tiers child underFallback state
    if status ≠ .failure then return (status, state)
    evalFallback tiers rest true state

end

/-- The state a tick starts from (lines 81–82). -/
def initialState (policies : σ) (observations : Dict String O) (context : DecisionContext K C) :
    TickState K O C σ where
  observations
  context
  proposal := context.upstream.getD []
  policies

/-- `tick` (lines 75–85): the proposed batch, the records and the state of the policies. -/
def tick (tree : BehaviorTree) (tiers : Dict String (Policy K O C σ)) (policies : σ)
    (observations : Dict String O) (context : DecisionContext K C) :
    Except PrimitiveError (ActionBatch K × List TierDecisionRecord × σ) := do
  let (_, state) ← eval tiers tree.root false (initialState policies observations context)
  return (state.proposal, state.records, state.policies)

/-! ## The leaves an evaluation ticks -/

/-- A leaf that an evaluation ticked: the proposal it was given, its status, and the batch it
wrote where it is an action that succeeded. -/
structure LeafVisit (K : Type) where
  leaf : BTNode
  upstream : ActionBatch K
  status : NodeStatus
  batch : Option (ActionBatch K)

mutual

/-- The leaves below a node that its evaluation ticks, in order. -/
def leafVisits (tiers : Dict String (Policy K O C σ)) :
    BTNode → Bool → TickState K O C σ → List (LeafVisit K)
  | .control .sequence children _, underFallback, state =>
    sequenceVisits tiers children underFallback state
  | .control .fallback children _, underFallback, state =>
    fallbackVisits tiers children underFallback state
  | .decorator _ child _, underFallback, state => leafVisits tiers child underFallback state
  | .action invoke ref nodeId params, underFallback, state =>
    match evalAction tiers invoke ref nodeId underFallback state with
    | .ok (status, state') =>
      [{ leaf := .action invoke ref nodeId params, upstream := state.proposal, status,
         batch := if status = .success then some state'.proposal else none }]
    | .error _ => []
  | .condition check nodeId params, _, state =>
    [{ leaf := .condition check nodeId params, upstream := state.proposal,
       status := evalCondition check state, batch := none }]

/-- The leaves ticked below the children of a sequence. -/
def sequenceVisits (tiers : Dict String (Policy K O C σ)) :
    List BTNode → Bool → TickState K O C σ → List (LeafVisit K)
  | [], _, _ => []
  | child :: rest, underFallback, state =>
    leafVisits tiers child underFallback state ++
      match eval tiers child underFallback state with
      | .ok (.success, state') => sequenceVisits tiers rest underFallback state'
      | _ => []

/-- The leaves ticked below the children of a fallback. -/
def fallbackVisits (tiers : Dict String (Policy K O C σ)) :
    List BTNode → Bool → TickState K O C σ → List (LeafVisit K)
  | [], _, _ => []
  | child :: rest, underFallback, state =>
    leafVisits tiers child underFallback state ++
      match eval tiers child underFallback state with
      | .ok (.failure, state') => fallbackVisits tiers rest true state'
      | _ => []

end

/-- The batch the last of the visited leaves that wrote one wrote, `start` if none did. -/
def lastBatch (start : ActionBatch K) (visits : List (LeafVisit K)) : ActionBatch K :=
  visits.foldl (fun batch visit => visit.batch.getD batch) start

/-- Every visited leaf was given the last batch written before it. -/
def Chained : ActionBatch K → List (LeafVisit K) → Prop
  | _, [] => True
  | start, visit :: visits => visit.upstream = start ∧ Chained (visit.batch.getD start) visits

@[simp]
theorem lastBatch_nil (start : ActionBatch K) : lastBatch start [] = start := rfl

@[simp]
theorem lastBatch_cons (start : ActionBatch K) (visit : LeafVisit K) (visits : List (LeafVisit K)) :
    lastBatch start (visit :: visits) = lastBatch (visit.batch.getD start) visits := rfl

theorem lastBatch_append (start : ActionBatch K) (xs ys : List (LeafVisit K)) :
    lastBatch start (xs ++ ys) = lastBatch (lastBatch start xs) ys :=
  List.foldl_append

/-- Leaves that wrote nothing keep the batch there was. -/
theorem lastBatch_of_forall_none {start : ActionBatch K} {visits : List (LeafVisit K)}
    (h : ∀ visit ∈ visits, visit.batch = none) : lastBatch start visits = start := by
  induction visits with
  | nil => rfl
  | cons visit visits ih =>
    rw [lastBatch_cons, h visit List.mem_cons_self, Option.getD_none]
    exact ih fun v hv => h v (List.mem_cons_of_mem _ hv)

theorem chained_append (start : ActionBatch K) (xs ys : List (LeafVisit K)) :
    Chained start (xs ++ ys) ↔ Chained start xs ∧ Chained (lastBatch start xs) ys := by
  induction xs generalizing start with
  | nil => simp [Chained]
  | cons x xs ih => simp only [List.cons_append, Chained, ih, lastBatch_cons, and_assoc]

/-- In a chain, a leaf is given what the leaves before it left. -/
theorem Chained.upstream_eq {start : ActionBatch K} {pre post : List (LeafVisit K)}
    {visit : LeafVisit K} (h : Chained start (pre ++ visit :: post)) :
    visit.upstream = lastBatch start pre :=
  ((chained_append start pre (visit :: post)).mp h).2.1

/-! ## What an evaluation leaves behind -/

variable {tiers : Dict String (Policy K O C σ)}

/-- An action that does not succeed leaves the proposal alone. -/
theorem evalAction_proposal {invoke : InvokeKind} {ref nodeId : String} {underFallback : Bool}
    {state state' : TickState K O C σ} {status : NodeStatus}
    (h : evalAction tiers invoke ref nodeId underFallback state = .ok (status, state'))
    (hs : status ≠ .success) : state'.proposal = state.proposal := by
  unfold evalAction at h
  split at h
  · obtain ⟨batch, -, hb⟩ := bind_eq_ok.1 h
    cases hb
    exact absurd rfl hs
  · split at h
    · cases h
      rfl
    · split at h
      split at h <;> cases h
      · rfl
      · exact absurd rfl hs

theorem evalSequence_cons_eq_ok {child : BTNode} {rest : List BTNode} {underFallback : Bool}
    {state state' : TickState K O C σ} {status : NodeStatus} :
    evalSequence tiers (child :: rest) underFallback state = .ok (status, state') ↔
      (eval tiers child underFallback state = .ok (status, state') ∧ status ≠ .success) ∨
        ∃ mid, eval tiers child underFallback state = .ok (.success, mid) ∧
          evalSequence tiers rest underFallback mid = .ok (status, state') := by
  rw [evalSequence, bind_eq_ok]
  constructor
  · rintro ⟨⟨first, mid⟩, hc, hr⟩
    by_cases hf : first = .success
    · subst hf
      exact .inr ⟨mid, hc, hr⟩
    · simp only [hf, ne_eq, not_false_eq_true, if_true] at hr
      cases hr
      exact .inl ⟨hc, hf⟩
  · rintro (⟨hc, hf⟩ | ⟨mid, hc, hr⟩)
    · exact ⟨_, hc, by simp only [hf, ne_eq, not_false_eq_true, if_true]; rfl⟩
    · exact ⟨_, hc, hr⟩

theorem evalFallback_cons_eq_ok {child : BTNode} {rest : List BTNode} {underFallback : Bool}
    {state state' : TickState K O C σ} {status : NodeStatus} :
    evalFallback tiers (child :: rest) underFallback state = .ok (status, state') ↔
      (eval tiers child underFallback state = .ok (status, state') ∧ status ≠ .failure) ∨
        ∃ mid, eval tiers child underFallback state = .ok (.failure, mid) ∧
          evalFallback tiers rest true mid = .ok (status, state') := by
  rw [evalFallback, bind_eq_ok]
  constructor
  · rintro ⟨⟨first, mid⟩, hc, hr⟩
    by_cases hf : first = .failure
    · subst hf
      exact .inr ⟨mid, hc, hr⟩
    · simp only [hf, ne_eq, not_false_eq_true, if_true] at hr
      cases hr
      exact .inl ⟨hc, hf⟩
  · rintro (⟨hc, hf⟩ | ⟨mid, hc, hr⟩)
    · exact ⟨_, hc, by simp only [hf, ne_eq, not_false_eq_true, if_true]; rfl⟩
    · exact ⟨_, hc, hr⟩

mutual

/-- A node leaves behind the batch of the last leaf below it that wrote one. -/
theorem proposal_eq_lastBatch (node : BTNode) (underFallback : Bool)
    (state state' : TickState K O C σ) (status : NodeStatus)
    (h : eval tiers node underFallback state = .ok (status, state')) :
    state'.proposal = lastBatch state.proposal (leafVisits tiers node underFallback state) := by
  match node with
  | .control .sequence children _ =>
    rw [eval] at h
    rw [leafVisits]
    exact sequence_proposal children underFallback state state' status h
  | .control .fallback children _ =>
    rw [eval] at h
    rw [leafVisits]
    exact fallback_proposal children underFallback state state' status h
  | .decorator kind child _ =>
    rw [eval, bind_eq_ok] at h
    obtain ⟨⟨first, mid⟩, hc, hd⟩ := h
    cases hd
    rw [leafVisits]
    exact proposal_eq_lastBatch child underFallback state _ first hc
  | .action invoke ref nodeId _ =>
    rw [eval] at h
    rw [leafVisits, h]
    by_cases hs : status = .success
    · simp [hs]
    · simp [hs, evalAction_proposal h hs]
  | .condition check _ _ =>
    rw [eval] at h
    cases h
    rw [leafVisits]
    rfl

theorem sequence_proposal (children : List BTNode) (underFallback : Bool)
    (state state' : TickState K O C σ) (status : NodeStatus)
    (h : evalSequence tiers children underFallback state = .ok (status, state')) :
    state'.proposal =
      lastBatch state.proposal (sequenceVisits tiers children underFallback state) := by
  match children with
  | [] =>
    rw [evalSequence] at h
    cases h
    rw [sequenceVisits]
    rfl
  | child :: rest =>
    rw [sequenceVisits, lastBatch_append]
    rcases evalSequence_cons_eq_ok.1 h with ⟨hc, hs⟩ | ⟨mid, hc, hr⟩
    · rw [hc, ← proposal_eq_lastBatch child underFallback state state' status hc]
      cases status <;> first | rfl | exact absurd rfl hs
    · rw [hc, ← proposal_eq_lastBatch child underFallback state mid .success hc]
      exact sequence_proposal rest underFallback mid state' status hr

theorem fallback_proposal (children : List BTNode) (underFallback : Bool)
    (state state' : TickState K O C σ) (status : NodeStatus)
    (h : evalFallback tiers children underFallback state = .ok (status, state')) :
    state'.proposal =
      lastBatch state.proposal (fallbackVisits tiers children underFallback state) := by
  match children with
  | [] =>
    rw [evalFallback] at h
    cases h
    rw [fallbackVisits]
    rfl
  | child :: rest =>
    rw [fallbackVisits, lastBatch_append]
    rcases evalFallback_cons_eq_ok.1 h with ⟨hc, hs⟩ | ⟨mid, hc, hr⟩
    · rw [hc, ← proposal_eq_lastBatch child underFallback state state' status hc]
      cases status <;> first | rfl | exact absurd rfl hs
    · rw [hc, ← proposal_eq_lastBatch child underFallback state mid .failure hc]
      exact fallback_proposal rest true mid state' status hr

end

mutual

/-- Every leaf that an evaluation ticks is given the batch that the leaves before it left. -/
theorem leafVisits_chained (node : BTNode) (underFallback : Bool) (state : TickState K O C σ) :
    Chained state.proposal (leafVisits tiers node underFallback state) := by
  match node with
  | .control .sequence children _ =>
    rw [leafVisits]
    exact sequenceVisits_chained children underFallback state
  | .control .fallback children _ =>
    rw [leafVisits]
    exact fallbackVisits_chained children underFallback state
  | .decorator _ child _ =>
    rw [leafVisits]
    exact leafVisits_chained child underFallback state
  | .action invoke ref nodeId _ =>
    rw [leafVisits]
    split
    · exact ⟨rfl, trivial⟩
    · trivial
  | .condition _ _ _ =>
    rw [leafVisits]
    exact ⟨rfl, trivial⟩

theorem sequenceVisits_chained (children : List BTNode) (underFallback : Bool)
    (state : TickState K O C σ) :
    Chained state.proposal (sequenceVisits tiers children underFallback state) := by
  match children with
  | [] =>
    rw [sequenceVisits]
    trivial
  | child :: rest =>
    rw [sequenceVisits, chained_append]
    refine ⟨leafVisits_chained child underFallback state, ?_⟩
    split
    · rename_i mid hc
      rw [← proposal_eq_lastBatch child underFallback state mid .success hc]
      exact sequenceVisits_chained rest underFallback mid
    · trivial

theorem fallbackVisits_chained (children : List BTNode) (underFallback : Bool)
    (state : TickState K O C σ) :
    Chained state.proposal (fallbackVisits tiers children underFallback state) := by
  match children with
  | [] =>
    rw [fallbackVisits]
    trivial
  | child :: rest =>
    rw [fallbackVisits, chained_append]
    refine ⟨leafVisits_chained child underFallback state, ?_⟩
    split
    · rename_i mid hc
      rw [← proposal_eq_lastBatch child underFallback state mid .failure hc]
      exact fallbackVisits_chained rest true mid
    · trivial

end

/-- What a visit says of its leaf: an action wrote a batch exactly if it succeeded, and a
condition wrote nothing and found its upstream fresh exactly if it was not empty. -/
def LeafVisit.Reports (visit : LeafVisit K) : Prop :=
  match visit.leaf with
  | .action _ _ _ _ => visit.batch.isSome ↔ visit.status = .success
  | .condition .freshUpstream _ _ =>
    visit.batch = none ∧ (visit.status = .success ↔ visit.upstream ≠ [])
  | _ => False

mutual

theorem leafVisits_reports (node : BTNode) (underFallback : Bool) (state : TickState K O C σ) :
    ∀ visit ∈ leafVisits tiers node underFallback state, visit.Reports := by
  intro visit hv
  match node with
  | .control .sequence children _ =>
    rw [leafVisits] at hv
    exact sequenceVisits_reports children underFallback state visit hv
  | .control .fallback children _ =>
    rw [leafVisits] at hv
    exact fallbackVisits_reports children underFallback state visit hv
  | .decorator _ child _ =>
    rw [leafVisits] at hv
    exact leafVisits_reports child underFallback state visit hv
  | .action invoke ref nodeId _ =>
    rw [leafVisits] at hv
    split at hv
    · rename_i status state' h
      obtain rfl := List.mem_singleton.mp hv
      by_cases hs : status = .success <;> simp [LeafVisit.Reports, hs]
    · cases hv
  | .condition .freshUpstream _ _ =>
    rw [leafVisits] at hv
    obtain rfl := List.mem_singleton.mp hv
    by_cases hp : state.proposal = [] <;> simp [LeafVisit.Reports, evalCondition, hp]

theorem sequenceVisits_reports (children : List BTNode) (underFallback : Bool)
    (state : TickState K O C σ) :
    ∀ visit ∈ sequenceVisits tiers children underFallback state, visit.Reports := by
  intro visit hv
  match children with
  | [] =>
    rw [sequenceVisits] at hv
    cases hv
  | child :: rest =>
    rw [sequenceVisits, List.mem_append] at hv
    rcases hv with hv | hv
    · exact leafVisits_reports child underFallback state visit hv
    · split at hv
      · exact sequenceVisits_reports rest underFallback _ visit hv
      · cases hv

theorem fallbackVisits_reports (children : List BTNode) (underFallback : Bool)
    (state : TickState K O C σ) :
    ∀ visit ∈ fallbackVisits tiers children underFallback state, visit.Reports := by
  intro visit hv
  match children with
  | [] =>
    rw [fallbackVisits] at hv
    cases hv
  | child :: rest =>
    rw [fallbackVisits, List.mem_append] at hv
    rcases hv with hv | hv
    · exact leafVisits_reports child underFallback state visit hv
    · split at hv
      · exact fallbackVisits_reports rest true _ visit hv
      · cases hv

end

/-! ## Failed branches -/

/-- A leaf of a tree. -/
def BTNode.IsLeaf : BTNode → Prop
  | .action _ _ _ _ => True
  | .condition _ _ _ => True
  | _ => False

/-- A leaf that does not succeed leaves the proposal alone. -/
theorem eval_leaf_proposal {node : BTNode} {underFallback : Bool} {state state' : TickState K O C σ}
    {status : NodeStatus} (hn : node.IsLeaf)
    (h : eval tiers node underFallback state = .ok (status, state')) (hs : status ≠ .success) :
    state'.proposal = state.proposal := by
  match node with
  | .action invoke ref nodeId _ =>
    rw [eval] at h
    exact evalAction_proposal h hs
  | .condition check _ _ =>
    rw [eval] at h
    cases h
    rfl

/-- What the threaded proposal can hold after a node was evaluated. -/
structure Residue (tiers : Dict String (Policy K O C σ)) (node : BTNode) (underFallback : Bool)
    (state : TickState K O C σ) (status : NodeStatus) (state' : TickState K O C σ) : Prop where
  /-- A leaf that fails leaves the proposal alone. -/
  leaf : node.IsLeaf → status = .failure → state'.proposal = state.proposal
  /-- A node that fails leaves the proposal alone, unless an action leaf below it succeeded. -/
  failure : status = .failure →
    (∀ visit ∈ leafVisits tiers node underFallback state, visit.status = .success →
      visit.batch = none) →
    state'.proposal = state.proposal
  /-- The proposal is the batch of the last action leaf below the node that succeeded. -/
  proposal : state'.proposal =
    lastBatch state.proposal (leafVisits tiers node underFallback state)
  /-- Every leaf below the node is given the batch of the last that succeeded before it. -/
  upstream : ∀ pre visit post,
    leafVisits tiers node underFallback state = pre ++ visit :: post →
      visit.upstream = lastBatch state.proposal pre
  /-- The visits report what their leaves did. -/
  reports : ∀ visit ∈ leafVisits tiers node underFallback state, visit.Reports

/-- A visit of a leaf that did not succeed wrote nothing. -/
theorem LeafVisit.Reports.batch_eq_none {visit : LeafVisit K} (h : visit.Reports)
    (hs : visit.status ≠ .success) : visit.batch = none := by
  unfold LeafVisit.Reports at h
  split at h
  · cases hb : visit.batch with
    | none => rfl
    | some batch => exact absurd (h.mp (by rw [hb]; rfl)) hs
  · exact h.1
  · exact h.elim

/-- **Main theorem.** Whatever a node evaluates to, the proposal it leaves is the batch of the last
action leaf below it that succeeded: a failed branch leaves no residue exactly as far as none of
its action leaves succeeded. The batch of a tick is that of the last action leaf that succeeded. -/
theorem eval_residue (tiers : Dict String (Policy K O C σ)) :
    (∀ (node : BTNode) (underFallback : Bool) (state : TickState K O C σ) (status : NodeStatus)
      (state' : TickState K O C σ),
      eval tiers node underFallback state = .ok (status, state') →
        Residue tiers node underFallback state status state') ∧
    ∀ (tree : BehaviorTree) (policies : σ) (observations : Dict String O)
      (context : DecisionContext K C) (batch : ActionBatch K) (records : List TierDecisionRecord)
      (policies' : σ),
      tick tree tiers policies observations context = .ok (batch, records, policies') →
        batch = lastBatch (context.upstream.getD [])
          (leafVisits tiers tree.root false (initialState policies observations context)) := by
  constructor
  · intro node underFallback state status state' h
    refine ⟨fun hn hs => eval_leaf_proposal hn h (by rw [hs]; decide), ?_,
      proposal_eq_lastBatch node underFallback state state' status h, ?_,
      leafVisits_reports node underFallback state⟩
    · intro _ hnone
      rw [proposal_eq_lastBatch node underFallback state state' status h]
      apply lastBatch_of_forall_none
      intro visit hv
      by_cases hs : visit.status = .success
      · exact hnone visit hv hs
      · exact (leafVisits_reports node underFallback state visit hv).batch_eq_none hs
    · intro pre visit post hvisits
      have hchain : Chained state.proposal (leafVisits tiers node underFallback state) :=
        leafVisits_chained node underFallback state
      rw [hvisits] at hchain
      exact hchain.upstream_eq
  · intro tree policies observations context batch records policies' h
    obtain ⟨⟨status, state'⟩, he, hr⟩ := bind_eq_ok.1 h
    cases hr
    exact proposal_eq_lastBatch tree.root false _ state' status he

end Engine

/-! ## A failed sequence -/

/-- Two tiers: `mission` sends every agent to standby, `tamp` raises. -/
def missionOnly : Dict String (Policy ℚ Unit Unit Unit) :=
  .ofList [
    ("mission", { decide := fun policies observations _ =>
      (some (observations.keys.map fun agentId =>
        { agentId, kind := .task, task := some { taskKind := .standby } }), policies) }),
    ("tamp", { decide := fun policies _ _ => (none, policies) })]

/-- Mission and TAMP in sequence, and behind them a branch that asks for a fresh upstream. -/
def degradingTree : BehaviorTree where
  treeId := "Degrading"
  formatVersion := "4"
  root := .control .fallback [
    .control .sequence [
      .action .planner "mission" "RunMission" .empty,
      .action .planner "tamp" "RunTamp" .empty] none,
    .condition .freshUpstream "Fresh" .empty] none

/-- One rover, and no upstream. -/
def roverTick : TickState ℚ Unit Unit Unit :=
  initialState () (.ofList [("rover", ())]) { upstream := none, rest := () }

/-- **Counterexample.** The sequence of mission and TAMP fails and leaves the batch of mission in
the proposal; the condition of the next branch takes it for fresh, and the tick returns it. -/
theorem failedSequence_leaves_residue :
    ¬ ∀ (tiers : Dict String (Policy ℚ Unit Unit Unit)) (node : BTNode) (underFallback : Bool)
      (state state' : TickState ℚ Unit Unit Unit),
      eval tiers node underFallback state = .ok (.failure, state') →
        state'.proposal = state.proposal := by
  intro h
  obtain ⟨state', hs, hp⟩ : ∃ state', eval missionOnly
      (.control .sequence [.action .planner "mission" "RunMission" .empty,
        .action .planner "tamp" "RunTamp" .empty] none) false roverTick = .ok (.failure, state') ∧
      state'.proposal.length = 1 := ⟨_, rfl, rfl⟩
  have := h missionOnly _ false roverTick state' hs
  rw [this] at hp
  exact absurd hp (by decide)

/-- The law at the failed sequence and at the whole tick, whose batch is that of mission. -/
theorem degradingTree_residue :
    (∃ state', eval missionOnly (.control .sequence [
        .action .planner "mission" "RunMission" .empty,
        .action .planner "tamp" "RunTamp" .empty] none) false roverTick = .ok (.failure, state') ∧
      Residue missionOnly (.control .sequence [
        .action .planner "mission" "RunMission" .empty,
        .action .planner "tamp" "RunTamp" .empty] none) false roverTick .failure state') ∧
    ∃ batch records,
      tick degradingTree missionOnly () (.ofList [("rover", ())]) { upstream := none, rest := () } =
        .ok (batch, records, ()) ∧
      batch = lastBatch [] (leafVisits missionOnly degradingTree.root false roverTick) ∧
      batch.length = 1 :=
  ⟨⟨_, rfl, (eval_residue missionOnly).1 _ false roverTick .failure _ rfl⟩,
    _, _, rfl, (eval_residue missionOnly).2 degradingTree () _ _ _ _ _ rfl, rfl⟩

end AstroMine.Mind
