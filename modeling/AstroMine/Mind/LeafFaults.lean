import Mathlib.Data.List.Dedup
import AstroMine.Mind.TreeXml

/-!
# Leaves that raise (`mind/bt/engine.py`, `mind/compose/composer.py`)

`tickDegraded` is the tick in which every leaf that raises fails. The engine catches what a tier
raises, but not the error of a primitive leaf whose action it cannot emit, and neither the parser
nor the composer reads the actions of primitive leaves.

`outcomes` lists how a node can end for some answers of the tiers: its status and whether the
proposal holds an action, or that it raises. A list of answers that realises an outcome is the
concatenation of those of the children that were ticked.

Results:
* `eval_covered`: a node ends in one of its outcomes.
* `outcomes_realized`: every outcome is that of some tiers.
* `tick_degrades_iff`: the trees whose ticks always degrade.
-/

namespace AstroMine.Mind

open AstroMine.Core

/-! ## The references of a tree -/

mutual

/-- `_iter_tier_refs` (`model.py`, lines 157–168). -/
def BTNode.tierRefs : BTNode → List String
  | .control _ children _ => childRefs children
  | .decorator _ child _ => child.tierRefs
  | .action invoke ref _ _ => if invoke = .primitive then [] else [ref]
  | .condition _ _ _ => []

/-- The references of the children of a composite. -/
def childRefs : List BTNode → List String
  | [] => []
  | child :: rest => child.tierRefs ++ childRefs rest

end

/-- `ComposeError`, of a stack that is executed as a behaviour tree. -/
inductive ComposeError
  /-- `behavior_tree execution requires the parsed BehaviorTree` -/
  | noTree
  /-- `behavior_tree execution requires execution.behavior_tree_ref` -/
  | noTreeRef
  /-- `behavior tree … invokes tier(s) … the stack does not compose` -/
  | missingTiers (treeId : String) (missing : List String)
  deriving DecidableEq

/-- `_resolve_behavior_tree` (`composer.py`, lines 139–161), on the roles of the composed tiers. -/
def resolveBehaviorTree (behaviorTreeRef : Option String) (tree : Option BehaviorTree)
    (roles : List String) : Except ComposeError BehaviorTree :=
  match tree with
  | none => .error .noTree
  | some tree =>
    if behaviorTreeRef.getD "" = "" then .error .noTreeRef
    else
      let missing := sortOn id (tree.root.tierRefs.dedup.filter fun ref => ref ∉ roles)
      if missing ≠ [] then .error (.missingTiers tree.treeId missing) else .ok tree

/-- A tree that is composed references tiers of the stack. -/
theorem mem_roles_of_resolve {behaviorTreeRef : Option String} {tree tree' : BehaviorTree}
    {roles : List String} (h : resolveBehaviorTree behaviorTreeRef (some tree) roles = .ok tree') :
    ∀ ref ∈ tree.root.tierRefs, ref ∈ roles := by
  intro ref href
  rw [resolveBehaviorTree] at h
  by_contra hnot
  have hmem : ref ∈ sortOn id (tree.root.tierRefs.dedup.filter fun ref => ref ∉ roles) :=
    (mem_sortOn _ _ _).mpr (List.mem_filter.mpr ⟨List.mem_dedup.mpr href, decide_eq_true hnot⟩)
  simp only [List.ne_nil_of_mem hmem, ne_eq, not_false_eq_true, if_true] at h
  split_ifs at h

/-! ## The tick in which faults are failures -/

section Engine

variable {K O C σ : Type}

/-- A leaf that raises fails and leaves everything as it was. -/
def degrade (state : TickState K O C σ) :
    Except PrimitiveError (NodeStatus × TickState K O C σ) → NodeStatus × TickState K O C σ
  | .ok result => result
  | .error _ => (.failure, state)

mutual

/-- The evaluation in which leaves that raise fail. -/
def evalDegraded (tiers : Dict String (Policy K O C σ)) :
    BTNode → Bool → TickState K O C σ → NodeStatus × TickState K O C σ
  | .control .sequence children _, underFallback, state =>
    sequenceDegraded tiers children underFallback state
  | .control .fallback children _, underFallback, state =>
    fallbackDegraded tiers children underFallback state
  | .decorator kind child _, underFallback, state =>
    let (status, state) := evalDegraded tiers child underFallback state
    (kind.apply status, state)
  | .action invoke ref nodeId _, underFallback, state =>
    degrade state (evalAction tiers invoke ref nodeId underFallback state)
  | .condition check _ _, _, state => (evalCondition check state, state)

/-- The children of a sequence up to the first that does not succeed. -/
def sequenceDegraded (tiers : Dict String (Policy K O C σ)) :
    List BTNode → Bool → TickState K O C σ → NodeStatus × TickState K O C σ
  | [], _, state => (.success, state)
  | child :: rest, underFallback, state =>
    let (status, state) := evalDegraded tiers child underFallback state
    if status ≠ .success then (status, state)
    else sequenceDegraded tiers rest underFallback state

/-- The children of a fallback up to the first that does not fail. -/
def fallbackDegraded (tiers : Dict String (Policy K O C σ)) :
    List BTNode → Bool → TickState K O C σ → NodeStatus × TickState K O C σ
  | [], _, state => (.failure, state)
  | child :: rest, underFallback, state =>
    let (status, state) := evalDegraded tiers child underFallback state
    if status ≠ .failure then (status, state)
    else fallbackDegraded tiers rest true state

end

/-- The tick in which leaves that raise fail. -/
def tickDegraded (tree : BehaviorTree) (tiers : Dict String (Policy K O C σ)) (policies : σ)
    (observations : Dict String O) (context : DecisionContext K C) :
    ActionBatch K × List TierDecisionRecord × σ :=
  let (_, state) :=
    evalDegraded tiers tree.root false (initialState policies observations context)
  (state.proposal, state.records, state.policies)

variable {tiers : Dict String (Policy K O C σ)}

/-- A tier that raises fails: the proposal stays, and the fault is recorded. -/
theorem evalAction_raises {invoke : InvokeKind} {ref nodeId : String} {underFallback : Bool}
    {state : TickState K O C σ} {policy : Policy K O C σ} (hinvoke : invoke ≠ .primitive)
    (hpolicy : tiers.get? ref = some policy)
    (hraises : (policy.decide state.policies state.observations
      { state.context with upstream := some state.proposal }).1 = none) :
    ∃ state', evalAction tiers invoke ref nodeId underFallback state = .ok (.failure, state') ∧
      state'.proposal = state.proposal ∧ state'.records = state.records ++
        [{ role := ref, replanned := true, trigger := some btTrigger, fallbackUsed := true }] := by
  rw [evalAction, if_neg hinvoke, hpolicy]
  simp only
  rw [hraises]
  exact ⟨_, rfl, rfl, rfl⟩

mutual

/-- An evaluation that returns is the one in which faults are failures. -/
theorem eval_eq_degraded (node : BTNode) (underFallback : Bool) (state : TickState K O C σ)
    (result : NodeStatus × TickState K O C σ)
    (h : eval tiers node underFallback state = .ok result) :
    evalDegraded tiers node underFallback state = result := by
  match node with
  | .control .sequence children _ =>
    rw [eval] at h
    rw [evalDegraded]
    exact evalSequence_eq_degraded children underFallback state result h
  | .control .fallback children _ =>
    rw [eval] at h
    rw [evalDegraded]
    exact evalFallback_eq_degraded children underFallback state result h
  | .decorator kind child _ =>
    rw [eval, bind_eq_ok] at h
    obtain ⟨first, hc, hd⟩ := h
    cases hd
    rw [evalDegraded, eval_eq_degraded child underFallback state first hc]
  | .action invoke ref nodeId _ =>
    rw [eval] at h
    rw [evalDegraded, h, degrade]
  | .condition check _ _ =>
    rw [eval] at h
    cases h
    rw [evalDegraded]

theorem evalSequence_eq_degraded (children : List BTNode) (underFallback : Bool)
    (state : TickState K O C σ) (result : NodeStatus × TickState K O C σ)
    (h : evalSequence tiers children underFallback state = .ok result) :
    sequenceDegraded tiers children underFallback state = result := by
  match children with
  | [] =>
    rw [evalSequence] at h
    cases h
    rw [sequenceDegraded]
  | child :: rest =>
    rw [sequenceDegraded]
    rcases evalSequence_cons_eq_ok.1 h with ⟨hc, hs⟩ | ⟨mid, hc, hr⟩
    · rw [eval_eq_degraded child underFallback state _ hc]
      exact if_pos hs
    · rw [eval_eq_degraded child underFallback state _ hc]
      exact evalSequence_eq_degraded rest underFallback mid result hr

theorem evalFallback_eq_degraded (children : List BTNode) (underFallback : Bool)
    (state : TickState K O C σ) (result : NodeStatus × TickState K O C σ)
    (h : evalFallback tiers children underFallback state = .ok result) :
    fallbackDegraded tiers children underFallback state = result := by
  match children with
  | [] =>
    rw [evalFallback] at h
    cases h
    rw [fallbackDegraded]
  | child :: rest =>
    rw [fallbackDegraded]
    rcases evalFallback_cons_eq_ok.1 h with ⟨hc, hs⟩ | ⟨mid, hc, hr⟩
    · rw [eval_eq_degraded child underFallback state _ hc]
      exact if_pos hs
    · rw [eval_eq_degraded child underFallback state _ hc]
      exact evalFallback_eq_degraded rest true mid result hr

end

/-- A tick degrades exactly if it returns. -/
theorem tick_eq_degraded_iff (tree : BehaviorTree) (policies : σ) (observations : Dict String O)
    (context : DecisionContext K C) :
    tick tree tiers policies observations context =
        .ok (tickDegraded tree tiers policies observations context) ↔
      ∃ result, eval tiers tree.root false (initialState policies observations context) =
        .ok result := by
  constructor
  · intro h
    obtain ⟨result, hresult, -⟩ := bind_eq_ok.1 h
    exact ⟨result, hresult⟩
  · rintro ⟨result, hresult⟩
    rw [tick, hresult, tickDegraded, eval_eq_degraded tree.root false _ result hresult]
    rfl

/-! ## The outcomes of a node -/

/-- How the evaluation of a node can end: its status and whether the proposal then holds an action,
or `none` where it raises. -/
abbrev Outcome := Option (NodeStatus × Bool)

/-- The outcomes of an action, of a tick that observes agents or none and a proposal that holds an
action or none. -/
def actionOutcomes (observed fresh : Bool) (invoke : InvokeKind) (ref : String) : List Outcome :=
  if invoke = .primitive then
    if ref = "standby" then [some (.success, observed)] else [none]
  else [some (.failure, fresh), some (.success, false), some (.success, true)]

/-- The outcome a decorator makes of the one of its child. -/
def DecoratorKind.applyOutcome (kind : DecoratorKind) (outcome : Outcome) : Outcome :=
  outcome.map fun o => (kind.apply o.1, o.2)

/-- What follows an outcome in a composite that goes on after the status `go`. -/
def advance (go : NodeStatus) (next : Bool → List Outcome) : Outcome → List Outcome
  | some (status, fresh) => if status = go then next fresh else [some (status, fresh)]
  | none => [none]

mutual

/-- The outcomes of a node. -/
def BTNode.outcomes (observed : Bool) : BTNode → Bool → List Outcome
  | .control .sequence children _, fresh => sequenceOutcomes observed children fresh
  | .control .fallback children _, fresh => fallbackOutcomes observed children fresh
  | .decorator kind child _, fresh => (child.outcomes observed fresh).map kind.applyOutcome
  | .action invoke ref _ _, fresh => actionOutcomes observed fresh invoke ref
  | .condition .freshUpstream _ _, fresh => [some (if fresh then .success else .failure, fresh)]

/-- The outcomes of the children of a sequence. -/
def sequenceOutcomes (observed : Bool) : List BTNode → Bool → List Outcome
  | [], fresh => [some (.success, fresh)]
  | child :: rest, fresh =>
    (child.outcomes observed fresh).flatMap (advance .success (sequenceOutcomes observed rest))

/-- The outcomes of the children of a fallback. -/
def fallbackOutcomes (observed : Bool) : List BTNode → Bool → List Outcome
  | [], fresh => [some (.failure, fresh)]
  | child :: rest, fresh =>
    (child.outcomes observed fresh).flatMap (advance .failure (fallbackOutcomes observed rest))

end

/-- No outcome of the tree raises. -/
def BehaviorTree.Harmless (tree : BehaviorTree) : Prop :=
  ∀ observed fresh, none ∉ tree.root.outcomes observed fresh

instance (tree : BehaviorTree) : Decidable tree.Harmless :=
  inferInstanceAs (Decidable (∀ observed fresh, none ∉ tree.root.outcomes observed fresh))

/-- The tick observes an agent. -/
def TickState.observed (state : TickState K O C σ) : Bool := !state.observations.keys.isEmpty

/-- The proposal holds an action. -/
def TickState.fresh (state : TickState K O C σ) : Bool := !state.proposal.isEmpty

/-! ## Every evaluation ends in an outcome -/

/-- The result is one of the outcomes, and the observations are kept. -/
def Covered (outcomes : List Outcome) (state : TickState K O C σ) :
    Except PrimitiveError (NodeStatus × TickState K O C σ) → Prop
  | .ok (status, state') =>
    some (status, state'.fresh) ∈ outcomes ∧ state'.observations = state.observations
  | .error _ => none ∈ outcomes

/-- A composite that goes on after one status. -/
theorem Covered.advance {outcomes : List Outcome} {state : TickState K O C σ} {go : NodeStatus}
    {next : Bool → List Outcome}
    {rest : TickState K O C σ → Except PrimitiveError (NodeStatus × TickState K O C σ)}
    {result : Except PrimitiveError (NodeStatus × TickState K O C σ)}
    (h : Covered outcomes state result)
    (hnext : ∀ state', state'.observations = state.observations →
      Covered (next state'.fresh) state' (rest state')) :
    Covered (outcomes.flatMap (AstroMine.Mind.advance go next)) state (do
      let (status, state) ← result
      if status ≠ go then return (status, state)
      rest state) := by
  match result with
  | .error _ => exact List.mem_flatMap.mpr ⟨none, h, List.mem_cons_self⟩
  | .ok (status, state') =>
    show Covered _ state (if status ≠ go then .ok (status, state') else rest state')
    have hsub : ∀ o ∈ AstroMine.Mind.advance go next (some (status, state'.fresh)),
        o ∈ outcomes.flatMap (AstroMine.Mind.advance go next) :=
      fun o ho => List.mem_flatMap.mpr ⟨_, h.1, ho⟩
    rw [AstroMine.Mind.advance] at hsub
    by_cases hgo : status = go
    · rw [if_pos hgo] at hsub
      rw [if_neg (not_not.mpr hgo)]
      have hrest := hnext state' h.2
      match hresult : rest state' with
      | .error _ =>
        rw [hresult] at hrest
        exact hsub _ hrest
      | .ok (_, _) =>
        rw [hresult] at hrest
        exact ⟨hsub _ hrest.1, hrest.2.trans h.2⟩
    · rw [if_neg hgo] at hsub
      rw [if_pos hgo]
      exact ⟨hsub _ List.mem_cons_self, h.2⟩

variable (tiers) in
theorem evalAction_covered (invoke : InvokeKind) (ref nodeId : String) (underFallback : Bool)
    (state : TickState K O C σ) :
    Covered (actionOutcomes state.observed state.fresh invoke ref) state
      (evalAction tiers invoke ref nodeId underFallback state) := by
  rw [actionOutcomes, evalAction]
  by_cases hinvoke : invoke = .primitive
  · rw [if_pos hinvoke, if_pos hinvoke, primitive]
    by_cases href : ref = "standby"
    · rw [if_pos href, if_pos href]
      refine ⟨List.mem_singleton.mpr ?_, rfl⟩
      show some (NodeStatus.success, !(List.map _ _).isEmpty) = some (.success, state.observed)
      rw [List.isEmpty_map, TickState.observed, (sortOn_perm id state.observations.keys).isEmpty_eq]
    · rw [if_neg href, if_neg href]
      exact List.mem_singleton_self none
  · rw [if_neg hinvoke, if_neg hinvoke]
    cases tiers.get? ref with
    | none => exact ⟨List.mem_cons_self, rfl⟩
    | some policy =>
      simp only
      cases (policy.decide state.policies state.observations
          { state.context with upstream := some state.proposal }).1 with
      | none => exact ⟨List.mem_cons_self, rfl⟩
      | some batch =>
        refine ⟨List.mem_cons_of_mem _ ?_, rfl⟩
        cases batch with
        | nil => exact List.mem_cons_self
        | cons a as => exact List.mem_cons_of_mem _ List.mem_cons_self

mutual

/-- A node ends in one of its outcomes. -/
theorem eval_covered (node : BTNode) (underFallback : Bool) (state : TickState K O C σ) :
    Covered (node.outcomes state.observed state.fresh) state
      (eval tiers node underFallback state) := by
  match node with
  | .control .sequence children _ =>
    rw [eval, BTNode.outcomes]
    exact evalSequence_covered children underFallback state
  | .control .fallback children _ =>
    rw [eval, BTNode.outcomes]
    exact evalFallback_covered children underFallback state
  | .decorator kind child _ =>
    rw [eval, BTNode.outcomes]
    have hchild := eval_covered child underFallback state
    match hresult : eval tiers child underFallback state with
    | .error err =>
      rw [hresult] at hchild
      exact List.mem_map.mpr ⟨none, hchild, rfl⟩
    | .ok (status, state') =>
      rw [hresult] at hchild
      exact ⟨List.mem_map.mpr ⟨some (status, state'.fresh), hchild.1, rfl⟩, hchild.2⟩
  | .action invoke ref nodeId _ =>
    rw [eval, BTNode.outcomes]
    exact evalAction_covered tiers invoke ref nodeId underFallback state
  | .condition .freshUpstream _ _ =>
    rw [eval, BTNode.outcomes]
    refine ⟨List.mem_singleton.mpr ?_, rfl⟩
    rw [evalCondition, TickState.fresh]
    cases state.proposal.isEmpty <;> rfl

theorem evalSequence_covered (children : List BTNode) (underFallback : Bool)
    (state : TickState K O C σ) :
    Covered (sequenceOutcomes state.observed children state.fresh) state
      (evalSequence tiers children underFallback state) := by
  match children with
  | [] =>
    rw [evalSequence, sequenceOutcomes]
    exact ⟨List.mem_cons_self, rfl⟩
  | child :: rest =>
    rw [evalSequence, sequenceOutcomes]
    refine (eval_covered child underFallback state).advance fun state' hobs => ?_
    have hrest := evalSequence_covered rest underFallback state'
    rw [TickState.observed, hobs] at hrest
    exact hrest

theorem evalFallback_covered (children : List BTNode) (underFallback : Bool)
    (state : TickState K O C σ) :
    Covered (fallbackOutcomes state.observed children state.fresh) state
      (evalFallback tiers children underFallback state) := by
  match children with
  | [] =>
    rw [evalFallback, fallbackOutcomes]
    exact ⟨List.mem_cons_self, rfl⟩
  | child :: rest =>
    rw [evalFallback, fallbackOutcomes]
    refine (eval_covered child underFallback state).advance fun state' hobs => ?_
    have hrest := evalFallback_covered rest true state'
    rw [TickState.observed, hobs] at hrest
    exact hrest

end

end Engine

/-! ## Every outcome is that of some tiers -/

section Scripts

variable {K O C : Type}

/-- A tier that answers what the script says: it raises, or returns a batch with an action or an
empty one. -/
def scripted : Policy K O C (List (Option Bool)) where
  decide script _ _ :=
    match script with
    | [] => (none, [])
    | none :: rest => (none, rest)
    | some false :: rest => (some [], rest)
    | some true :: rest => (some [{ agentId := "", kind := .task }], rest)

/-- An evaluation under these tiers. -/
abbrev Run (K O C : Type) :=
  TickState K O C (List (Option Bool)) →
    Except PrimitiveError (NodeStatus × TickState K O C (List (Option Bool)))

/-- The result is that outcome, with this script left. -/
def Ends (observed : Bool) (left : List (Option Bool)) (outcome : Outcome)
    (result : Except PrimitiveError (NodeStatus × TickState K O C (List (Option Bool)))) : Prop :=
  match outcome with
  | none => ∃ err, result = .error err
  | some (status, fresh) => ∃ state, result = .ok (status, state) ∧
      state.observed = observed ∧ state.fresh = fresh ∧ state.policies = left

/-- The evaluation uses up the script and ends in the outcome. -/
def Realizes (run : Run K O C) (observed fresh : Bool) (script : List (Option Bool))
    (outcome : Outcome) : Prop :=
  ∀ state left, state.observed = observed → state.fresh = fresh →
    state.policies = script ++ left → Ends observed left outcome (run state)

/-- A composite that goes on after one status. -/
theorem Realizes.advance {run : Run K O C} {observed fresh : Bool} {script : List (Option Bool)}
    {first outcome : Outcome} {go : NodeStatus} {next : Bool → List Outcome} {rest : Run K O C}
    (h : Realizes run observed fresh script first)
    (hmem : outcome ∈ AstroMine.Mind.advance go next first)
    (hnext : ∀ fresh', outcome ∈ next fresh' →
      ∃ script', Realizes rest observed fresh' script' outcome) :
    ∃ script', Realizes (fun state => do
      let (status, state) ← run state
      if status ≠ go then return (status, state)
      rest state) observed fresh script' outcome := by
  match first with
  | none =>
    rw [AstroMine.Mind.advance, List.mem_singleton] at hmem
    subst hmem
    refine ⟨script, fun state left hobs hfresh hpol => ?_⟩
    obtain ⟨err, herr⟩ := h state left hobs hfresh hpol
    refine ⟨err, ?_⟩
    beta_reduce
    rw [herr]
    rfl
  | some (status, fresh') =>
    rw [AstroMine.Mind.advance] at hmem
    by_cases hgo : status = go
    · rw [if_pos hgo] at hmem
      obtain ⟨script', hrest⟩ := hnext fresh' hmem
      refine ⟨script ++ script', fun state left hobs hfresh hpol => ?_⟩
      rw [List.append_assoc] at hpol
      obtain ⟨mid, hrun, hobs', hfresh', hpol'⟩ := h state _ hobs hfresh hpol
      have hmid := hrest mid left hobs' hfresh' hpol'
      beta_reduce
      rw [hrun]
      show Ends observed left outcome (if status ≠ go then .ok (status, mid) else rest mid)
      rw [if_neg (not_not.mpr hgo)]
      exact hmid
    · rw [if_neg hgo, List.mem_singleton] at hmem
      subst hmem
      refine ⟨script, fun state left hobs hfresh hpol => ?_⟩
      obtain ⟨mid, hrun, hmid⟩ := h state left hobs hfresh hpol
      refine ⟨mid, ?_, hmid⟩
      beta_reduce
      rw [hrun]
      exact if_pos hgo

variable {tiers : Dict String (Policy K O C (List (Option Bool)))}

/-- One answer makes a tier end in an outcome of its own. -/
theorem scripted_realizes {invoke : InvokeKind} {ref nodeId : String} {underFallback : Bool}
    {observed fresh : Bool} {outcome : Outcome} (hinvoke : invoke ≠ .primitive)
    (htier : tiers.get? ref = some scripted)
    (hmem : outcome ∈ [some (NodeStatus.failure, fresh), some (.success, false),
      some (.success, true)]) :
    ∃ script, Realizes (evalAction tiers invoke ref nodeId underFallback) observed fresh script
      outcome := by
  simp only [List.mem_cons, List.not_mem_nil, or_false] at hmem
  rcases hmem with rfl | rfl | rfl
  · refine ⟨[none], fun state left hobs hfresh hpol => ?_⟩
    rw [evalAction, if_neg hinvoke, htier]
    simp only [scripted, hpol]
    exact ⟨_, rfl, hobs, hfresh, rfl⟩
  · refine ⟨[some false], fun state left hobs hfresh hpol => ?_⟩
    rw [evalAction, if_neg hinvoke, htier]
    simp only [scripted, hpol]
    exact ⟨_, rfl, hobs, rfl, rfl⟩
  · refine ⟨[some true], fun state left hobs hfresh hpol => ?_⟩
    rw [evalAction, if_neg hinvoke, htier]
    simp only [scripted, hpol]
    exact ⟨_, rfl, hobs, rfl, rfl⟩

theorem evalAction_realized {invoke : InvokeKind} {ref nodeId : String} (underFallback : Bool)
    {observed fresh : Bool} {outcome : Outcome}
    (htier : invoke ≠ .primitive → tiers.get? ref = some scripted)
    (hmem : outcome ∈ actionOutcomes observed fresh invoke ref) :
    ∃ script, Realizes (evalAction tiers invoke ref nodeId underFallback) observed fresh script
      outcome := by
  rw [actionOutcomes] at hmem
  by_cases hinvoke : invoke = .primitive
  · rw [if_pos hinvoke] at hmem
    refine ⟨[], fun state left hobs hfresh hpol => ?_⟩
    have hcovered := evalAction_covered tiers invoke ref nodeId underFallback state
    rw [actionOutcomes, if_pos hinvoke] at hcovered
    rw [evalAction, if_pos hinvoke, primitive] at hcovered ⊢
    by_cases href : ref = "standby"
    · rw [if_pos href] at hmem hcovered ⊢
      rw [if_pos href] at hcovered
      rw [List.mem_singleton.mp hmem]
      refine ⟨_, rfl, hobs, ?_, hpol⟩
      have hfresh' := List.mem_singleton.mp hcovered.1
      rw [← hobs]
      exact (Prod.ext_iff.mp (Option.some.inj hfresh')).2
    · rw [if_neg href] at hmem ⊢
      rw [List.mem_singleton.mp hmem]
      exact ⟨_, rfl⟩
  · rw [if_neg hinvoke] at hmem
    exact scripted_realizes hinvoke (htier hinvoke) hmem

mutual

/-- Every outcome of a node is that of some answers of the tiers. -/
theorem outcomes_realized (node : BTNode) (underFallback observed fresh : Bool) (outcome : Outcome)
    (htiers : ∀ ref ∈ node.tierRefs, tiers.get? ref = some scripted)
    (hmem : outcome ∈ node.outcomes observed fresh) :
    ∃ script, Realizes (eval tiers node underFallback) observed fresh script outcome := by
  match node with
  | .control .sequence children _ =>
    rw [BTNode.outcomes] at hmem
    rw [BTNode.tierRefs] at htiers
    obtain ⟨script, h⟩ :=
      sequenceOutcomes_realized children underFallback observed fresh outcome htiers hmem
    exact ⟨script, fun state left hobs hfresh hpol => by
      rw [eval]
      exact h state left hobs hfresh hpol⟩
  | .control .fallback children _ =>
    rw [BTNode.outcomes] at hmem
    rw [BTNode.tierRefs] at htiers
    obtain ⟨script, h⟩ :=
      fallbackOutcomes_realized children underFallback observed fresh outcome htiers hmem
    exact ⟨script, fun state left hobs hfresh hpol => by
      rw [eval]
      exact h state left hobs hfresh hpol⟩
  | .decorator kind child _ =>
    rw [BTNode.outcomes] at hmem
    rw [BTNode.tierRefs] at htiers
    obtain ⟨first, hfirst, rfl⟩ := List.mem_map.mp hmem
    obtain ⟨script, h⟩ := outcomes_realized child underFallback observed fresh first htiers hfirst
    refine ⟨script, fun state left hobs hfresh hpol => ?_⟩
    have hchild := h state left hobs hfresh hpol
    rw [eval]
    match first with
    | none =>
      obtain ⟨err, herr⟩ := hchild
      exact ⟨err, by rw [herr]; rfl⟩
    | some (status, fresh') =>
      obtain ⟨state', hrun, hstate'⟩ := hchild
      exact ⟨state', by rw [hrun]; rfl, hstate'⟩
  | .action invoke ref nodeId _ =>
    rw [BTNode.outcomes] at hmem
    have htier : invoke ≠ .primitive → tiers.get? ref = some scripted := by
      intro hinvoke
      refine htiers ref ?_
      rw [BTNode.tierRefs, if_neg hinvoke]
      exact List.mem_cons_self
    obtain ⟨script, h⟩ := evalAction_realized underFallback htier hmem
    exact ⟨script, fun state left hobs hfresh hpol => by
      rw [eval]
      exact h state left hobs hfresh hpol⟩
  | .condition .freshUpstream _ _ =>
    rw [BTNode.outcomes] at hmem
    rw [List.mem_singleton.mp hmem]
    refine ⟨[], fun state left hobs hfresh hpol => ⟨state, ?_, hobs, hfresh, hpol⟩⟩
    rw [eval, evalCondition, ← hfresh, TickState.fresh]
    cases state.proposal.isEmpty <;> rfl

theorem sequenceOutcomes_realized (children : List BTNode) (underFallback observed fresh : Bool)
    (outcome : Outcome) (htiers : ∀ ref ∈ childRefs children, tiers.get? ref = some scripted)
    (hmem : outcome ∈ sequenceOutcomes observed children fresh) :
    ∃ script, Realizes (evalSequence tiers children underFallback) observed fresh script
      outcome := by
  match children with
  | [] =>
    rw [sequenceOutcomes] at hmem
    rw [List.mem_singleton.mp hmem]
    refine ⟨[], fun state left hobs hfresh hpol => ⟨state, ?_, hobs, hfresh, hpol⟩⟩
    rw [evalSequence]
  | child :: rest =>
    rw [sequenceOutcomes] at hmem
    rw [childRefs, List.forall_mem_append] at htiers
    obtain ⟨first, hfirst, hmem⟩ := List.mem_flatMap.mp hmem
    obtain ⟨script, h⟩ := outcomes_realized child underFallback observed fresh first htiers.1 hfirst
    obtain ⟨script', h'⟩ := h.advance hmem fun fresh' =>
      sequenceOutcomes_realized rest underFallback observed fresh' outcome htiers.2
    exact ⟨script', fun state left hobs hfresh hpol => by
      rw [evalSequence]
      exact h' state left hobs hfresh hpol⟩

theorem fallbackOutcomes_realized (children : List BTNode) (underFallback observed fresh : Bool)
    (outcome : Outcome) (htiers : ∀ ref ∈ childRefs children, tiers.get? ref = some scripted)
    (hmem : outcome ∈ fallbackOutcomes observed children fresh) :
    ∃ script, Realizes (evalFallback tiers children underFallback) observed fresh script
      outcome := by
  match children with
  | [] =>
    rw [fallbackOutcomes] at hmem
    rw [List.mem_singleton.mp hmem]
    refine ⟨[], fun state left hobs hfresh hpol => ⟨state, ?_, hobs, hfresh, hpol⟩⟩
    rw [evalFallback]
  | child :: rest =>
    rw [fallbackOutcomes] at hmem
    rw [childRefs, List.forall_mem_append] at htiers
    obtain ⟨first, hfirst, hmem⟩ := List.mem_flatMap.mp hmem
    obtain ⟨script, h⟩ := outcomes_realized child underFallback observed fresh first htiers.1 hfirst
    obtain ⟨script', h'⟩ := h.advance hmem fun fresh' =>
      fallbackOutcomes_realized rest true observed fresh' outcome htiers.2
    exact ⟨script', fun state left hobs hfresh hpol => by
      rw [evalFallback]
      exact h' state left hobs hfresh hpol⟩

end

/-- Tiers that all answer from the script. -/
def scriptedTiers (roles : List String) : Dict String (Policy K O C (List (Option Bool))) :=
  .ofList (roles.map fun role => (role, scripted))

theorem get?_scriptedTiers {roles : List String} {role : String} (h : role ∈ roles) :
    (scriptedTiers (K := K) (O := O) (C := C) roles).get? role = some scripted := by
  refine Dict.get?_ofList_of_forall (List.mem_map.mpr ⟨role, h, rfl⟩) ?_
  intro p hp _
  obtain ⟨_, -, rfl⟩ := List.mem_map.mp hp
  rfl

/-- An outcome that raises is reached by some tick. -/
theorem exists_tick_raises [Inhabited O] [Inhabited C] {roles : List String} {tree : BehaviorTree}
    (hroles : ∀ ref ∈ tree.root.tierRefs, ref ∈ roles) (h : ¬ tree.Harmless) :
    ∃ (policies : List (Option Bool)) (observations : Dict String O) (context : DecisionContext K C)
      (err : PrimitiveError),
      eval (scriptedTiers roles) tree.root false (initialState policies observations context) =
        .error err := by
  obtain ⟨observed, fresh, hmem⟩ : ∃ observed fresh, none ∈ tree.root.outcomes observed fresh := by
    by_contra hall
    push Not at hall
    exact h hall
  obtain ⟨script, hscript⟩ := outcomes_realized (K := K) (O := O) (C := C) tree.root false observed
    fresh none (fun ref href => get?_scriptedTiers (hroles ref href)) hmem
  let observations : Dict String O := if observed then .ofList [("", default)] else .empty
  let context : DecisionContext K C :=
    { upstream := if fresh then some [{ agentId := "", kind := .task }] else none, rest := default }
  obtain ⟨err, herr⟩ := hscript (initialState script observations context) []
    (by cases observed <;> rfl) (by cases fresh <;> rfl) (List.append_nil script).symm
  exact ⟨script, observations, context, err, herr⟩

/-- **Main theorem.** The ticks of a tree that is composed always return, with every leaf that
raises a failure that the composites above it handle, exactly if no outcome of the tree raises. -/
theorem tick_degrades_iff [Inhabited O] [Inhabited C] {behaviorTreeRef : Option String}
    {roles : List String} {tree : BehaviorTree}
    (hcomposed : resolveBehaviorTree behaviorTreeRef (some tree) roles = .ok tree) :
    (∀ (σ : Type) (tiers : Dict String (Policy K O C σ)),
      (∀ role ∈ roles, (tiers.get? role).isSome) →
        ∀ (policies : σ) (observations : Dict String O) (context : DecisionContext K C),
          tick tree tiers policies observations context =
            .ok (tickDegraded tree tiers policies observations context)) ↔
      tree.Harmless := by
  constructor
  · intro hdegrades
    by_contra h
    obtain ⟨policies, observations, context, err, herr⟩ :=
      exists_tick_raises (K := K) (O := O) (C := C) (mem_roles_of_resolve hcomposed) h
    obtain ⟨result, hresult⟩ := (tick_eq_degraded_iff tree policies observations context).1
      (hdegrades _ (scriptedTiers roles)
        (fun role hrole => by rw [get?_scriptedTiers hrole]; rfl) policies observations context)
    rw [herr] at hresult
    cases hresult
  · intro h σ tiers _ policies observations context
    rw [tick_eq_degraded_iff]
    have hcovered : Covered _ _ (eval tiers tree.root false
        (initialState policies observations context)) := eval_covered tree.root false _
    match hresult : eval tiers tree.root false (initialState policies observations context) with
    | .ok result => exact ⟨result, rfl⟩
    | .error err =>
      rw [hresult] at hcovered
      exact absurd hcovered (h _ _)

end Scripts

/-- The law at the degrading tree, which names no action. -/
theorem tick_degrades_iff_degrading :
    resolveBehaviorTree (some "degrading.xml") (some degradingTree) ["mission", "tamp"] =
        .ok degradingTree ∧
      tick degradingTree missionOnly () (.ofList [("rover", ())]) { upstream := none, rest := () } =
        .ok (tickDegraded degradingTree missionOnly () (.ofList [("rover", ())])
          { upstream := none, rest := () }) := by
  have hcomposed : resolveBehaviorTree (some "degrading.xml") (some degradingTree)
      ["mission", "tamp"] = .ok degradingTree := by rfl
  refine ⟨hcomposed, (tick_degrades_iff hcomposed).2 (by decide) Unit missionOnly ?_ _ _ _⟩
  decide

/-! ## A fallback that raises -/

/-- TAMP, and behind it a primitive that is not `standby`. -/
def holdDocument : Element :=
  .mk "BehaviorTree" (.ofList [("ID", "Hold")]) [.mk "Fallback" .empty [
    .mk "Action" (.ofList [("ID", "RunTamp"), ("kind", "planner"), ("tier", "tamp")]) [],
    .mk "Action" (.ofList [("ID", "Hold"), ("kind", "primitive"), ("action", "hold")]) []]]

/-- The tree of that document. -/
def holdTree : BehaviorTree where
  treeId := "Hold"
  formatVersion := "4"
  root := .control .fallback [
    .action .planner "tamp" "RunTamp" .empty,
    .action .primitive "hold" "Hold" .empty] none

/-- **Counterexample.** The document is parsed and composed, and when TAMP raises its tick does. -/
theorem holdTree_raises :
    parseBehaviorTree elementDocuments holdDocument = .ok holdTree ∧
      resolveBehaviorTree (some "hold.xml") (some holdTree) ["mission", "tamp"] = .ok holdTree ∧
      ¬ ∀ (σ : Type) (tiers : Dict String (Policy ℚ Unit Unit σ)),
        (∀ role ∈ ["mission", "tamp"], (tiers.get? role).isSome) →
          ∀ (policies : σ) (observations : Dict String Unit) (context : DecisionContext ℚ Unit),
            tick holdTree tiers policies observations context =
              .ok (tickDegraded holdTree tiers policies observations context) := by
  refine ⟨by rfl, by rfl, fun h => ?_⟩
  have htick := h Unit missionOnly (by decide) () (.ofList [("rover", ())])
    { upstream := none, rest := () }
  have hraises : tick holdTree missionOnly () (.ofList [("rover", ())])
      { upstream := none, rest := () } = .error ⟨"Hold", "hold"⟩ := rfl
  rw [hraises] at htick
  cases htick

end AstroMine.Mind
