import AstroMine.Guard.Memory
import AstroMine.Mind.Strategy

/-!
# A stack as a policy (`mind/exec/policy.py`, `mind/exec/_tick.py`, `guard/mind/plugin.py`)

`StackPolicy` drives a composed stack for a caller that owns the loop. What a call proposes depends
on the episode: the state of the strategy, which `reset` builds anew, and the last tick, by which a
call that rewinds is told to begin a new episode. What it emits is what the shield makes of the
proposal, and the shield belongs to the stack: neither `reset` nor a rewind touches its cores.

The tiers are pure policies, so they have no state. The decision trace and the report of the
shield, which no decision reads, are left out; a deadline miss of the armed watchdog is data of the
call.

Results:
* `step_begins`: the first call of an episode does not see the episodes before it.
* `run_agree`: runs of one episode agree where the cores of its agents have the same memory.
* `run_coreFor`: the core of an agent that no call acts for is left alone.
* `episode_isolated`: episodes played earlier matter only through the memory of these cores.
* `holdKept_not_isolated`: the counterexample.
-/

namespace AstroMine.Mind

open AstroMine.Core AstroMine.Guard

/-! ## The stack -/

/-- `Observation` (`core/messages/model.py`, lines 170–186): what the shield reads of it, its tick
and sim time, and whether its comms mask reports earth contact. -/
structure AgentObservation (K T : Type) where
  observation : Core.Observation K
  tick : ℤ
  simTimeS : T
  earthContact : Bool := false

/-- The context `decide_tick` builds (`_tick.py`, lines 60–66), without its `upstream`. -/
structure TickContext (T J : Type) where
  simTimeS : T
  objective : Option J
  seed : Option ℤ
  belief : BeliefView

/-- The strategy that `build_strategy` chooses (`executive.py`, lines 45–54). -/
inductive Execution
  | behaviorTree (tree : BehaviorTree)
  | composed (kind : StrategyKind)

/-- A composed stack of pure tiers, with the `seed` and `objective` of its `StackPolicy`. -/
structure Stack (K T J : Type) where
  graph : HierarchyGraph K (AgentObservation K T) (TickContext T J) Unit T
  execution : Execution
  region : Action K → Option String
  seed : Option ℤ := none
  objective : Option J := none

/-- One call of `decide`: the observations, what its context carries, and the proposals the
trusted core overruns its deadline on. -/
structure Call (K T J : Type) where
  observations : Dict String (AgentObservation K T)
  seed : Option ℤ := none
  objective : Option J := none
  late : ℕ → Bool := fun _ => false

/-- What a caller does with a policy. -/
inductive Event (K T J : Type)
  | reset
  | decide (call : Call K T J)

/-- What `reset` builds anew: `_strategy` and `_last_tick` (`policy.py`, lines 65–66). -/
structure Episode (K T : Type) where
  strategy : StrategyState K T := {}
  lastTick : Option ℤ := none

/-- `StackPolicy` (lines 47–66), with the shield of its stack. -/
structure StackPolicy (K T : Type) where
  episode : Episode K T := {}
  shield : PolicyShield K

section Propose

variable {K T J : Type}

/-- The observation of the lowest agent id (lines 115–129). -/
def lowest (observations : Dict String (AgentObservation K T)) : Option (AgentObservation K T) :=
  (sortOn id observations.keys).head?.bind observations.get?

/-- `assemble_belief` (`view.py`, lines 64–78). -/
def assembleBelief (observations : Dict String (AgentObservation K T)) : BeliefView where
  agents := observations.keys
  earthContact agentId := (observations.get? agentId).any AgentObservation.earthContact

/-- The detection of an episode's start (`policy.py`, lines 100–103). -/
def Episode.enter (episode : Episode K T) (tick : ℤ) : Episode K T :=
  match episode.lastTick with
  | none => { episode with lastTick := some tick }
  | some last =>
    if tick ≤ last then { lastTick := some tick } else { episode with lastTick := some tick }

variable [Sub T] [LE T] [DecidableLE T]

/-- What `decide_tick` hands to the strategy (`_tick.py`, lines 60–69). -/
def Stack.tickOf (stack : Stack K T J) (call : Call K T J) (o : AgentObservation K T) :
    Tick K (AgentObservation K T) (TickContext T J) T where
  observations := call.observations
  context :=
    { upstream := none
      rest :=
        { simTimeS := o.simTimeS
          objective := call.objective.or stack.objective
          seed := call.seed.or stack.seed
          belief := assembleBelief call.observations } }
  tick := o.tick
  simTimeS := o.simTimeS

/-- `strategy.decide`: the proposed batch, unless a primitive leaf of the tree raises, and the
state of the strategy. -/
def Stack.propose (stack : Stack K T J) (episode : Episode K T)
    (tick : Tick K (AgentObservation K T) (TickContext T J) T) :
    Except PrimitiveError (ActionBatch K) × Episode K T :=
  match stack.execution with
  | .behaviorTree tree =>
    let tiers := Dict.ofList (stack.graph.tiers.map fun node => (node.role.value, node.policy))
    ((Mind.tick tree tiers () tick.observations tick.context).map Prod.fst, episode)
  | .composed kind =>
    let pass := kind.decide ⟨fun context => some context.belief, stack.region⟩ stack.graph
      episode.strategy () tick
    (.ok pass.upstream, { episode with strategy := pass.strategy })

/-- The strategy's part of an event: the batch it proposes, if any, and the episode after it. -/
def Stack.front (stack : Stack K T J) (episode : Episode K T) :
    Event K T J → Option (Except PrimitiveError (ActionBatch K)) × Episode K T
  | .reset => (none, {})
  | .decide call =>
    match lowest call.observations with
    | none => (none, episode)
    | some o =>
      let proposal := stack.propose (episode.enter o.tick) (stack.tickOf call o)
      (some proposal.1, proposal.2)

/-- The agents that the events propose actions for. -/
def Stack.actsFor (stack : Stack K T J) (episode : Episode K T) : List (Event K T J) → Set String
  | [] => ∅
  | event :: events =>
    { a | ∃ batch, (stack.front episode event).1 = some (.ok batch) ∧
        ∃ action ∈ batch, action.agentId = a } ∪
      stack.actsFor (stack.front episode event).2 events

end Propose

/-! ## The policy -/

section Policy

variable {K T J : Type} [Field K] [LinearOrder K] [HasSqrt K] [Sub T] [LE T] [DecidableLE T]

/-- The proposals of a batch, with the deadline misses of the call. -/
def Call.proposals (call : Call K T J) (batch : ActionBatch K) : List (Proposal K) :=
  batch.mapIdx fun i action => ⟨action, call.late i⟩

/-- `reset` and `decide` (`policy.py`, lines 81–113), through `shield_egress` (`shield.py`,
lines 44–82) and `GuardShield.decide` (`plugin.py`, lines 107–113): the batch that is emitted, if
the event is a call, or the error of a primitive leaf. -/
def StackPolicy.step (stack : Stack K T J) (policy : StackPolicy K T) :
    Event K T J →
      Except Panic (StackPolicy K T × Option (Except PrimitiveError (ActionBatch K)))
  | .reset => .ok ({ policy with episode := {} }, none)
  | .decide call =>
    let front := stack.front policy.episode (.decide call)
    match front.1 with
    | none => .ok (policy, some (.ok []))
    | some (.error e) => .ok ({ policy with episode := front.2 }, some (.error e))
    | some (.ok batch) => do
      let (shield, out) ← policy.shield.decide
        (call.observations.mapValues AgentObservation.observation) (call.proposals batch)
      return ({ episode := front.2, shield }, some (.ok (out.map Prod.fst)))

/-- The events of a caller, in order. -/
def StackPolicy.run (stack : Stack K T J) (policy : StackPolicy K T) (events : List (Event K T J)) :
    Except Panic (StackPolicy K T × List (Option (Except PrimitiveError (ActionBatch K)))) :=
  runAll (StackPolicy.step stack) policy events

/-! ## Two runs of one episode -/

/-- Two states of one policy in the same episode, with the same memory for the agents in `A`. -/
def SameFor (A : Set String) (policy policy' : StackPolicy K T) : Prop :=
  policy.episode = policy'.episode ∧ policy.shield.SameMemoryFor A policy'.shield

variable {stack : Stack K T J}

omit [Field K] [LinearOrder K] [HasSqrt K] [Sub T] [LE T] [DecidableLE T] in
theorem mem_of_mem_proposals {call : Call K T J} {batch : ActionBatch K} {p : Proposal K}
    (h : p ∈ call.proposals batch) : p.action ∈ batch := by
  obtain ⟨i, hi, rfl⟩ := List.mem_mapIdx.mp h
  exact List.getElem_mem hi

omit [Field K] [LinearOrder K] [HasSqrt K] in
/-- A call without observations leaves the episode alone. -/
theorem front_none {episode : Episode K T} {call : Call K T J}
    (h : (stack.front episode (.decide call)).1 = none) :
    (stack.front episode (.decide call)).2 = episode := by
  cases hlowest : lowest call.observations with
  | none => simp only [Stack.front, hlowest]
  | some o =>
    simp only [Stack.front, hlowest] at h
    cases h

/-- The episode goes on as the strategy has it, whatever the shield answers. -/
theorem step_episode {policy policy' : StackPolicy K T} {event : Event K T J}
    {out : Option (Except PrimitiveError (ActionBatch K))}
    (h : policy.step stack event = .ok (policy', out)) :
    policy'.episode = (stack.front policy.episode event).2 := by
  cases event with
  | reset =>
    cases h
    rfl
  | decide call =>
    simp only [StackPolicy.step] at h
    split at h
    · rename_i hfront
      cases h
      exact (front_none hfront).symm
    · cases h
      rfl
    · obtain ⟨r, -, h⟩ := bind_eq_ok.1 h
      cases h
      rfl

/-- **Step.** An event is answered alike where the cores of the agents it acts for have the same
memory. -/
theorem step_agree {A : Set String} {policy policy' : StackPolicy K T} {event : Event K T J}
    (h : SameFor A policy policy')
    (hA : ∀ batch, (stack.front policy.episode event).1 = some (.ok batch) →
      ∀ action ∈ batch, action.agentId ∈ A) :
    Agree (SameFor A) (policy.step stack event) (policy'.step stack event) := by
  obtain ⟨hepisode, hmemory⟩ := h
  cases event with
  | reset => exact .ok none ⟨rfl, hmemory⟩
  | decide call =>
    simp only [StackPolicy.step, ← hepisode]
    split
    · exact .ok _ ⟨hepisode, hmemory⟩
    · exact .ok _ ⟨rfl, hmemory⟩
    · rename_i batch hbatch
      have hagents : ∀ p ∈ call.proposals batch, p.action.agentId ∈ A := fun p hp =>
        hA batch hbatch p.action (mem_of_mem_proposals hp)
      exact (PolicyShield.decide_agree _ hagents hmemory).bind fun shield shield' out hs =>
        .ok _ ⟨rfl, hs⟩

/-- **Run.** So is a list of events. -/
theorem run_agree {A : Set String} {events : List (Event K T J)} {policy policy' : StackPolicy K T}
    (h : SameFor A policy policy') (hA : stack.actsFor policy.episode events ⊆ A) :
    Agree (SameFor A) (policy.run stack events) (policy'.run stack events) := by
  induction events generalizing policy policy' with
  | nil => exact .ok [] h
  | cons event events ih =>
    have hstep : Agree (SameFor A) (policy.step stack event) (policy'.step stack event) :=
      step_agree h fun batch hbatch action haction =>
        hA (Set.mem_union_left _ ⟨batch, hbatch, action, haction, rfl⟩)
    refine hstep.bind_of_eq fun q q' out hq hsame => ?_
    have hrest : stack.actsFor q.episode events ⊆ A := by
      rw [step_episode hq]
      exact Set.subset_union_right.trans hA
    exact (ih hsame hrest).bind fun t t' outs ht => .ok _ ht

/-! ## The start of an episode -/

/-- The event begins an episode: a reset, a call whose tick does not advance, or the first call of
a policy. -/
def Event.Begins (episode : Episode K T) : Event K T J → Prop
  | .reset => True
  | .decide call =>
    ∃ o, lowest call.observations = some o ∧ ∀ last, episode.lastTick = some last → o.tick ≤ last

/-- An episode that has seen no call yet is a new one. -/
def Episode.Wf (episode : Episode K T) : Prop := episode.lastTick = none → episode = {}

omit [Field K] [LinearOrder K] [HasSqrt K] [Sub T] [LE T] [DecidableLE T] in
theorem Episode.lastTick_enter (episode : Episode K T) (tick : ℤ) :
    (episode.enter tick).lastTick = some tick := by
  unfold Episode.enter
  split
  · rfl
  · split_ifs <;> rfl

omit [Field K] [LinearOrder K] [HasSqrt K] in
theorem front_wf {episode : Episode K T} (h : episode.Wf) (event : Event K T J) :
    (stack.front episode event).2.Wf := by
  cases event with
  | reset => exact fun _ => rfl
  | decide call =>
    cases hlowest : lowest call.observations with
    | none =>
      simp only [Stack.front, hlowest]
      exact h
    | some o =>
      simp only [Stack.front, hlowest]
      have hlast : (stack.propose (episode.enter o.tick) (stack.tickOf call o)).2.lastTick =
          some o.tick := by
        unfold Stack.propose
        split <;> exact episode.lastTick_enter o.tick
      intro hnone
      rw [hlast] at hnone
      cases hnone

omit [Field K] [LinearOrder K] [HasSqrt K] in
/-- What begins an episode does not see the one before. -/
theorem front_begins {episode : Episode K T} (hwf : episode.Wf) {event : Event K T J}
    (h : event.Begins episode) : stack.front episode event = stack.front {} event := by
  cases event with
  | reset => rfl
  | decide call =>
    obtain ⟨o, ho, hlast⟩ := h
    have henter : episode.enter o.tick = Episode.enter {} o.tick := by
      cases hcase : episode.lastTick with
      | none => rw [hwf hcase]
      | some last => simp only [Episode.enter, hcase, hlast last hcase, if_true]
    simp only [Stack.front, ho, henter]

/-- **Step.** The first event of an episode does not see the episodes before it. -/
theorem step_begins {policy : StackPolicy K T} (hwf : policy.episode.Wf) {event : Event K T J}
    (h : event.Begins policy.episode) :
    policy.step stack event = StackPolicy.step stack { policy with episode := {} } event := by
  cases event with
  | reset => rfl
  | decide call =>
    have hfront : stack.front policy.episode (.decide call) = stack.front {} (.decide call) :=
      front_begins hwf h
    simp only [StackPolicy.step, ← hfront]
    split
    · rename_i hnone
      obtain ⟨o, ho, -⟩ := h
      simp only [Stack.front, ho] at hnone
      cases hnone
    · rfl
    · rfl

/-- A run changes nothing of the shield but its cores, and leaves a well-formed episode. -/
theorem run_static {policy policy' : StackPolicy K T} {events : List (Event K T J)}
    {outs : List (Option (Except PrimitiveError (ActionBatch K)))} (hwf : policy.episode.Wf)
    (h : policy.run stack events = .ok (policy', outs)) :
    policy'.episode.Wf ∧ ∃ cores, policy'.shield = policy.shield.withCores cores := by
  refine runAll_invariant
    (fun q => q.episode.Wf ∧ ∃ cores, q.shield = policy.shield.withCores cores) ?_
    ⟨hwf, policy.shield.cores, rfl⟩ h
  rintro q event q' out ⟨hq, cores, hcores⟩ hstep
  refine ⟨?_, ?_⟩
  · rw [step_episode hstep]
    exact front_wf hq event
  · cases event with
    | reset =>
      cases hstep
      exact ⟨cores, hcores⟩
    | decide call =>
      simp only [StackPolicy.step] at hstep
      split at hstep
      · cases hstep
        exact ⟨cores, hcores⟩
      · cases hstep
        exact ⟨cores, hcores⟩
      · obtain ⟨⟨shield, out'⟩, hshield, hstep⟩ := bind_eq_ok.1 hstep
        cases hstep
        obtain ⟨⟨cores', hcores'⟩, -⟩ := PolicyShield.decide_static hshield
        exact ⟨cores', by rw [hcores', hcores]; rfl⟩

/-- The core of an agent that no event acts for is left alone. -/
theorem run_coreFor {events : List (Event K T J)} {policy policy' : StackPolicy K T}
    {outs : List (Option (Except PrimitiveError (ActionBatch K)))}
    (h : policy.run stack events = .ok (policy', outs)) {a : String}
    (ha : a ∉ stack.actsFor policy.episode events) :
    policy'.shield.coreFor a = policy.shield.coreFor a := by
  induction events generalizing policy outs with
  | nil =>
    cases h
    rfl
  | cons event events ih =>
    obtain ⟨q, out, outs', hstep, hrest, -⟩ := runAll_cons_eq_ok h
    rw [Stack.actsFor, Set.mem_union, not_or] at ha
    have hq : policy'.shield.coreFor a = q.shield.coreFor a :=
      ih hrest (by rw [step_episode hstep]; exact ha.2)
    rw [hq]
    cases event with
    | reset =>
      cases hstep
      rfl
    | decide call =>
      simp only [StackPolicy.step] at hstep
      split at hstep
      · cases hstep
        rfl
      · cases hstep
        rfl
      · rename_i batch hbatch
        obtain ⟨⟨shield, out'⟩, hshield, hstep⟩ := bind_eq_ok.1 hstep
        cases hstep
        have hnone : (call.proposals batch).filter (fun p => p.action.agentId = a) = [] := by
          rw [List.filter_eq_nil_iff]
          intro p hp hpa
          exact ha.1 ⟨batch, hbatch, p.action, mem_of_mem_proposals hp, of_decide_eq_true hpa⟩
        obtain ⟨vs, hvs⟩ := PolicyShield.decide_core hshield a
        rw [PolicyShield.ticksOf, hnone] at hvs
        exact ((Prod.mk.inj (Except.ok.inj hvs)).1).symm

/-- **Main theorem.** Two callers play any episodes through one stack, and then the same later
episodes. The emitted batches of the later ones are the same if the cores of the agents that these
act for have the same memory in both runs when they begin. -/
theorem episode_isolated (stack : Stack K T J) (shield : PolicyShield K)
    {earlier earlier' : List (Event K T J)} {policy policy' : StackPolicy K T}
    {outs outs' : List (Option (Except PrimitiveError (ActionBatch K)))}
    (hearlier : StackPolicy.run stack { shield } earlier = .ok (policy, outs))
    (hearlier' : StackPolicy.run stack { shield } earlier' = .ok (policy', outs'))
    {event : Event K T J} {later : List (Event K T J)} (hbegins : event.Begins policy.episode)
    (hbegins' : event.Begins policy'.episode)
    (hmemory : ∀ a ∈ stack.actsFor {} (event :: later),
      SafetyCore.SameMemory (policy.shield.coreFor a) (policy'.shield.coreFor a)) :
    (policy.run stack (event :: later)).map Prod.snd =
      (policy'.run stack (event :: later)).map Prod.snd := by
  have hfresh : (Episode.Wf ({} : Episode K T)) := fun _ => rfl
  obtain ⟨hwf, cores, hcores⟩ := run_static hfresh hearlier
  obtain ⟨hwf', cores', hcores'⟩ := run_static hfresh hearlier'
  have hrun : policy.run stack (event :: later) =
      StackPolicy.run stack { policy with episode := {} } (event :: later) := by
    simp only [StackPolicy.run, runAll, step_begins hwf hbegins]
  have hrun' : policy'.run stack (event :: later) =
      StackPolicy.run stack { policy' with episode := {} } (event :: later) := by
    simp only [StackPolicy.run, runAll, step_begins hwf' hbegins']
  rw [hrun, hrun']
  have hsame : SameFor (stack.actsFor {} (event :: later))
      ({ policy with episode := {} } : StackPolicy K T) { policy' with episode := {} } := by
    refine ⟨rfl, ⟨cores', ?_⟩, hmemory⟩
    dsimp only
    rw [hcores', hcores]
    rfl
  exact (run_agree hsame Set.Subset.rfl).map_snd

end Policy

/-! ## A hold that outlives its episode -/

/-- A model on a line whose agents hold where they are while their charge is low. -/
def holdProto : Proto.CompiledSafetyModel ℚ :=
  { PolicyShield.lineProto with
    predicateTable := some
      { signals := ["battery_soc_j"]
        atoms := [{ op := "ge", signalIndex := 0, threshold := .fin 20 }] }
    scalarBounds := [{ constraintId := "charge", onUncertain := "hold", atomIndex := 0 }] }

/-- A tier that sends every observed agent to the origin. -/
def homing : Policy ℚ (AgentObservation ℚ ℤ) (TickContext ℤ Unit) Unit where
  decide _ observations _ :=
    (some (observations.keys.map fun agentId =>
      { agentId
        kind := .actuator
        actuator := some
          { target := "base", controlMode := .position, setpoint := [.fin 0] } }), ())

/-- A stack of that tier alone. -/
def homingStack : Stack ℚ ℤ Unit where
  graph :=
    { tiers :=
        [{ role := .control, policy := homing, validityHorizonS := none, replanTriggers := []
           fallback := none, expires := fun h => nomatch h }]
      roles_nodup := by decide }
  execution := .composed .composition
  region _ := none

/-- The first call of an episode: one agent, low on charge, at `x`. -/
def lowAt (agentId : String) (x : ℚ) : Event ℚ ℤ Unit :=
  .decide
    { observations := Dict.ofList [(agentId,
        { observation :=
            { selfState :=
                { translationM := ⟨.fin x, .fin 0, .fin 0⟩, batterySocJ := some (.fin 5) } }
          tick := 0
          simTimeS := 0 })] }

/-- The setpoints of the emitted commands. -/
def setpointsOf (outs : List (Option (Except PrimitiveError (ActionBatch ℚ)))) :
    List (List (Flt ℚ)) :=
  outs.flatMap fun out =>
    match out with
    | some (.ok batch) => batch.filterMap fun action => action.actuator.map ActuatorCommand.setpoint
    | _ => []

theorem otherAgent_isolated : ∃ shield policy outs,
    PolicyShield.new holdProto .default "base" defaultResolver false = .ok shield ∧
    StackPolicy.run homingStack { shield } [lowAt "a" 0] = .ok (policy, outs) ∧
    (StackPolicy.run homingStack { shield } [lowAt "b" 5]).map Prod.snd =
      (policy.run homingStack [lowAt "b" 5]).map Prod.snd := by
  have h : ((PolicyShield.new holdProto .default "base" defaultResolver false).toOption.any
      fun shield => (StackPolicy.run homingStack { shield } [lowAt "a" 0]).toOption.any fun r =>
        decide (r.1.episode.lastTick = some 0)) = true := by
    decide +kernel
  obtain ⟨shield, hnew, h⟩ := exists_ok_of_any h
  obtain ⟨⟨policy, outs⟩, hrun, hlast⟩ := exists_ok_of_any h
  have hnone : StackPolicy.run homingStack { shield } [] = .ok ({ shield }, []) := rfl
  refine ⟨shield, policy, outs, hnew, hrun, ?_⟩
  refine episode_isolated homingStack shield hnone hrun ⟨_, rfl, fun last h => nomatch h⟩
    ⟨_, rfl, ?_⟩ ?_
  · intro last hsome
    rw [of_decide_eq_true hlast] at hsome
    exact (Option.some.inj hsome).le
  · intro a ha
    have hb : a = "b" := by
      obtain ⟨batch, hbatch, action, haction, rfl⟩ | ha := ha
      · obtain rfl := Except.ok.inj (Option.some.inj hbatch)
        obtain rfl := List.mem_singleton.mp haction
        rfl
      · cases ha
    have hother : a ∉ homingStack.actsFor {} [lowAt "a" 0] := by
      rintro (⟨batch, hbatch, action, haction, hid⟩ | ha)
      · obtain rfl := Except.ok.inj (Option.some.inj hbatch)
        obtain rfl := List.mem_singleton.mp haction
        exact absurd (hid.trans hb) (by decide)
      · cases ha
    rw [run_coreFor hrun hother]
    exact .refl _

/-- **Counterexample.** In the earlier episode the agent, low on charge, is held at 0. The later
one starts with it at 5: fresh, the shield holds it there; after the earlier episode it is sent
back towards 0. -/
theorem holdKept_not_isolated : ∃ shield policy outs,
    PolicyShield.new holdProto .default "base" defaultResolver false = .ok shield ∧
    StackPolicy.run homingStack { shield } [lowAt "a" 0] = .ok (policy, outs) ∧
    (lowAt "a" 5).Begins policy.episode ∧
    (StackPolicy.run homingStack { shield } [lowAt "a" 5]).map Prod.snd ≠
      (policy.run homingStack [lowAt "a" 5]).map Prod.snd := by
  have h : ((PolicyShield.new holdProto .default "base" defaultResolver false).toOption.any
      fun shield => (StackPolicy.run homingStack { shield } [lowAt "a" 0]).toOption.any fun r =>
        decide (r.1.episode.lastTick = some 0 ∧
          ((StackPolicy.run homingStack { shield } [lowAt "a" 5]).map Prod.snd).toOption.map
            setpointsOf = some [[.fin 5]] ∧
          ((r.1.run homingStack [lowAt "a" 5]).map Prod.snd).toOption.map setpointsOf =
            some [[.fin 3]])) = true := by
    decide +kernel
  obtain ⟨shield, hnew, h⟩ := exists_ok_of_any h
  obtain ⟨⟨policy, outs⟩, hrun, h⟩ := exists_ok_of_any h
  obtain ⟨hlast, hfresh, hkept⟩ := of_decide_eq_true h
  refine ⟨shield, policy, outs, hnew, hrun, ⟨_, rfl, ?_⟩, ?_⟩
  · intro last hsome
    rw [hlast] at hsome
    exact (Option.some.inj hsome).le
  · intro heq
    rw [heq, hkept] at hfresh
    exact absurd hfresh (by decide)

end AstroMine.Mind
