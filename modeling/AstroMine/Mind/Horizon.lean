import AstroMine.Lib.Transition
import AstroMine.Mind.Strategy

/-!
# The age of a cached batch

Beside the state of a strategy a run keeps what each tier computed last, by its policy or its
fallback, and at what sim time. `HorizonTruth` says that the batch a tier holds is that one, that
its decision time is that time, and that its contingent plan was issued then.

A tier whose policy and fallback both raise answers with the batch it already holds (with an empty
one where it holds none), and both strategies stamp that answer with the time of the call. The
decision time and the contingent plan then report an old batch as new, unless it was computed at
the very same sim time.

Results:
* `truthful_step_iff`: a tier stays truthful exactly if it computes when it is due.
* `truthful_run_iff`: the same for the loop over the tiers.
* `horizonTruth_iff`: for runs of either strategy.
* `restamped_not_horizonTruth`: the counterexample.
-/

namespace AstroMine.Mind

open AstroMine.Core

variable {K O C σ T : Type}

/-! ## What was computed, and when -/

/-- The batch each tier computed last, by its policy or its fallback, with the sim time. -/
abbrev Computed (K T : Type) := TierRole → Option (T × ActionBatch K)

/-- What a tier computes at its turn is written down. -/
def TierLoop.note (loop : TierLoop K O C σ T) (pass : Pass K T σ) (node : TierNode K O C σ T)
    (computed : Computed K T) : Computed K T :=
  if loop.Due pass node then
    match loop.computed pass node with
    | some batch => Function.update computed node.role (some (loop.call.simTimeS, batch))
    | none => computed
  else computed

/-- The loop over the tiers with its notes. -/
def TierLoop.notes (loop : TierLoop K O C σ T) :
    List (TierNode K O C σ T) → Pass K T σ → Computed K T → Computed K T
  | [], _, computed => computed
  | node :: nodes, pass, computed =>
    loop.notes nodes (loop.step pass node) (loop.note pass node computed)

section Runs

variable [Sub T] [LE T] [DecidableLE T]

/-- A run of a strategy: its state, the state of the policies, and what the tiers computed. -/
structure Running (K T σ : Type) where
  strategy : StrategyState K T := {}
  policies : σ
  computed : Computed K T := fun _ => none

/-- The values with which a call enters the loop over the tiers. -/
def Running.enter (running : Running K T σ) (call : Tick K O C T) : Pass K T σ :=
  { strategy := running.strategy
    policies := running.policies
    upstream := call.context.upstream.getD []
    records := [] }

/-- One call of `decide`. -/
def Running.tick (posture : Posture K C) (graph : HierarchyGraph K O C σ T) (kind : StrategyKind)
    (running : Running K T σ) (call : Tick K O C T) : Running K T σ :=
  let pass := kind.decide posture graph running.strategy running.policies call
  { strategy := pass.strategy
    policies := pass.policies
    computed := (kind.loop posture running.strategy call).notes graph.tiers (running.enter call)
      running.computed }

/-- The run after some calls, from a fresh strategy. -/
def runOf (posture : Posture K C) (graph : HierarchyGraph K O C σ T) (kind : StrategyKind)
    (policies : σ) (calls : List (Tick K O C T)) : Running K T σ :=
  calls.foldl (Running.tick posture graph kind) { policies }

end Runs

/-! ## The law of one tier -/

/-- The batch a tier holds was computed at its decision time, which is the time its contingent plan
was issued at; so the plan is not valid beyond the horizon of that batch. -/
structure Truthful [Add T] [LT T] [DecidableLT T] (node : TierNode K O C σ T)
    (state : TierState K T) (plan : Option (ContingentPlan K T))
    (computed : Option (T × ActionBatch K)) : Prop where
  decided : ∀ batch, state.cached = some batch →
    ∃ time, computed = some (time, batch) ∧ state.decidedAtS = some time
  issued : ∀ issue, plan = some issue →
    ∃ time, computed = some (time, issue.base.actions) ∧ issue.base.validity.issuedAtS = time
  expires : ∀ issue time batch horizon nowS, plan = some issue → computed = some (time, batch) →
    node.validityHorizonS = some horizon → isValid issue.base.validity nowS = true →
    nowS < time + horizon

/-- What holds of a tier at any rate: an empty one computed nothing, and only the tiers in `issues`
have a plan, with the horizon of the tier. -/
structure Kept (issues : TierRole → Bool) (node : TierNode K O C σ T) (state : TierState K T)
    (plan : Option (ContingentPlan K T)) (computed : Option (T × ActionBatch K)) : Prop where
  empty : state.cached = none → state.decidedAtS = none ∧ computed = none
  plan_none : issues node.role = false → plan = none
  horizon : ∀ issue, plan = some issue →
    issue.base.validity.horizonS = node.validityHorizonS

/-- At its turn the tier is not due, or its policy or its fallback computes a batch, or it decided
last at this very sim time. -/
def TierLoop.Renews (loop : TierLoop K O C σ T) (pass : Pass K T σ) (node : TierNode K O C σ T) :
    Prop :=
  loop.Due pass node → loop.computed pass node ≠ none ∨
    (pass.strategy.tiers node.role).decidedAtS = some loop.call.simTimeS

/-- Every tier of the loop does. -/
def TierLoop.RenewsAll (loop : TierLoop K O C σ T) :
    List (TierNode K O C σ T) → Pass K T σ → Prop
  | [], _ => True
  | node :: nodes, pass => loop.Renews pass node ∧ loop.RenewsAll nodes (loop.step pass node)

section Step

variable {loop : TierLoop K O C σ T} {pass : Pass K T σ} {node : TierNode K O C σ T}
  {computed : Computed K T} {issues : TierRole → Bool} {denied : Bool}

/-- The batch a due tier answers with. -/
def TierLoop.answer (loop : TierLoop K O C σ T) (pass : Pass K T σ) (node : TierNode K O C σ T) :
    ActionBatch K :=
  (loop.computed pass node).getD ((pass.strategy.tiers node.role).cached.getD [])

theorem invoke_batch :
    (invoke node (pass.strategy.tiers node.role) loop.call.observations
      { loop.call.context with upstream := some pass.upstream } pass.policies).1.1 =
      loop.answer pass node := by
  simp only [invoke, TierLoop.answer, TierLoop.computed]
  cases (computes node loop.call.observations
    { loop.call.context with upstream := some pass.upstream } pass.policies).1 <;> rfl

/-- A due tier holds its answer, decided now. -/
theorem TierLoop.step_due (h : loop.Due pass node) :
    ((loop.step pass node).strategy.tiers node.role).cached = some (loop.answer pass node) ∧
      ((loop.step pass node).strategy.tiers node.role).decidedAtS = some loop.call.simTimeS ∧
      (loop.step pass node).strategy.contingent node.role =
        recordPlan pass.strategy.contingent node.role (loop.issue node (loop.answer pass node))
          node.role := by
  obtain ⟨trigger, note, hstep⟩ := TierLoop.step_of_due h
  rw [hstep]
  simp only [TierLoop.replan, Function.update_self, invoke_batch, and_self]

/-- A tier that is not due changes nothing. -/
theorem TierLoop.step_not_due (h : ¬loop.Due pass node) :
    (loop.step pass node).strategy = pass.strategy := by
  obtain ⟨note, hstep⟩ := TierLoop.step_of_not_due h
  rw [hstep]
  rfl

theorem TierLoop.note_other {role : TierRole} (h : role ≠ node.role) :
    loop.note pass node computed role = computed role := by
  by_cases hdue : loop.Due pass node
  · cases hbatch : loop.computed pass node with
    | none => simp only [TierLoop.note, hbatch, ite_self]
    | some batch => simp only [TierLoop.note, hdue, if_true, hbatch, Function.update_of_ne h]
  · exact congrFun (if_neg hdue) role

theorem TierLoop.note_not_due (h : ¬loop.Due pass node) : loop.note pass node computed = computed :=
  if_neg h

theorem TierLoop.note_due {batch : ActionBatch K} (h : loop.Due pass node)
    (hbatch : loop.computed pass node = some batch) :
    loop.note pass node computed node.role = some (loop.call.simTimeS, batch) := by
  simp only [TierLoop.note, h, if_true, hbatch, Function.update_self]

theorem TierLoop.note_raised (h : loop.computed pass node = none) :
    loop.note pass node computed = computed := by
  simp only [TierLoop.note, h, ite_self]

/-- Only the tiers in `issues` issue plans, each with the batch just computed. -/
def TierLoop.Issues (loop : TierLoop K O C σ T) (issues : TierRole → Bool) (denied : Bool) : Prop :=
  ∀ node batch, loop.issue node batch =
    if issues node.role then some (buildContingentPlan node batch loop.call.simTimeS denied)
    else none

/-- The plan that the tier has after its turn. -/
theorem recordPlan_issue
    (hissue : loop.Issues issues denied) (batch : ActionBatch K) :
    recordPlan pass.strategy.contingent node.role (loop.issue node batch) node.role =
      if issues node.role then some (buildContingentPlan node batch loop.call.simTimeS denied)
      else pass.strategy.contingent node.role := by
  rw [hissue node batch]
  cases issues node.role with
  | false => rfl
  | true => exact Function.update_self _ _ _

/-- `Kept` in the state of `pass`. -/
def KeptIn (issues : TierRole → Bool) (pass : Pass K T σ) (computed : Computed K T)
    (node : TierNode K O C σ T) : Prop :=
  Kept issues node (pass.strategy.tiers node.role) (pass.strategy.contingent node.role)
    (computed node.role)

/-- **Step.** What holds at any rate is kept. -/
theorem kept_step
    (hissue : loop.Issues issues denied) (hkept : KeptIn issues pass computed node) :
    KeptIn issues (loop.step pass node) (loop.note pass node computed) node := by
  by_cases hdue : loop.Due pass node
  · obtain ⟨hcached, hdecided, hcontingent⟩ := TierLoop.step_due hdue
    rw [recordPlan_issue hissue] at hcontingent
    refine ⟨?_, ?_, ?_⟩
    · intro hnone
      rw [hcached] at hnone
      cases hnone
    · intro hq
      rw [hq] at hcontingent
      exact hcontingent.trans (hkept.plan_none hq)
    · intro issue hplan
      rw [hcontingent] at hplan
      split at hplan
      · obtain rfl := Option.some.inj hplan
        rfl
      · exact hkept.horizon issue hplan
  · rw [KeptIn, TierLoop.step_not_due hdue, TierLoop.note_not_due hdue]
    exact hkept

variable (loop pass computed) in
/-- The tiers that follow change nothing of one that had its turn. -/
theorem run_other {nodes : List (TierNode K O C σ T)} {role : TierRole}
    (h : role ∉ nodes.map TierNode.role) :
    (loop.run pass nodes).strategy.tiers role = pass.strategy.tiers role ∧
      (loop.run pass nodes).strategy.contingent role = pass.strategy.contingent role ∧
      loop.notes nodes pass computed role = computed role := by
  induction nodes generalizing pass computed with
  | nil => exact ⟨rfl, rfl, rfl⟩
  | cons node nodes ih =>
    rw [List.map_cons, List.mem_cons, not_or] at h
    obtain ⟨htiers, hplan, hnotes⟩ := ih (loop.step pass node) (loop.note pass node computed) h.2
    obtain ⟨htiers', hplan'⟩ := TierLoop.step_other loop pass h.1
    exact ⟨htiers.trans htiers', hplan.trans hplan', hnotes.trans (TierLoop.note_other h.1)⟩

/-- **Loop.** What holds at any rate is kept. -/
theorem kept_run
    (hissue : loop.Issues issues denied) {nodes : List (TierNode K O C σ T)}
    (hroles : (nodes.map TierNode.role).Nodup)
    (hkept : ∀ node ∈ nodes, KeptIn issues pass computed node) :
    ∀ node ∈ nodes, KeptIn issues (loop.run pass nodes) (loop.notes nodes pass computed) node := by
  induction nodes generalizing pass computed with
  | nil => exact fun _ h => absurd h List.not_mem_nil
  | cons node nodes ih =>
    obtain ⟨hnode, hrest⟩ := List.nodup_cons.mp hroles
    rw [List.forall_mem_cons]
    constructor
    · obtain ⟨htiers, hplan, hnotes⟩ := run_other loop (loop.step pass node)
        (loop.note pass node computed) hnode
      have hstep := kept_step hissue (hkept node List.mem_cons_self)
      rw [KeptIn, ← htiers, ← hplan, ← hnotes] at hstep
      exact hstep
    · refine ih hrest fun m hm => ?_
      have hne : m.role ≠ node.role := fun heq => hnode (heq ▸ List.mem_map_of_mem hm)
      obtain ⟨htiers, hplan⟩ := TierLoop.step_other loop pass hne
      rw [KeptIn, htiers, hplan, TierLoop.note_other hne]
      exact hkept m (List.mem_cons_of_mem node hm)

end Step

/-! ## The loop over the tiers -/

section Loop

variable [Add T] [LT T] [DecidableLT T] {loop : TierLoop K O C σ T} {pass : Pass K T σ}
  {node : TierNode K O C σ T} {computed : Computed K T} {issues : TierRole → Bool} {denied : Bool}

/-- `node` is truthful in the state of `pass`. -/
def TruthfulIn (pass : Pass K T σ) (computed : Computed K T) (node : TierNode K O C σ T) : Prop :=
  Truthful node (pass.strategy.tiers node.role) (pass.strategy.contingent node.role)
    (computed node.role)

/-- A plan issued with a batch when that batch is computed. -/
theorem truthful_of_computed {state : TierState K T} {plan : Option (ContingentPlan K T)}
    {simTimeS : T} {batch : ActionBatch K} (hcached : state.cached = some batch)
    (hdecided : state.decidedAtS = some simTimeS)
    (hplan : plan = some (buildContingentPlan node batch simTimeS denied) ∨ plan = none) :
    Truthful node state plan (some (simTimeS, batch)) := by
  refine ⟨?_, ?_, ?_⟩
  · intro held hheld
    obtain rfl := Option.some.inj (hcached.symm.trans hheld)
    exact ⟨simTimeS, rfl, hdecided⟩
  · intro issue hissue
    obtain hplan | hplan := hplan
    · obtain rfl := Option.some.inj (hplan.symm.trans hissue)
      exact ⟨simTimeS, rfl, rfl⟩
    · rw [hplan] at hissue
      cases hissue
  · intro issue time held horizon nowS hissue hcomputed hhorizon hvalid
    obtain hplan | hplan := hplan
    · obtain rfl := Option.some.inj (hplan.symm.trans hissue)
      obtain ⟨rfl, rfl⟩ := Prod.mk.inj (Option.some.inj hcomputed)
      simp only [isValid, expiresAtS, buildContingentPlan, hhorizon, Option.map_some,
        decide_eq_true_eq] at hvalid
      exact hvalid
    · rw [hplan] at hissue
      cases hissue

/-- **Step.** A tier that is truthful stays so exactly if it renews its batch when it is due. -/
theorem truthful_step_iff
    (hissue : loop.Issues issues denied) (hkept : KeptIn issues pass computed node)
    (htrue : TruthfulIn pass computed node) :
    TruthfulIn (loop.step pass node) (loop.note pass node computed) node ↔
      loop.Renews pass node := by
  by_cases hdue : loop.Due pass node
  · obtain ⟨hcached, hdecided, hcontingent⟩ := TierLoop.step_due hdue
    rw [recordPlan_issue hissue] at hcontingent
    have hplan : (loop.step pass node).strategy.contingent node.role =
        some (buildContingentPlan node (loop.answer pass node) loop.call.simTimeS denied) ∨
        (loop.step pass node).strategy.contingent node.role = none := by
      cases hq : issues node.role with
      | true => exact Or.inl (hcontingent.trans (if_pos hq))
      | false =>
        rw [hq] at hcontingent
        exact Or.inr (hcontingent.trans (hkept.plan_none hq))
    cases hbatch : loop.computed pass node with
    | some batch =>
      have hanswer : loop.answer pass node = batch := by
        simp only [TierLoop.answer, hbatch, Option.getD_some]
      rw [hanswer] at hcached hplan
      constructor
      · intro _ _
        exact Or.inl (by rw [hbatch]; exact Option.some_ne_none _)
      · intro _
        rw [TruthfulIn, TierLoop.note_due hdue hbatch]
        exact truthful_of_computed hcached hdecided hplan
    | none =>
      have hanswer : loop.answer pass node = (pass.strategy.tiers node.role).cached.getD [] := by
        simp only [TierLoop.answer, hbatch, Option.getD_none]
      rw [TruthfulIn, TierLoop.note_raised hbatch]
      constructor
      · intro h _
        -- the answer is the batch that the tier held, so its time of computation is the old one
        obtain ⟨time, hcomputed, htime⟩ := h.decided _ hcached
        obtain rfl := Option.some.inj (htime.symm.trans hdecided)
        refine Or.inr ?_
        cases hheld : (pass.strategy.tiers node.role).cached with
        | none =>
          rw [(hkept.empty hheld).2] at hcomputed
          cases hcomputed
        | some held =>
          obtain ⟨time', hcomputed', hdecided'⟩ := htrue.decided held hheld
          rw [hcomputed] at hcomputed'
          rw [hdecided', (Prod.mk.inj (Option.some.inj hcomputed')).1]
      · intro h
        have hnow : (pass.strategy.tiers node.role).decidedAtS = some loop.call.simTimeS :=
          (h hdue).resolve_left (fun hne => hne hbatch)
        cases hheld : (pass.strategy.tiers node.role).cached with
        | none =>
          rw [(hkept.empty hheld).1] at hnow
          cases hnow
        | some held =>
          obtain ⟨time, hcomputed, hdecided'⟩ := htrue.decided held hheld
          obtain rfl := Option.some.inj (hdecided'.symm.trans hnow)
          rw [hheld, Option.getD_some] at hanswer
          rw [hanswer] at hcached hplan
          rw [hcomputed]
          exact truthful_of_computed hcached hdecided hplan
  · rw [TruthfulIn, TierLoop.step_not_due hdue, TierLoop.note_not_due hdue]
    exact ⟨fun _ hdue' => absurd hdue' hdue, fun _ => htrue⟩

theorem TruthfulIn.congr {pass' : Pass K T σ} {computed' : Computed K T}
    (h : TruthfulIn pass computed node)
    (htiers : pass'.strategy.tiers node.role = pass.strategy.tiers node.role)
    (hplan : pass'.strategy.contingent node.role = pass.strategy.contingent node.role)
    (hcomputed : computed' node.role = computed node.role) : TruthfulIn pass' computed' node := by
  rw [TruthfulIn, htiers, hplan, hcomputed]
  exact h

/-- **Loop.** The tiers that are truthful stay so exactly if every one that is due renews its
batch. -/
theorem truthful_run_iff
    (hissue : loop.Issues issues denied) {nodes : List (TierNode K O C σ T)}
    (hroles : (nodes.map TierNode.role).Nodup)
    (hkept : ∀ node ∈ nodes, KeptIn issues pass computed node)
    (htrue : ∀ node ∈ nodes, TruthfulIn pass computed node) :
    (∀ node ∈ nodes, TruthfulIn (loop.run pass nodes) (loop.notes nodes pass computed) node) ↔
      loop.RenewsAll nodes pass := by
  induction nodes generalizing pass computed with
  | nil => exact ⟨fun _ => trivial, fun _ _ h => absurd h List.not_mem_nil⟩
  | cons node nodes ih =>
    obtain ⟨hnode, hrest⟩ := List.nodup_cons.mp hroles
    have hother (m : TierNode K O C σ T) (hm : m ∈ nodes) : m.role ≠ node.role := fun heq =>
      hnode (heq ▸ List.mem_map_of_mem hm)
    have hfirst := truthful_step_iff hissue (hkept node List.mem_cons_self)
      (htrue node List.mem_cons_self)
    have hafter : TruthfulIn (loop.run pass (node :: nodes))
        (loop.notes (node :: nodes) pass computed) node ↔ loop.Renews pass node := by
      rw [← hfirst]
      obtain ⟨htiers, hplan, hnotes⟩ := run_other loop (loop.step pass node)
        (loop.note pass node computed) hnode
      exact ⟨fun h => h.congr htiers.symm hplan.symm hnotes.symm,
        fun h => h.congr htiers hplan hnotes⟩
    rw [List.forall_mem_cons, hafter]
    refine and_congr_right fun _ => ih hrest ?_ ?_
    · intro m hm
      obtain ⟨htiers, hplan⟩ := TierLoop.step_other loop pass (hother m hm)
      rw [KeptIn, htiers, hplan, TierLoop.note_other (hother m hm)]
      exact hkept m (List.mem_cons_of_mem node hm)
    · intro m hm
      obtain ⟨htiers, hplan⟩ := TierLoop.step_other loop pass (hother m hm)
      exact (htrue m (List.mem_cons_of_mem node hm)).congr htiers hplan
        (TierLoop.note_other (hother m hm))

end Loop

/-! ## Runs -/

section Truth

variable [Add T] [Sub T] [LE T] [DecidableLE T] [LT T] [DecidableLT T] {posture : Posture K C}
  {graph : HierarchyGraph K O C σ T} {kind : StrategyKind}

/-- Every tier of the graph is truthful. -/
def HorizonTruth (graph : HierarchyGraph K O C σ T) (running : Running K T σ) : Prop :=
  ∀ node ∈ graph.tiers, Truthful node (running.strategy.tiers node.role)
    (running.strategy.contingent node.role) (running.computed node.role)

/-- In the loop of the call every tier that is due gets a batch from its policy or its fallback,
or decided last at this very sim time. -/
def RenewsCall (posture : Posture K C) (graph : HierarchyGraph K O C σ T) (kind : StrategyKind)
    (running : Running K T σ) (call : Tick K O C T) : Prop :=
  (kind.loop posture running.strategy call).RenewsAll graph.tiers (running.enter call)

/-- Only the mission tier of the decentralized strategy issues plans. -/
def StrategyKind.issues (kind : StrategyKind) (role : TierRole) : Bool :=
  kind = .decentralized && role = .mission

omit [Add T] [LT T] [DecidableLT T] in
variable (posture kind) in
theorem loop_issues (strategy : StrategyState K T) (call : Tick K O C T) :
    ∃ denied, (kind.loop posture strategy call : TierLoop K O C σ T).Issues kind.issues denied := by
  cases kind with
  | composition => exact ⟨false, fun _ _ => rfl⟩
  | decentralized =>
    refine ⟨commsDenied (posture.belief call.context.rest), fun node batch => ?_⟩
    simp only [StrategyKind.loop, DecentralizedStrategy.loop, StrategyKind.issues, decide_true,
      Bool.true_and, decide_eq_true_eq]

omit [Add T] [LT T] [DecidableLT T] in
variable (posture graph kind) in
/-- What a call makes of the tiers and of the plans is what its loop does. -/
theorem tick_tiers (running : Running K T σ) (call : Tick K O C T) :
    (running.tick posture graph kind call).strategy.tiers =
        ((kind.loop posture running.strategy call).run (running.enter call)
          graph.tiers).strategy.tiers ∧
      (running.tick posture graph kind call).strategy.contingent =
        ((kind.loop posture running.strategy call).run (running.enter call)
          graph.tiers).strategy.contingent := by
  cases kind with
  | composition => exact ⟨rfl, rfl⟩
  | decentralized =>
    simp only [Running.tick, StrategyKind.decide, DecentralizedStrategy.decide, StrategyKind.loop]
    split
    · rw [coordinate_strategy]
      exact ⟨rfl, rfl⟩
    · exact ⟨rfl, rfl⟩

/-- What holds of every tier of a run at any rate. -/
def KeptAll (graph : HierarchyGraph K O C σ T) (kind : StrategyKind) (running : Running K T σ) :
    Prop :=
  ∀ node ∈ graph.tiers, Kept kind.issues node (running.strategy.tiers node.role)
    (running.strategy.contingent node.role) (running.computed node.role)

omit [Add T] [LT T] [DecidableLT T] in
/-- **Step.** A call keeps what holds at any rate. -/
theorem keptAll_tick (running : Running K T σ) (call : Tick K O C T)
    (h : KeptAll graph kind running) :
    KeptAll graph kind (running.tick posture graph kind call) := by
  obtain ⟨denied, hissue⟩ := loop_issues posture kind running.strategy call
  obtain ⟨htiers, hplans⟩ := tick_tiers posture graph kind running call
  have hrun : ∀ node ∈ graph.tiers, KeptIn kind.issues
      ((kind.loop posture running.strategy call).run (running.enter call) graph.tiers)
      ((kind.loop posture running.strategy call).notes graph.tiers (running.enter call)
        running.computed) node :=
    kept_run hissue graph.roles_nodup fun node hnode => h node hnode
  intro node hnode
  rw [htiers, hplans]
  exact hrun node hnode

/-- **Step.** A call keeps the tiers truthful exactly if every due tier renews its batch. -/
theorem horizonTruth_tick_iff (running : Running K T σ) (call : Tick K O C T)
    (hkept : KeptAll graph kind running) (htrue : HorizonTruth graph running) :
    HorizonTruth graph (running.tick posture graph kind call) ↔
      RenewsCall posture graph kind running call := by
  obtain ⟨denied, hissue⟩ := loop_issues posture kind running.strategy call
  obtain ⟨htiers, hplans⟩ := tick_tiers posture graph kind running call
  rw [HorizonTruth, htiers, hplans]
  exact truthful_run_iff hissue graph.roles_nodup hkept htrue

/-- **Main theorem.** In every run of either strategy the recorded decision times and the plans
tell the truth after every call exactly if in every call each tier that is due gets its batch from
its policy or its fallback, or decided last at that very sim time. -/
theorem horizonTruth_iff (posture : Posture K C) (graph : HierarchyGraph K O C σ T)
    (kind : StrategyKind) (policies : σ) (calls : List (Tick K O C T)) :
    (∀ done, done <+: calls → HorizonTruth graph (runOf posture graph kind policies done)) ↔
      ∀ done call, done ++ [call] <+: calls →
        RenewsCall posture graph kind (runOf posture graph kind policies done) call := by
  have hkept : KeptAll graph kind { policies } := fun node _ =>
    ⟨fun _ => ⟨rfl, rfl⟩, fun _ => rfl, fun issue h => nomatch h⟩
  have htrue : HorizonTruth graph { policies } := by
    intro node hnode
    refine ⟨?_, ?_, ?_⟩
    · intro batch hheld
      cases hheld
    · intro issue hplan
      cases hplan
    · intro issue time batch horizon nowS hplan
      cases hplan
  exact Transition.foldl_invariant_iff keptAll_tick horizonTruth_tick_iff hkept htrue

end Truth

/-! ## A plan that is stamped anew -/

/-- A planner that answers once and then raises; its state counts how often it was asked. -/
def oncePlanner : Policy ℚ Unit (Option BeliefView) ℕ where
  decide asked _ _ :=
    (if asked = 0 then
      some [{ agentId := "rover", kind := .task, task := some { taskKind := .haul } }]
    else none, asked + 1)

/-- A mission tier whose decisions are good for ten seconds, without a fallback. -/
def onceGraph : HierarchyGraph ℚ Unit (Option BeliefView) ℕ ℤ where
  tiers :=
    [{ role := .mission
       policy := oncePlanner
       validityHorizonS := some 10
       replanTriggers := [.planExpired]
       fallback := none
       expires := fun _ => Option.some_ne_none 10 }]
  roles_nodup := by decide

/-- A call without a belief: the comms are up. -/
def callAt (tick simTimeS : ℤ) : Tick ℚ Unit (Option BeliefView) ℤ where
  observations := .empty
  context := { upstream := none, rest := none }
  tick := tick
  simTimeS := simTimeS

/-- What is read of these contexts and actions. -/
def plainPosture : Posture ℚ (Option BeliefView) where
  belief := id
  region _ := none

/-- **Counterexample.** The planner answers at time 0 and raises at time 10, when its plan has
expired. The old batch is cached again as decided at 10, and the plan issued for it is valid up
to 20. -/
theorem restamped_not_horizonTruth :
    ¬∀ done, done <+: [callAt 0 0, callAt 1 10] →
      HorizonTruth onceGraph (runOf plainPosture onceGraph .decentralized 0 done) := by
  intro h
  obtain ⟨time, hcomputed, hissued⟩ := (h _ (List.prefix_refl _) _ List.mem_cons_self).issued _ rfl
  obtain rfl : (10 : ℤ) = time := hissued
  exact absurd (congrArg (Option.map Prod.fst) hcomputed) (by decide)

end AstroMine.Mind
