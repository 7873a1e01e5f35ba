import AstroMine.Allocate.Skeleton
import AstroMine.Allocate.Constraints

/-!
# What is in a constrained IR

The passes read the pairs back from the skeleton and add bounds of starts, budgets, keep-outs and
no-overlap constraints to its linear part.

Results:
* `mem_assignmentPairs`: the pairs read back are the eligible ones with a name.
* `mem_constrainedConstraints`: the constraints of a constrained IR.
* `emitted_of_compileRequest`, `emitted_of_compileWithConstraints`: the forms a constraint has.
-/

namespace AstroMine.Allocate

/-! ## The pairs read back -/

section Pairs

variable {request : AllocationRequest} {ir : AllocationIR}

/-- The pair behind an assignment variable. -/
def pairOf (var : DecisionVariable) : Option Pair :=
  if var.semantic = .assignment then
    (truthy var.taskRef).bind fun t => (truthy var.assetRef).map fun a => (t, a)
  else none

theorem truthy_eq_some {ref : Option String} {s : String} :
    truthy ref = some s ↔ ref = some s ∧ s ≠ "" := by
  rw [truthy, Option.filter_eq_some_iff, decide_eq_true_eq]

theorem pairOf_eq_some {v : DecisionVariable} {p : Pair} :
    pairOf v = some p ↔ v.semantic = .assignment ∧ v.taskRef = some p.1 ∧ v.assetRef = some p.2 ∧
      p.1 ≠ "" ∧ p.2 ≠ "" := by
  rw [pairOf]
  split_ifs with hsem
  · simp only [Option.bind_eq_some_iff, Option.map_eq_some_iff, truthy_eq_some, hsem, true_and]
    constructor
    · rintro ⟨t, ⟨ht, htne⟩, a, ⟨ha, hane⟩, rfl⟩
      exact ⟨ht, ha, htne, hane⟩
    · rintro ⟨ht, ha, htne, hane⟩
      exact ⟨p.1, ⟨ht, htne⟩, p.2, ⟨ha, hane⟩, rfl⟩
  · simp [hsem]

/-- The variable behind a pair is the assignment variable of an eligible pair. -/
theorem Skeleton.pairOf_iff (hS : Skeleton request ir) {v : DecisionVariable} {p : Pair} :
    v ∈ ir.decisionVariables ∧ pairOf v = some p ↔
      ∃ t ∈ request.tasks, t.taskId = p.1 ∧ p.2 ∈ eligible request t ∧ p.1 ≠ "" ∧ p.2 ≠ "" ∧
        v = assignmentVariable p.1 p.2 := by
  rw [pairOf_eq_some]
  constructor
  · rintro ⟨hv, hsem, htask, hasset, hne⟩
    rcases hS.variable_cases hv with ⟨t, ht, a, ha, rfl⟩ | ⟨t, -, rfl⟩ | ⟨t, -, -, i, -, rfl⟩
    · have htask' : t.taskId = p.1 := Option.some.inj htask
      have hasset' : a = p.2 := Option.some.inj hasset
      exact ⟨t, ht, htask', hasset' ▸ ha, hne.1, hne.2, by rw [htask', hasset']⟩
    · cases hsem
    · cases hsem
  · rintro ⟨t, ht, htask, ha, htne, hane, rfl⟩
    refine ⟨?_, rfl, rfl, rfl, htne, hane⟩
    rw [← htask]
    exact hS.assignment_mem ht ha

theorem getD_assignmentPairs (taskId : String) :
    (assignmentPairs ir).getD taskId [] =
      sortOn id (((ir.decisionVariables.filterMap pairOf).filter fun p => p.1 = taskId).map
        Prod.snd) := by
  have hgroup := Dict.getD_group (ir.decisionVariables.filterMap pairOf) taskId
  change (((Dict.group (ir.decisionVariables.filterMap pairOf)).mapValues (sortOn id)).get?
    taskId).getD [] = _
  rw [← hgroup, Dict.get?_mapValues, Dict.getD]
  cases (Dict.group (ir.decisionVariables.filterMap pairOf)).get? taskId with
  | none => exact ((sortOn_eq_nil (α := String) id []).mpr rfl).symm
  | some as => rfl

/-- **The pairs read back are the eligible ones with a name.** -/
theorem Skeleton.mem_assignmentPairs (hS : Skeleton request ir) {taskId assetId : String} :
    assetId ∈ (assignmentPairs ir).getD taskId [] ↔
      ∃ t ∈ request.tasks, t.taskId = taskId ∧ assetId ∈ eligible request t ∧ taskId ≠ "" ∧
        assetId ≠ "" := by
  rw [getD_assignmentPairs, mem_sortOn, List.mem_map]
  constructor
  · rintro ⟨p, hp, rfl⟩
    obtain ⟨hpm, hk⟩ := List.mem_filter.mp hp
    obtain rfl : p.1 = taskId := by simpa using hk
    obtain ⟨v, hv⟩ := List.mem_filterMap.mp hpm
    obtain ⟨t, ht, htask, ha, htne, hane, -⟩ := hS.pairOf_iff.1 hv
    exact ⟨t, ht, htask, ha, htne, hane⟩
  · rintro ⟨t, ht, htask, ha, htne, hane⟩
    refine ⟨(taskId, assetId), List.mem_filter.mpr ⟨?_, by simp⟩, rfl⟩
    exact List.mem_filterMap.mpr ⟨assignmentVariable taskId assetId,
      hS.pairOf_iff.2 ⟨t, ht, htask, ha, htne, hane, rfl⟩⟩

theorem Skeleton.assignmentPairs_nodup (hS : Skeleton request ir) (taskId : String) :
    ((assignmentPairs ir).getD taskId []).Nodup := by
  have hpairs : (ir.decisionVariables.filterMap pairOf).Nodup := by
    rw [List.nodup_iff_pairwise_ne, List.pairwise_filterMap]
    have hids := List.pairwise_map.mp (List.nodup_iff_pairwise_ne.mp ir.variableIds_nodup)
    refine hids.imp_of_mem ?_
    intro v w hv hw hvw p hp q hq hpq
    -- the pair determines the variable
    obtain ⟨-, -, -, -, -, -, rfl⟩ := hS.pairOf_iff.1 ⟨hv, hp⟩
    obtain ⟨-, -, -, -, -, -, rfl⟩ := hS.pairOf_iff.1 ⟨hw, hq⟩
    exact hvw (by rw [hpq])
  rw [getD_assignmentPairs, sortOn_nodup]
  refine (hpairs.filter _).map_on ?_
  intro p hp q hq hpq
  have hp1 : p.1 = taskId := by simpa using (List.mem_filter.mp hp).2
  have hq1 : q.1 = taskId := by simpa using (List.mem_filter.mp hq).2
  exact Prod.ext (hp1.trans hq1.symm) hpq

theorem mem_keys_of_mem_getD {pairs : Dict String (List String)} {k a : String}
    (h : a ∈ pairs.getD k []) : k ∈ pairs.keys := by
  rw [Dict.mem_keys]
  by_contra hk
  rw [Option.not_isSome_iff_eq_none] at hk
  simp [Dict.getD, hk] at h

theorem mem_sortedPairs {pairs : Dict String (List String)} {p : Pair} :
    p ∈ sortedPairs pairs ↔ p.2 ∈ pairs.getD p.1 [] := by
  simp only [sortedPairs, List.mem_flatMap, mem_sortOn, List.mem_map]
  constructor
  · rintro ⟨k, -, a, ha, rfl⟩
    exact ha
  · intro h
    exact ⟨p.1, mem_keys_of_mem_getD h, p.2, h, rfl⟩

theorem taskById_eq_some {t : Task} {taskId : String} :
    taskById request taskId = some t ↔ t ∈ request.tasks ∧ t.taskId = taskId := by
  constructor
  · intro h
    exact ⟨List.mem_of_find?_eq_some h, by simpa using List.find?_some h⟩
  · rintro ⟨ht, rfl⟩
    have hs : (request.tasks.find? fun u => u.taskId = t.taskId).isSome := by
      rw [List.find?_isSome]
      exact ⟨t, ht, by simp⟩
    obtain ⟨u, hu⟩ := Option.isSome_iff_exists.mp hs
    have huid : u.taskId = t.taskId := by simpa using List.find?_some hu
    rw [taskById, hu, task_eq_of_taskId (List.mem_of_find?_eq_some hu) ht huid]

end Pairs

/-! ## Durations and forbidden pairs -/

section Passes

variable {slopeDeg : Vec3 → Vec3 → ℚ} {request : AllocationRequest} {context : ConstraintContext}
  {config : ConstraintConfig} {costs : CostTable} {baseIR : AllocationIR}

theorem pairDuration_nonneg (costs : CostTable) (t : Task) (a : String) :
    0 ≤ (pairDuration costs t a).1 := by
  rw [pairDuration]
  cases hl : (costs.lookup t.taskId a).bind CostEntry.durationS with
  | none =>
    dsimp only
    split_ifs with h
    · exact h.le
    · exact le_rfl
  | some d =>
    obtain ⟨entry, -, hd⟩ := Option.bind_eq_some_iff.mp hl
    exact entry.duration_nonneg d hd

/-- No pair takes a negative time. -/
theorem terrainOf_durations_nonneg (p : Pair) :
    0 ≤ (terrainOf slopeDeg request context config costs baseIR).durations.getD p 0 := by
  rw [Dict.getD]
  cases hg : (terrainOf slopeDeg request context config costs baseIR).durations.get? p with
  | none => exact le_rfl
  | some d =>
    obtain ⟨v, -, hv⟩ := List.mem_map.mp (Dict.get?_ofList_mem hg)
    rw [Option.getD_some, ← (Prod.mk.inj hv).2]
    exact pairDuration_nonneg costs v.1 v.2

/-- The terrain pass forbids eligible pairs only. -/
theorem mem_terrain_forbidden (hS : Skeleton request baseIR) {p : Pair}
    (hp : p ∈ (terrainOf slopeDeg request context config costs baseIR).forbidden) :
    ∃ t ∈ request.tasks, t.taskId = p.1 ∧ p.2 ∈ eligible request t := by
  obtain ⟨v, hv, rfl⟩ := List.mem_map.mp hp
  obtain ⟨q, hq, hvq⟩ := List.mem_filterMap.mp (List.mem_filter.mp hv).1
  obtain ⟨t, ht, rfl⟩ := Option.map_eq_some_iff.mp hvq
  obtain ⟨htm, htid⟩ := taskById_eq_some.1 ht
  obtain ⟨u, hu, huid, ha, -⟩ := hS.mem_assignmentPairs.1 (mem_sortedPairs.1 hq)
  obtain rfl := task_eq_of_taskId hu htm (huid.trans htid.symm)
  exact ⟨u, hu, rfl, ha⟩

theorem mem_gatedTasks {policy : CommsPolicy} {pairs : Dict String (List String)} {t : Task} :
    t ∈ gatedTasks request policy pairs ↔
      t ∈ request.tasks ∧ t.taskId ∈ pairs.keys ∧ policy.isRelayGated t.taskId t.kind = true := by
  simp only [gatedTasks, List.mem_filter, List.mem_filterMap, mem_sortOn, taskById_eq_some]
  constructor
  · rintro ⟨⟨k, hk, ht, rfl⟩, hg⟩
    exact ⟨ht, hk, hg⟩
  · rintro ⟨ht, hk, hg⟩
    exact ⟨⟨t.taskId, hk, ht, rfl⟩, hg⟩

theorem mem_openAssets {pairs : Dict String (List String)} {forbidden : List Pair}
    {taskId a : String} :
    a ∈ openAssets pairs forbidden taskId ↔
      a ∈ pairs.getD taskId [] ∧ (taskId, a) ∉ forbidden := by
  simp [openAssets]

/-- A gated task contributes nothing but its bounds, and forbids open assets only. -/
theorem gateTask_constraints {contacts : Option ContactPlan} {policy : CommsPolicy}
    {durations : Dict Pair ℚ} {t : Task} {assets : List String} {c : Constraint}
    (hc : c ∈ (gateTask contacts policy durations t assets).constraints) :
    ∃ envelope, c ∈ commsBounds t.taskId envelope := by
  cases contacts with
  | none => cases hc
  | some plan =>
    rw [gateTask] at hc
    split at hc
    · cases hc
    · exact ⟨_, hc⟩

theorem gateTask_forbidden {contacts : Option ContactPlan} {policy : CommsPolicy}
    {durations : Dict Pair ℚ} {t : Task} {assets : List String} {p : Pair}
    (hp : p ∈ (gateTask contacts policy durations t assets).forbidden) :
    p.1 = t.taskId ∧ p.2 ∈ assets := by
  have hmissing : ∀ plan, p ∈ ((assetFits plan policy durations t assets).filter
      fun f => f.2.isNone).map (fun f => (t.taskId, f.1)) → p.1 = t.taskId ∧ p.2 ∈ assets := by
    intro plan h
    obtain ⟨f, hf, rfl⟩ := List.mem_map.mp h
    obtain ⟨a, ha, rfl⟩ := List.mem_map.mp (List.mem_filter.mp hf).1
    exact ⟨rfl, ha⟩
  cases contacts with
  | none =>
    obtain ⟨a, ha, rfl⟩ := List.mem_map.mp hp
    exact ⟨rfl, ha⟩
  | some plan =>
    rw [gateTask] at hp
    split at hp
    · exact hmissing plan hp
    · exact hmissing plan hp

/-- The comms pass emits bounds of the starts of tasks. -/
theorem buildComms_constraints {durations : Dict Pair ℚ} {forbidden : List Pair} {c : Constraint}
    (hc : c ∈ (buildCommsConstraints request baseIR context config durations
      forbidden).constraints) :
    ∃ t ∈ request.tasks, ∃ envelope, c ∈ commsBounds t.taskId envelope := by
  rw [buildCommsConstraints] at hc
  split at hc
  · cases hc
  · obtain ⟨g, hg, hcg⟩ := List.mem_flatMap.mp hc
    obtain ⟨t, ht, rfl⟩ := List.mem_map.mp hg
    exact ⟨t, (mem_gatedTasks.1 ht).1, gateTask_constraints hcg⟩

/-- The comms pass forbids eligible pairs only. -/
theorem buildComms_forbidden (hS : Skeleton request baseIR) {durations : Dict Pair ℚ}
    {forbidden : List Pair} {p : Pair}
    (hp : p ∈ (buildCommsConstraints request baseIR context config durations
      forbidden).forbidden) :
    ∃ t ∈ request.tasks, t.taskId = p.1 ∧ p.2 ∈ eligible request t := by
  rw [buildCommsConstraints] at hp
  split at hp
  · cases hp
  · obtain ⟨g, hg, hpg⟩ := List.mem_flatMap.mp hp
    obtain ⟨t, ht, rfl⟩ := List.mem_map.mp hg
    obtain ⟨hp1, ha⟩ := gateTask_forbidden hpg
    obtain ⟨u, hu, huid, ha, -⟩ := hS.mem_assignmentPairs.1 (mem_openAssets.1 ha).1
    exact ⟨u, hu, huid.trans hp1.symm, ha⟩

theorem mem_forbiddenOf (hS : Skeleton request baseIR) {p : Pair}
    (hp : p ∈ forbiddenOf slopeDeg request context config costs baseIR) :
    ∃ t ∈ request.tasks, t.taskId = p.1 ∧ p.2 ∈ eligible request t := by
  rcases List.mem_union_iff.mp hp with hp | hp
  · exact mem_terrain_forbidden hS hp
  · exact buildComms_forbidden hS hp

/-! ## The constraints -/

/-- The power pass emits one budget for each asset with a capacity. -/
theorem mem_power_constraints {pairs : Dict String (List String)} {durations : Dict Pair ℚ}
    {forbidden : List Pair} {c : Constraint} :
    c ∈ (buildPowerConstraints request context config costs pairs durations
        forbidden).constraints ↔
      ∃ a ∈ (tasksByAsset pairs forbidden).keys, ∃ available,
        availableEnergy request context config.power a = some available ∧
          c = powerConstraint (fun t a => (pairEnergy costs durations config.power t a).1) a
            (candidates pairs forbidden a) available := by
  simp only [buildPowerConstraints, List.mem_map, List.mem_filterMap, mem_sortOn,
    Option.map_eq_some_iff]
  constructor
  · rintro ⟨b, ⟨a, ha, available, hav, rfl⟩, rfl⟩
    exact ⟨a, ha, available, hav, rfl⟩
  · rintro ⟨a, ha, available, hav, rfl⟩
    exact ⟨(a, available), ⟨a, ha, available, hav, rfl⟩, rfl⟩

/-- The constraints of a constrained IR. -/
theorem mem_constrainedConstraints (hc : compileRequest request = .ok baseIR) {c : Constraint} :
    c ∈ constrainedConstraints slopeDeg request context config costs baseIR ↔
      c ∈ linearConstraints request ∨
        c ∈ (commsOf slopeDeg request context config costs baseIR).constraints ∨
        c ∈ (powerOf slopeDeg request context config costs baseIR).constraints ∨
        (∃ p ∈ forbiddenOf slopeDeg request context config costs baseIR,
          c = keepoutConstraint p) ∨
        c ∈ noOverlapConstraints (assignmentPairs baseIR)
          (terrainOf slopeDeg request context config costs baseIR).durations
          (forbiddenOf slopeDeg request context config costs baseIR) := by
  have hbase : c ∈ baseIR.constraints.filter (fun c => !isScheduling c.kind) ↔
      c ∈ linearConstraints request := by
    rw [List.mem_filter, (compileRequest_eq_ok hc).2.1, mem_requestConstraints]
    constructor
    · rintro ⟨h | h, hk⟩
      · exact h
      · obtain ⟨a, -, -, rfl⟩ := mem_noOverlapConstraints.1 h
        cases hk
    · intro h
      refine ⟨Or.inl h, ?_⟩
      rcases linearConstraint_kind h with hk | hk | hk <;> rw [hk] <;> rfl
  have hkeep : c ∈ keepoutConstraints (forbiddenOf slopeDeg request context config costs baseIR) ↔
      ∃ p ∈ forbiddenOf slopeDeg request context config costs baseIR, c = keepoutConstraint p := by
    simp only [keepoutConstraints, List.mem_map, mem_sortOn]
    exact exists_congr fun p => and_congr_right fun _ => eq_comm
  rw [constrainedConstraints, mem_sortOn]
  simp only [List.mem_append, hbase, hkeep, or_assoc]

/-- What is in a constrained IR and its report. -/
theorem compileWithConstraints_eq_ok {compilation : ConstraintCompilation}
    (h : compileWithConstraints slopeDeg request context config costs = .ok compilation) :
    ∃ baseIR, compileRequest request = .ok baseIR ∧
      compilation.ir.decisionVariables = requestVariables request ∧
      compilation.ir.constraints =
        constrainedConstraints slopeDeg request context config costs baseIR ∧
      compilation.ir.objectiveTerms =
        (objectiveOf slopeDeg request context config costs baseIR).2.2.1.objectiveTerms ∧
      compilation.ir.objectiveSense = request.objective.sense ∧
      compilation.report = reportOf slopeDeg request context config costs baseIR := by
  rw [compileWithConstraints] at h
  cases hb : compileRequest request with
  | error e =>
    rw [hb] at h
    cases h
  | ok baseIR =>
    rw [hb] at h
    cases hi : AllocationIR.create baseIR.decisionVariables
        (constrainedConstraints slopeDeg request context config costs baseIR)
        (objectiveOf slopeDeg request context config costs baseIR).2.2.1.objectiveTerms
        baseIR.objectiveSense with
    | error e =>
      simp only [bind, Except.bind, hi] at h
      cases h
    | ok ir =>
      simp only [bind, Except.bind, hi, pure, Except.pure] at h
      obtain rfl := Except.ok.inj h
      obtain ⟨hv, hcs, hos, hsense⟩ := AllocationIR.create_eq_ok hi
      obtain ⟨hvb, -, -, hsb⟩ := compileRequest_eq_ok hb
      exact ⟨baseIR, rfl, hv.trans hvb, hcs, hos, hsense.trans hsb, rfl⟩

/-- A constrained IR is a skeleton. -/
theorem skeleton_of_compileWithConstraints {compilation : ConstraintCompilation}
    (h : compileWithConstraints slopeDeg request context config costs = .ok compilation) :
    Skeleton request compilation.ir := by
  obtain ⟨baseIR, hb, hv, hcs, -⟩ := compileWithConstraints_eq_ok h
  refine ⟨hv, fun c hc => ?_, fun c hc hk => ?_⟩
  · rw [hcs, mem_constrainedConstraints hb]
    exact Or.inl hc
  · rw [hcs, mem_constrainedConstraints hb] at hc
    rcases hc with hc | hc | hc | ⟨p, -, rfl⟩ | hc
    · exact Or.inl hc
    · obtain ⟨t, ht, envelope, hm⟩ := buildComms_constraints hc
      refine Or.inr fun term hterm => ⟨t, ht, ?_⟩
      rcases List.mem_pair.mp hm with rfl | rfl
      · rw [List.mem_singleton.mp hterm]
      · rw [List.mem_singleton.mp hterm]
    · obtain ⟨a, -, available, -, rfl⟩ := mem_power_constraints.1 hc
      cases hk
    · cases hk
    · obtain ⟨a, -, -, rfl⟩ := mem_noOverlapConstraints.1 hc
      cases hk

end Passes

/-! ## The emitted constraints against a plan -/

namespace Skeleton

variable {request : AllocationRequest} {ir : AllocationIR} (plan : List AssetSchedule)

/-- A bound of a start. -/
theorem startBound_iff (hS : Skeleton request ir) {t : Task} (ht : t ∈ request.tasks) (id : String)
    (sense : ConstraintSense) (bound : ℚ) :
    satisfiesConstraint ir (planVariableValues plan ir)
        ⟨id, .timeWindow, [⟨startVarId t.taskId, 1⟩], sense, bound⟩ = true ↔
      satisfies (startOf plan t.taskId) sense bound := by
  rw [satisfiesConstraint_linear rfl]
  simp [weightedSum, hS.value_start plan ht]

/-- A keep-out keeps the task off the asset. -/
theorem keepout_iff (hS : Skeleton request ir) {t : Task} (ht : t ∈ request.tasks) {a : String}
    (ha : a ∈ eligible request t) :
    satisfiesConstraint ir (planVariableValues plan ir) (keepoutConstraint (t.taskId, a)) = true ↔
      assetOf plan t.taskId ≠ some a := by
  rw [satisfiesConstraint_linear rfl]
  simp only [keepoutConstraint, satisfies, weightedSum, List.map_cons, List.map_nil,
    List.sum_cons, List.sum_nil, hS.value_assignment plan ht ha]
  by_cases hp : assetOf plan t.taskId = some a
  · simp only [hp, if_true, ne_eq, not_true_eq_false, iff_false]
    norm_num [eps]
  · simp [hp, eps_nonneg]

/-- A budget bounds what the tasks on the asset spend. -/
theorem budget_iff (hS : Skeleton request ir) (id : String) {asset : String}
    (energy : String → ℚ) {taskIds : List String}
    (h : ∀ k ∈ taskIds, ∃ t ∈ request.tasks, t.taskId = k ∧ asset ∈ eligible request t)
    (available : ℚ) :
    satisfiesConstraint ir (planVariableValues plan ir)
        ⟨id, .linear, taskIds.map fun k => ⟨assignmentVarId k asset, energy k⟩, .le,
          available⟩ = true ↔
      (taskIds.map fun k => if assetOf plan k = some asset then energy k else 0).sum ≤
        available + eps := by
  have hsum : weightedSum (planVariableValues plan ir)
      (taskIds.map fun k => ⟨assignmentVarId k asset, energy k⟩) =
      (taskIds.map fun k => if assetOf plan k = some asset then energy k else 0).sum := by
    rw [weightedSum, List.map_map]
    congr 1
    refine List.map_congr_left fun k hk => ?_
    obtain ⟨t, ht, rfl, ha⟩ := h k hk
    rw [Function.comp_apply, hS.value_assignment plan ht ha, mul_ite, mul_one, mul_zero]
  rw [satisfiesConstraint_linear rfl, hsum]
  exact Iff.rfl

end Skeleton

/-! ## The forms of constraints -/

/-- The constraints that the compiler and the passes emit. -/
inductive Emitted (request : AllocationRequest) : Constraint → Prop where
  | linear {c : Constraint} (h : c ∈ linearConstraints request) : Emitted request c
  | startBound (id : String) {t : Task} (ht : t ∈ request.tasks) (sense : ConstraintSense)
      (bound : ℚ) : Emitted request ⟨id, .timeWindow, [⟨startVarId t.taskId, 1⟩], sense, bound⟩
  | budget (id asset : String) (energy : String → ℚ) {taskIds : List String}
      (h : ∀ k ∈ taskIds, ∃ t ∈ request.tasks, t.taskId = k ∧ asset ∈ eligible request t)
      (available : ℚ) :
      Emitted request
        ⟨id, .linear, taskIds.map fun k => ⟨assignmentVarId k asset, energy k⟩, .le, available⟩
  | keepout {t : Task} (ht : t ∈ request.tasks) {asset : String}
      (ha : asset ∈ eligible request t) : Emitted request (keepoutConstraint (t.taskId, asset))
  | noOverlap {asset : String} {sizes : Dict Pair ℚ} {taskIds : List String}
      (hnd : taskIds.Nodup) (hsizes : ∀ k ∈ taskIds, 0 ≤ sizes.getD (k, asset) 0)
      (h : ∀ k ∈ taskIds, ∃ t ∈ request.tasks, t.taskId = k ∧ asset ∈ eligible request t) :
      Emitted request
        ⟨noOverlapConstraintId asset, .noOverlap, noOverlapTerms sizes asset taskIds, .le, 0⟩

/-- The constraints of `compile_request`. -/
theorem emitted_of_compileRequest {request : AllocationRequest} {ir : AllocationIR}
    (h : compileRequest request = .ok ir) : ∀ c ∈ ir.constraints, Emitted request c := by
  intro c hc
  rw [(compileRequest_eq_ok h).2.1, mem_requestConstraints] at hc
  rcases hc with hc | hc
  · exact .linear hc
  · obtain ⟨a, -, -, rfl⟩ := mem_noOverlapConstraints.1 hc
    have hnd := eligibleByTask_nodup request
    have hks : ∀ k ∈ candidates (eligibleByTask request) [] a,
        ∃ t ∈ request.tasks, t.taskId = k ∧ a ∈ eligible request t :=
      fun k hk => mem_getD_eligibleByTask.1 ((mem_candidates hnd).mp hk).1
    refine .noOverlap (candidates_nodup [] hnd a) (fun k hk => ?_) hks
    obtain ⟨t, ht, rfl, ha⟩ := hks k hk
    rw [getD_nominalSizes ht ha]
    exact t.duration_nonneg

/-- The constraints of `compile_with_constraints`. -/
theorem emitted_of_compileWithConstraints {slopeDeg : Vec3 → Vec3 → ℚ}
    {request : AllocationRequest} {context : ConstraintContext} {config : ConstraintConfig}
    {costs : CostTable} {compilation : ConstraintCompilation}
    (h : compileWithConstraints slopeDeg request context config costs = .ok compilation) :
    ∀ c ∈ compilation.ir.constraints, Emitted request c := by
  obtain ⟨baseIR, hb, -, hcs, -⟩ := compileWithConstraints_eq_ok h
  have hS := skeleton_of_compileRequest hb
  have hks : ∀ (forbidden : List Pair) (a : String),
      ∀ k ∈ candidates (assignmentPairs baseIR) forbidden a,
        ∃ t ∈ request.tasks, t.taskId = k ∧ a ∈ eligible request t := by
    intro forbidden a k hk
    obtain ⟨t, ht, hid, ha, -⟩ :=
      hS.mem_assignmentPairs.1 ((mem_candidates hS.assignmentPairs_nodup).mp hk).1
    exact ⟨t, ht, hid, ha⟩
  intro c hc
  rw [hcs, mem_constrainedConstraints hb] at hc
  rcases hc with hc | hc | hc | ⟨p, hp, rfl⟩ | hc
  · exact .linear hc
  · obtain ⟨t, ht, envelope, hm⟩ := buildComms_constraints hc
    rcases List.mem_pair.mp hm with rfl | rfl
    · exact .startBound _ ht _ _
    · exact .startBound _ ht _ _
  · obtain ⟨a, -, available, -, rfl⟩ := mem_power_constraints.1 hc
    exact .budget _ a (fun k => (pairEnergy costs _ config.power k a).1) (hks _ a) available
  · obtain ⟨t, ht, hid, ha⟩ := mem_forbiddenOf hS hp
    rw [show p = (t.taskId, p.2) from Prod.ext hid.symm rfl]
    exact .keepout ht ha
  · obtain ⟨a, -, -, rfl⟩ := mem_noOverlapConstraints.1 hc
    exact .noOverlap (candidates_nodup _ hS.assignmentPairs_nodup a)
      (fun k _ => terrainOf_durations_nonneg _) (hks _ a)

end AstroMine.Allocate
