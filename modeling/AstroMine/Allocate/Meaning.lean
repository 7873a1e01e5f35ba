import AstroMine.Allocate.Skeleton

/-!
# What a feasible plan means to the request

`Feasible tol` reads a plan against the request alone: eligibility, windows, precedence, one task
at a time, and the value of the assignment. `verify_feasible` on the compiled IR decides it with
the tolerance of its comparisons.

Results:
* `linearConstraints_iff`, `nominalNoOverlap_iff`: the constraints against the meaning.
* `verifyFeasible_compileRequest_iff`: the verifier decides `Feasible eps`.
-/

namespace AstroMine.Allocate

open Intervals
open Skeleton (interval InWindow Counts)

/-! ## The meaning -/

/-- The asset can do the task. -/
def CanDo (asset : AssetRef) (t : Task) : Prop := t.requiredCapabilities ⊆ asset.capabilityTags

/-- The time a task takes on its asset. -/
def occupied (plan : List AssetSchedule) (t : Task) : ℚ × ℚ :=
  (startOf plan t.taskId, startOf plan t.taskId + t.durationS)

/-- The value of the tasks that are on an eligible asset. -/
def assignmentValue (request : AllocationRequest) (plan : List AssetSchedule) : ℚ :=
  (request.tasks.map fun t =>
    if ∃ a ∈ eligible request t, assetOf plan t.taskId = some a then t.valueMean else 0).sum

/-- **Feasible by the meaning of the request**, times and the objective compared up to `tol`. The
windows are read up to the epsilon of `TimeWindow.contains`. -/
structure Feasible (tol : ℚ) (request : AllocationRequest) (plan : List AssetSchedule)
    (reported : Option ℚ) : Prop where
  scheduledOnce : ((placements plan).map Prod.fst).Nodup
  onEligible : ∀ t ∈ request.tasks, ∃ asset ∈ request.assets,
    assetOf plan t.taskId = some asset.assetId ∧ CanDo asset t
  inWindow : ∀ t ∈ request.tasks, t.timeWindows = [] ∨
    ∃ w ∈ t.timeWindows, InWindow w (startOf plan t.taskId)
  inOrder : ∀ t ∈ request.tasks, ∀ u ∈ request.tasks, u.taskId ∈ t.precedence →
    startOf plan u.taskId ≤ startOf plan t.taskId + tol
  oneAtATime : ∀ t ∈ request.tasks, ∀ u ∈ request.tasks, t ≠ u →
    assetOf plan t.taskId = assetOf plan u.taskId →
    Apart tol (occupied plan t) (occupied plan u)
  honest : ∃ r, reported = some r ∧ |assignmentValue request plan - r| ≤
    tol * max 1 (max |assignmentValue request plan| |r|)

/-! ## The verifier against the meaning -/

section Iff

variable {request : AllocationRequest} {ir : AllocationIR} {plan : List AssetSchedule}

theorem onEligible_iff {t : Task} :
    (∃ a ∈ eligible request t, assetOf plan t.taskId = some a) ↔
      ∃ asset ∈ request.assets, assetOf plan t.taskId = some asset.assetId ∧ CanDo asset t := by
  simp only [eligible, mem_eligibleAssetIds, CanDo]
  constructor
  · rintro ⟨a, ⟨asset, hm, rfl, hcaps⟩, ha⟩
    exact ⟨asset, hm, ha, hcaps⟩
  · rintro ⟨asset, hm, ha, hcaps⟩
    exact ⟨asset.assetId, ⟨asset, hm, rfl, hcaps⟩, ha⟩

/-- The objective of the compiled IR is the value of the assignment. -/
theorem objectiveValue_compileRequest (hS : Skeleton request ir) :
    objectiveValue (planVariableValues plan ir) (requestObjective request) =
      assignmentValue request plan := by
  have htask : ∀ t ∈ request.tasks, ((eligible request t).map fun a =>
      t.valueMean * (planVariableValues plan ir).getD (assignmentVarId t.taskId a) 0).sum =
      if ∃ a ∈ eligible request t, assetOf plan t.taskId = some a then t.valueMean else 0 := by
    intro t ht
    have hcongr : ((eligible request t).map fun a =>
        t.valueMean * (planVariableValues plan ir).getD (assignmentVarId t.taskId a) 0) =
        (eligible request t).map fun a =>
          if assetOf plan t.taskId = some a then t.valueMean else 0 := by
      refine List.map_congr_left fun a ha => ?_
      rw [hS.value_assignment plan ht ha, mul_ite, mul_one, mul_zero]
    rw [hcongr]
    cases hp : assetOf plan t.taskId with
    | none => simp
    | some b =>
      have hflip : ((eligible request t).map fun a =>
          if some b = some a then t.valueMean else 0) =
          (eligible request t).map fun a => if a = b then t.valueMean else 0 := by
        refine List.map_congr_left fun a _ => ?_
        by_cases hab : a = b
        · rw [if_pos hab, if_pos (congrArg some hab.symm)]
        · rw [if_neg hab, if_neg fun h => hab (Option.some.inj h).symm]
      rw [hflip, sum_map_ite_eq (eligible_nodup request t) b fun _ => t.valueMean]
      by_cases hb : b ∈ eligible request t
      · rw [if_pos hb, if_pos ⟨b, hb, rfl⟩]
      · rw [if_neg hb, if_neg]
        rintro ⟨a, ha, h⟩
        exact hb (Option.some.inj h ▸ ha)
  rw [objectiveValue, requestObjective, ((sortOn_perm _ _).map _).sum_eq, List.map_flatMap,
    List.flatMap_def, List.sum_flatten, List.map_map, assignmentValue,
    ((sortOn_perm Task.taskId request.tasks).symm.map _).sum_eq]
  congr 1
  refine List.map_congr_left fun t ht => ?_
  rw [Function.comp_apply, List.map_map]
  exact htask t (mem_sortedTasks.1 ht)

theorem honestObjective_iff {expected : ℚ} {reported : Option ℚ} :
    honestObjective expected reported = true ↔
      ∃ r, reported = some r ∧ |expected - r| ≤ eps * max 1 (max |expected| |r|) := by
  cases reported with
  | none => simp [honestObjective]
  | some r => simp [honestObjective]

/-- Every start variable belongs to a scheduled task. -/
theorem coversStarts_iff (hS : Skeleton request ir) :
    (∀ v ∈ ir.decisionVariables, v.semantic = .startTime →
      ((scheduled plan).get? (v.taskRef.getD "")).isSome) ↔
      ∀ t ∈ request.tasks, ((scheduled plan).get? t.taskId).isSome := by
  constructor
  · intro h t ht
    exact h (startVariable t) (hS.start_mem ht) rfl
  · intro h v hv hsem
    rcases hS.variable_cases hv with ⟨t, -, a, -, rfl⟩ | ⟨t, ht, rfl⟩ | ⟨t, -, -, i, -, rfl⟩
    · cases hsem
    · exact h t ht
    · cases hsem

theorem isSome_of_assetOf {taskId a : String} (h : assetOf plan taskId = some a) :
    ((scheduled plan).get? taskId).isSome := by
  obtain ⟨p, hp, -⟩ := Option.map_eq_some_iff.mp h
  rw [hp]
  rfl

/-- The linear constraints of the skeleton against the meaning. -/
theorem linearConstraints_iff (hS : Skeleton request ir) :
    ((∀ t ∈ request.tasks, ((scheduled plan).get? t.taskId).isSome) ∧
      ∀ c ∈ linearConstraints request,
        satisfiesConstraint ir (planVariableValues plan ir) c = true) ↔
      (∀ t ∈ request.tasks, ∃ a ∈ eligible request t, assetOf plan t.taskId = some a) ∧
        (∀ t ∈ request.tasks, (t.timeWindows = [] ∨
            ∃ w ∈ t.timeWindows, InWindow w (startOf plan t.taskId)) ∧
          (t.taskId = "" → t.timeWindows.length ≤ 1)) ∧
        ∀ t ∈ request.tasks, ∀ u ∈ request.tasks, u.taskId ∈ t.precedence →
          startOf plan u.taskId ≤ startOf plan t.taskId + eps := by
  constructor
  · rintro ⟨hsome, hall⟩
    refine ⟨fun t ht => ?_, fun t ht => ?_, fun t ht u hu hp => ?_⟩
    · exact (hS.cover_iff plan ht).mp
        (hall _ (mem_linearConstraints.2 ⟨t, ht, Or.inl rfl⟩))
    · refine (hS.windowConstraints_iff plan ht (hsome t ht)).1 fun c hc => ?_
      exact hall c (mem_linearConstraints.2 ⟨t, ht, Or.inr (Or.inl hc)⟩)
    · exact (hS.precedence_iff plan ht hu).mp
        (hall _ (mem_linearConstraints.2 ⟨t, ht, Or.inr (Or.inr ⟨_, hp, rfl⟩)⟩))
  · rintro ⟨hcover, hwin, hprec⟩
    have hsome : ∀ t ∈ request.tasks, ((scheduled plan).get? t.taskId).isSome := by
      intro t ht
      obtain ⟨a, -, ha⟩ := hcover t ht
      exact isSome_of_assetOf ha
    refine ⟨hsome, fun c hc => ?_⟩
    obtain ⟨t, ht, rfl | hw | ⟨p, hp, rfl⟩⟩ := mem_linearConstraints.1 hc
    · exact (hS.cover_iff plan ht).mpr (hcover t ht)
    · exact (hS.windowConstraints_iff plan ht (hsome t ht)).2 (hwin t ht) c hw
    · obtain ⟨u, hu, rfl⟩ := List.mem_map.mp (request.precedence_known t ht p hp)
      exact (hS.precedence_iff plan ht hu).mpr (hprec t ht u hu hp)

/-- The no-overlap constraints of `compile_request` against the meaning. -/
theorem nominalNoOverlap_iff (hS : Skeleton request ir) :
    (∀ c ∈ noOverlapConstraints (eligibleByTask request) (nominalSizes request) [],
        satisfiesConstraint ir (planVariableValues plan ir) c = true) ↔
      ∀ a, ∀ t ∈ request.tasks, ∀ u ∈ request.tasks, t ≠ u → a ∈ eligible request t →
        a ∈ eligible request u → Counts request plan a t → Counts request plan a u →
        Apart eps (occupied plan t) (occupied plan u) := by
  have hnd := eligibleByTask_nodup request
  have hint : ∀ t ∈ request.tasks, ∀ a ∈ eligible request t,
      interval plan (nominalSizes request) a t.taskId = occupied plan t := by
    intro t ht a ha
    rw [interval, getD_nominalSizes ht ha]
    rfl
  have hcand : ∀ t ∈ request.tasks, ∀ a ∈ eligible request t,
      t.taskId ∈ candidates (eligibleByTask request) [] a := by
    intro t ht a ha
    rw [mem_candidates hnd, getD_eligibleByTask ht]
    exact ⟨ha, List.not_mem_nil⟩
  rw [hS.noOverlapConstraints_iff plan hnd fun k a ha => mem_getD_eligibleByTask.1 ha]
  constructor
  · intro hall a t ht u hu htu hta hua hct hcu
    have h := hall a t.taskId (hcand t ht a hta) u.taskId (hcand u hu a hua)
      (fun h => htu (task_eq_of_taskId ht hu h)) ((hS.isPresent_iff_counts plan ht hta).2 hct)
      ((hS.isPresent_iff_counts plan hu hua).2 hcu)
    rwa [hint t ht a hta, hint u hu a hua] at h
  · intro hall a k hk l hl hkl hka hla
    obtain ⟨t, ht, rfl, hta⟩ := mem_getD_eligibleByTask.1 ((mem_candidates hnd).mp hk).1
    obtain ⟨u, hu, rfl, hua⟩ := mem_getD_eligibleByTask.1 ((mem_candidates hnd).mp hl).1
    rw [hint t ht a hta, hint u hu a hua]
    exact hall a t ht u hu (fun h => hkl (congrArg Task.taskId h)) hta hua
      ((hS.isPresent_iff_counts plan ht hta).1 hka) ((hS.isPresent_iff_counts plan hu hua).1 hla)

/-- What the verifier asks of a plan, whatever the task ids: the meaning of the request for the
    tasks that have one, and a stricter reading of the task with the empty id. -/
structure Accepted (request : AllocationRequest) (plan : List AssetSchedule)
    (reported : Option ℚ) : Prop where
  scheduledOnce : ((placements plan).map Prod.fst).Nodup
  onEligible : ∀ t ∈ request.tasks, ∃ a ∈ eligible request t, assetOf plan t.taskId = some a
  inWindow : ∀ t ∈ request.tasks, (t.timeWindows = [] ∨
      ∃ w ∈ t.timeWindows, InWindow w (startOf plan t.taskId)) ∧
    (t.taskId = "" → t.timeWindows.length ≤ 1)
  inOrder : ∀ t ∈ request.tasks, ∀ u ∈ request.tasks, u.taskId ∈ t.precedence →
    startOf plan u.taskId ≤ startOf plan t.taskId + eps
  oneAtATime : ∀ a, ∀ t ∈ request.tasks, ∀ u ∈ request.tasks, t ≠ u → a ∈ eligible request t →
    a ∈ eligible request u → Counts request plan a t → Counts request plan a u →
    Apart eps (occupied plan t) (occupied plan u)
  honest : ∃ r, reported = some r ∧ |assignmentValue request plan - r| ≤
    eps * max 1 (max |assignmentValue request plan| |r|)

/-- The verifier on the IR of a request, for any task ids. -/
theorem verifyFeasible_iff_accepted (hc : compileRequest request = .ok ir)
    (allocation : Allocation) :
    verifyFeasible allocation ir = true ↔
      ∃ plan, allocation.plan = some plan ∧ Accepted request plan allocation.realizedObjective := by
  have hS := skeleton_of_compileRequest hc
  obtain ⟨-, hcs, hobj, -⟩ := compileRequest_eq_ok hc
  rw [verifyFeasible_iff]
  refine exists_congr fun plan => and_congr_right fun _ => ?_
  rw [coversStarts_iff hS, hobj, objectiveValue_compileRequest hS, honestObjective_iff, hcs]
  constructor
  · rintro ⟨hnd, hsome, hall, hhonest⟩
    obtain ⟨hcover, hwin, hprec⟩ := (linearConstraints_iff hS).1
      ⟨hsome, fun c hm => hall c (mem_requestConstraints.2 (Or.inl hm))⟩
    refine ⟨hnd, hcover, hwin, hprec, ?_, hhonest⟩
    exact (nominalNoOverlap_iff hS).1 fun c hm => hall c (mem_requestConstraints.2 (Or.inr hm))
  · rintro ⟨hnd, hcover, hwin, hprec, hone, hhonest⟩
    obtain ⟨hsome, hlin⟩ := (linearConstraints_iff hS).2 ⟨hcover, hwin, hprec⟩
    refine ⟨hnd, hsome, fun c hm => ?_, hhonest⟩
    rcases mem_requestConstraints.1 hm with hm | hm
    · exact hlin c hm
    · exact (nominalNoOverlap_iff hS).2 hone c hm

/-- Without an empty task id the verifier asks for the meaning. -/
theorem accepted_iff_feasible (hne : ∀ t ∈ request.tasks, t.taskId ≠ "") (reported : Option ℚ) :
    Accepted request plan reported ↔ Feasible eps request plan reported := by
  have hcounts : ∀ t ∈ request.tasks, ∀ a,
      Counts request plan a t ↔ assetOf plan t.taskId = some a := by
    intro t ht a
    unfold Counts
    rw [if_neg (hne t ht)]
  constructor
  · rintro ⟨hnd, hcover, hwin, hprec, hone, hhonest⟩
    refine ⟨hnd, fun t ht => onEligible_iff.1 (hcover t ht), fun t ht => (hwin t ht).1, hprec,
      fun t ht u hu htu hsame => ?_, hhonest⟩
    obtain ⟨a, hta, hpa⟩ := hcover t ht
    obtain ⟨b, hub, hpb⟩ := hcover u hu
    obtain rfl : a = b := Option.some.inj (hpa.symm.trans (hsame.trans hpb))
    exact hone a t ht u hu htu hta hub ((hcounts t ht a).2 hpa) ((hcounts u hu a).2 hpb)
  · rintro ⟨hnd, hon, hwin, hprec, hone, hhonest⟩
    refine ⟨hnd, fun t ht => onEligible_iff.2 (hon t ht),
      fun t ht => ⟨hwin t ht, fun h => absurd h (hne t ht)⟩, hprec,
      fun a t ht u hu htu _ _ hct hcu => ?_, hhonest⟩
    exact hone t ht u hu htu (((hcounts t ht a).1 hct).trans ((hcounts u hu a).1 hcu).symm)

/-- The verifier decides the meaning, for the IR a request compiles to. -/
theorem verifyFeasible_iff_of_compileRequest (hc : compileRequest request = .ok ir)
    (hne : ∀ t ∈ request.tasks, t.taskId ≠ "") (allocation : Allocation) :
    verifyFeasible allocation ir = true ↔
      ∃ plan, allocation.plan = some plan ∧
        Feasible eps request plan allocation.realizedObjective := by
  rw [verifyFeasible_iff_accepted hc]
  exact exists_congr fun plan => and_congr_right fun _ => accepted_iff_feasible hne _

end Iff

/-- **Main theorem.** A request with distinct names and no empty task id compiles, and on its IR
the verifier accepts a plan exactly when the plan is feasible by the meaning of the request, up to
the tolerance of the comparisons. -/
theorem verifyFeasible_compileRequest_iff {request : AllocationRequest}
    (hnames : NamesDistinct request) (hne : ∀ t ∈ request.tasks, t.taskId ≠ "") :
    ∃ ir, compileRequest request = .ok ir ∧ ∀ allocation, verifyFeasible allocation ir = true ↔
      ∃ plan, allocation.plan = some plan ∧
        Feasible eps request plan allocation.realizedObjective := by
  obtain ⟨ir, hir⟩ := exists_compileRequest_eq_ok hnames
  exact ⟨ir, hir, verifyFeasible_iff_of_compileRequest hir hne⟩

/-! ## A request of two tasks -/

/-- `haul` comes after `dig`. -/
def twoTasks : AllocationRequest where
  tasks := [pointTask "dig" [], pointTask "haul" ["dig"]]
  assets := [rover]
  objective := ⟨.maximize, Dict.empty⟩
  tasks_ne_nil := by decide
  assets_ne_nil := rover_ne_nil
  taskIds_nodup := by decide
  assetIds_nodup := rover_nodup
  precedence_irrefl := by decide
  precedence_known := by decide
  precedence_acyclic := by decide +kernel

/-- A point on a timeline. -/
def pointAt (taskId : String) (start : ℚ) : ScheduledTask := ⟨taskId, .sample, start, start, le_rfl⟩

/-- The rover hauls half an epsilon before it digs. -/
def hastyPlan : Allocation where
  status := .feasible
  plan := some [⟨"rover", [pointAt "haul" 0, pointAt "dig" (1 / 2000000000)], by
    norm_num [pointAt, eps]⟩]
  realizedObjective := some 2
  feasible_plan := fun _ => rfl
  infeasible_plan := fun h => by cases h

theorem namesDistinct_twoTasks : NamesDistinct twoTasks :=
  (separable_of_plain (by decide) (by decide) (by decide)).namesDistinct

theorem verifyFeasible_compileRequest_iff_twoTasks :
    ∃ ir, compileRequest twoTasks = .ok ir ∧ ∀ allocation, verifyFeasible allocation ir = true ↔
      ∃ plan, allocation.plan = some plan ∧
        Feasible eps twoTasks plan allocation.realizedObjective :=
  verifyFeasible_compileRequest_iff namesDistinct_twoTasks (by decide)

/-- One task with the empty id and two windows. -/
def unnamedTask : AllocationRequest where
  tasks := [{ pointTask "" [] with
    timeWindows := [⟨0, 1, one_nonneg⟩, ⟨2, 3, by norm_num⟩] }]
  assets := [rover]
  objective := ⟨.maximize, Dict.empty⟩
  tasks_ne_nil := by decide
  assets_ne_nil := rover_ne_nil
  taskIds_nodup := by decide
  assetIds_nodup := rover_nodup
  precedence_irrefl := by decide
  precedence_known := by decide
  precedence_acyclic := by decide +kernel

/-- The unnamed task at the start of its first window. -/
def unnamedPlan : Allocation where
  status := .feasible
  plan := some [⟨"rover", [pointAt "" 0], List.IsChain.singleton _⟩]
  realizedObjective := some 1
  feasible_plan := fun _ => rfl
  infeasible_plan := fun h => by cases h

/-- What the verifier says of an allocation of a request that compiles. -/
def verdict (request : AllocationRequest) (allocation : Allocation) : Option Bool :=
  (compileRequest request).toOption.map (verifyFeasible allocation)

theorem exists_of_verdict {request : AllocationRequest} {allocation : Allocation} {b : Bool}
    (h : verdict request allocation = some b) :
    ∃ ir, compileRequest request = .ok ir ∧ verifyFeasible allocation ir = b := by
  rw [verdict] at h
  cases hc : compileRequest request with
  | error e =>
    rw [hc] at h
    cases h
  | ok ir =>
    rw [hc] at h
    exact ⟨ir, rfl, Option.some.inj h⟩

theorem unnamedPlan_feasible : Feasible 0 unnamedTask
    [⟨"rover", [pointAt "" 0], List.IsChain.singleton _⟩] (some 1) where
  scheduledOnce := by decide
  onEligible := by
    intro t ht
    obtain rfl := List.mem_singleton.mp ht
    exact ⟨rover, List.mem_singleton.mpr rfl, rfl, List.Subset.refl _⟩
  inWindow := by
    intro t ht
    obtain rfl := List.mem_singleton.mp ht
    refine Or.inr ⟨⟨0, 1, by norm_num⟩, List.mem_cons_self, ?_⟩
    rw [show startOf [⟨"rover", [pointAt "" 0], List.IsChain.singleton _⟩] _ = 0 from rfl]
    norm_num [InWindow, eps]
  inOrder := by
    intro t ht u hu hp
    obtain rfl := List.mem_singleton.mp ht
    cases hp
  oneAtATime := by
    intro t ht u hu htu
    obtain rfl := List.mem_singleton.mp ht
    obtain rfl := List.mem_singleton.mp hu
    exact absurd rfl htu
  honest := by
    have hval : assignmentValue unnamedTask
        [⟨"rover", [pointAt "" 0], List.IsChain.singleton _⟩] = 1 := by decide +kernel
    exact ⟨1, rfl, by norm_num [hval]⟩

/-- The verifier accepts a plan that breaks a precedence by half an epsilon, and rejects a feasible
plan of a task whose id is empty: its selectors are never set. -/
theorem verifyFeasible_not_iff_feasible :
    (∃ ir, compileRequest twoTasks = .ok ir ∧ verifyFeasible hastyPlan ir = true ∧
      ¬∃ plan, hastyPlan.plan = some plan ∧
        Feasible 0 twoTasks plan hastyPlan.realizedObjective) ∧
      ∃ ir, compileRequest unnamedTask = .ok ir ∧ verifyFeasible unnamedPlan ir = false ∧
        ∃ plan, unnamedPlan.plan = some plan ∧
          Feasible 0 unnamedTask plan unnamedPlan.realizedObjective := by
  constructor
  · obtain ⟨ir, hir, hv⟩ := exists_of_verdict (b := true)
      (show verdict twoTasks hastyPlan = some true by decide +kernel)
    refine ⟨ir, hir, hv, ?_⟩
    rintro ⟨plan, hplan, hf⟩
    obtain rfl := Option.some.inj hplan
    have horder := hf.inOrder (pointTask "haul" ["dig"]) (by simp [twoTasks])
      (pointTask "dig" []) (by simp [twoTasks]) (by simp [pointTask])
    revert horder
    decide +kernel
  · obtain ⟨ir, hir, hv⟩ := exists_of_verdict (b := false)
      (show verdict unnamedTask unnamedPlan = some false by decide +kernel)
    exact ⟨ir, hir, hv, _, rfl, unnamedPlan_feasible⟩

end AstroMine.Allocate
