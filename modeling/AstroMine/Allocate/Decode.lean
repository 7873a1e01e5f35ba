import AstroMine.Allocate.Anytime
import AstroMine.Allocate.CpPoint
import AstroMine.Allocate.Planner

/-!
# Decoded solutions

What the CP-SAT driver decodes from a solution of a lowered model (`solvers/cpsat.py:220-249`), on
what the planner hands to it (`api/planner.py:499-528`).

Results:
* `Handed.overPairs`: the objective is over the assignment variables.
* `Point.apart`: two tasks on one asset run one after the other, or take hardly any time.
* `get?_assignmentOf`: the decoded assignment is the cover that the point chooses.
* `exists_buildPlan_iff`: exactly when a plan can be built from it.
-/

namespace AstroMine.Allocate

open Intervals

/-! ## What a backend is handed -/

/-- `_nominal_durations` (`planner.py:745-757`). -/
def nominalPairDurations (request : AllocationRequest) : Dict Pair ℚ :=
  Dict.ofList (request.tasks.flatMap fun t =>
    if 0 < t.durationS then request.assets.map fun a => ((t.taskId, a.assetId), t.durationS) else [])

/-- `task_kinds` (`planner.py:523`). -/
def requestKinds (request : AllocationRequest) : Dict String TaskKind :=
  Dict.ofList (request.tasks.map fun t => (t.taskId, t.kind))

/-- The IR and the durations that `_stream_backend` hands to a backend (`planner.py:514-524`). -/
inductive Handed (request : AllocationRequest) : AllocationIR → Dict Pair ℚ → Prop where
  | bare {ir : AllocationIR} (h : compileRequest request = .ok ir) :
      Handed request ir (nominalPairDurations request)
  | constrained {slopeDeg : Vec3 → Vec3 → ℚ} {context : ConstraintContext}
      {config : ConstraintConfig} {costs : CostTable} {compilation : ConstraintCompilation}
      (h : compileWithConstraints slopeDeg request context config costs = .ok compilation) :
      Handed request compilation.ir compilation.report.durations

section Handed

variable {request : AllocationRequest} {ir : AllocationIR} {durations : Dict Pair ℚ}

theorem Handed.produced (h : Handed request ir durations) : Produced request ir := by
  cases h with
  | bare h => exact .bare h
  | constrained h => exact .constrained h

/-- The only equalities over windows are the ones that pick a window. -/
theorem Produced.linear_or_bound (h : Produced request ir) {c : Constraint}
    (hc : c ∈ ir.constraints) :
    c ∈ linearConstraints request ∨ c.kind ≠ .timeWindow ∨ c.sense ≠ .eq := by
  cases h with
  | bare h =>
    rw [(compileRequest_eq_ok h).2.1, mem_requestConstraints] at hc
    rcases hc with hc | hc
    · exact .inl hc
    · obtain ⟨a, -, -, rfl⟩ := mem_noOverlapConstraints.1 hc
      exact .inr (.inl ConstraintKind.noConfusion)
  | constrained h =>
    obtain ⟨baseIR, hb, -, hconstraints, -⟩ := compileWithConstraints_eq_ok h
    rw [hconstraints, mem_constrainedConstraints hb] at hc
    rcases hc with hc | hc | hc | ⟨p, -, rfl⟩ | hc
    · exact .inl hc
    · obtain ⟨t, -, envelope, hm⟩ := buildComms_constraints hc
      rcases List.mem_pair.mp hm with rfl | rfl <;> exact .inr (.inr ConstraintSense.noConfusion)
    · obtain ⟨a, -, available, -, rfl⟩ := mem_power_constraints.1 hc
      exact .inr (.inl ConstraintKind.noConfusion)
    · exact .inr (.inl ConstraintKind.noConfusion)
    · obtain ⟨a, -, -, rfl⟩ := mem_noOverlapConstraints.1 hc
      exact .inr (.inl ConstraintKind.noConfusion)

theorem eligible_subset_assets {t : Task} {a : String} (ha : a ∈ eligible request t) :
    ∃ asset ∈ request.assets, asset.assetId = a := by
  obtain ⟨asset, hasset, hid, -⟩ := mem_eligibleAssetIds.1 ha
  exact ⟨asset, hasset, hid⟩

theorem getD_nominalPairDurations {t : Task} (ht : t ∈ request.tasks) {a : String}
    (ha : a ∈ eligible request t) :
    (nominalPairDurations request).getD (t.taskId, a) 0 = t.durationS := by
  obtain ⟨asset, hasset, rfl⟩ := eligible_subset_assets ha
  have hkey : ∀ p ∈ request.tasks.flatMap fun t =>
      if 0 < t.durationS then request.assets.map fun a => ((t.taskId, a.assetId), t.durationS)
      else [], p.1 = (t.taskId, asset.assetId) → 0 < t.durationS ∧ p.2 = t.durationS := by
    intro p hp hpk
    obtain ⟨u, hu, hpu⟩ := List.mem_flatMap.mp hp
    split_ifs at hpu with hpos
    · obtain ⟨b, -, rfl⟩ := List.mem_map.mp hpu
      obtain rfl := task_eq_of_taskId hu ht (congrArg Prod.fst hpk)
      exact ⟨hpos, rfl⟩
    · cases hpu
  by_cases hpos : 0 < t.durationS
  · rw [Dict.getD, nominalPairDurations, Dict.get?_ofList_of_forall (v := t.durationS)]
    · rfl
    · refine List.mem_flatMap.mpr ⟨t, ht, ?_⟩
      rw [if_pos hpos]
      exact List.mem_map.mpr ⟨asset, hasset, rfl⟩
    · exact fun p hp hpk => (hkey p hp hpk).2
  · rw [Dict.getD, nominalPairDurations,
      Dict.get?_ofList_eq_none fun p hp hpk => hpos (hkey p hp hpk).1, Option.getD_none]
    exact le_antisymm t.duration_nonneg (not_lt.mp hpos)

theorem Handed.duration_nonneg (h : Handed request ir durations) {t : Task}
    (ht : t ∈ request.tasks) {a : String} (ha : a ∈ eligible request t) :
    0 ≤ durations.getD (t.taskId, a) 0 := by
  cases h with
  | bare h =>
    rw [getD_nominalPairDurations ht ha]
    exact t.duration_nonneg
  | @constrained slopeDeg context config costs _ h =>
    obtain ⟨baseIR, -, -, -, -, -, hreport⟩ := compileWithConstraints_eq_ok h
    rw [hreport]
    exact @terrainOf_durations_nonneg slopeDeg request context config costs baseIR _

theorem get?_requestKinds {t : Task} (ht : t ∈ request.tasks) :
    (requestKinds request).get? t.taskId = some t.kind := by
  refine Dict.get?_ofList_of_forall (List.mem_map.mpr ⟨t, ht, rfl⟩) fun p hp hpk => ?_
  obtain ⟨u, hu, rfl⟩ := List.mem_map.mp hp
  rw [task_eq_of_taskId hu ht hpk]

/-! ## The objective -/

/-- The terms of an objective are over the assignment variables of eligible pairs. -/
def OverPairs (request : AllocationRequest) (terms : List ObjectiveTerm) : Prop :=
  ∀ o ∈ terms, ∃ t ∈ request.tasks, ∃ a ∈ eligible request t, o.varRef = assignmentVarId t.taskId a

theorem overPairs_requestObjective (request : AllocationRequest) :
    OverPairs request (requestObjective request) := by
  intro o ho
  rw [requestObjective, mem_sortOn] at ho
  obtain ⟨t, ht, ho⟩ := List.mem_flatMap.mp ho
  obtain ⟨a, ha, rfl⟩ := List.mem_map.mp ho
  exact ⟨t, mem_sortedTasks.1 ht, a, ha, rfl⟩

theorem refineValueTerm_varRef (baseIR : AllocationIR) (posterior : Vec3 → Posterior)
    (term : ObjectiveTerm) :
    (refineValueTerm request baseIR posterior term).1.varRef = term.varRef := by
  unfold refineValueTerm
  cases termTaskOf request baseIR term.varRef with
  | none => rfl
  | some task =>
    dsimp only
    split <;> rfl

theorem overPairs_refineValueObjective {baseIR : AllocationIR} {context : ConstraintContext}
    (h : OverPairs request baseIR.objectiveTerms) :
    OverPairs request (refineValueObjective request baseIR context).objectiveTerms := by
  unfold refineValueObjective
  cases context.resource with
  | none => exact h
  | some posterior =>
    intro o ho
    dsimp only at ho
    rw [mem_sortOn, List.map_map] at ho
    obtain ⟨term, hterm, rfl⟩ := List.mem_map.mp ho
    rw [Function.comp_apply, refineValueTerm_varRef]
    exact h term hterm

theorem overPairs_refineInfogainObjective {baseIR : AllocationIR} {terms : List ObjectiveTerm}
    {context : ConstraintContext} {weights : Dict String ℚ} (h : OverPairs request terms) :
    OverPairs request
      (refineInfogainObjective request baseIR terms context weights).objectiveTerms := by
  intro o ho
  rw [refineInfogainObjective] at ho
  dsimp only at ho
  rw [mem_sortOn] at ho
  rcases List.mem_append.mp ho with ho | ho
  · obtain ⟨term, hterm, rfl⟩ := List.mem_map.mp ho
    exact h term hterm
  · obtain ⟨info, hinfo, rfl⟩ := List.mem_map.mp ho
    split_ifs at hinfo
    · obtain ⟨term, hterm, hinfo⟩ := List.mem_filterMap.mp hinfo
      obtain ⟨v, -, rfl⟩ := Option.map_eq_some_iff.mp hinfo
      exact h term hterm
    · cases hinfo

theorem overPairs_refineCostObjective {baseIR : AllocationIR} (hS : Skeleton request baseIR)
    {terms : List ObjectiveTerm} {config : ConstraintConfig} {energyCosts : Dict Pair ℚ}
    {weights : Dict String ℚ} {forbidden : List Pair} (h : OverPairs request terms) :
    OverPairs request (refineCostObjective baseIR terms config durations energyCosts weights
      forbidden).1.objectiveTerms := by
  unfold refineCostObjective
  cases config.cost with
  | none => exact h
  | some policy =>
    intro o ho
    dsimp only at ho
    rw [mem_sortOn] at ho
    rcases List.mem_append.mp ho with ho | ho
    · exact h o ho
    · obtain ⟨p, hp, rfl⟩ := List.mem_map.mp ho
      obtain ⟨v, hv, hvp⟩ := List.mem_filterMap.mp hp
      split_ifs at hvp with hsem
      obtain ⟨k, -, hvp⟩ := Option.bind_eq_some_iff.mp hvp
      obtain ⟨a, -, hvp⟩ := Option.bind_eq_some_iff.mp hvp
      split_ifs at hvp
      obtain rfl := Option.some.inj hvp
      rcases hS.variable_cases hv with ⟨t, ht, b, hb, rfl⟩ | ⟨t, -, rfl⟩ | ⟨t, -, -, i, -, rfl⟩
      · exact ⟨t, ht, b, hb, rfl⟩
      · cases hsem
      · cases hsem

/-- Every objective that a backend is handed is over the assignment variables. -/
theorem Handed.overPairs (h : Handed request ir durations) :
    OverPairs request ir.objectiveTerms := by
  cases h with
  | bare h =>
    rw [(compileRequest_eq_ok h).2.2.1]
    exact overPairs_requestObjective request
  | constrained h =>
    obtain ⟨baseIR, hb, -, -, hobjective, -⟩ := compileWithConstraints_eq_ok h
    rw [hobjective]
    refine overPairs_refineCostObjective (skeleton_of_compileRequest hb)
      (overPairs_refineInfogainObjective (overPairs_refineValueObjective ?_))
    rw [(compileRequest_eq_ok hb).2.2.1]
    exact overPairs_requestObjective request

end Handed

/-! ## Built plans -/

section BuiltPlan

variable {request : AllocationRequest} {ir : AllocationIR} {durations : Dict Pair ℚ}
  {plan : List AssetSchedule}

/-- A built plan puts a task where its assignment does. -/
theorem assetOf_buildPlan {starts : Dict String ℚ} {kinds : Dict String TaskKind}
    {assignment : Dict String String}
    (hplan : buildPlan assignment starts kinds durations = .ok plan)
    (taskId : String) : assetOf plan taskId = assignment.get? taskId := by
  rw [assetOf, get?_scheduled_buildPlan hplan, Option.map_map]
  exact Option.map_id'

/-- The objective that a backend reports is the one that the verifier recomputes. -/
theorem objectiveValue_eq_realizedObjective (hS : Skeleton request ir)
    (hterms : OverPairs request ir.objectiveTerms) {assignment : Dict String String}
    (hasset : ∀ taskId, assetOf plan taskId = assignment.get? taskId) :
    objectiveValue (planVariableValues plan ir) ir.objectiveTerms =
      realizedObjective ir assignment := by
  rw [objectiveValue, realizedObjective]
  congr 1
  refine List.map_congr_left fun o ho => ?_
  obtain ⟨t, ht, a, ha, href⟩ := hterms o ho
  have hvar : ir.varById (assignmentVarId t.taskId a) = some (assignmentVariable t.taskId a) :=
    AllocationIR.varById_eq_some.2 ⟨hS.assignment_mem ht ha, rfl⟩
  have hplaced : placed ir assignment (assignmentVarId t.taskId a) = true ↔
      assignment.get? t.taskId = some a := by
    rw [placed, hvar]
    exact decide_eq_true_iff
  rw [href, hS.value_assignment plan ht ha, hasset]
  by_cases hget : assignment.get? t.taskId = some a
  · rw [if_pos hget, if_pos (hplaced.2 hget)]
  · rw [if_neg hget, if_neg (mt hplaced.1 hget)]

end BuiltPlan

/-! ## The tasks of one asset -/

section Apart

variable {request : AllocationRequest} {ir : AllocationIR} {timeScale : ℤ} {value : String → ℤ}

/-- A point puts a task on an asset. -/
def PutOn (request : AllocationRequest) (value : String → ℤ) (t : Task) (a : String) : Prop :=
  a ∈ eligible request t ∧ value (assignmentVarId t.taskId a) = 1

/-- Of two tasks on one asset one has run when the other one starts. -/
def RunsApart (durations : Dict Pair ℚ) (timeScale : ℤ) (value : String → ℤ) (a : String)
    (t u : Task) : Prop :=
  Point.start timeScale value t + durations.getD (t.taskId, a) 0 ≤ Point.start timeScale value u ∨
    Point.start timeScale value u + durations.getD (u.taskId, a) 0 ≤ Point.start timeScale value t

/-- The candidates of an asset: with the no-overlap constraint they run apart, and without it none
of them takes longer than the tolerance. -/
theorem Point.apart_of_candidates (hS : Skeleton request ir) (hp : Point ir timeScale value)
    (hscale : 0 < timeScale) {pairs : Dict String (List String)} {sizes : Dict Pair ℚ}
    {forbidden : List Pair} {a : String}
    (hcs : ∀ c ∈ noOverlapConstraints pairs sizes forbidden, c ∈ ir.constraints)
    (hsizes : ∀ k ∈ candidates pairs forbidden a, 0 ≤ sizes.getD (k, a) 0) {t u : Task}
    (ht : t ∈ request.tasks) (hu : u ∈ request.tasks) (htne : t.taskId ≠ "") (hune : u.taskId ≠ "")
    (hne : t.taskId ≠ u.taskId) (hta : PutOn request value t a) (hua : PutOn request value u a)
    (htc : t.taskId ∈ candidates pairs forbidden a) (huc : u.taskId ∈ candidates pairs forbidden a) :
    (sizes.getD (t.taskId, a) 0 ≤ eps ∧ sizes.getD (u.taskId, a) 0 ≤ eps) ∨
      RunsApart sizes timeScale value a t u := by
  by_cases hshort : ∀ k ∈ candidates pairs forbidden a, sizes.getD (k, a) 0 ≤ eps
  · exact .inl ⟨hshort _ htc, hshort _ huc⟩
  · right
    simp only [not_forall, not_le] at hshort
    obtain ⟨k, hk, hlong⟩ := hshort
    have htwo : 2 ≤ (candidates pairs forbidden a).length := by
      have hpair : [t.taskId, u.taskId].Nodup := by simpa using hne
      refine (List.subperm_of_subset hpair fun m hm => ?_).length_le
      rcases List.mem_pair.mp hm with rfl | rfl
      · exact htc
      · exact huc
    exact hp.noOverlap hS hscale hsizes
      (hcs _ (mem_noOverlapConstraints.2 ⟨a, htwo, ⟨k, hk, hlong⟩, rfl⟩)) ht hu htne hune hta.1 hua.1
      htc huc hne hta.2 hua.2

/-- Two tasks on one asset run apart, or neither takes longer than the tolerance. -/
theorem Point.apart {durations : Dict Pair ℚ} (h : Handed request ir durations)
    (hp : Point ir timeScale value) (hscale : 0 < timeScale) {t u : Task} (ht : t ∈ request.tasks)
    (hu : u ∈ request.tasks) (htne : t.taskId ≠ "") (hune : u.taskId ≠ "") (hne : t.taskId ≠ u.taskId)
    {a : String} (hane : a ≠ "") (hta : PutOn request value t a) (hua : PutOn request value u a) :
    (durations.getD (t.taskId, a) 0 ≤ eps ∧ durations.getD (u.taskId, a) 0 ≤ eps) ∨
      RunsApart durations timeScale value a t u := by
  have hS := h.produced.skeleton
  cases h with
  | bare h =>
    have hnd := eligibleByTask_nodup request
    have hcandidate : ∀ {v : Task}, v ∈ request.tasks → PutOn request value v a →
        v.taskId ∈ candidates (eligibleByTask request) [] a := by
      intro v hv hva
      rw [mem_candidates hnd, getD_eligibleByTask hv]
      exact ⟨hva.1, List.not_mem_nil⟩
    have hsizes : ∀ k ∈ candidates (eligibleByTask request) [] a,
        0 ≤ (nominalSizes request).getD (k, a) 0 := by
      intro k hk
      obtain ⟨v, hv, rfl, hva⟩ := mem_getD_eligibleByTask.1 ((mem_candidates hnd).1 hk).1
      rw [getD_nominalSizes hv hva]
      exact v.duration_nonneg
    have hcs : ∀ c ∈ noOverlapConstraints (eligibleByTask request) (nominalSizes request) [],
        c ∈ ir.constraints := by
      intro c hc
      rw [(compileRequest_eq_ok h).2.1]
      exact mem_requestConstraints.2 (.inr hc)
    have happart := hp.apart_of_candidates hS hscale hcs hsizes ht hu htne hune hne hta hua
      (hcandidate ht hta) (hcandidate hu hua)
    rw [RunsApart, getD_nominalSizes ht hta.1, getD_nominalSizes hu hua.1] at happart
    rwa [RunsApart, getD_nominalPairDurations ht hta.1, getD_nominalPairDurations hu hua.1]
  | @constrained slopeDeg context config costs compilation h =>
    obtain ⟨baseIR, hb, -, hconstraints, -, -, hreport⟩ := compileWithConstraints_eq_ok h
    have hbase := skeleton_of_compileRequest hb
    have hmem : ∀ c, c ∈ compilation.ir.constraints ↔ _ := fun c => by
      rw [hconstraints, mem_constrainedConstraints hb]
    have hcandidate : ∀ {v : Task}, v ∈ request.tasks → v.taskId ≠ "" → PutOn request value v a →
        v.taskId ∈ candidates (assignmentPairs baseIR)
          (forbiddenOf slopeDeg request context config costs baseIR) a := by
      intro v hv hvne hva
      refine (mem_candidates hbase.assignmentPairs_nodup).2
        ⟨hbase.mem_assignmentPairs.2 ⟨v, hv, rfl, hva.1, hvne, hane⟩, fun hforbidden => ?_⟩
      -- a keep-out would have kept the task off the asset
      have hzero := hp.keepout hS hv hva.1
        ((hmem _).2 (.inr (.inr (.inr (.inl ⟨_, hforbidden, rfl⟩)))))
      rw [hva.2] at hzero
      cases hzero
    rw [hreport]
    exact hp.apart_of_candidates hS hscale
      (fun c hc => (hmem c).2 (.inr (.inr (.inr (.inr hc)))))
      (fun k _ => terrainOf_durations_nonneg _) ht hu htne hune hne hta hua (hcandidate ht htne hta)
      (hcandidate hu hune hua)

end Apart

/-! ## The decoded assignment -/

section Assignment

variable {request : AllocationRequest} {ir : AllocationIR} {timeScale : ℤ} {reading : Reading}

/-- The binding that one variable contributes. -/
def chosenOf (reading : Reading) (var : DecisionVariable) : Option Pair :=
  if var.semantic = .assignment then do
    let taskId ← truthy var.taskRef
    let assetId ← truthy var.assetRef
    if reading.value var.id = 1 then some (taskId, assetId) else none
  else none

theorem chosenOf_eq_some {var : DecisionVariable} {p : Pair} :
    chosenOf reading var = some p ↔ pairOf var = some p ∧ reading.value var.id = 1 := by
  unfold chosenOf pairOf
  by_cases hsem : var.semantic = .assignment
  · rw [if_pos hsem, if_pos hsem]
    simp only [Option.bind_eq_bind, Option.bind_eq_some_iff, Option.map_eq_some_iff]
    constructor
    · rintro ⟨k, hk, a, ha, h⟩
      split_ifs at h with hone
      exact ⟨⟨k, hk, a, ha, Option.some.inj h⟩, hone⟩
    · rintro ⟨⟨k, hk, a, ha, h⟩, hone⟩
      exact ⟨k, hk, a, ha, by rw [if_pos hone, h]⟩
  · simp [hsem]

/-- The bindings of the decoded assignment. -/
theorem Skeleton.mem_chosen (hS : Skeleton request ir) {p : Pair} :
    p ∈ ir.decisionVariables.filterMap (chosenOf reading) ↔ ∃ t ∈ request.tasks, t.taskId = p.1 ∧
      p.1 ≠ "" ∧ p.2 ≠ "" ∧ PutOn request reading.value t p.2 := by
  simp only [List.mem_filterMap, chosenOf_eq_some]
  constructor
  · rintro ⟨v, hv, hpair, hone⟩
    obtain ⟨t, ht, htask, ha, htne, hane, rfl⟩ := hS.pairOf_iff.1 ⟨hv, hpair⟩
    exact ⟨t, ht, htask, htne, hane, ha, by rwa [htask]⟩
  · rintro ⟨t, ht, htask, htne, hane, ha, hone⟩
    obtain ⟨hv, hpair⟩ := hS.pairOf_iff.2 ⟨t, ht, htask, ha, htne, hane, rfl⟩
    exact ⟨_, hv, hpair, by rwa [htask] at hone⟩

/-- **The decoded assignment is the cover that the point chooses**, but for empty ids. -/
theorem get?_assignmentOf (hS : Skeleton request ir) (hp : Point ir timeScale reading.value)
    {k a : String} : (CpSatSolver.assignmentOf ir reading).get? k = some a ↔
      ∃ t ∈ request.tasks, t.taskId = k ∧ k ≠ "" ∧ a ≠ "" ∧ PutOn request reading.value t a := by
  have hmem : (k, a) ∈ ir.decisionVariables.filterMap (chosenOf reading) ↔ _ := hS.mem_chosen
  rw [← hmem]
  refine ⟨Dict.get?_ofList_mem, fun hka => Dict.get?_ofList_of_forall hka fun p hpm hpk => ?_⟩
  obtain ⟨t, ht, htk, -, -, hta⟩ := hmem.1 hka
  obtain ⟨u, hu, huk, -, -, hub⟩ := hS.mem_chosen.1 hpm
  obtain rfl := task_eq_of_taskId hu ht (huk.trans (hpk.trans htk.symm))
  obtain ⟨b, -, -, honly⟩ := hp.cover hS ht
  exact (honly _ hub.1 hub.2).trans (honly _ hta.1 hta.2).symm

/-- The driver that `_stream_backend` resolves (`planner.py:524`), on any grid. -/
def handedSolver (request : AllocationRequest) (durations : Dict Pair ℚ) (timeScale : ℤ) :
    CpSatSolver where
  taskKinds := requestKinds request
  durations := durations
  timeScale := timeScale

/-- The decoded start of a named task. -/
theorem getD_startsOf (hS : Skeleton request ir) (durations : Dict Pair ℚ) {t : Task}
    (ht : t ∈ request.tasks) (hne : t.taskId ≠ "") :
    ((handedSolver request durations timeScale).startsOf ir reading).getD t.taskId 0 =
      Point.start timeScale reading.value t := by
  rw [Dict.getD, CpSatSolver.startsOf,
    Dict.get?_ofList_of_forall (v := Point.start timeScale reading.value t)]
  · rfl
  · refine List.mem_filterMap.mpr ⟨startVariable t, hS.start_mem ht, ?_⟩
    rw [if_pos (show (startVariable t).semantic = .startTime from rfl),
      show (startVariable t).taskRef = some t.taskId from rfl, truthy_some hne]
    rfl
  · intro p hp hpk
    obtain ⟨v, hv, hvp⟩ := List.mem_filterMap.mp hp
    split_ifs at hvp with hsem
    obtain ⟨k, hk, rfl⟩ := Option.map_eq_some_iff.mp hvp
    rcases hS.variable_cases hv with ⟨u, -, a, -, rfl⟩ | ⟨u, hu, rfl⟩ | ⟨u, -, -, i, -, rfl⟩
    · cases hsem
    · have huk : u.taskId = k := Option.some.inj (truthy_eq_some.1 hk).1
      obtain rfl := task_eq_of_taskId hu ht (huk.trans hpk)
      rfl
    · cases hsem

end Assignment

/-! ## Building the plan -/

/-- Of two tasks that start on one asset at once, the one that the plan sorts first takes no time. -/
def TiesBrief (request : AllocationRequest) (durations : Dict Pair ℚ) (timeScale : ℤ)
    (value : String → ℤ) : Prop :=
  ∀ t ∈ request.tasks, ∀ u ∈ request.tasks, ∀ a, PutOn request value t a →
    PutOn request value u a → Point.start timeScale value t = Point.start timeScale value u →
      t.taskId < u.taskId → durations.getD (t.taskId, a) 0 ≤ eps

section Plan

variable {request : AllocationRequest} {ir : AllocationIR} {durations : Dict Pair ℚ}
  {timeScale : ℤ} {reading : Reading}

/-- The bindings of the assignment when tasks and chosen assets have names. -/
theorem mem_entries_assignmentOf (hS : Skeleton request ir) (hp : Point ir timeScale reading.value)
    (htasks : ∀ t ∈ request.tasks, t.taskId ≠ "")
    (hassets : ∀ t ∈ request.tasks, ¬PutOn request reading.value t "") {p : String × String} :
    p ∈ (CpSatSolver.assignmentOf ir reading).entries ↔
      ∃ t ∈ request.tasks, t.taskId = p.1 ∧ PutOn request reading.value t p.2 := by
  rw [show p = (p.1, p.2) from rfl, ← Dict.get?_eq_some_iff, get?_assignmentOf hS hp]
  refine exists_congr fun t => and_congr_right fun ht => and_congr_right fun htk => ?_
  rw [and_iff_right (htk ▸ htasks t ht), and_iff_right_iff_imp]
  rintro hput hempty
  rw [hempty] at hput
  exact hassets t ht hput

/-- **Spec.** A plan can be built when the tasks that start at once are in order. -/
theorem exists_buildPlan_iff (h : Handed request ir durations) (hp : Point ir timeScale reading.value)
    (hscale : 0 < timeScale) (htasks : ∀ t ∈ request.tasks, t.taskId ≠ "")
    (hassets : ∀ t ∈ request.tasks, ¬PutOn request reading.value t "") :
    (∃ plan, buildPlan (CpSatSolver.assignmentOf ir reading)
      ((handedSolver request durations timeScale).startsOf ir reading) (requestKinds request)
        durations = .ok plan) ↔ TiesBrief request durations timeScale reading.value := by
  have hS := h.produced.skeleton
  have hmem := fun p => mem_entries_assignmentOf (p := p) hS hp htasks hassets
  have hstart : ∀ t ∈ request.tasks,
      ((handedSolver request durations timeScale).startsOf ir reading).getD t.taskId 0 =
        Point.start timeScale reading.value t :=
    fun t ht => getD_startsOf hS durations ht (htasks t ht)
  rw [buildPlan_iff]
  · constructor
    · intro hends t ht u hu a hta hua hsame hlt
      have hle := hends (t.taskId, a) ((hmem _).2 ⟨t, ht, rfl, hta⟩) (u.taskId, a)
        ((hmem _).2 ⟨u, hu, rfl, hua⟩) rfl
      rw [hstart t ht, hstart u hu, hsame] at hle
      have hend := hle (Prod.Lex.toLex_lt_toLex.2 (.inr ⟨rfl, hlt⟩))
      linarith
    · intro hties p hpm q hqm hasset hlt
      obtain ⟨t, ht, htk, hta⟩ := (hmem p).1 hpm
      obtain ⟨u, hu, huk, hua⟩ := (hmem q).1 hqm
      rw [← hasset] at hua
      rw [← htk, ← huk, hstart t ht, hstart u hu] at hlt
      rw [show p = (t.taskId, p.2) from Prod.ext htk.symm rfl, ← huk, hstart t ht, hstart u hu]
      have hne : t.taskId ≠ u.taskId := by
        intro heq
        obtain rfl := task_eq_of_taskId ht hu heq
        exact lt_irrefl _ hlt
      have hane : p.2 ≠ "" := fun hempty => hassets t ht (hempty ▸ hta)
      have hnonneg := h.duration_nonneg hu hua.1
      have hbefore : Point.start timeScale reading.value t < Point.start timeScale reading.value u ∨
          Point.start timeScale reading.value t = Point.start timeScale reading.value u ∧
            t.taskId < u.taskId := Prod.Lex.toLex_lt_toLex.1 hlt
      rcases hp.apart h hscale ht hu (htasks t ht) (htasks u hu) hne hane hta hua with
        ⟨hshort, -⟩ | happart | happart
      · rcases hbefore with hbefore | ⟨hsame, -⟩ <;> linarith
      · linarith [eps_nonneg]
      · rcases hbefore with hbefore | ⟨hsame, hid⟩
        · linarith
        · linarith [hties t ht u hu p.2 hta hua hsame hid]
  · intro p hpm
    obtain ⟨t, ht, htk, -⟩ := (hmem p).1 hpm
    rw [← htk, get?_requestKinds ht]
    rfl
  · intro p hpm
    obtain ⟨t, ht, htk, hta⟩ := (hmem p).1 hpm
    rw [show p = (t.taskId, p.2) from Prod.ext htk.symm rfl]
    exact h.duration_nonneg ht hta.1

end Plan

end AstroMine.Allocate
