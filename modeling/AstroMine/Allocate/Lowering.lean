import AstroMine.Allocate.Decode
import AstroMine.Allocate.OnGrid

/-!
# How exact the lowering is

The solutions of a lowered model, decoded and checked by `verify_feasible` against the rational IR. The
lowering rounds the coefficients of the windows and of the budgets to the nearest integer, so it can
lose as much as it gains (`model/compile/cpsat.py:148-206`).

Results:
* `Follows.windows_iff`, `Follows.budget_iff`: the two families with rounded coefficients.
* `Follows.constraints_iff`: the constraints of the IR against a plan that follows a point.
* `extractIncumbent_verifies_iff`: exactly when the plan of a solution is decoded and verified.
-/

namespace AstroMine.Allocate

open Intervals Rounding
open Skeleton (InWindow)

/-! ## What a solution keeps -/

/-- The start stands on a bound of the window that rounding has moved outwards by more than the
tolerance of the verifier. -/
def OnLooseBound (timeScale : ℤ) (start : ℤ) (w : TimeWindow) : Prop :=
  (start = roundHalfEven (w.startS * (timeScale : ℚ)) ∧ (start : ℚ) / timeScale < w.startS - eps) ∨
    (start = roundHalfEven (w.endS * (timeScale : ℚ)) ∧ w.endS + eps < (start : ℚ) / timeScale)

/-- What rounding takes off the terms that a point selects. -/
def roundingLoss (value : String → ℤ) (c : Constraint) : ℚ :=
  (c.terms.map fun term =>
    (term.coefficient - roundHalfEven term.coefficient) * (value term.varRef : ℚ)).sum

/-- What the rounded terms that a point selects leave of a budget. -/
def slackLeft (value : String → ℤ) (c : Constraint) : ℚ :=
  c.rhs - (c.terms.map fun term =>
    (roundHalfEven term.coefficient : ℚ) * (value term.varRef : ℚ)).sum

/-- What a solution of the lowered model has to keep by itself: tasks and chosen assets have names; a
start on a bound that was rounded outwards lies in another window; what rounding takes off a budget
fits into the slack that is left; of two tasks that start on one asset at once, the one that the plan
sorts first takes no time. -/
structure Kept (request : AllocationRequest) (ir : AllocationIR) (durations : Dict Pair ℚ)
    (timeScale : ℤ) (value : String → ℤ) : Prop where
  tasksNamed : ∀ t ∈ request.tasks, t.taskId ≠ ""
  assetsNamed : ∀ t ∈ request.tasks, ¬PutOn request value t ""
  windows : ∀ t ∈ request.tasks, 2 ≤ t.timeWindows.length → ∀ i w, (taskWindows t)[i]? = some w →
    value (windowSelectVarId t.taskId i) = 1 →
      OnLooseBound timeScale (value (startVarId t.taskId)) w →
        ∃ w' ∈ t.timeWindows, InWindow w' (Point.start timeScale value t)
  budgets : ∀ c ∈ ir.constraints, c.kind = .linear → c.sense = .le →
    roundingLoss value c ≤ slackLeft value c + eps
  ties : TiesBrief request durations timeScale value

/-! ## Windows -/

section Windows

variable {request : AllocationRequest} {ir : AllocationIR} {timeScale : ℤ} {value : String → ℤ}

/-- A start between the rounded bounds of a window is in the window or on a loose bound. -/
theorem inWindow_or_onLooseBound (hscale : 0 < timeScale) {start : ℤ} {w : TimeWindow}
    (hlo : roundHalfEven (w.startS * (timeScale : ℚ)) ≤ start)
    (hhi : start ≤ roundHalfEven (w.endS * (timeScale : ℚ))) :
    InWindow w ((start : ℚ) / timeScale) ∨ OnLooseBound timeScale start w := by
  have hpos : (0 : ℚ) < timeScale := by exact_mod_cast hscale
  by_cases hearly : (start : ℚ) / timeScale < w.startS - eps
  · have hbefore : (start : ℚ) ≤ w.startS * timeScale := by
      rw [← div_le_iff₀ hpos]
      linarith [eps_nonneg]
    exact .inr (.inl ⟨le_antisymm (le_roundHalfEven hbefore) hlo, hearly⟩)
  · by_cases hlate : w.endS + eps < (start : ℚ) / timeScale
    · have hafter : w.endS * timeScale ≤ (start : ℚ) := by
        rw [← le_div_iff₀ hpos]
        linarith [eps_nonneg]
      exact .inr (.inr ⟨le_antisymm hhi (roundHalfEven_le hafter), hlate⟩)
    · exact .inl ⟨not_lt.1 hearly, not_lt.1 hlate⟩

/-- The start of a task with one window lies in it. -/
theorem Point.inWindow_single (hS : Skeleton request ir) (hp : Point ir timeScale value)
    (hscale : 0 < timeScale) {t : Task} (ht : t ∈ request.tasks) {w : TimeWindow}
    (hw : taskWindows t = [w]) : InWindow w (Point.start timeScale value t) := by
  obtain ⟨hlomem, hhimem⟩ := hS.singleWindow_mem ht hw
  have hlo := hp.lowerBound hS hscale ht hlomem
  have hhi := hp.upperBound hS hscale ht hhimem
  exact ⟨by linarith [eps_nonneg], by linarith [eps_nonneg]⟩

/-- **Spec.** The start lies in a window of its task unless rounding has let it out of all of them. -/
theorem Point.windows_iff (hS : Skeleton request ir) (hp : Point ir timeScale value)
    (hscale : 0 < timeScale) {t : Task} (ht : t ∈ request.tasks) :
    (t.timeWindows = [] ∨ ∃ w ∈ t.timeWindows, InWindow w (Point.start timeScale value t)) ↔
      (2 ≤ t.timeWindows.length → ∀ i w, (taskWindows t)[i]? = some w →
        value (windowSelectVarId t.taskId i) = 1 →
          OnLooseBound timeScale (value (startVarId t.taskId)) w →
            ∃ w' ∈ t.timeWindows, InWindow w' (Point.start timeScale value t)) := by
  have hlen := length_taskWindows t
  constructor
  · intro h hpl i w _ _ _
    refine h.resolve_left fun hnil => ?_
    rw [hnil] at hpl
    cases hpl
  · intro h
    rcases hws : taskWindows t with _ | ⟨w, _ | ⟨w', ws⟩⟩
    · exact .inl (Skeleton.taskWindows_eq_nil.1 hws)
    · refine .inr ⟨w, Skeleton.mem_taskWindows.1 ?_, hp.inWindow_single hS hscale ht hws⟩
      rw [hws]
      exact List.mem_singleton_self w
    · have hpl : 2 ≤ (taskWindows t).length := by simp [hws]
      obtain ⟨k, hk, hpick⟩ := hp.pick hS ht hpl
      have hget := List.getElem?_eq_getElem hk
      obtain ⟨hlo, hhi⟩ := hp.window hS ht hpl hget hpick
      right
      rcases inWindow_or_onLooseBound hscale hlo hhi with hin | hloose
      · exact ⟨_, Skeleton.mem_taskWindows.1 (List.getElem_mem hk), hin⟩
      · exact h (by omega) k _ hget (by rw [hpick k hk, if_pos rfl]) hloose

end Windows

/-! ## Plans that follow a point -/

/-- The plan puts the tasks where and when the point does. -/
structure Follows (request : AllocationRequest) (timeScale : ℤ) (value : String → ℤ)
    (plan : List AssetSchedule) : Prop where
  asset : ∀ t ∈ request.tasks, ∀ a, assetOf plan t.taskId = some a ↔ PutOn request value t a
  start : ∀ t ∈ request.tasks, startOf plan t.taskId = Point.start timeScale value t

section Follows

variable {request : AllocationRequest} {ir : AllocationIR} {durations : Dict Pair ℚ}
  {timeScale : ℤ} {value : String → ℤ} {plan : List AssetSchedule}

/-- The verifier gives the assignment variables the values of the point. -/
theorem Follows.value_assignment (hf : Follows request timeScale value plan)
    (hS : Skeleton request ir) (hp : Point ir timeScale value) {t : Task} (ht : t ∈ request.tasks)
    {a : String} (ha : a ∈ eligible request t) :
    (planVariableValues plan ir).getD (assignmentVarId t.taskId a) 0 =
      value (assignmentVarId t.taskId a) := by
  rw [hS.value_assignment plan ht ha]
  rcases hp.binary (hS.assignment_mem ht ha) rfl with hzero | hone
  · have hnot : assetOf plan t.taskId ≠ some a := by
      rw [ne_eq, hf.asset t ht]
      intro hput
      exact absurd (hput.2.symm.trans hzero) (by decide)
    rw [if_neg hnot, show value (assignmentVarId t.taskId a) = 0 from hzero, Int.cast_zero]
  · rw [if_pos ((hf.asset t ht a).2 ⟨ha, hone⟩),
      show value (assignmentVarId t.taskId a) = 1 from hone, Int.cast_one]

/-- The exact sum of a budget exceeds the rounded one by what rounding took off. -/
theorem roundingLoss_le_iff (value : String → ℤ) (c : Constraint) :
    roundingLoss value c ≤ slackLeft value c + eps ↔
      (c.terms.map fun term => term.coefficient * (value term.varRef : ℚ)).sum ≤ c.rhs + eps := by
  have hsum : roundingLoss value c + (c.terms.map fun term =>
      (roundHalfEven term.coefficient : ℚ) * (value term.varRef : ℚ)).sum =
        (c.terms.map fun term => term.coefficient * (value term.varRef : ℚ)).sum := by
    rw [roundingLoss, ← List.sum_map_add]
    congr 1
    refine List.map_congr_left fun term _ => ?_
    ring
  rw [← hsum, slackLeft]
  constructor <;> intro h <;> linarith

/-- **Spec.** A budget holds for the plan when what rounding took off fits into its slack. -/
theorem Follows.budget_iff (hf : Follows request timeScale value plan) (hS : Skeleton request ir)
    (hp : Point ir timeScale value) (id : String) {asset : String} (energy : String → ℚ)
    {taskIds : List String}
    (h : ∀ k ∈ taskIds, ∃ t ∈ request.tasks, t.taskId = k ∧ asset ∈ eligible request t)
    (available : ℚ) :
    satisfiesConstraint ir (planVariableValues plan ir)
        ⟨id, .linear, taskIds.map fun k => ⟨assignmentVarId k asset, energy k⟩, .le, available⟩ =
          true ↔
      roundingLoss value
          ⟨id, .linear, taskIds.map fun k => ⟨assignmentVarId k asset, energy k⟩, .le, available⟩ ≤
        slackLeft value
          ⟨id, .linear, taskIds.map fun k => ⟨assignmentVarId k asset, energy k⟩, .le,
            available⟩ + eps := by
  rw [satisfiesConstraint_linear rfl, roundingLoss_le_iff]
  have hvalues : weightedSum (planVariableValues plan ir)
      (taskIds.map fun k => ⟨assignmentVarId k asset, energy k⟩) =
        ((taskIds.map fun k => (⟨assignmentVarId k asset, energy k⟩ : ConstraintTerm)).map
          fun term => term.coefficient * (value term.varRef : ℚ)).sum := by
    rw [weightedSum, List.map_map, List.map_map]
    congr 1
    refine List.map_congr_left fun k hk => ?_
    obtain ⟨t, ht, rfl, ha⟩ := h k hk
    rw [Function.comp_apply, Function.comp_apply, hf.value_assignment hS hp ht ha]
  rw [← hvalues]
  exact Iff.rfl

/-- The linear constraints of the skeleton hold for the plan when its starts lie in the windows. -/
theorem Follows.linearConstraints (hf : Follows request timeScale value plan)
    (hS : Skeleton request ir) (hp : Point ir timeScale value) (hscale : 0 < timeScale)
    (hnamed : ∀ t ∈ request.tasks, t.taskId ≠ "")
    (hwindows : ∀ t ∈ request.tasks, t.timeWindows = [] ∨
      ∃ w ∈ t.timeWindows, InWindow w (Point.start timeScale value t)) :
    ∀ c ∈ linearConstraints request,
      satisfiesConstraint ir (planVariableValues plan ir) c = true := by
  refine ((linearConstraints_iff hS).2 ⟨fun t ht => ?_, fun t ht => ⟨?_, fun hempty => ?_⟩,
    fun t ht u hu hpred => ?_⟩).2
  · obtain ⟨a, ha, hone, -⟩ := hp.cover hS ht
    exact ⟨a, ha, (hf.asset t ht a).2 ⟨ha, hone⟩⟩
  · rw [hf.start t ht]
    exact hwindows t ht
  · exact absurd hempty (hnamed t ht)
  · rw [hf.start t ht, hf.start u hu]
    exact (hp.precedence hS hscale ht hu hpred).trans (le_add_of_nonneg_right eps_nonneg)

/-- A no-overlap constraint holds for the plan. -/
theorem Follows.noOverlap (hf : Follows request timeScale value plan) (hS : Skeleton request ir)
    (hp : Point ir timeScale value) (hscale : 0 < timeScale)
    (hnamed : ∀ t ∈ request.tasks, t.taskId ≠ "") {asset : String} {sizes : Dict Pair ℚ}
    {taskIds : List String} (hnd : taskIds.Nodup)
    (hsizes : ∀ k ∈ taskIds, 0 ≤ sizes.getD (k, asset) 0)
    (h : ∀ k ∈ taskIds, ∃ t ∈ request.tasks, t.taskId = k ∧ asset ∈ eligible request t)
    (hc : ⟨noOverlapConstraintId asset, .noOverlap, noOverlapTerms sizes asset taskIds, .le, 0⟩ ∈
      ir.constraints) :
    satisfiesConstraint ir (planVariableValues plan ir)
      ⟨noOverlapConstraintId asset, .noOverlap, noOverlapTerms sizes asset taskIds, .le, 0⟩ =
        true := by
  rw [hS.noOverlap_iff plan hnd h]
  intro k hk l hl hkl hkp hlp
  obtain ⟨t, ht, rfl, hta⟩ := h k hk
  obtain ⟨u, hu, rfl, hua⟩ := h l hl
  have htput := (hf.asset t ht asset).1 ((hS.isPresent_start plan ht (hnamed t ht) hta).1 hkp)
  have huput := (hf.asset u hu asset).1 ((hS.isPresent_start plan hu (hnamed u hu) hua).1 hlp)
  have hinterval : ∀ v ∈ request.tasks, Skeleton.interval plan sizes asset v.taskId =
      (Point.start timeScale value v,
        Point.start timeScale value v + sizes.getD (v.taskId, asset) 0) := by
    intro v hv
    rw [Skeleton.interval, hf.start v hv]
  rw [hinterval t ht, hinterval u hu]
  exact apart_of_either eps_nonneg (le_add_of_nonneg_right (hsizes _ hk))
    (le_add_of_nonneg_right (hsizes _ hl))
    (hp.noOverlap hS hscale hsizes hc ht hu (hnamed t ht) (hnamed u hu) hta hua hk hl hkl htput.2
      huput.2)

/-- **Spec.** The constraints of the IR hold for the plan when the windows and the budgets do. -/
theorem Follows.constraints_iff (hf : Follows request timeScale value plan)
    (h : Produced request ir) (hp : Point ir timeScale value) (hscale : 0 < timeScale)
    (hnamed : ∀ t ∈ request.tasks, t.taskId ≠ "") :
    (∀ c ∈ ir.constraints, satisfiesConstraint ir (planVariableValues plan ir) c = true) ↔
      (∀ t ∈ request.tasks, t.timeWindows = [] ∨
        ∃ w ∈ t.timeWindows, InWindow w (Point.start timeScale value t)) ∧
      ∀ c ∈ ir.constraints, c.kind = .linear → c.sense = .le →
        roundingLoss value c ≤ slackLeft value c + eps := by
  have hS := h.skeleton
  have hsome : ∀ t ∈ request.tasks, ((scheduled plan).get? t.taskId).isSome := by
    intro t ht
    obtain ⟨a, ha, hone, -⟩ := hp.cover hS ht
    exact isSome_of_assetOf ((hf.asset t ht a).2 ⟨ha, hone⟩)
  constructor
  · intro hall
    refine ⟨fun t ht => ?_, fun c hc hkind hsense => ?_⟩
    · have hwindows := ((linearConstraints_iff hS).1
        ⟨hsome, fun c hc => hall c (hS.linear_mem c hc)⟩).2.1 t ht
      rw [hf.start t ht] at hwindows
      exact hwindows.1
    · have hholds := hall c hc
      cases h.emitted c hc with
      | linear hm =>
        rcases linearConstraint_kind hm with h' | h' | h' <;> cases hkind.symm.trans h'
      | startBound => cases hkind
      | budget id asset energy hks available =>
        exact (hf.budget_iff hS hp id energy hks available).1 hholds
      | keepout => cases hsense
      | noOverlap => cases hkind
  · rintro ⟨hwindows, hbudgets⟩ c hc
    have hlinear := hf.linearConstraints hS hp hscale hnamed hwindows
    cases h.emitted c hc with
    | linear hm => exact hlinear c hm
    | startBound id ht sense bound =>
      rcases h.linear_or_bound hc with hm | hkind | hsense
      · exact hlinear _ hm
      · exact absurd rfl hkind
      · rw [hS.startBound_iff plan ht, hf.start _ ht]
        cases sense with
        | le => exact (hp.upperBound hS hscale ht hc).trans (le_add_of_nonneg_right eps_nonneg)
        | ge => exact (sub_le_self _ eps_nonneg).trans (hp.lowerBound hS hscale ht hc)
        | eq => exact absurd rfl hsense
    | budget id asset energy hks available =>
      exact (hf.budget_iff hS hp id energy hks available).2 (hbudgets _ hc rfl rfl)
    | keepout ht ha =>
      rw [hS.keepout_iff plan ht ha, ne_eq, hf.asset _ ht]
      intro hput
      exact absurd (hput.2.symm.trans (hp.keepout hS ht ha hc)) (by decide)
    | noOverlap hnd hsizes hks => exact hf.noOverlap hS hp hscale hnamed hnd hsizes hks hc

end Follows

/-! ## Decoded plans -/

section Decoded

variable {request : AllocationRequest} {ir : AllocationIR} {durations : Dict Pair ℚ}
  {timeScale objectiveScale : ℤ} {reading : Reading} {plan : List AssetSchedule}

theorem extractIncumbent_eq_ok {solver : CpSatSolver} {compiled : CpSatModel}
    {status : AllocationStatus} {i : Incumbent} :
    solver.extractIncumbent ir compiled status reading = .ok i ↔ ∃ plan,
      buildPlan (CpSatSolver.assignmentOf ir reading) (solver.startsOf ir reading) solver.taskKinds
        solver.durations = .ok plan ∧
      i = { objective := realizedObjective ir (CpSatSolver.assignmentOf ir reading)
            bound := if compiled.hasObjective then
              some (reading.bestObjectiveBound / compiled.objectiveScale) else none
            gap := (if compiled.hasObjective then
              some (reading.bestObjectiveBound / compiled.objectiveScale) else none).map fun b =>
                relativeGap b (realizedObjective ir (CpSatSolver.assignmentOf ir reading))
            plan := plan
            status := status } := by
  rw [CpSatSolver.extractIncumbent, bind_eq_ok]
  refine exists_congr fun plan => and_congr_right fun _ => ?_
  exact ⟨fun h => (Except.ok.inj h).symm, fun h => congrArg Except.ok h.symm⟩

/-- A plan decoded from a point follows it. -/
theorem follows_of_buildPlan (hS : Skeleton request ir) (hp : Point ir timeScale reading.value)
    (htasks : ∀ t ∈ request.tasks, t.taskId ≠ "")
    (hassets : ∀ t ∈ request.tasks, ¬PutOn request reading.value t "")
    (hplan : buildPlan (CpSatSolver.assignmentOf ir reading)
      ((handedSolver request durations timeScale).startsOf ir reading) (requestKinds request)
        durations = .ok plan) : Follows request timeScale reading.value plan := by
  have hasset : ∀ t ∈ request.tasks, ∀ a,
      assetOf plan t.taskId = some a ↔ PutOn request reading.value t a := by
    intro t ht a
    rw [assetOf_buildPlan hplan, Dict.get?_eq_some_iff,
      mem_entries_assignmentOf hS hp htasks hassets]
    constructor
    · rintro ⟨u, hu, huk, hput⟩
      obtain rfl := task_eq_of_taskId hu ht huk
      exact hput
    · exact fun hput => ⟨t, ht, rfl, hput⟩
  refine ⟨hasset, fun t ht => ?_⟩
  obtain ⟨a, ha, hone, -⟩ := hp.cover hS ht
  have hget := (hasset t ht a).2 ⟨ha, hone⟩
  rw [assetOf_buildPlan hplan] at hget
  rw [startOf, get?_scheduled_buildPlan hplan, hget]
  exact getD_startsOf hS durations ht (htasks t ht)

/-- **Main theorem.** Whatever a request compiles to, with or without constraint passes: a solution of
    the lowered model, on any grid, is decoded to a plan that the verifier accepts if and only if the
    solution is `Kept`. -/
theorem extractIncumbent_verifies_iff (h : Handed request ir durations) (hscale : 0 < timeScale)
    {m : CpSatModel} (hm : lowerToCpsat ir timeScale objectiveScale = .ok m)
    (status : AllocationStatus) (hsolution : m.Solution reading.value) :
    (∃ i, (handedSolver request durations timeScale).extractIncumbent ir m status reading = .ok i ∧
      verifyFeasible (feasibleAllocation i.plan i.objective) ir = true) ↔
        Kept request ir durations timeScale reading.value := by
  have hS := h.produced.skeleton
  have hp := (solution_iff_point hm).1 hsolution
  constructor
  · rintro ⟨i, hi, hverified⟩
    obtain ⟨plan, hplan, rfl⟩ := extractIncumbent_eq_ok.1 hi
    obtain ⟨plan', hplan', -, hcovers, hall, -⟩ := verifyFeasible_iff.1 hverified
    obtain rfl := Option.some.inj hplan'
    have hscheduled : ∀ t ∈ request.tasks, t.taskId ≠ "" ∧ ∃ a, a ≠ "" ∧
        PutOn request reading.value t a := by
      intro t ht
      obtain ⟨v, hv⟩ := Option.isSome_iff_exists.1 ((coversStarts_iff hS).1 hcovers t ht)
      rw [get?_scheduled_buildPlan hplan] at hv
      obtain ⟨a, ha, -⟩ := Option.map_eq_some_iff.1 hv
      obtain ⟨u, hu, huk, hne, hane, hput⟩ := (get?_assignmentOf hS hp).1 ha
      obtain rfl := task_eq_of_taskId hu ht huk
      exact ⟨hne, a, hane, hput⟩
    have htasks := fun t ht => (hscheduled t ht).1
    have hassets : ∀ t ∈ request.tasks, ¬PutOn request reading.value t "" := by
      intro t ht hempty
      obtain ⟨-, a, hane, hput⟩ := hscheduled t ht
      obtain ⟨b, -, -, honly⟩ := hp.cover hS ht
      exact hane ((honly a hput.1 hput.2).trans (honly "" hempty.1 hempty.2).symm)
    have hf := follows_of_buildPlan hS hp htasks hassets hplan
    obtain ⟨hwindows, hbudgets⟩ := (hf.constraints_iff h.produced hp hscale htasks).1 hall
    exact ⟨htasks, hassets, fun t ht => (hp.windows_iff hS hscale ht).1 (hwindows t ht), hbudgets,
      (exists_buildPlan_iff h hp hscale htasks hassets).1 ⟨_, hplan⟩⟩
  · rintro ⟨htasks, hassets, hwindows, hbudgets, hties⟩
    obtain ⟨plan, hplan⟩ := (exists_buildPlan_iff h hp hscale htasks hassets).2 hties
    have hf := follows_of_buildPlan hS hp htasks hassets hplan
    refine ⟨_, extractIncumbent_eq_ok.2 ⟨plan, hplan, rfl⟩, verifyFeasible_iff.2
      ⟨plan, rfl, nodup_placements_buildPlan hplan, (coversStarts_iff hS).2 fun t ht => ?_,
        (hf.constraints_iff h.produced hp hscale htasks).2
          ⟨fun t ht => (hp.windows_iff hS hscale ht).2 (hwindows t ht), hbudgets⟩, ?_⟩⟩
    · obtain ⟨a, ha, hone, -⟩ := hp.cover hS ht
      exact isSome_of_assetOf ((hf.asset t ht a).2 ⟨ha, hone⟩)
    · rw [objectiveValue_eq_realizedObjective hS h.overPairs (assetOf_buildPlan hplan)]
      refine honestObjective_iff.2 ⟨_, rfl, ?_⟩
      rw [sub_self, abs_zero]
      exact mul_nonneg eps_nonneg (zero_le_one.trans (le_max_left _ _))

end Decoded

/-! ## Two requests of one task -/

/-- The check of a constraint that is about no interval. -/
def holdsPlain (value : String → ℤ) : CpConstraint → Bool
  | .exactlyOne literals => decide ((literals.filter fun literal => value literal = 1).length = 1)
  | .linear terms .le rhs => decide (linearValue value terms ≤ rhs)
  | .linear terms .ge rhs => decide (rhs ≤ linearValue value terms)
  | .linear terms .eq rhs => decide (linearValue value terms = rhs)
  | .noOverlap _ => false
  | .cumulative _ _ => false

theorem holds_of_holdsPlain {value : String → ℤ} {c : CpConstraint}
    (h : holdsPlain value c = true) : c.Holds value := by
  cases c with
  | exactlyOne literals =>
    have hone : (literals.filter fun literal => value literal = 1).length = 1 :=
      of_decide_eq_true h
    exact hone
  | linear terms sense rhs =>
    cases sense with
    | le =>
      have hle : linearValue value terms ≤ rhs := of_decide_eq_true h
      exact hle
    | ge =>
      have hge : rhs ≤ linearValue value terms := of_decide_eq_true h
      exact hge
    | eq =>
      have heq : linearValue value terms = rhs := of_decide_eq_true h
      exact heq
  | noOverlap intervals => cases h
  | cumulative intervals capacity => cases h

/-- A point against a model without intervals. -/
def solvesPlain (value : String → ℤ) (m : CpSatModel) : Bool :=
  decide (∀ d ∈ m.domains, d.2.1 ≤ value d.1 ∧ value d.1 ≤ d.2.2) &&
    m.constraints.all (holdsPlain value)

theorem solution_of_solvesPlain {value : String → ℤ} {m : CpSatModel}
    (h : solvesPlain value m = true) : m.Solution value := by
  rw [solvesPlain, Bool.and_eq_true, decide_eq_true_eq, List.all_eq_true] at h
  exact ⟨h.1, fun c hc => holds_of_holdsPlain (h.2 c hc)⟩

/-- The point that puts `dig` on the rover at second one, in its first window. -/
def digAtOne : Reading where
  value := fun id => if id = "assign::dig::rover" ∨ id = "start::dig" ∨ id = "window::dig::000" then 1
    else 0
  bestObjectiveBound := 0

theorem wholeSecond_verifies :
    ∃ ir m i, compileRequest wholeSecond = .ok ir ∧
      lowerToCpsat ir defaultTimeScale defaultObjectiveScale = .ok m ∧ m.Solution digAtOne.value ∧
      (handedSolver wholeSecond (nominalPairDurations wholeSecond)
        defaultTimeScale).extractIncumbent ir m .optimal digAtOne = .ok i ∧
      verifyFeasible (feasibleAllocation i.plan i.objective) ir = true := by
  have hlowered : (lowerRequest wholeSecond).any (fun (ir, m) => solvesPlain digAtOne.value m &&
      decide (∀ c ∈ ir.constraints, c.kind ≠ .linear)) = true := by
    decide +kernel
  obtain ⟨ir, m, hir, hm, h⟩ := exists_of_lowerRequest hlowered
  rw [Bool.and_eq_true, decide_eq_true_eq] at h
  have hsolution := solution_of_solvesPlain h.1
  have hkept : Kept wholeSecond ir (nominalPairDurations wholeSecond) defaultTimeScale
      digAtOne.value := by
    refine ⟨by decide, fun t ht hput => ?_, fun t ht hpl => ?_, fun c hc hkind => ?_,
      fun t ht u hu a _ _ _ hlt => ?_⟩
    · obtain rfl := List.mem_singleton.mp ht
      exact absurd hput.1 (by decide)
    · obtain rfl := List.mem_singleton.mp ht
      exact absurd hpl (by decide)
    · exact absurd hkind (h.2 c hc)
    · obtain rfl := List.mem_singleton.mp ht
      obtain rfl := List.mem_singleton.mp hu
      exact absurd hlt (lt_irrefl _)
  obtain ⟨i, hi, hverified⟩ := (extractIncumbent_verifies_iff (.bare hir)
    (by decide : 0 < defaultTimeScale) hm .optimal hsolution).2 hkept
  exact ⟨ir, m, i, hir, hm, hsolution, hi, hverified⟩

/-- One task with a window of a fifth of a second around a half and one from second five on. -/
def gappedWindows : AllocationRequest where
  tasks := [{ pointTask "dig" [] with
    timeWindows := [⟨2 / 5, 3 / 5, by norm_num⟩, ⟨5, 6, by norm_num⟩]
    duration_nonneg := pointTask_nonneg "dig" }]
  assets := [rover]
  objective := ⟨.maximize, Dict.empty⟩
  tasks_ne_nil := by decide
  assets_ne_nil := rover_ne_nil
  taskIds_nodup := by decide
  assetIds_nodup := rover_nodup
  precedence_irrefl := by decide
  precedence_known := by decide
  precedence_acyclic := by decide +kernel

/-- **Counterexample.** The end of the first window is rounded up to second one, which is a solution,
    though it lies between the windows: the decoded plan is rejected. -/
theorem gappedWindows_rejected :
    ∃ ir m i, compileRequest gappedWindows = .ok ir ∧
      lowerToCpsat ir defaultTimeScale defaultObjectiveScale = .ok m ∧ m.Solution digAtOne.value ∧
      (handedSolver gappedWindows (nominalPairDurations gappedWindows)
        defaultTimeScale).extractIncumbent ir m .optimal digAtOne = .ok i ∧
      placements i.plan = [("dig", "rover", 1)] ∧
      verifyFeasible (feasibleAllocation i.plan i.objective) ir = false := by
  have hlowered : (lowerRequest gappedWindows).any (fun (ir, m) => solvesPlain digAtOne.value m &&
      ((handedSolver gappedWindows (nominalPairDurations gappedWindows)
        defaultTimeScale).extractIncumbent ir m .optimal digAtOne).toOption.any fun i =>
          decide (placements i.plan = [("dig", "rover", 1)]) &&
            !verifyFeasible (feasibleAllocation i.plan i.objective) ir) = true := by
    decide +kernel
  obtain ⟨ir, m, hir, hm, h⟩ := exists_of_lowerRequest hlowered
  rw [Bool.and_eq_true] at h
  obtain ⟨i, hi, hrejected⟩ := exists_ok_of_any h.2
  rw [Bool.and_eq_true, decide_eq_true_eq, Bool.not_eq_true'] at hrejected
  exact ⟨ir, m, i, hir, hm, solution_of_solvesPlain h.1, hi, hrejected⟩

end AstroMine.Allocate
