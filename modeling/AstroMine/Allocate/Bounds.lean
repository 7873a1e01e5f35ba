import AstroMine.Allocate.Constrained
import AstroMine.Allocate.Meaning

/-!
# The verifier and the bounds of the variables

`verify_feasible` walks the constraints of an IR and not the bounds of its variables. For the
selections that makes no difference, and the start of a task with windows is kept in its envelope by
the window constraints. Nothing keeps the start of a task without windows in `[0, horizon]`.

Results:
* `Produced`: the IRs the compiler hands on.
* `withinBounds_iff`: the values of a plan are within the bounds when its starts are.
* `verifyFeasible_withinBounds_iff`: when a verified plan is a point of the IR.
-/

namespace AstroMine.Allocate

open Skeleton (InWindow)

/-! ## The IRs of the compiler -/

/-- The IRs of `compile_request` and of `compile_with_constraints`. -/
inductive Produced (request : AllocationRequest) : AllocationIR → Prop where
  | bare {ir : AllocationIR} (h : compileRequest request = .ok ir) : Produced request ir
  | constrained {slopeDeg : Vec3 → Vec3 → ℚ} {context : ConstraintContext}
      {config : ConstraintConfig} {costs : CostTable} {compilation : ConstraintCompilation}
      (h : compileWithConstraints slopeDeg request context config costs = .ok compilation) :
      Produced request compilation.ir

theorem Produced.skeleton {request : AllocationRequest} {ir : AllocationIR}
    (h : Produced request ir) : Skeleton request ir := by
  cases h with
  | bare h => exact skeleton_of_compileRequest h
  | constrained h => exact skeleton_of_compileWithConstraints h

theorem Produced.emitted {request : AllocationRequest} {ir : AllocationIR}
    (h : Produced request ir) : ∀ c ∈ ir.constraints, Emitted request c := by
  cases h with
  | bare h => exact emitted_of_compileRequest h
  | constrained h => exact emitted_of_compileWithConstraints h

/-! ## The envelope of the windows -/

theorem foldl_min_le {α : Type*} (f : α → ℚ) (xs : List α) (init : ℚ) :
    xs.foldl (fun lo v => min lo (f v)) init ≤ init ∧
      ∀ x ∈ xs, xs.foldl (fun lo v => min lo (f v)) init ≤ f x := by
  induction xs generalizing init with
  | nil => simp
  | cons x xs ih =>
    obtain ⟨hinit, hall⟩ := ih (min init (f x))
    refine ⟨hinit.trans (min_le_left _ _), fun y hy => ?_⟩
    rcases List.mem_cons.mp hy with rfl | hy
    · exact hinit.trans (min_le_right _ _)
    · exact hall y hy

theorem le_foldl_max {α : Type*} (f : α → ℚ) (xs : List α) (init : ℚ) :
    init ≤ xs.foldl (fun hi v => max hi (f v)) init ∧
      ∀ x ∈ xs, f x ≤ xs.foldl (fun hi v => max hi (f v)) init := by
  induction xs generalizing init with
  | nil => simp
  | cons x xs ih =>
    obtain ⟨hinit, hall⟩ := ih (max init (f x))
    refine ⟨(le_max_left _ _).trans hinit, fun y hy => ?_⟩
    rcases List.mem_cons.mp hy with rfl | hy
    · exact (le_max_right _ _).trans hinit
    · exact hall y hy

/-- The envelope of the windows contains each of them. -/
theorem windowEnvelope_contains {t : Task} {w : TimeWindow} (hw : w ∈ t.timeWindows) :
    (windowEnvelope t).1 ≤ w.startS ∧ w.endS ≤ (windowEnvelope t).2 := by
  have hsorted := Skeleton.mem_taskWindows.2 hw
  rw [windowEnvelope]
  cases hws : taskWindows t with
  | nil =>
    rw [hws] at hsorted
    cases hsorted
  | cons v vs =>
    rw [hws] at hsorted
    obtain ⟨hlo, hlos⟩ := foldl_min_le TimeWindow.startS vs v.startS
    obtain ⟨hhi, hhis⟩ := le_foldl_max TimeWindow.endS vs v.endS
    rcases List.mem_cons.mp hsorted with rfl | hmem
    · exact ⟨hlo, hhi⟩
    · exact ⟨hlos w hmem, hhis w hmem⟩

theorem windowEnvelope_of_nil {t : Task} (h : t.timeWindows = []) :
    windowEnvelope t = (0, unboundedHorizonS) := by
  rw [windowEnvelope, Skeleton.taskWindows_eq_nil.2 h]

/-! ## Values within the bounds -/

/-- Every value lies in the closed bounds of its variable, up to `tol`. -/
def WithinBounds (tol : ℚ) (ir : AllocationIR) (values : Dict String ℚ) : Prop :=
  ∀ v ∈ ir.decisionVariables, (∀ lo, v.lower = some lo → lo - tol ≤ values.getD v.id 0) ∧
    ∀ hi, v.upper = some hi → values.getD v.id 0 ≤ hi + tol

section Values

variable {request : AllocationRequest} {ir : AllocationIR} (plan : List AssetSchedule)

/-- A selection is within its bounds. -/
theorem unit_within {tol x : ℚ} (htol : 0 ≤ tol) (hx : x = 0 ∨ x = 1) :
    (∀ lo, some (0 : ℚ) = some lo → lo - tol ≤ x) ∧ ∀ hi, some (1 : ℚ) = some hi → x ≤ hi + tol := by
  constructor
  · intro lo hlo
    obtain rfl := Option.some.inj hlo
    rcases hx with rfl | rfl <;> linarith
  · intro hi hhi
    obtain rfl := Option.some.inj hhi
    rcases hx with rfl | rfl <;> linarith

/-- The values of a plan are within the bounds when its starts are. -/
theorem withinBounds_iff (hS : Skeleton request ir) {tol : ℚ} (htol : 0 ≤ tol) :
    WithinBounds tol ir (planVariableValues plan ir) ↔ ∀ t ∈ request.tasks,
      (windowEnvelope t).1 - tol ≤ startOf plan t.taskId ∧
        startOf plan t.taskId ≤ (windowEnvelope t).2 + tol := by
  constructor
  · intro h t ht
    obtain ⟨hlo, hhi⟩ := h (startVariable t) (hS.start_mem ht)
    have hval : (planVariableValues plan ir).getD (startVariable t).id 0 = startOf plan t.taskId :=
      hS.value_start plan ht
    rw [hval] at hlo hhi
    exact ⟨hlo _ rfl, hhi _ rfl⟩
  · intro h v hv
    rw [getD_planVariableValues plan hv]
    rcases hS.variable_cases hv with ⟨t, -, a, -, rfl⟩ | ⟨t, ht, rfl⟩ | ⟨t, -, -, i, -, rfl⟩
    · refine unit_within htol ?_
      rw [variableValue_assignmentVariable]
      exact (ite_eq_or_eq _ _ _).symm
    · constructor
      · intro lo hlo
        obtain rfl := Option.some.inj hlo
        exact (h t ht).1
      · intro hi hhi
        obtain rfl := Option.some.inj hhi
        exact (h t ht).2
    · refine unit_within htol ?_
      exact (ite_eq_or_eq _ _ _).symm

/-- A start in a window is in the envelope, up to the epsilon of the windows. -/
theorem envelope_of_inWindow {t : Task} {start : ℚ} (h : ∃ w ∈ t.timeWindows, InWindow w start) :
    (windowEnvelope t).1 - eps ≤ start ∧ start ≤ (windowEnvelope t).2 + eps := by
  obtain ⟨w, hw, hlo, hhi⟩ := h
  obtain ⟨henvlo, henvhi⟩ := windowEnvelope_contains hw
  exact ⟨by linarith, by linarith⟩

end Values

/-- **Main theorem.** A verified plan satisfies the constraints of its IR. Its values are within the
    bounds of the variables if and only if every start is in the envelope of its task. Up to the
    tolerance of the verifier only the tasks without windows can start out of bounds. -/
theorem verifyFeasible_withinBounds_iff {request : AllocationRequest} {ir : AllocationIR}
    (hir : Produced request ir) {allocation : Allocation}
    (hverify : verifyFeasible allocation ir = true) :
    ∃ plan, allocation.plan = some plan ∧
      (∀ c ∈ ir.constraints, satisfiesConstraint ir (planVariableValues plan ir) c = true) ∧
      (WithinBounds 0 ir (planVariableValues plan ir) ↔ ∀ t ∈ request.tasks,
        (windowEnvelope t).1 ≤ startOf plan t.taskId ∧
          startOf plan t.taskId ≤ (windowEnvelope t).2) ∧
      (WithinBounds eps ir (planVariableValues plan ir) ↔ ∀ t ∈ request.tasks, t.timeWindows = [] →
        -eps ≤ startOf plan t.taskId ∧ startOf plan t.taskId ≤ unboundedHorizonS + eps) := by
  have hS := hir.skeleton
  obtain ⟨plan, hplan, -, hstarts, hall, -⟩ := verifyFeasible_iff.1 hverify
  have hsome := (coversStarts_iff hS).1 hstarts
  have hwindow : ∀ t ∈ request.tasks, t.timeWindows = [] ∨
      ∃ w ∈ t.timeWindows, InWindow w (startOf plan t.taskId) := fun t ht =>
    ((linearConstraints_iff hS).1 ⟨hsome, fun c hc => hall c (hS.linear_mem c hc)⟩).2.1 t ht |>.1
  refine ⟨plan, hplan, hall, ?_, ?_⟩
  · simpa using withinBounds_iff plan hS le_rfl
  · rw [withinBounds_iff plan hS eps_nonneg]
    refine forall₂_congr fun t ht => ?_
    constructor
    · intro h hnil
      rw [windowEnvelope_of_nil hnil] at h
      simpa using h
    · intro h
      rcases hwindow t ht with hnil | hin
      · rw [windowEnvelope_of_nil hnil]
        simpa using h hnil
      · exact envelope_of_inWindow hin

/-! ## A start before time zero -/

/-- One task without windows. -/
def loneTask : AllocationRequest where
  tasks := [pointTask "dig" []]
  assets := [rover]
  objective := ⟨.maximize, Dict.empty⟩
  tasks_ne_nil := by decide
  assets_ne_nil := rover_ne_nil
  taskIds_nodup := by decide
  assetIds_nodup := rover_nodup
  precedence_irrefl := by decide
  precedence_known := by decide
  precedence_acyclic := by decide +kernel

/-- The rover digs at `start`. -/
def digAt (start : ℚ) : Allocation where
  status := .feasible
  plan := some [⟨"rover", [pointAt "dig" start], List.IsChain.singleton _⟩]
  realizedObjective := some 1
  feasible_plan := fun _ => rfl
  infeasible_plan := fun h => by cases h

theorem verifyFeasible_withinBounds_iff_loneTask :
    ∃ ir, compileRequest loneTask = .ok ir ∧ ∃ plan, (digAt 3).plan = some plan ∧
      WithinBounds 0 ir (planVariableValues plan ir) := by
  obtain ⟨ir, hir, hverify⟩ := exists_of_verdict (b := true)
    (show verdict loneTask (digAt 3) = some true by decide +kernel)
  obtain ⟨plan, hplan, -, hbounds, -⟩ := verifyFeasible_withinBounds_iff (.bare hir) hverify
  obtain rfl := Option.some.inj hplan
  refine ⟨ir, hir, _, rfl, hbounds.2 fun t ht => ?_⟩
  obtain rfl := List.mem_singleton.mp ht
  decide +kernel

/-- **Counterexample.** The verifier accepts a plan that digs five seconds before time zero. -/
theorem verifyFeasible_before_zero :
    ∃ ir, compileRequest loneTask = .ok ir ∧ verifyFeasible (digAt (-5)) ir = true ∧
      ∃ plan, (digAt (-5)).plan = some plan ∧ ¬ WithinBounds eps ir (planVariableValues plan ir) := by
  obtain ⟨ir, hir, hverify⟩ := exists_of_verdict (b := true)
    (show verdict loneTask (digAt (-5)) = some true by decide +kernel)
  refine ⟨ir, hir, hverify, _, rfl, fun hbounds => ?_⟩
  have hstart := (withinBounds_iff _ (skeleton_of_compileRequest hir) eps_nonneg).1 hbounds
    (pointTask "dig" []) (List.mem_singleton_self _)
  revert hstart
  decide +kernel

end AstroMine.Allocate
