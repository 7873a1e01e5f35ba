import AstroMine.Lib.Intervals
import AstroMine.Allocate.Compile

/-!
# The feasibility verifier

`verify_feasible` (`ir/verify.py`) with what it reads: the values a plan gives to the variables of
an IR (`explain/binding.py`), the windows behind the selectors (`ir/utils.py`) and the meaning of
the scheduling constraints (`ir/schedule.py`).

Results:
* `satisfiesNoOverlap_iff`: a no-overlap constraint compares every two present intervals.
* `get?_planVariableValues`: every variable of the IR has a value.
* `verifyFeasible_iff`: what a verified plan satisfies.
-/

namespace AstroMine.Allocate

open Intervals

/-! ## Plans -/

/-- The placements of a plan: task, asset and start. -/
def placements (plan : List AssetSchedule) : List (String × String × ℚ) :=
  plan.flatMap fun s => s.tasks.map fun st => (st.taskId, s.assetId, st.startS)

/-- `scheduled` (`binding.py:73-76`). -/
def scheduled (plan : List AssetSchedule) : Dict String (String × ℚ) := Dict.ofList (placements plan)

/-- The asset a plan puts a task on. -/
def assetOf (plan : List AssetSchedule) (taskId : String) : Option String :=
  ((scheduled plan).get? taskId).map Prod.fst

/-- The start a plan gives a task, `0` when it has none. -/
def startOf (plan : List AssetSchedule) (taskId : String) : ℚ :=
  (((scheduled plan).get? taskId).map Prod.snd).getD 0

/-- Optional references as Python reads them in `x or y`: the empty string counts as absent. -/
def truthy (ref : Option String) : Option String := ref.filter fun s => s ≠ ""

/-! ## Windows read back from an IR (`ir/utils.py`) -/

/-- `WindowChoice` (`utils.py:25-39`). -/
structure WindowChoice where
  varId : String
  startS : ℚ
  endS : ℚ

/-- `WindowChoice.contains` (`utils.py:37-39`). -/
def WindowChoice.contains (w : WindowChoice) (startS : ℚ) : Bool :=
  decide (w.startS - eps ≤ startS ∧ startS ≤ w.endS + eps)

/-- `task_of` of `window_choices` (`utils.py:72-76`). -/
def selectorTask (ir : AllocationIR) : Dict String String :=
  Dict.ofList (ir.decisionVariables.filterMap fun var =>
    if var.semantic = .windowSelect then (truthy var.taskRef).map fun t => (var.id, t) else none)

/-- `lower` and `upper` of `window_choices` (`utils.py:80-93`): the negated coefficients of the
selectors in the window constraints of one sense. -/
def selectorBounds (ir : AllocationIR) (sense : ConstraintSense) : Dict String ℚ :=
  Dict.ofList ((ir.constraints.filter fun c => c.kind = .timeWindow ∧ c.sense = sense).flatMap
    fun c => (c.terms.filter fun t => ((selectorTask ir).get? t.varRef).isSome).map
      fun t => (t.varRef, -t.coefficient))

/-- The choice behind one selector (`utils.py:96-102`). -/
def windowChoice (ir : AllocationIR) (varId : String) : Option (String × WindowChoice) := do
  let task ← (selectorTask ir).get? varId
  let startS ← (selectorBounds ir .ge).get? varId
  let endS ← (selectorBounds ir .le).get? varId
  return (task, ⟨varId, startS, endS⟩)

/-- `window_choices` (`utils.py:58-103`). -/
def windowChoices (ir : AllocationIR) : Dict String (List WindowChoice) :=
  Dict.group ((sortOn id (selectorTask ir).keys).filterMap (windowChoice ir))

/-! ## Values of the variables under a plan (`explain/binding.py`) -/

/-- `selected` (`binding.py:78-86`): the selector of the first window that contains the start. -/
def selected (plan : List AssetSchedule) (ir : AllocationIR) (taskId : String) : Option String := do
  let windows ← (windowChoices ir).get? taskId
  let placed ← (scheduled plan).get? taskId
  let hosting ← windows.find? fun w => w.contains placed.2
  return hosting.varId

/-- The value of one variable (`binding.py:90-96`). -/
def variableValue (plan : List AssetSchedule) (ir : AllocationIR) (var : DecisionVariable) : ℚ :=
  let taskId := var.taskRef.getD ""
  match var.semantic with
  | .assignment =>
    if (assetOf plan taskId).isSome ∧ assetOf plan taskId = var.assetRef then 1 else 0
  | .startTime => startOf plan taskId
  | .windowSelect => if selected plan ir taskId = some var.id then 1 else 0

/-- `plan_variable_values` (`binding.py:54-97`). -/
def planVariableValues (plan : List AssetSchedule) (ir : AllocationIR) : Dict String ℚ :=
  Dict.ofList (ir.decisionVariables.map fun var => (var.id, variableValue plan ir var))

/-! ## Scheduling constraints (`ir/schedule.py`) -/

/-- What follows the first `"::"`. -/
def afterSeparator : List Char → Option (List Char)
  | [] => none
  | ':' :: ':' :: cs => some cs
  | _ :: cs => afterSeparator cs

/-- `resource_id` (`schedule.py:48-50`). An id without `"::"`, which raises there and which no pass
emits, reads as the empty resource. -/
def resourceId (constraintId : String) : String :=
  String.ofList ((afterSeparator constraintId.toList).getD [])

/-- The task of a term: the reference of its variable, or the name of the variable
(`schedule.py:70-71`). -/
def termTask (ir : AllocationIR) (varRef : String) : String :=
  ((ir.varById varRef).bind fun v => truthy v.taskRef).getD varRef

/-- Whether the interval of a term is present (`schedule.py:72-74`). -/
def isPresent (ir : AllocationIR) (values : Dict String ℚ) (resource varRef : String) : Bool :=
  match values.get? (assignmentVarId (termTask ir varRef) resource) with
  | some presence => decide (1 / 2 ≤ presence)
  | none => true

/-- `resource_intervals` (`schedule.py:53-78`) before the sort. -/
def presentIntervals (c : Constraint) (ir : AllocationIR) (values : Dict String ℚ) :
    List (ℚ × ℚ) :=
  (c.terms.filter fun t => isPresent ir values (resourceId c.id) t.varRef).map fun t =>
    (values.getD t.varRef 0, values.getD t.varRef 0 + t.coefficient)

/-- `resource_intervals` (`schedule.py:53-78`). -/
def resourceIntervals (c : Constraint) (ir : AllocationIR) (values : Dict String ℚ) :
    List (ℚ × ℚ) :=
  sortOn toLex (presentIntervals c ir values)

/-- The idle gaps between neighbours. -/
def gaps (intervals : List (ℚ × ℚ)) : List ℚ :=
  List.zipWith (fun earlier later => later.1 - earlier.2) intervals intervals.tail

/-- `no_overlap_slack` (`schedule.py:81-91`). -/
def noOverlapSlack (intervals : List (ℚ × ℚ)) : Option ℚ := (gaps intervals).min?

/-- The events of the sweep: ends before starts at one instant (`schedule.py:104-108`). -/
def sweepEvents (intervals : List (ℚ × ℚ)) : List (ℚ × ℤ) :=
  sortOn toLex (intervals.flatMap fun iv => [(iv.1, 1), (iv.2, -1)])

/-- `cumulative_slack` (`schedule.py:94-114`). -/
def cumulativeSlack (intervals : List (ℚ × ℚ)) (capacity : ℚ) : Option ℚ :=
  if intervals = [] then none
  else
    let step := fun (s : ℤ × ℤ) (e : ℚ × ℤ) => (s.1 + e.2, max s.2 (s.1 + e.2))
    some (capacity - ((sweepEvents intervals).foldl step (0, 0)).2)

/-- `scheduling_slack` (`schedule.py:117-129`). -/
def schedulingSlack (c : Constraint) (ir : AllocationIR) (values : Dict String ℚ) : Option ℚ :=
  let intervals := resourceIntervals c ir values
  if c.kind = .noOverlap then noOverlapSlack intervals else cumulativeSlack intervals c.rhs

/-- `satisfies_scheduling` (`schedule.py:132-137`). -/
def satisfiesScheduling (c : Constraint) (ir : AllocationIR) (values : Dict String ℚ) : Bool :=
  match schedulingSlack c ir values with
  | none => true
  | some slack => decide (-eps ≤ slack)

/-! ## `verify_feasible` -/

/-- `SCHEDULING_KINDS` (`schedule.py:45`). -/
def isScheduling (kind : ConstraintKind) : Bool :=
  match kind with
  | .noOverlap | .cumulative => true
  | _ => false

/-- `_satisfies` (`verify.py:48-53`). -/
def satisfies (lhs : ℚ) (sense : ConstraintSense) (rhs : ℚ) : Prop :=
  match sense with
  | .le => lhs ≤ rhs + eps
  | .ge => rhs - eps ≤ lhs
  | .eq => |lhs - rhs| ≤ eps

instance (lhs : ℚ) (sense : ConstraintSense) (rhs : ℚ) : Decidable (satisfies lhs sense rhs) := by
  cases sense <;> exact inferInstanceAs (Decidable (_ ≤ _))

/-- `sum(coefficient * values[var_ref])`; `values` has every reference of an IR. -/
def weightedSum (values : Dict String ℚ) (terms : List ConstraintTerm) : ℚ :=
  (terms.map fun t => t.coefficient * values.getD t.varRef 0).sum

/-- The check of one constraint (`verify.py:82-92`). -/
def satisfiesConstraint (ir : AllocationIR) (values : Dict String ℚ) (c : Constraint) : Bool :=
  if isScheduling c.kind then satisfiesScheduling c ir values
  else decide (satisfies (weightedSum values c.terms) c.sense c.rhs)

/-- The objective of the values (`verify.py:96`). -/
def objectiveValue (values : Dict String ℚ) (terms : List ObjectiveTerm) : ℚ :=
  (terms.map fun t => t.coefficient * values.getD t.varRef 0).sum

/-- Every start variable belongs to a scheduled task (`verify.py:72-78`). -/
def coversStarts (plan : List AssetSchedule) (ir : AllocationIR) : Bool :=
  ir.decisionVariables.all fun var =>
    var.semantic ≠ .startTime || ((scheduled plan).get? (var.taskRef.getD "")).isSome

/-- The reported objective is the recomputed one (`verify.py:94-98`). -/
def honestObjective (expected : ℚ) : Option ℚ → Bool
  | none => false
  | some reported =>
    decide (|expected - reported| ≤ eps * max 1 (max |expected| |reported|))

/-- `verify_feasible` (`verify.py:56-98`). -/
def verifyFeasible (allocation : Allocation) (ir : AllocationIR) : Bool :=
  match allocation.plan with
  | none => false
  | some plan =>
    let values := planVariableValues plan ir
    decide ((placements plan).map Prod.fst).Nodup && coversStarts plan ir &&
      ir.constraints.all (satisfiesConstraint ir values) &&
      honestObjective (objectiveValue values ir.objectiveTerms) allocation.realizedObjective

/-! ## Values -/

/-- A variable of the IR has a value. -/
theorem get?_planVariableValues (plan : List AssetSchedule) {ir : AllocationIR}
    {v : DecisionVariable} (hv : v ∈ ir.decisionVariables) :
    (planVariableValues plan ir).get? v.id = some (variableValue plan ir v) := by
  refine Dict.get?_ofList_of_forall (List.mem_map.mpr ⟨v, hv, rfl⟩) ?_
  intro p hp hpk
  obtain ⟨w, hw, rfl⟩ := List.mem_map.mp hp
  rw [AllocationIR.variable_eq_of_id hw hv hpk]

theorem getD_planVariableValues (plan : List AssetSchedule) {ir : AllocationIR}
    {v : DecisionVariable} (hv : v ∈ ir.decisionVariables) :
    (planVariableValues plan ir).getD v.id 0 = variableValue plan ir v := by
  rw [Dict.getD, get?_planVariableValues plan hv, Option.getD_some]

/-- In a plan that schedules no task twice, what is placed is what is looked up. -/
theorem get?_scheduled {plan : List AssetSchedule} (hnd : ((placements plan).map Prod.fst).Nodup)
    {taskId assetId : String} {start : ℚ} :
    (scheduled plan).get? taskId = some (assetId, start) ↔
      (taskId, assetId, start) ∈ placements plan := by
  constructor
  · exact Dict.get?_ofList_mem
  · intro hm
    refine Dict.get?_ofList_of_forall hm ?_
    intro p hp hpk
    have heq := List.inj_on_of_nodup_map hnd hp hm hpk
    rw [heq]

/-! ## Scheduling constraints -/

theorem afterSeparator_noOverlap (cs : List Char) :
    afterSeparator ("no_overlap::".toList ++ cs) = some cs := rfl

/-- A no-overlap constraint names its resource. -/
theorem resourceId_noOverlapConstraintId (resource : String) :
    resourceId (noOverlapConstraintId resource) = resource := by
  rw [resourceId, noOverlapConstraintId, String.toList_append, afterSeparator_noOverlap,
    Option.getD_some, String.ofList_toList]

theorem forall_gaps_iff (l : List (ℚ × ℚ)) :
    (∀ g ∈ gaps l, -eps ≤ g) ↔ l.IsChain fun x y => x.2 ≤ y.1 + eps := by
  induction l with
  | nil => simp [gaps]
  | cons x l ih =>
    cases l with
    | nil => simp [gaps]
    | cons y l =>
      have hg : gaps (x :: y :: l) = (y.1 - x.2) :: gaps (y :: l) := rfl
      rw [hg, List.forall_mem_cons, ih, List.isChain_cons_cons]
      refine and_congr_left fun _ => ?_
      constructor <;> intro h <;> linarith

/-- A slack is at least `-eps` when every gap is. -/
theorem noOverlapSlack_iff (l : List (ℚ × ℚ)) :
    (match noOverlapSlack l with
      | none => true
      | some slack => decide (-eps ≤ slack)) = true ↔ l.IsChain fun x y => x.2 ≤ y.1 + eps := by
  rw [← forall_gaps_iff, noOverlapSlack]
  cases hm : (gaps l).min? with
  | none =>
    rw [List.min?_eq_none_iff] at hm
    simp [hm]
  | some g =>
    rw [decide_eq_true_iff]
    exact List.le_min?_iff hm

/-- **A no-overlap constraint compares every two present intervals.** -/
theorem satisfiesNoOverlap_iff {c : Constraint} (hc : c.kind = .noOverlap) (ir : AllocationIR)
    (values : Dict String ℚ) :
    satisfiesConstraint ir values c = true ↔
      (presentIntervals c ir values).Pairwise (Apart eps) := by
  rw [satisfiesConstraint, hc, if_pos (show isScheduling .noOverlap = true from rfl),
    satisfiesScheduling, schedulingSlack, if_pos hc, noOverlapSlack_iff, resourceIntervals,
    isChain_sorted_iff_pairwise_apart]

/-- A constraint of a linear family. -/
theorem satisfiesConstraint_linear {ir : AllocationIR} {values : Dict String ℚ} {c : Constraint}
    (hc : isScheduling c.kind = false) :
    satisfiesConstraint ir values c = true ↔
      satisfies (weightedSum values c.terms) c.sense c.rhs := by
  rw [satisfiesConstraint, hc, if_neg Bool.false_ne_true, decide_eq_true_eq]

/-! ## What is verified -/

/-- What a verified plan satisfies. -/
theorem verifyFeasible_iff {allocation : Allocation} {ir : AllocationIR} :
    verifyFeasible allocation ir = true ↔
      ∃ plan, allocation.plan = some plan ∧ ((placements plan).map Prod.fst).Nodup ∧
        (∀ v ∈ ir.decisionVariables, v.semantic = .startTime →
          ((scheduled plan).get? (v.taskRef.getD "")).isSome) ∧
        (∀ c ∈ ir.constraints, satisfiesConstraint ir (planVariableValues plan ir) c = true) ∧
        honestObjective (objectiveValue (planVariableValues plan ir) ir.objectiveTerms)
          allocation.realizedObjective = true := by
  rw [verifyFeasible]
  cases hp : allocation.plan with
  | none => simp
  | some plan =>
    simp only [Bool.and_eq_true, decide_eq_true_eq, List.all_eq_true, coversStarts,
      Bool.or_eq_true, Option.some.injEq, exists_eq_left', and_assoc]
    refine and_congr_right fun _ => and_congr_left fun _ => ?_
    refine forall₂_congr fun v _ => ?_
    simp only [ne_eq]
    exact Decidable.imp_iff_not_or.symm

end AstroMine.Allocate
