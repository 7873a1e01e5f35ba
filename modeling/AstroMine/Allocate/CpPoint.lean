import Mathlib.Algebra.BigOperators.Ring.Finset
import Mathlib.Algebra.Order.BigOperators.Group.List
import AstroMine.Allocate.Bounds
import AstroMine.Allocate.CpSat

/-!
# The points of a lowered model

What a point of the lowered model says of the variables of the IR, for the constraints that the
compiler emits. Bounds and right-hand sides are rounded towards the inside, so on the single windows,
the comms bounds, the precedences, the keep-outs and the no-overlap constraints a point is exact.

Results:
* `Point.cover`: exactly one eligible asset is chosen for each task.
* `Point.lowerBound`, `Point.upperBound`, `Point.precedence`, `Point.keepout`, `Point.noOverlap`: the
  exact families.
* `Point.window`, `Point.budget`: the families with rounded coefficients.
-/

namespace AstroMine.Allocate

open Intervals Rounding

/-! ## Terms -/

section Terms

variable {request : AllocationRequest} {ir : AllocationIR} {timeScale : ℤ}

theorem isContinuous_eq {v : DecisionVariable} (hv : v ∈ ir.decisionVariables) :
    isContinuous ir v.id = decide (v.kind = .continuous) := by
  rw [isContinuous, AllocationIR.varById_eq_some.2 ⟨hv, rfl⟩, Option.any_some]

theorem isContinuous_start (hS : Skeleton request ir) {t : Task} (ht : t ∈ request.tasks) :
    isContinuous ir (startVarId t.taskId) = true :=
  isContinuous_eq (hS.start_mem ht)

theorem isContinuous_assignment (hS : Skeleton request ir) {t : Task} (ht : t ∈ request.tasks)
    {a : String} (ha : a ∈ eligible request t) :
    isContinuous ir (assignmentVarId t.taskId a) = false :=
  isContinuous_eq (hS.assignment_mem ht ha)

theorem isContinuous_selector (hS : Skeleton request ir) {t : Task} (ht : t ∈ request.tasks)
    (hpl : 2 ≤ (taskWindows t).length) {i : ℕ} (hi : i < (taskWindows t).length) :
    isContinuous ir (windowSelectVarId t.taskId i) = false :=
  isContinuous_eq (hS.selector_mem ht hpl hi)

/-- A constraint over a start is lowered in time units. -/
theorem constraintScale_of_start (hS : Skeleton request ir) {c : Constraint} {t : Task}
    (ht : t ∈ request.tasks) {term : ConstraintTerm} (hterm : term ∈ c.terms)
    (href : term.varRef = startVarId t.taskId) : constraintScale ir c timeScale = timeScale :=
  if_pos (List.any_eq_true.mpr ⟨term, hterm, href ▸ isContinuous_start hS ht⟩)

/-- A constraint over binary variables is not scaled. -/
theorem constraintScale_of_binary {c : Constraint}
    (h : ∀ term ∈ c.terms, isContinuous ir term.varRef = false) :
    constraintScale ir c timeScale = 1 := by
  refine if_neg fun hany => ?_
  obtain ⟨term, hterm, htrue⟩ := List.any_eq_true.mp hany
  rw [h term hterm] at htrue
  cases htrue

theorem lowerTerm_start (hS : Skeleton request ir) {t : Task} (ht : t ∈ request.tasks)
    (scale n : ℤ) : lowerTerm ir scale ⟨startVarId t.taskId, n⟩ = (startVarId t.taskId, n) := by
  rw [lowerTerm, isContinuous_start hS ht, if_pos rfl, Int.cast_one, mul_one,
    roundHalfEven_intCast]

theorem lowerTerm_binary {varRef : String} (h : isContinuous ir varRef = false) (scale : ℤ)
    (x : ℚ) : lowerTerm ir scale ⟨varRef, x⟩ = (varRef, roundHalfEven (x * (scale : ℚ))) := by
  rw [lowerTerm, h, if_neg Bool.false_ne_true]

theorem isUnitCover_of_kind {c : Constraint} (h : c.kind ≠ .assignmentCover) :
    isUnitCover c = false := by
  simp [isUnitCover, h]

end Terms

/-! ## Points -/

/-- A point of the lowered model of an IR: every domain and every lowered constraint holds. -/
structure Point (ir : AllocationIR) (timeScale : ℤ) (value : String → ℤ) : Prop where
  domains : ∀ v ∈ ir.decisionVariables, ∀ d, makeVariable v timeScale = .ok d →
    d.2.1 ≤ value d.1 ∧ value d.1 ≤ d.2.2
  constraints : ∀ c ∈ ir.constraints, (lowerConstraint ir timeScale c).Holds value

/-- The points are the solutions of the lowered model. -/
theorem solution_iff_point {ir : AllocationIR} {timeScale objectiveScale : ℤ} {m : CpSatModel}
    (hm : lowerToCpsat ir timeScale objectiveScale = .ok m) {value : String → ℤ} :
    m.Solution value ↔ Point ir timeScale value := by
  obtain ⟨-, hconstraints, -⟩ := lowerToCpsat_eq_ok hm
  constructor
  · intro h
    refine ⟨fun v hv d hd => h.domains d ((mem_lowered_domains hm d).2 ⟨v, hv, hd⟩),
      fun c hc => h.constraints _ ?_⟩
    rw [hconstraints]
    exact List.mem_map.mpr ⟨c, hc, rfl⟩
  · intro h
    refine ⟨fun d hd => ?_, fun c hc => ?_⟩
    · obtain ⟨v, hv, hvd⟩ := (mem_lowered_domains hm d).1 hd
      exact h.domains v hv d hvd
    · rw [hconstraints] at hc
      obtain ⟨source, hsource, rfl⟩ := List.mem_map.mp hc
      exact h.constraints source hsource

namespace Point

variable {request : AllocationRequest} {ir : AllocationIR} {timeScale : ℤ} {value : String → ℤ}

/-- Binary variables are zero or one. -/
theorem binary (hp : Point ir timeScale value) {v : DecisionVariable}
    (hv : v ∈ ir.decisionVariables) (hkind : v.kind = .binary) :
    value v.id = 0 ∨ value v.id = 1 := by
  have hdomain := hp.domains v hv (v.id, 0, 1) (by rw [makeVariable, hkind])
  dsimp only at hdomain
  omega

/-- A linear family but for the covers. -/
theorem linear (hp : Point ir timeScale value) {c : Constraint} (hc : c ∈ ir.constraints)
    (hkind : isScheduling c.kind = false) (hcover : c.kind ≠ .assignmentCover) :
    (CpConstraint.linear (c.terms.map (lowerTerm ir (constraintScale ir c timeScale))) c.sense
      (roundRhs (c.rhs * (constraintScale ir c timeScale : ℚ)) c.sense)).Holds value := by
  have hholds := hp.constraints c hc
  rw [lowerConstraint_eq_addLinear hkind, addLinear, isUnitCover_of_kind hcover] at hholds
  exact hholds

/-- Exactly one eligible asset is chosen for a task. -/
theorem cover (hS : Skeleton request ir) (hp : Point ir timeScale value) {t : Task}
    (ht : t ∈ request.tasks) : ∃ a ∈ eligible request t, value (assignmentVarId t.taskId a) = 1 ∧
      ∀ b ∈ eligible request t, value (assignmentVarId t.taskId b) = 1 → b = a := by
  have hholds := hp.constraints (coverConstraint t (eligible request t))
    (hS.coverConstraint_mem ht)
  rw [lowerConstraint_eq_addLinear rfl, addLinear] at hholds
  have hone : roundHalfEven (1 : ℚ) = 1 := by exact_mod_cast roundHalfEven_intCast (K := ℚ) 1
  by_cases hnil : eligible request t = []
  · -- a cover without terms is lowered to `0 = 1`
    have hunit : isUnitCover (coverConstraint t (eligible request t)) = false := by
      simp [isUnitCover, coverConstraint, hnil]
    have hscale : constraintScale ir (coverConstraint t (eligible request t)) timeScale = 1 := by
      refine constraintScale_of_binary fun term hterm => ?_
      rw [coverConstraint, hnil] at hterm
      cases hterm
    rw [hunit, if_neg Bool.false_ne_true, hscale, coverConstraint, hnil] at hholds
    have hfalse : (0 : ℤ) = roundHalfEven ((1 : ℚ) * ((1 : ℤ) : ℚ)) := hholds
    rw [Int.cast_one, mul_one, hone] at hfalse
    cases hfalse
  · have hunit : isUnitCover (coverConstraint t (eligible request t)) = true := by
      simp [isUnitCover, coverConstraint, hnil, hone]
    rw [if_pos hunit] at hholds
    have hlength : (((coverConstraint t (eligible request t)).terms.map
        ConstraintTerm.varRef).filter fun literal => value literal = 1).length = 1 := hholds
    rw [coverConstraint, List.map_map, List.filter_map, List.length_map] at hlength
    obtain ⟨a, ha⟩ := List.length_eq_one_iff.mp hlength
    have hmem : ∀ b, b ∈ eligible request t ∧ value (assignmentVarId t.taskId b) = 1 ↔ b = a := by
      intro b
      have hb := List.mem_singleton (a := b) (b := a)
      rw [← ha, List.mem_filter, Function.comp_apply, decide_eq_true_eq] at hb
      exact hb
    obtain ⟨ha, hchosen⟩ := (hmem a).2 rfl
    exact ⟨a, ha, hchosen, fun b hb hbchosen => (hmem b).1 ⟨hb, hbchosen⟩⟩

/-! ## Bounds of starts -/

/-- The start of a task at a point, in seconds. -/
def start (timeScale : ℤ) (value : String → ℤ) (t : Task) : ℚ :=
  value (startVarId t.taskId) / timeScale

/-- A constraint over one start. -/
theorem oneStart (hS : Skeleton request ir) (hp : Point ir timeScale value) {t : Task}
    (ht : t ∈ request.tasks) {c : Constraint} (hc : c ∈ ir.constraints) (hkind : c.kind = .timeWindow)
    (hterms : c.terms = [⟨startVarId t.taskId, 1⟩]) :
    (CpConstraint.linear [(startVarId t.taskId, 1)] c.sense
      (roundRhs (c.rhs * (timeScale : ℚ)) c.sense)).Holds value := by
  have hholds := hp.linear hc (by rw [hkind]; rfl) (by rw [hkind]; exact ConstraintKind.noConfusion)
  have hscale : constraintScale ir c timeScale = timeScale :=
    constraintScale_of_start hS ht (by rw [hterms]; exact List.mem_singleton_self _) rfl
  have hterm := lowerTerm_start hS ht timeScale 1
  rw [Int.cast_one] at hterm
  rwa [hscale, hterms, List.map_singleton, hterm] at hholds

/-- A lower bound of a start is exact. -/
theorem lowerBound (hS : Skeleton request ir) (hp : Point ir timeScale value) (hscale : 0 < timeScale)
    {t : Task} (ht : t ∈ request.tasks) {id : String} {bound : ℚ}
    (hc : ⟨id, .timeWindow, [⟨startVarId t.taskId, 1⟩], .ge, bound⟩ ∈ ir.constraints) :
    bound ≤ start timeScale value t := by
  have hholds := hp.oneStart hS ht hc rfl rfl
  simp only [CpConstraint.Holds, linearValue, List.map_cons, List.map_nil, List.sum_cons,
    List.sum_nil, one_mul, add_zero, roundRhs] at hholds
  rw [start, le_div_iff₀ (by exact_mod_cast hscale)]
  exact Int.ceil_le.mp hholds

/-- An upper bound of a start is exact. -/
theorem upperBound (hS : Skeleton request ir) (hp : Point ir timeScale value) (hscale : 0 < timeScale)
    {t : Task} (ht : t ∈ request.tasks) {id : String} {bound : ℚ}
    (hc : ⟨id, .timeWindow, [⟨startVarId t.taskId, 1⟩], .le, bound⟩ ∈ ir.constraints) :
    start timeScale value t ≤ bound := by
  have hholds := hp.oneStart hS ht hc rfl rfl
  simp only [CpConstraint.Holds, linearValue, List.map_cons, List.map_nil, List.sum_cons,
    List.sum_nil, one_mul, add_zero, roundRhs] at hholds
  rw [start, div_le_iff₀ (by exact_mod_cast hscale)]
  exact Int.le_floor.mp hholds

/-- A precedence is exact. -/
theorem precedence (hS : Skeleton request ir) (hp : Point ir timeScale value) (hscale : 0 < timeScale)
    {t u : Task} (ht : t ∈ request.tasks) (hu : u ∈ request.tasks) (hpred : u.taskId ∈ t.precedence) :
    start timeScale value u ≤ start timeScale value t := by
  have hc : precedenceConstraint t u.taskId ∈ ir.constraints :=
    hS.precedenceConstraint_mem ht hpred
  have hholds := hp.linear hc rfl ConstraintKind.noConfusion
  have hterm := lowerTerm_start hS ht timeScale 1
  have hterm' := lowerTerm_start hS hu timeScale (-1)
  rw [Int.cast_one] at hterm
  rw [Int.cast_neg, Int.cast_one] at hterm'
  rw [constraintScale_of_start hS ht List.mem_cons_self rfl] at hholds
  simp only [precedenceConstraint, List.map_cons, List.map_nil, hterm, hterm', CpConstraint.Holds,
    linearValue, List.sum_cons, List.sum_nil, roundRhs, zero_mul, Int.ceil_zero] at hholds
  refine div_le_div_of_nonneg_right ?_ (by exact_mod_cast hscale.le)
  exact_mod_cast (by omega : value (startVarId u.taskId) ≤ value (startVarId t.taskId))

/-- A keep-out is exact. -/
theorem keepout (hS : Skeleton request ir) (hp : Point ir timeScale value) {t : Task}
    (ht : t ∈ request.tasks) {a : String} (ha : a ∈ eligible request t)
    (hc : keepoutConstraint (t.taskId, a) ∈ ir.constraints) :
    value (assignmentVarId t.taskId a) = 0 := by
  have hholds := hp.linear hc rfl ConstraintKind.noConfusion
  have hbinary := isContinuous_assignment hS ht ha
  have hscale : constraintScale ir (keepoutConstraint (t.taskId, a)) timeScale = 1 := by
    refine constraintScale_of_binary fun term hterm => ?_
    rw [List.mem_singleton.mp hterm]
    exact hbinary
  have hzero : roundHalfEven (0 : ℚ) = 0 := by exact_mod_cast roundHalfEven_intCast (K := ℚ) 0
  have hone : roundHalfEven (1 : ℚ) = 1 := by exact_mod_cast roundHalfEven_intCast (K := ℚ) 1
  rw [hscale] at hholds
  simp only [keepoutConstraint, List.map_cons, List.map_nil, lowerTerm_binary hbinary,
    CpConstraint.Holds, linearValue, List.sum_cons, List.sum_nil, roundRhs, Int.cast_one, mul_one,
    hone, hzero, one_mul, add_zero] at hholds
  exact hholds

/-! ## One task at a time -/

/-- The literal of an interval is the assignment variable of its pair. -/
theorem presenceLiteral_start (hS : Skeleton request ir) {t : Task} (ht : t ∈ request.tasks)
    (hne : t.taskId ≠ "") {a : String} (ha : a ∈ eligible request t) :
    presenceLiteral ir a (startVarId t.taskId) = some (assignmentVarId t.taskId a) := by
  have hvar : ir.varById (assignmentVarId t.taskId a) = some (assignmentVariable t.taskId a) :=
    AllocationIR.varById_eq_some.2 ⟨hS.assignment_mem ht ha, rfl⟩
  rw [presenceLiteral, hS.termTask_start ht hne, hvar]
  rfl

/-- **A no-overlap constraint is exact or stricter**: of two tasks that a point puts on the asset one
    has run when the other one starts. -/
theorem noOverlap (hS : Skeleton request ir) (hp : Point ir timeScale value) (hscale : 0 < timeScale)
    {a : String} {sizes : Dict Pair ℚ} {taskIds : List String}
    (hsizes : ∀ k ∈ taskIds, 0 ≤ sizes.getD (k, a) 0)
    (hc : ⟨noOverlapConstraintId a, .noOverlap, noOverlapTerms sizes a taskIds, .le, 0⟩ ∈
      ir.constraints) {t u : Task} (ht : t ∈ request.tasks) (hu : u ∈ request.tasks)
    (htne : t.taskId ≠ "") (hune : u.taskId ≠ "") (hta : a ∈ eligible request t)
    (hua : a ∈ eligible request u) (htm : t.taskId ∈ taskIds) (hum : u.taskId ∈ taskIds)
    (hne : t.taskId ≠ u.taskId) (htchosen : value (assignmentVarId t.taskId a) = 1)
    (huchosen : value (assignmentVarId u.taskId a) = 1) :
    start timeScale value t + sizes.getD (t.taskId, a) 0 ≤ start timeScale value u ∨
      start timeScale value u + sizes.getD (u.taskId, a) 0 ≤ start timeScale value t := by
  have hpos : (0 : ℚ) < timeScale := by exact_mod_cast hscale
  let span (k : String) : ℤ × ℤ :=
    (value (startVarId k), value (startVarId k) + ⌈sizes.getD (k, a) 0 * (timeScale : ℚ)⌉)
  let present (k : String) : Bool :=
    (presenceLiteral ir a (startVarId k)).all fun literal => value literal = 1
  obtain ⟨sequence, hperm, hchain⟩ := hp.constraints _ hc
  have hpresent : presentCp value (optionalIntervals ir
      ⟨noOverlapConstraintId a, .noOverlap, noOverlapTerms sizes a taskIds, .le, 0⟩ timeScale) =
        (taskIds.filter present).map span := by
    rw [presentCp, optionalIntervals, noOverlapTerms, resourceId_noOverlapConstraintId,
      List.map_map, List.filter_map, List.map_map]
    rfl
  rw [hpresent] at hperm
  have hsize : ∀ x ∈ (taskIds.filter present).map span, x.1 ≤ x.2 := by
    intro x hx
    obtain ⟨k, hk, rfl⟩ := List.mem_map.mp hx
    have hceil : 0 ≤ ⌈sizes.getD (k, a) 0 * (timeScale : ℚ)⌉ :=
      Int.ceil_nonneg (mul_nonneg (hsizes k (List.mem_filter.mp hk).1) hpos.le)
    exact le_add_of_nonneg_right hceil
  have hpair := List.pairwise_map.mp (pairwise_of_sequence hperm hchain hsize)
  have hsymm : Std.Symm fun k l => (span k).2 ≤ (span l).1 ∨ (span l).2 ≤ (span k).1 :=
    ⟨fun _ _ => Or.symm⟩
  have hmem : ∀ {v : Task}, v ∈ request.tasks → v.taskId ≠ "" → a ∈ eligible request v →
      v.taskId ∈ taskIds → value (assignmentVarId v.taskId a) = 1 →
        v.taskId ∈ taskIds.filter present := by
    intro v hv hvne hva hvm hchosen
    refine List.mem_filter.mpr ⟨hvm, ?_⟩
    show ((presenceLiteral ir a (startVarId v.taskId)).all fun literal => value literal = 1) = true
    rw [presenceLiteral_start hS hv hvne hva, Option.all_some, hchosen]
    rfl
  have hspan : ∀ v v' : Task, (span v.taskId).2 ≤ (span v'.taskId).1 →
      start timeScale value v + sizes.getD (v.taskId, a) 0 ≤ start timeScale value v' := by
    intro v v' h
    have hceil := Int.le_ceil (sizes.getD (v.taskId, a) 0 * (timeScale : ℚ))
    have hcast : (value (startVarId v.taskId) : ℚ) +
        ⌈sizes.getD (v.taskId, a) 0 * (timeScale : ℚ)⌉ ≤ value (startVarId v'.taskId) := by
      exact_mod_cast h
    rw [start, start, le_div_iff₀ hpos, add_mul, div_mul_cancel₀ _ hpos.ne']
    linarith
  exact (hpair.forall (hmem ht htne hta htm htchosen) (hmem hu hune hua hum huchosen) hne).imp
    (hspan t u) (hspan u t)

/-! ## Rounded coefficients -/

/-- A point selects one window of a task with several. -/
theorem pick (hS : Skeleton request ir) (hp : Point ir timeScale value) {t : Task}
    (ht : t ∈ request.tasks) (hpl : 2 ≤ (taskWindows t).length) :
    ∃ k < (taskWindows t).length, ∀ j < (taskWindows t).length,
      value (windowSelectVarId t.taskId j) = if j = k then 1 else 0 := by
  have hunit : ∀ i < (taskWindows t).length,
      value (windowSelectVarId t.taskId i) = 0 ∨ value (windowSelectVarId t.taskId i) = 1 :=
    fun i hi => hp.binary (hS.selector_mem ht hpl hi) rfl
  have hone : roundHalfEven (1 : ℚ) = 1 := by exact_mod_cast roundHalfEven_intCast (K := ℚ) 1
  have hterms : (twinPick t).terms = (List.range (taskWindows t).length).map fun i =>
      ⟨windowSelectVarId t.taskId i, 1⟩ := by
    rw [twinPick, windowSelectors, if_neg (by omega), List.map_map]
    rfl
  have hsum : ((List.range (taskWindows t).length).map fun i =>
      value (windowSelectVarId t.taskId i)).sum = 1 := by
    have hholds := hp.linear (hS.twin_mem ht hpl (.inl rfl)) rfl ConstraintKind.noConfusion
    have hbinary : ∀ i < (taskWindows t).length,
        isContinuous ir (windowSelectVarId t.taskId i) = false :=
      fun i hi => isContinuous_selector hS ht hpl hi
    have hscale : constraintScale ir (twinPick t) timeScale = 1 := by
      refine constraintScale_of_binary fun term hterm => ?_
      rw [hterms] at hterm
      obtain ⟨i, hi, rfl⟩ := List.mem_map.mp hterm
      exact hbinary i (List.mem_range.mp hi)
    rw [hscale, hterms] at hholds
    have heq : linearValue value (((List.range (taskWindows t).length).map fun i =>
        (⟨windowSelectVarId t.taskId i, 1⟩ : ConstraintTerm)).map (lowerTerm ir 1)) =
          roundHalfEven ((1 : ℚ) * ((1 : ℤ) : ℚ)) := hholds
    rw [Int.cast_one, mul_one, hone, linearValue, List.map_map, List.map_map] at heq
    rw [← heq]
    congr 1
    refine List.map_congr_left fun i hi => ?_
    rw [Function.comp_apply, Function.comp_apply, lowerTerm_binary (hbinary i (List.mem_range.mp hi)),
      Int.cast_one, mul_one, hone, one_mul]
  have hlength : ((List.range (taskWindows t).length).filter fun i =>
      value (windowSelectVarId t.taskId i) = 1).length = 1 := by
    have hcount : ((((List.range (taskWindows t).length).map (windowSelectVarId t.taskId)).filter
        fun x => value x = 1).length : ℤ) =
          (((List.range (taskWindows t).length).map (windowSelectVarId t.taskId)).map value).sum := by
      refine length_filter_eq_sum fun x hx => ?_
      obtain ⟨i, hi, rfl⟩ := List.mem_map.mp hx
      exact hunit i (List.mem_range.mp hi)
    rw [List.filter_map, List.length_map, List.map_map] at hcount
    exact_mod_cast hcount.trans hsum
  obtain ⟨k, hk⟩ := List.length_eq_one_iff.mp hlength
  have hmem : ∀ j, j < (taskWindows t).length ∧ value (windowSelectVarId t.taskId j) = 1 ↔ j = k := by
    intro j
    have hj := List.mem_singleton (a := j) (b := k)
    rw [← hk, List.mem_filter, List.mem_range, decide_eq_true_eq] at hj
    exact hj
  refine ⟨k, ((hmem k).2 rfl).1, fun j hj => ?_⟩
  by_cases hjk : j = k
  · rw [if_pos hjk]
    exact ((hmem j).2 hjk).2
  · rw [if_neg hjk]
    exact (hunit j hj).resolve_right fun hset => hjk ((hmem j).1 ⟨hj, hset⟩)

/-- The value of a lowered window constraint: the start against the bound of the selected window. -/
theorem linearValue_windowTerms (hS : Skeleton request ir) {t : Task} (ht : t ∈ request.tasks)
    (hpl : 2 ≤ (taskWindows t).length) (bound : TimeWindow → ℚ) {k : ℕ} {w : TimeWindow}
    (hw : (taskWindows t)[k]? = some w) (hpick : ∀ j < (taskWindows t).length,
      value (windowSelectVarId t.taskId j) = if j = k then 1 else 0) :
    linearValue value ((windowTerms t bound).map (lowerTerm ir timeScale)) =
      value (startVarId t.taskId) - roundHalfEven (bound w * (timeScale : ℚ)) := by
  have hterm := lowerTerm_start hS ht timeScale 1
  rw [Int.cast_one] at hterm
  have hselectors : (((taskWindows t).zipIdx.map fun p =>
      (⟨windowSelectVarId t.taskId p.2, -bound p.1⟩ : ConstraintTerm)).map
        (lowerTerm ir timeScale)).map (fun term => term.2 * value term.1) =
      (taskWindows t).zipIdx.map fun p =>
        if p.2 = 0 + k then -roundHalfEven (bound p.1 * (timeScale : ℚ)) else 0 := by
    rw [List.map_map, List.map_map]
    refine List.map_congr_left fun p hp => ?_
    have hj : p.2 < (taskWindows t).length := (List.mem_zipIdx' hp).1
    rw [Function.comp_apply, Function.comp_apply,
      lowerTerm_binary (isContinuous_selector hS ht hpl hj), hpick _ hj, neg_mul, roundHalfEven_neg]
    by_cases hjk : p.2 = k
    · rw [if_pos hjk, if_pos (by omega), mul_one]
    · rw [if_neg hjk, if_neg (by omega), mul_zero]
  rw [linearValue, windowTerms, List.map_cons, List.map_cons, List.sum_cons, hselectors,
    sum_zipIdx_ite (fun w => -roundHalfEven (bound w * (timeScale : ℚ))), hw, hterm]
  simp only [Option.map_some, Option.getD_some, one_mul, sub_eq_add_neg]

/-- The start lies between the rounded bounds of the selected window. -/
theorem window (hS : Skeleton request ir) (hp : Point ir timeScale value) {t : Task}
    (ht : t ∈ request.tasks) (hpl : 2 ≤ (taskWindows t).length) {k : ℕ} {w : TimeWindow}
    (hw : (taskWindows t)[k]? = some w) (hpick : ∀ j < (taskWindows t).length,
      value (windowSelectVarId t.taskId j) = if j = k then 1 else 0) :
    roundHalfEven (w.startS * (timeScale : ℚ)) ≤ value (startVarId t.taskId) ∧
      value (startVarId t.taskId) ≤ roundHalfEven (w.endS * (timeScale : ℚ)) := by
  have hlo := hp.linear (hS.twin_mem ht hpl (.inr (.inl rfl))) rfl ConstraintKind.noConfusion
  have hhi := hp.linear (hS.twin_mem ht hpl (.inr (.inr rfl))) rfl ConstraintKind.noConfusion
  rw [constraintScale_of_start hS ht List.mem_cons_self rfl] at hlo hhi
  simp only [twinLo, twinHi, CpConstraint.Holds, roundRhs, zero_mul, Int.ceil_zero, Int.floor_zero,
    linearValue_windowTerms hS ht hpl _ hw hpick] at hlo hhi
  exact ⟨by omega, by omega⟩

/-- A budget holds for the exact coefficients when none of them is rounded down. -/
theorem budget (hp : Point ir timeScale value) {c : Constraint} (hc : c ∈ ir.constraints)
    (hkind : c.kind = .linear) (hsense : c.sense = .le)
    (hbinary : ∀ term ∈ c.terms, isContinuous ir term.varRef = false ∧ 0 ≤ value term.varRef)
    (htight : ∀ term ∈ c.terms, term.coefficient ≤ roundHalfEven term.coefficient) :
    (c.terms.map fun term => term.coefficient * (value term.varRef : ℚ)).sum ≤ c.rhs := by
  have hholds := hp.linear hc (by rw [hkind]; rfl) (by rw [hkind]; exact ConstraintKind.noConfusion)
  rw [constraintScale_of_binary fun term hterm => (hbinary term hterm).1, hsense] at hholds
  have hle : linearValue value (c.terms.map (lowerTerm ir 1)) ≤ ⌊c.rhs * ((1 : ℤ) : ℚ)⌋ := hholds
  rw [Int.cast_one, mul_one] at hle
  have hsum : (c.terms.map fun term => term.coefficient * (value term.varRef : ℚ)).sum ≤
      ((linearValue value (c.terms.map (lowerTerm ir 1)) : ℤ) : ℚ) := by
    rw [linearValue, Int.cast_list_sum, List.map_map, List.map_map]
    refine List.sum_le_sum fun term hterm => ?_
    obtain ⟨hcontinuous, hnonneg⟩ := hbinary term hterm
    have hlowered : lowerTerm ir 1 term = (term.varRef, roundHalfEven term.coefficient) := by
      rw [show term = ⟨term.varRef, term.coefficient⟩ from rfl, lowerTerm_binary hcontinuous,
        Int.cast_one, mul_one]
    rw [Function.comp_apply, Function.comp_apply, hlowered, Int.cast_mul]
    exact mul_le_mul_of_nonneg_right (htight term hterm) (by exact_mod_cast hnonneg)
  exact hsum.trans (Int.le_floor.mp hle)

end Point

end AstroMine.Allocate
