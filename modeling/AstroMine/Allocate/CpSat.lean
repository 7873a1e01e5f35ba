import AstroMine.Allocate.Verify
import AstroMine.Lib.Except
import AstroMine.Lib.Rounding

/-!
# The CP-SAT lowering

`lower_to_cpsat` (`model/compile/cpsat.py`): from the rational IR to a model over integers. The
constraints of the backend have their documented meaning (`CpConstraint.Holds`); its variables go by
the ids of the IR variables they stand for.

Results:
* `lowerToCpsat_eq_ok`, `mem_lowered_domains`: what is in a lowered model.
* `lowerToCpsat_returns`: the lowering returns on every IR without interval variables.
-/

namespace AstroMine.Allocate

open Rounding

/-! ## Models of the backend -/

/-- An interval of fixed size, present when its literal is true (`NewOptionalFixedSizeIntervalVar`),
or always (`NewFixedSizeIntervalVar`). -/
structure CpInterval where
  start : String
  size : ℤ
  presence : Option String
  deriving DecidableEq, Repr

/-- The constraints the lowering adds. -/
inductive CpConstraint where
  | exactlyOne (literals : List String)
  | linear (terms : List (String × ℤ)) (sense : ConstraintSense) (rhs : ℤ)
  | noOverlap (intervals : List CpInterval)
  | cumulative (intervals : List CpInterval) (capacity : ℤ)
  deriving DecidableEq, Repr

/-- `CpSatModel` (lines 84–98), its `model` spelled out. -/
structure CpSatModel where
  domains : List (String × ℤ × ℤ)
  constraints : List CpConstraint
  objective : Option (ObjectiveSense × List (String × ℤ))
  timeScale : ℤ
  objectiveScale : ℤ

/-- `has_objective`. -/
def CpSatModel.hasObjective (m : CpSatModel) : Bool := m.objective.isSome

/-- The value of a weighted sum. -/
def linearValue (value : String → ℤ) (terms : List (String × ℤ)) : ℤ :=
  (terms.map fun t => t.2 * value t.1).sum

/-- The start and end of the present intervals. -/
def presentCp (value : String → ℤ) (intervals : List CpInterval) : List (ℤ × ℤ) :=
  (intervals.filter fun iv => iv.presence.all fun literal => value literal = 1).map fun iv =>
    (value iv.start, value iv.start + iv.size)

/-- What a constraint of the backend means. The present intervals of a no-overlap can be put in a
sequence where each ends before the next starts, those of size zero included; at no point do more
than `capacity` intervals `[start, end)` of unit demand overlap. -/
def CpConstraint.Holds (value : String → ℤ) : CpConstraint → Prop
  | .exactlyOne literals => (literals.filter fun literal => value literal = 1).length = 1
  | .linear terms sense rhs =>
    match sense with
    | .le => linearValue value terms ≤ rhs
    | .ge => rhs ≤ linearValue value terms
    | .eq => linearValue value terms = rhs
  | .noOverlap intervals => ∃ sequence : List (ℤ × ℤ), sequence.Perm (presentCp value intervals) ∧
      sequence.IsChain fun x y => x.2 ≤ y.1
  | .cumulative intervals capacity => ∀ t : ℤ, (((presentCp value intervals).filter fun iv =>
      iv.1 ≤ t ∧ t < iv.2).length : ℤ) ≤ capacity

/-- A point that satisfies all domains and constraints. -/
structure CpSatModel.Solution (m : CpSatModel) (value : String → ℤ) : Prop where
  domains : ∀ d ∈ m.domains, d.2.1 ≤ value d.1 ∧ value d.1 ≤ d.2.2
  constraints : ∀ c ∈ m.constraints, c.Holds value

/-! ## The lowering -/

/-- The errors of the lowering. -/
inductive LowerError where
  | unsupportedKind (kind : VariableKind)
  deriving DecidableEq, Repr

/-- `_MAX_HORIZON_S` (line 77). -/
def maxHorizonS : ℚ := 1000000000

/-- `_OPEN_HORIZON_S` (line 81). -/
def openHorizonS : ℚ := 1000000000000

/-- `cp_model.INT32_MAX`. -/
def int32Max : ℤ := 2147483647

/-- `TIME_SCALE` (line 67). -/
def defaultTimeScale : ℤ := 1

/-- `OBJECTIVE_SCALE` (line 72). -/
def defaultObjectiveScale : ℤ := 1000000

/-- `hi_s` of `_time_var_bounds`, its open horizon clamped. -/
def horizonOf (upper : Option ℚ) : ℚ :=
  let hi := upper.getD maxHorizonS
  if openHorizonS ≤ hi then maxHorizonS else hi

/-- `_time_var_bounds` (lines 101–116). -/
def timeVarBounds (var : DecisionVariable) (timeScale : ℤ) : ℤ × ℤ :=
  let lo := ⌈var.lower.getD 0 * (timeScale : ℚ)⌉
  let hi := ⌊horizonOf var.upper * (timeScale : ℚ)⌋
  (lo, if hi < lo then lo else hi)

/-- `_make_variable` (lines 119–131): the domain of a variable. -/
def makeVariable (var : DecisionVariable) (timeScale : ℤ) : Except LowerError (String × ℤ × ℤ) :=
  match var.kind with
  | .binary => .ok (var.id, 0, 1)
  | .continuous => .ok (var.id, timeVarBounds var timeScale)
  | .integer => .ok (var.id, (var.lower.map (⌈·⌉)).getD (-int32Max),
      (var.upper.map (⌊·⌋)).getD int32Max)
  | .interval => .error (.unsupportedKind .interval)

/-- `_round_rhs` (lines 134–145). -/
def roundRhs (rhs : ℚ) (sense : ConstraintSense) : ℤ :=
  match sense with
  | .le => ⌊rhs⌋
  | .ge => ⌈rhs⌉
  | .eq => roundHalfEven rhs

/-- A term over a continuous variable (`semantics[t.var_ref]`). -/
def isContinuous (ir : AllocationIR) (varRef : String) : Bool :=
  (ir.varById varRef).any fun v => v.kind = .continuous

/-- The scale of a constraint (lines 176–177). -/
def constraintScale (ir : AllocationIR) (c : Constraint) (timeScale : ℤ) : ℤ :=
  if c.terms.any fun t => isContinuous ir t.varRef then timeScale else 1

/-- A term in the units of its constraint (lines 191–196). -/
def lowerTerm (ir : AllocationIR) (scale : ℤ) (t : ConstraintTerm) : String × ℤ :=
  (t.varRef, roundHalfEven (t.coefficient *
    ((if isContinuous ir t.varRef then 1 else scale : ℤ) : ℚ)))

/-- The canonical cover (lines 179–186). -/
def isUnitCover (c : Constraint) : Bool :=
  c.kind = .assignmentCover && c.sense = .eq && !c.terms.isEmpty && roundHalfEven c.rhs = 1 &&
    c.terms.all fun t => t.coefficient = 1

/-- `_add_linear` (lines 148–206), not enforced. -/
def addLinear (ir : AllocationIR) (c : Constraint) (timeScale : ℤ) : CpConstraint :=
  let scale := constraintScale ir c timeScale
  if isUnitCover c then .exactlyOne (c.terms.map ConstraintTerm.varRef)
  else .linear (c.terms.map (lowerTerm ir scale)) c.sense (roundRhs (c.rhs * scale) c.sense)

/-- The literal of an interval: `cp_vars.get` (lines 246–248). -/
def presenceLiteral (ir : AllocationIR) (resource varRef : String) : Option String :=
  (ir.varById (assignmentVarId (termTask ir varRef) resource)).map DecisionVariable.id

/-- `_optional_interval` (lines 209–257), not enforced. -/
def optionalIntervals (ir : AllocationIR) (c : Constraint) (timeScale : ℤ) : List CpInterval :=
  c.terms.map fun t => ⟨t.varRef, ⌈t.coefficient * (timeScale : ℚ)⌉,
    presenceLiteral ir (resourceId c.id) t.varRef⟩

/-- The lowering of one constraint (lines 282–291). -/
def lowerConstraint (ir : AllocationIR) (timeScale : ℤ) (c : Constraint) : CpConstraint :=
  match c.kind with
  | .noOverlap => .noOverlap (optionalIntervals ir c timeScale)
  | .cumulative => .cumulative (optionalIntervals ir c timeScale) (roundHalfEven c.rhs)
  | _ => addLinear ir c timeScale

/-- The scaled objective (lines 293–301). -/
def lowerObjective (ir : AllocationIR) (objectiveScale : ℤ) :
    Option (ObjectiveSense × List (String × ℤ)) :=
  if ir.objectiveTerms = [] then none
  else some (ir.objectiveSense, ir.objectiveTerms.map fun t =>
    (t.varRef, roundHalfEven (t.coefficient * (objectiveScale : ℚ))))

/-- `lower_to_cpsat` (lines 270–310). -/
def lowerToCpsat (ir : AllocationIR) (timeScale objectiveScale : ℤ) :
    Except LowerError CpSatModel := do
  let domains ← ir.decisionVariables.mapM fun var => makeVariable var timeScale
  return {
    domains := domains
    constraints := ir.constraints.map (lowerConstraint ir timeScale)
    objective := lowerObjective ir objectiveScale
    timeScale := timeScale
    objectiveScale := objectiveScale }

/-! ## Lowered models -/

variable {ir : AllocationIR} {timeScale objectiveScale : ℤ}

/-- What is in a lowered model. -/
theorem lowerToCpsat_eq_ok {m : CpSatModel}
    (h : lowerToCpsat ir timeScale objectiveScale = .ok m) :
    ir.decisionVariables.mapM (fun var => makeVariable var timeScale) = .ok m.domains ∧
      m.constraints = ir.constraints.map (lowerConstraint ir timeScale) ∧
      m.timeScale = timeScale := by
  obtain ⟨domains, hdomains, hm⟩ := bind_eq_ok.1 h
  cases hm
  exact ⟨hdomains, rfl, rfl⟩

theorem mem_lowered_domains {m : CpSatModel}
    (h : lowerToCpsat ir timeScale objectiveScale = .ok m) (d : String × ℤ × ℤ) :
    d ∈ m.domains ↔ ∃ var ∈ ir.decisionVariables, makeVariable var timeScale = .ok d :=
  mem_of_mapM (lowerToCpsat_eq_ok h).1 d

/-- The number of binary variables that are set is their sum. -/
theorem length_filter_eq_sum {value : String → ℤ} {literals : List String}
    (h : ∀ x ∈ literals, value x = 0 ∨ value x = 1) :
    ((literals.filter fun x => value x = 1).length : ℤ) = (literals.map value).sum := by
  induction literals with
  | nil => rfl
  | cons x xs ih =>
    obtain ⟨hx, hxs⟩ := List.forall_mem_cons.mp h
    rw [List.filter_cons, List.map_cons, List.sum_cons, ← ih hxs]
    rcases hx with hx | hx
    · rw [hx, if_neg (by decide), zero_add]
    · rw [hx, if_pos (by decide), List.length_cons]
      push_cast
      ring

/-- A linear family is lowered to a linear constraint. -/
theorem lowerConstraint_eq_addLinear {c : Constraint} (h : isScheduling c.kind = false)
    (timeScale : ℤ) : lowerConstraint ir timeScale c = addLinear ir c timeScale := by
  unfold lowerConstraint
  cases hk : c.kind <;> first | rfl | (rw [hk] at h; cases h)

/-- The lowering returns on every IR without interval variables. -/
theorem lowerToCpsat_returns (h : ∀ var ∈ ir.decisionVariables, var.kind ≠ .interval) :
    ∃ m, lowerToCpsat ir timeScale objectiveScale = .ok m := by
  have hreturns : ∀ var ∈ ir.decisionVariables, ∃ d, makeVariable var timeScale = .ok d := by
    intro var hvar
    unfold makeVariable
    cases hkind : var.kind with
    | binary => exact ⟨_, rfl⟩
    | integer => exact ⟨_, rfl⟩
    | continuous => exact ⟨_, rfl⟩
    | interval => exact absurd hkind (h var hvar)
  obtain ⟨domains, hdomains⟩ := mapM_exists hreturns
  exact ⟨_, bind_eq_ok.2 ⟨domains, hdomains, rfl⟩⟩

end AstroMine.Allocate
