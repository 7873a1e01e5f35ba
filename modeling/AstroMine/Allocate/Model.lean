import Mathlib.Data.Rat.Floor
import Mathlib.Data.String.Basic
import AstroMine.Lib.Kahn

/-!
# Requests, plans and the Allocation IR

The data model of the allocator (`allocate/api/model.py`, `allocate/enums.py`,
`allocate/model/ir/model.py`). The validators of the source are fields of the structures, so a
request, a plan or an IR that they reject cannot be built. Floats are rationals here.

Results:
* `AllocationIR.create_eq_ok`, `AllocationIR.exists_create_eq_ok`: what is in an accepted IR, and
  what it takes to be accepted.
* `AllocationIR.variable_eq_of_id`: an id names one variable of an IR.
-/

namespace AstroMine.Allocate

/-- `_EPS` (`verify.py:45`; the same constant in each module that compares floats). -/
def eps : ℚ := 1 / 1000000000

theorem eps_pos : 0 < eps := by norm_num [eps]

theorem eps_nonneg : 0 ≤ eps := eps_pos.le

/-! ## Vocabularies -/

/-- `TaskKind` (`core/messages/enums.py:45-59`). -/
inductive TaskKind where
  | goto | sample | excavate | haul | dock | hop | charge | prospect | deploy | standby | custom
  deriving DecidableEq, Repr

/-- `CapabilityTag` (`core/sadf/enums.py:44-134`). -/
inductive CapabilityTag where
  | mobilityWheeled | mobilityTracked | mobilityLegged | mobilityHop | mobilityOrbiter
  | mobilityRocket | propulsionChemical | propulsionCryoChemical | propulsionElectricIon
  | propulsionColdGas | propulsionSolarSail | excavationBucket | excavationAuger | excavationScoop
  | excavationDrill | sampleCollectionDrill | sampleCollectionScoop | sampleCollectionAuger
  | sampleCollectionPneumatic | sampleCollectionCaptureBag | manipulationArm | manipulationGripper
  | prospectingNeutron | prospectingNir | prospectingGpr | prospectingMassSpec
  | prospectingDrillAssay | sensingImaging | sensingRanging | sensingLidar | sensingImu
  | sensingOdometry | sensingContact | sensingAltimetry | sensingThermal | commsRelay
  | commsDirectToEarth | commsDsn | commsDtn | isruThermalExtraction | isruElectrolysis
  | isruPurification | isruStorage | powerGeneration | powerStorage | powerDistribution
  | anchoringAnchor | anchoringHarpoon | anchoringTouchAndGo | anchoringCaptureBag
  | returnSampleCanister | returnBulkHauler | earthInterfaceBallisticCapsule | staging | reusable
  | carrierDispenser | operationalTargeting | groundTruthAccess
  deriving DecidableEq, Repr

/-- `AllocationStatus` (`enums.py:33-46`). -/
inductive AllocationStatus where
  | optimal | feasible | infeasible | unknown | timeout
  deriving DecidableEq, Repr

/-- `VariableKind` (`enums.py:49-61`). -/
inductive VariableKind where
  | binary | integer | continuous | interval
  deriving DecidableEq, Repr

/-- `VariableSemantic` (`enums.py:64-79`). -/
inductive VariableSemantic where
  | assignment | startTime | windowSelect
  deriving DecidableEq, Repr

/-- `ConstraintKind` (`enums.py:82-102`). -/
inductive ConstraintKind where
  | assignmentCover | precedence | timeWindow | noOverlap | cumulative | linear
  deriving DecidableEq, Repr

/-- `ConstraintSense` (`enums.py:105-110`). -/
inductive ConstraintSense where
  | le | eq | ge
  deriving DecidableEq, Repr

/-- `ObjectiveSense` (`enums.py:113-117`). -/
inductive ObjectiveSense where
  | minimize | maximize
  deriving DecidableEq, Repr

/-! ## Requests -/

/-- `Vec3` (`core/messages/model.py`), a position in metres. -/
structure Vec3 where
  x : ℚ
  y : ℚ
  z : ℚ

/-- `TimeWindow` (`api/model.py:95-116`). -/
structure TimeWindow where
  startS : ℚ
  endS : ℚ
  ordered : startS ≤ endS

/-- `Task` (`api/model.py:119-148`); of `value` the mean, of `location` the centre. -/
structure Task where
  taskId : String
  kind : TaskKind
  location : Option Vec3
  resourceTargetRef : Option String
  requiredCapabilities : List CapabilityTag
  timeWindows : List TimeWindow
  precedence : List String
  durationS : ℚ
  valueMean : ℚ
  duration_nonneg : 0 ≤ durationS

/-- `AssetRef` (`api/model.py:151-163`). -/
structure AssetRef where
  assetId : String
  capabilityTags : List CapabilityTag
  budgets : Dict String ℚ

/-- `Objective` (`api/model.py:166-180`). -/
structure Objective where
  sense : ObjectiveSense
  weights : Dict String ℚ

/-- `preds` of `_assert_acyclic` (`api/model.py:237`). -/
def precedenceOf (tasks : List Task) : Dict String (List String) :=
  Dict.ofList (tasks.map fun t => (t.taskId, t.precedence))

/-- `AllocationRequest` with the checks of `_well_formed` (`api/model.py:202-251`). -/
structure AllocationRequest where
  tasks : List Task
  assets : List AssetRef
  objective : Objective
  tasks_ne_nil : tasks ≠ []
  assets_ne_nil : assets ≠ []
  taskIds_nodup : (tasks.map Task.taskId).Nodup
  assetIds_nodup : (assets.map AssetRef.assetId).Nodup
  precedence_irrefl : ∀ t ∈ tasks, t.taskId ∉ t.precedence
  precedence_known : ∀ t ∈ tasks, ∀ p ∈ t.precedence, p ∈ tasks.map Task.taskId
  precedence_acyclic : (Kahn.order (precedenceOf tasks)).length = (precedenceOf tasks).entries.length

/-! ## Plans -/

/-- `ScheduledTask` (`api/model.py:292-304`). -/
structure ScheduledTask where
  taskId : String
  kind : TaskKind
  startS : ℚ
  endS : ℚ
  ordered : startS ≤ endS

/-- `AssetSchedule` (`api/model.py:307-336`): time-ordered and not double-booked by its own ends. -/
structure AssetSchedule where
  assetId : String
  tasks : List ScheduledTask
  timeOrdered_and_disjoint :
    tasks.IsChain fun previous current =>
      previous.startS ≤ current.startS ∧ previous.endS - eps ≤ current.startS

/-- `Allocation` with `_feasibility_contract` (`api/model.py:419-456`), without its explanation. -/
structure Allocation where
  status : AllocationStatus
  plan : Option (List AssetSchedule)
  realizedObjective : Option ℚ
  feasible_plan : status = .optimal ∨ status = .feasible → plan.isSome
  infeasible_plan : status = .infeasible → plan = none

/-! ## The Allocation IR -/

/-- `DecisionVariable` (`ir/model.py:63-81`). -/
structure DecisionVariable where
  id : String
  kind : VariableKind
  lower : Option ℚ
  upper : Option ℚ
  semantic : VariableSemantic
  taskRef : Option String
  assetRef : Option String

/-- `ConstraintTerm` (`ir/model.py:84-88`). -/
structure ConstraintTerm where
  varRef : String
  coefficient : ℚ

/-- `Constraint` (`ir/model.py:91-105`). -/
structure Constraint where
  id : String
  kind : ConstraintKind
  terms : List ConstraintTerm
  sense : ConstraintSense
  rhs : ℚ

/-- `ObjectiveTerm` (`ir/model.py:108-118`). -/
structure ObjectiveTerm where
  id : String
  varRef : String
  coefficient : ℚ

/-- `AllocationIR` with `_referential_integrity` (`ir/model.py:121-158`). -/
structure AllocationIR where
  decisionVariables : List DecisionVariable
  constraints : List Constraint
  objectiveTerms : List ObjectiveTerm
  objectiveSense : ObjectiveSense
  variableIds_nodup : (decisionVariables.map DecisionVariable.id).Nodup
  constraintIds_nodup : (constraints.map Constraint.id).Nodup
  objectiveIds_nodup : (objectiveTerms.map ObjectiveTerm.id).Nodup
  constraint_refs : ∀ c ∈ constraints, ∀ t ∈ c.terms, t.varRef ∈ decisionVariables.map DecisionVariable.id
  objective_refs : ∀ o ∈ objectiveTerms, o.varRef ∈ decisionVariables.map DecisionVariable.id

/-- The errors of `_referential_integrity`. -/
inductive IRError where
  | duplicateVariableId
  | duplicateConstraintId
  | duplicateObjectiveTermId
  | unknownConstraintVariable (constraintId varRef : String)
  | unknownObjectiveVariable (termId varRef : String)
  deriving DecidableEq, Repr

/-- The messages of `_referential_integrity`, ids quoted. -/
def IRError.message : IRError → String
  | .duplicateVariableId => "duplicate variable id in AllocationIR.variables"
  | .duplicateConstraintId => "duplicate constraint id in AllocationIR.constraints"
  | .duplicateObjectiveTermId => "duplicate objective-term id in AllocationIR.objective_terms"
  | .unknownConstraintVariable c v =>
    "constraint '" ++ c ++ "' references unknown variable '" ++ v ++ "'"
  | .unknownObjectiveVariable o v =>
    "objective term '" ++ o ++ "' references unknown variable '" ++ v ++ "'"

/-- The first term of a constraint that names no variable. -/
def firstUnknownTerm (ids : List String) (constraints : List Constraint) :
    Option (String × String) :=
  constraints.findSome? fun c =>
    (c.terms.find? fun t => t.varRef ∉ ids).map fun t => (c.id, t.varRef)

theorem firstUnknownTerm_eq_none {ids : List String} {constraints : List Constraint} :
    firstUnknownTerm ids constraints = none ↔
      ∀ c ∈ constraints, ∀ t ∈ c.terms, t.varRef ∈ ids := by
  simp [firstUnknownTerm, List.findSome?_eq_none_iff]

/-- The first objective term that names no variable. -/
def firstUnknownObjective (ids : List String) (objectiveTerms : List ObjectiveTerm) :
    Option (String × String) :=
  (objectiveTerms.find? fun o => o.varRef ∉ ids).map fun o => (o.id, o.varRef)

theorem firstUnknownObjective_eq_none {ids : List String} {objectiveTerms : List ObjectiveTerm} :
    firstUnknownObjective ids objectiveTerms = none ↔ ∀ o ∈ objectiveTerms, o.varRef ∈ ids := by
  simp [firstUnknownObjective]

/-- The constructor of `AllocationIR`: the checks in the order of the source. -/
def AllocationIR.create (vs : List DecisionVariable) (cs : List Constraint)
    (os : List ObjectiveTerm) (sense : ObjectiveSense) : Except IRError AllocationIR :=
  if hv : (vs.map DecisionVariable.id).Nodup then
    if hc : (cs.map Constraint.id).Nodup then
      if ho : (os.map ObjectiveTerm.id).Nodup then
        match hcr : firstUnknownTerm (vs.map DecisionVariable.id) cs with
        | some (c, v) => .error (.unknownConstraintVariable c v)
        | none =>
          match hor : firstUnknownObjective (vs.map DecisionVariable.id) os with
          | some (o, v) => .error (.unknownObjectiveVariable o v)
          | none => .ok ⟨vs, cs, os, sense, hv, hc, ho, firstUnknownTerm_eq_none.1 hcr,
              firstUnknownObjective_eq_none.1 hor⟩
      else .error .duplicateObjectiveTermId
    else .error .duplicateConstraintId
  else .error .duplicateVariableId

/-- What is in an IR that was accepted. -/
theorem AllocationIR.create_eq_ok {vs : List DecisionVariable} {cs : List Constraint}
    {os : List ObjectiveTerm} {sense : ObjectiveSense} {ir : AllocationIR}
    (h : AllocationIR.create vs cs os sense = .ok ir) :
    ir.decisionVariables = vs ∧ ir.constraints = cs ∧ ir.objectiveTerms = os ∧
      ir.objectiveSense = sense := by
  unfold AllocationIR.create at h
  split_ifs at h
  split at h
  · cases h
  · split at h
    · cases h
    · injection h with h
      subst h
      exact ⟨rfl, rfl, rfl, rfl⟩

/-- Distinct names and known references are accepted. -/
theorem AllocationIR.exists_create_eq_ok {vs : List DecisionVariable} {cs : List Constraint}
    {os : List ObjectiveTerm} (sense : ObjectiveSense)
    (hv : (vs.map DecisionVariable.id).Nodup) (hc : (cs.map Constraint.id).Nodup)
    (ho : (os.map ObjectiveTerm.id).Nodup)
    (hcr : ∀ c ∈ cs, ∀ t ∈ c.terms, t.varRef ∈ vs.map DecisionVariable.id)
    (hor : ∀ o ∈ os, o.varRef ∈ vs.map DecisionVariable.id) :
    ∃ ir, AllocationIR.create vs cs os sense = .ok ir := by
  refine ⟨⟨vs, cs, os, sense, hv, hc, ho, hcr, hor⟩, ?_⟩
  unfold AllocationIR.create
  rw [dif_pos hv, dif_pos hc, dif_pos ho]
  split
  · rename_i hne
    rw [firstUnknownTerm_eq_none.2 hcr] at hne
    cases hne
  · split
    · rename_i hne
      rw [firstUnknownObjective_eq_none.2 hor] at hne
      cases hne
    · rfl

/-! ## Lookups -/

/-- Two decisionVariables of an IR with one id are the same. -/
theorem AllocationIR.variable_eq_of_id {ir : AllocationIR} {v w : DecisionVariable}
    (hv : v ∈ ir.decisionVariables) (hw : w ∈ ir.decisionVariables) (h : v.id = w.id) : v = w :=
  List.inj_on_of_nodup_map ir.variableIds_nodup hv hw h

/-- `var_by_id` (`schedule.py:67`, `cpsat.py:279`, `trivial.py:63`). -/
def AllocationIR.varById (ir : AllocationIR) (id : String) : Option DecisionVariable :=
  ir.decisionVariables.find? fun v => v.id = id

theorem AllocationIR.varById_eq_some {ir : AllocationIR} {id : String} {v : DecisionVariable} :
    ir.varById id = some v ↔ v ∈ ir.decisionVariables ∧ v.id = id := by
  constructor
  · intro h
    exact ⟨List.mem_of_find?_eq_some h, by simpa using List.find?_some h⟩
  · rintro ⟨hv, rfl⟩
    have hs : (ir.decisionVariables.find? fun w => w.id = v.id).isSome := by
      rw [List.find?_isSome]
      exact ⟨v, hv, by simp⟩
    obtain ⟨w, hw⟩ := Option.isSome_iff_exists.mp hs
    have hwid : w.id = v.id := by simpa using List.find?_some hw
    have hwm := List.mem_of_find?_eq_some hw
    rw [AllocationIR.varById, hw, AllocationIR.variable_eq_of_id hwm hv hwid]

end AstroMine.Allocate
