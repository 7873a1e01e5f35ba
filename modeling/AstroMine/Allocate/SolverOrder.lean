import AstroMine.Allocate.Bounds
import AstroMine.Allocate.Precedence

/-!
# The order of the greedy solver

The greedy backend reads the tasks and their precedences back from an IR (`solvers/trivial.py:62-173`)
and runs the planner's loop on them (`solvers/trivial.py:198-213`). The tasks are a set there, so
the model takes them in any order.

Results:
* `mem_precede`: the precedences read back are those of the request.
* `solverOrder_eq`: the solver takes the tasks in the order of the planner.
-/

namespace AstroMine.Allocate

/-! ## The structure read out of an IR -/

/-- `_semantic` (`trivial.py:176-177`). -/
def semanticOf (ir : AllocationIR) (varId : String) : Option VariableSemantic :=
  (ir.varById varId).map DecisionVariable.semantic

/-- `_task_of` (`trivial.py:180-183`). -/
def taskOf (ir : AllocationIR) (varId : Option String) : Option String :=
  varId.bind fun id => (ir.varById id).bind DecisionVariable.taskRef

/-- `_Model.tasks` (`trivial.py:77-86`), with repetitions: the tasks of the start variables. -/
def startTasks (ir : AllocationIR) : List String :=
  ir.decisionVariables.filterMap fun v =>
    if v.semantic = .startTime then truthy v.taskRef else none

/-- The edge that `_ingest` reads from a constraint (`trivial.py:112-163`). What it reads from a
    constraint with a single term is no edge. -/
def precedenceEdge (ir : AllocationIR) (c : Constraint) : Option (String × String) :=
  if isScheduling c.kind then none
  else if c.terms.any fun t => semanticOf ir t.varRef = some .windowSelect then none
  else if c.kind = .precedence ∧ c.terms.length = 2 then
    let child := (c.terms.find? fun t => 0 < t.coefficient).map ConstraintTerm.varRef
    let pred := (c.terms.find? fun t => t.coefficient < 0).map ConstraintTerm.varRef
    match taskOf ir child, taskOf ir pred with
    | some childTask, some predTask => some (childTask, predTask)
    | _, _ => none
  else none

/-- `self.precede.get(task, set())`. -/
def precede (ir : AllocationIR) (taskId : String) : List String :=
  ((ir.constraints.filterMap (precedenceEdge ir)).filter fun e => e.1 = taskId).map Prod.snd

/-- `preds` of `_topological_order` (`trivial.py:200-201`). -/
def solverPreds (ir : AllocationIR) (tasks : List String) : Dict String (List String) :=
  Dict.ofList (tasks.map fun t => (t, (precede ir t).filter fun p => p ∈ tasks))

/-- `_topological_order` (`trivial.py:198-213`), the loop of the planner. -/
def solverOrder (ir : AllocationIR) (tasks : List String) : List String :=
  let preds := solverPreds ir tasks
  (plannerRun preds.entries.length (Kahn.init preds)).removed

/-! ## Produced IRs -/

section Produced

variable {request : AllocationRequest} {ir : AllocationIR}

theorem varById_start (hS : Skeleton request ir) {t : Task} (ht : t ∈ request.tasks) :
    ir.varById (startVarId t.taskId) = some (startVariable t) :=
  AllocationIR.varById_eq_some.2 ⟨hS.start_mem ht, rfl⟩

theorem varById_assignment (hS : Skeleton request ir) {t : Task} (ht : t ∈ request.tasks)
    {a : String} (ha : a ∈ eligible request t) :
    ir.varById (assignmentVarId t.taskId a) = some (assignmentVariable t.taskId a) :=
  AllocationIR.varById_eq_some.2 ⟨hS.assignment_mem ht ha, rfl⟩

theorem semanticOf_start (hS : Skeleton request ir) {t : Task} (ht : t ∈ request.tasks) :
    semanticOf ir (startVarId t.taskId) = some .startTime := by
  rw [semanticOf, varById_start hS ht]
  rfl

theorem taskOf_start (hS : Skeleton request ir) {t : Task} (ht : t ∈ request.tasks) :
    taskOf ir (some (startVarId t.taskId)) = some t.taskId := by
  rw [taskOf, Option.bind_some, varById_start hS ht]
  rfl

theorem semanticOf_assignment (hS : Skeleton request ir) {t : Task} (ht : t ∈ request.tasks)
    {a : String} (ha : a ∈ eligible request t) :
    semanticOf ir (assignmentVarId t.taskId a) = some .assignment := by
  rw [semanticOf, varById_assignment hS ht ha]
  rfl

/-- The tasks read back are those of the request with a name. -/
theorem mem_startTasks (hS : Skeleton request ir) {taskId : String} :
    taskId ∈ startTasks ir ↔ taskId ≠ "" ∧ ∃ t ∈ request.tasks, t.taskId = taskId := by
  rw [startTasks, List.mem_filterMap]
  constructor
  · rintro ⟨v, hv, h⟩
    rcases hS.variable_cases hv with ⟨t, ht, a, -, rfl⟩ | ⟨t, ht, rfl⟩ | ⟨t, ht, -, i, -, rfl⟩
    · cases h
    · have hcond : (truthy (some t.taskId)) = some taskId := h
      rw [truthy, Option.filter_eq_some_iff] at hcond
      obtain ⟨heq, hne⟩ := hcond
      obtain rfl := Option.some.inj heq
      exact ⟨by simpa using hne, t, ht, rfl⟩
    · cases h
  · rintro ⟨hne, t, ht, rfl⟩
    exact ⟨startVariable t, hS.start_mem ht, truthy_some hne⟩

/-- A precedence constraint is read as the pair it was written for. -/
theorem precedenceEdge_constraint (hS : Skeleton request ir) {t u : Task} (ht : t ∈ request.tasks)
    (hu : u ∈ request.tasks) :
    precedenceEdge ir (precedenceConstraint t u.taskId) = some (t.taskId, u.taskId) := by
  have hchild : (([⟨startVarId t.taskId, 1⟩, ⟨startVarId u.taskId, -1⟩] :
      List ConstraintTerm).find? fun t => 0 < t.coefficient) = some ⟨startVarId t.taskId, 1⟩ := by
    simp
  have hpred : (([⟨startVarId t.taskId, 1⟩, ⟨startVarId u.taskId, -1⟩] :
      List ConstraintTerm).find? fun t => t.coefficient < 0) = some ⟨startVarId u.taskId, -1⟩ := by
    rw [List.find?_cons_of_neg (by norm_num), List.find?_cons_of_pos (by norm_num)]
  have hany : (precedenceConstraint t u.taskId).terms.any
      (fun t => semanticOf ir t.varRef = some .windowSelect) = false := by
    simp [precedenceConstraint, semanticOf_start hS ht, semanticOf_start hS hu]
  rw [precedenceEdge, if_neg (by simp [precedenceConstraint, isScheduling]), if_neg (by simp [hany]),
    if_pos ⟨rfl, rfl⟩]
  simp only [precedenceConstraint, hchild, hpred, Option.map_some, taskOf_start hS ht,
    taskOf_start hS hu]

/-- Only the precedence constraints of the request are read as edges. -/
theorem precedenceEdge_eq_some {c : Constraint} (hc : Emitted request c) {e : String × String}
    (h : precedenceEdge ir c = some e) :
    ∃ t ∈ request.tasks, ∃ p ∈ t.precedence, c = precedenceConstraint t p := by
  have hkind : c.kind = .precedence := by
    unfold precedenceEdge at h
    split_ifs at h with h1 h2 h3
    exact h3.1
  cases hc with
  | linear hlin =>
    obtain ⟨t, ht, rfl | hw | ⟨p, hp, rfl⟩⟩ := mem_linearConstraints.1 hlin
    · cases hkind
    · cases hkind.symm.trans (windowConstraint_kind hw)
    · exact ⟨t, ht, p, hp, rfl⟩
  | startBound id ht sense bound => cases hkind
  | budget id asset energy h available => cases hkind
  | keepout ht ha => cases hkind
  | noOverlap hnd hsizes h => cases hkind

/-- The precedences read back are those of the request. -/
theorem mem_precede (h : Produced request ir) {taskId p : String} :
    p ∈ precede ir taskId ↔ Precedes request.tasks p taskId := by
  have hS := h.skeleton
  simp only [precede, List.mem_map, List.mem_filter, List.mem_filterMap, decide_eq_true_eq]
  constructor
  · rintro ⟨⟨c', p'⟩, ⟨⟨c, hc, he⟩, rfl⟩, rfl⟩
    obtain ⟨t, ht, q, hq, rfl⟩ := precedenceEdge_eq_some (h.emitted c hc) he
    obtain ⟨u, hu, rfl⟩ := List.mem_map.mp (request.precedence_known t ht q hq)
    rw [precedenceEdge_constraint hS ht hu] at he
    obtain ⟨rfl, rfl⟩ := Prod.mk.inj (Option.some.inj he)
    exact ⟨t, ht, rfl, hq⟩
  · rintro ⟨t, ht, rfl, hp⟩
    obtain ⟨u, hu, rfl⟩ := List.mem_map.mp (request.precedence_known t ht p hp)
    refine ⟨(t.taskId, u.taskId), ⟨⟨precedenceConstraint t u.taskId, ?_,
      precedenceEdge_constraint hS ht hu⟩, rfl⟩, rfl⟩
    exact hS.precedenceConstraint_mem ht hp

/-- **Main theorem.** On a request whose tasks are all named, the solver takes the tasks in the order
    of the planner, however it lists them. -/
theorem solverOrder_eq (h : Produced request ir) (hnamed : ∀ t ∈ request.tasks, t.taskId ≠ "")
    {tasks : List String} (hnodup : tasks.Nodup) (htasks : ∀ t, t ∈ tasks ↔ t ∈ startTasks ir) :
    solverOrder ir tasks = topologicalOrder request := by
  have hmem : ∀ id, id ∈ tasks ↔ ∃ t ∈ request.tasks, t.taskId = id := by
    intro id
    rw [htasks, mem_startTasks h.skeleton]
    exact and_iff_right_of_imp fun ⟨t, ht, hid⟩ => hid ▸ hnamed t ht
  have hentries : (solverPreds ir tasks).entries =
      tasks.map fun t => (t, (precede ir t).filter fun p => p ∈ tasks) := by
    refine Dict.entries_ofList ?_
    rw [List.map_map]
    exact (List.map_id tasks).symm ▸ hnodup
  have hpreds : ∀ t ∈ request.tasks, ∀ p,
      p ∈ (precede ir t.taskId).filter (fun p => p ∈ tasks) ↔ p ∈ t.precedence := by
    intro t ht p
    rw [List.mem_filter, mem_precede h, decide_eq_true_eq, hmem]
    constructor
    · rintro ⟨⟨u, hu, hid, hp⟩, -⟩
      rwa [← task_eq_of_taskId hu ht hid]
    · intro hp
      exact ⟨⟨t, ht, rfl, hp⟩, List.mem_map.mp (request.precedence_known t ht p hp)⟩
  rw [solverOrder, plannerRun_eq, topologicalOrder_eq]
  refine Kahn.order_congr ?_ ?_ request.precedence_acyclic
  · intro id ps hps
    rw [hentries] at hps
    obtain ⟨id, hid, he⟩ := List.mem_map.mp hps
    obtain ⟨rfl, rfl⟩ := Prod.mk.inj he
    obtain ⟨t, ht, rfl⟩ := (hmem id).mp hid
    refine ⟨t.precedence, ?_, hpreds t ht⟩
    rw [entries_precedenceOf request.taskIds_nodup]
    exact List.mem_map.mpr ⟨t, ht, rfl⟩
  · intro id ps hps
    rw [entries_precedenceOf request.taskIds_nodup] at hps
    obtain ⟨t, ht, he⟩ := List.mem_map.mp hps
    obtain ⟨rfl, rfl⟩ := Prod.mk.inj he
    refine ⟨_, ?_, fun p => (hpreds t ht p).symm⟩
    rw [hentries]
    exact List.mem_map.mpr ⟨t.taskId, (hmem _).mpr ⟨t, ht, rfl⟩, rfl⟩

end Produced

end AstroMine.Allocate
