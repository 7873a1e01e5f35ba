import AstroMine.Allocate.Decode
import AstroMine.Allocate.SolverOrder
import AstroMine.Allocate.WindowOrder

/-!
# The greedy solver

`TrivialStubSolver` (`solvers/trivial.py`): what it reads out of an IR, how it places a task, and its
loop. Tasks, precedences and windows are read in `SolverOrder` and `WindowOrder`.

Results:
* `mem_forbidden`, `getD_sizes`, `le_winLo`, `winHi_le`: what is read of keep-outs, sizes and bounds.
* `place_single`, `place_plural`: where a task can start.
* `commonAsset_eq_some`: only a budget with a single term has a common asset.
* `get?_budgetCap`, `get?_budgetCost`: what is read of such a budget.
-/

namespace AstroMine.Allocate

open Skeleton (InWindow selectorChoice)
open scoped Texts

namespace Stub

/-! ## What is read out of an IR -/

/-- The single asset of the assignment terms (`_common_asset`, `trivial.py:185-195`). The number of
    assets is compared with the number of terms, as the source does. -/
def commonAsset (ir : AllocationIR) (c : Constraint) : Option String :=
  let assets := (c.terms.filterMap fun t => (ir.varById t.varRef).bind fun v =>
    if v.semantic = .assignment then v.assetRef else none).dedup
  if assets.length = 1 ∧ assets.length = c.terms.length then assets.head? else none

/-- What `_ingest` takes a constraint for. -/
inductive Ingested where
  | sizes (resource : String)
  | keepout (pair : Pair)
  | bound (task : String)
  | precedence
  | budget (asset : String)
  | ignored
  deriving DecidableEq, Repr

/-- The pair of a single assignment term that is pinned to zero (`trivial.py:128-140`). -/
def pinned (ir : AllocationIR) (c : Constraint) : Option Pair :=
  if c.terms.length = 1 ∧ (c.sense = .eq ∨ c.sense = .le) ∧ |c.rhs| ≤ eps then
    c.terms.head?.bind fun t => (ir.varById t.varRef).bind pairOf
  else none

/-- `_ingest` (`trivial.py:113-172`), branch by branch; `precedenceEdge` is what it reads of a
    precedence. -/
def ingest (ir : AllocationIR) (c : Constraint) : Ingested :=
  if isScheduling c.kind then .sizes (resourceId c.id)
  else if c.terms.any fun t => semanticOf ir t.varRef = some .windowSelect then .ignored
  else match pinned ir c with
  | some pair => .keepout pair
  | none =>
    if c.terms.length = 1 ∧
        (c.terms.filter fun t => semanticOf ir t.varRef = some .startTime).length = 1 then
      match taskOf ir (c.terms.head?.map ConstraintTerm.varRef) with
      | some task => .bound task
      | none => .ignored
    else if c.kind = .precedence ∧ c.terms.length = 2 then .precedence
    else if c.sense = .le ∧ 1 ≤ c.terms.length then
      match commonAsset ir c with
      | some asset => .budget asset
      | none => .ignored
    else .ignored

/-- `forbidden`. -/
def forbidden (ir : AllocationIR) : List Pair :=
  ir.constraints.filterMap fun c => match ingest ir c with
    | .keepout pair => some pair
    | _ => none

/-- `sizes`. -/
def sizes (ir : AllocationIR) : Dict Pair ℚ :=
  Dict.ofList (ir.constraints.flatMap fun c => match ingest ir c with
    | .sizes resource => c.terms.filterMap fun t =>
        (taskOf ir (some t.varRef)).map fun task => ((task, resource), t.coefficient)
    | _ => [])

/-- `budget_cap`. -/
def budgetCap (ir : AllocationIR) : Dict String ℚ :=
  Dict.ofList (ir.constraints.filterMap fun c => match ingest ir c with
    | .budget asset => some (asset, c.rhs)
    | _ => none)

/-- `budget_cost`. -/
def budgetCost (ir : AllocationIR) : Dict Pair ℚ :=
  Dict.ofList (ir.constraints.flatMap fun c => match ingest ir c with
    | .budget asset => c.terms.filterMap fun t =>
        (taskOf ir (some t.varRef)).map fun task => ((task, asset), t.coefficient)
    | _ => [])

/-- The single bounds of the start of a task, in the order of the constraints. -/
def bounds (ir : AllocationIR) (sense : ConstraintSense) (task : String) : List ℚ :=
  ir.constraints.filterMap fun c =>
    if ingest ir c = .bound task ∧ c.sense = sense then some c.rhs else none

/-- `win_lo`, `0` where it has no entry: the bound of the variable, raised by the constraints. -/
def winLo (ir : AllocationIR) (task : String) : ℚ :=
  let lowers := Dict.ofList (ir.decisionVariables.filterMap fun v =>
    if v.semantic = .startTime then (truthy v.taskRef).map fun t => (t, v.lower.getD 0) else none)
  (bounds ir .ge task).foldl max (lowers.getD task 0)

/-- `win_hi`: the bound of the variable, lowered by the constraints. -/
def winHi (ir : AllocationIR) (task : String) : Option ℚ :=
  let uppers := Dict.ofList (ir.decisionVariables.filterMap fun v =>
    if v.semantic = .startTime then
      (truthy v.taskRef).bind fun t => v.upper.map fun upper => (t, upper)
    else none)
  (bounds ir .le task).foldl (fun hi rhs => some (min (hi.getD rhs) rhs)) (uppers.get? task)

/-! ## The loop -/

/-- `place` (`trivial.py:93-114`). -/
def place (ir : AllocationIR) (task : String) (notBefore : ℚ) : Option ℚ :=
  let alternatives := (windowChoices ir).getD task []
  if alternatives ≠ [] then placeAmong alternatives notBefore
  else
    let start := max notBefore (winLo ir task)
    if (winHi ir task).any fun hi => hi + eps < start then none else some start

/-- The dictionaries of `solve` (`trivial.py:237-240`). -/
structure State where
  assignment : Dict String String
  starts : Dict String ℚ
  used : Dict String ℚ
  busyUntil : Dict String ℚ

/-- The dictionaries before the loop. -/
def State.init : State := ⟨Dict.empty, Dict.empty, Dict.empty, Dict.empty⟩

/-- Whether the task would overrun the cap of the asset (`trivial.py:282-285`). -/
def overCap (ir : AllocationIR) (s : State) (task asset : String) : Bool :=
  ((budgetCap ir).get? asset).any fun cap =>
    cap + eps < s.used.getD asset 0 + (budgetCost ir).getD (task, asset) 0

/-- `_choose` (`trivial.py:265-290`). -/
def choose (ir : AllocationIR) (s : State) (task : String) (notBefore : ℚ) :
    Option (String × ℚ) :=
  ((assignmentPairs ir).getD task []).findSome? fun asset =>
    if (task, asset) ∈ forbidden ir ∨ overCap ir s task asset then none
    else (place ir task (max notBefore (s.busyUntil.getD asset 0))).map fun start => (asset, start)

/-- `not_before` (`trivial.py:243-245`). -/
def notBefore (ir : AllocationIR) (s : State) (task : String) : ℚ :=
  latest ((precede ir task).filterMap s.starts.get?)

/-- The loop body of `solve` (`trivial.py:242-253`); `none` reports infeasible. -/
def step (ir : AllocationIR) (s : State) (task : String) : Option State :=
  (choose ir s task (notBefore ir s task)).map fun placed =>
    { assignment := s.assignment.set task placed.1
      starts := s.starts.set task placed.2
      used := s.used.set placed.1 (s.used.getD placed.1 0 + (budgetCost ir).getD (task, placed.1) 0)
      busyUntil := s.busyUntil.set placed.1 (placed.2 + (sizes ir).getD (task, placed.1) 0) }

/-- The loop over the tasks. -/
def run (ir : AllocationIR) : List String → State → Option State
  | [], s => some s
  | task :: tasks, s => (step ir s task).bind (run ir tasks)

end Stub

/-- `_infeasible` (`trivial.py:293-301`). -/
def infeasibleIncumbent : Incumbent where
  objective := 0
  bound := none
  gap := none
  plan := []
  status := .infeasible
  isFeasible := false

/-- `TrivialStubSolver` (`trivial.py:216-229`). -/
structure TrivialStubSolver where
  taskKinds : Dict String TaskKind
  durations : Dict Pair ℚ

/-- `solve` (`trivial.py:228-263`), on the tasks listed in any order. -/
def TrivialStubSolver.solve (solver : TrivialStubSolver) (ir : AllocationIR)
    (tasks : List String) : Except PlanError Incumbent :=
  match Stub.run ir (solverOrder ir tasks) .init with
  | none => .ok infeasibleIncumbent
  | some s => do
    let plan ← buildPlan s.assignment s.starts solver.taskKinds solver.durations
    return { objective := realizedObjective ir s.assignment
             bound := none
             gap := none
             plan := plan
             status := .feasible }

/-! ## Constraints read -/

namespace Stub

section Reading

variable {request : AllocationRequest} {ir : AllocationIR}

/-- A bound of a single start is read as one. -/
theorem ingest_startBound (hS : Skeleton request ir) {t : Task} (ht : t ∈ request.tasks)
    (id : String) (sense : ConstraintSense) (bound : ℚ) :
    ingest ir ⟨id, .timeWindow, [⟨startVarId t.taskId, 1⟩], sense, bound⟩ = .bound t.taskId := by
  have hpinned : pinned ir ⟨id, .timeWindow, [⟨startVarId t.taskId, 1⟩], sense, bound⟩ = none := by
    unfold pinned
    split_ifs
    · rw [List.head?_cons, Option.bind_some, varById_start hS ht]
      rfl
    · rfl
  rw [ingest, if_neg (show ¬isScheduling .timeWindow = true by decide), hpinned]
  simp [semanticOf_start hS ht, taskOf_start hS ht]

/-- The pair of a single pinned term over an assignment variable. -/
theorem ingest_pinned (hS : Skeleton request ir) {t : Task} (ht : t ∈ request.tasks) {a : String}
    (ha : a ∈ eligible request t) (hne : t.taskId ≠ "") (hane : a ≠ "") {c : Constraint}
    (hkind : isScheduling c.kind = false) {coefficient : ℚ}
    (hterms : c.terms = [⟨assignmentVarId t.taskId a, coefficient⟩])
    (hsense : c.sense = .eq ∨ c.sense = .le) (hrhs : |c.rhs| ≤ eps) :
    ingest ir c = .keepout (t.taskId, a) := by
  have hpinned : pinned ir c = some (t.taskId, a) := by
    rw [pinned, if_pos ⟨by rw [hterms]; rfl, hsense, hrhs⟩, hterms, List.head?_cons, Option.bind_some,
      varById_assignment hS ht ha, Option.bind_some]
    exact pairOf_eq_some.2 ⟨rfl, rfl, rfl, hne, hane⟩
  rw [ingest, if_neg (by rw [hkind]; exact Bool.false_ne_true), hpinned]
  simp [hterms, semanticOf_assignment hS ht ha]

/-- A budget over one pair that leaves something is read as a cap. -/
theorem ingest_budget (hS : Skeleton request ir) {t : Task} (ht : t ∈ request.tasks) {a : String}
    (ha : a ∈ eligible request t) (id : String) (energy : ℚ) {available : ℚ}
    (hrhs : eps < |available|) :
    ingest ir ⟨id, .linear, [⟨assignmentVarId t.taskId a, energy⟩], .le, available⟩ = .budget a := by
  have hcommon : commonAsset ir
      ⟨id, .linear, [⟨assignmentVarId t.taskId a, energy⟩], .le, available⟩ = some a := by
    simp [commonAsset, varById_assignment hS ht ha, assignmentVariable]
  have hpinned : pinned ir
      ⟨id, .linear, [⟨assignmentVarId t.taskId a, energy⟩], .le, available⟩ = none :=
    if_neg fun h => absurd h.2.2 (not_le.2 hrhs)
  rw [ingest, if_neg (show ¬isScheduling .linear = true by decide), hpinned, hcommon]
  simp [semanticOf_assignment hS ht ha]

theorem ingest_scheduling {c : Constraint} (h : isScheduling c.kind = true) :
    ingest ir c = .sizes (resourceId c.id) := if_pos h

theorem ingest_eq_sizes {c : Constraint} {resource : String} (h : ingest ir c = .sizes resource) :
    isScheduling c.kind = true ∧ resourceId c.id = resource := by
  unfold ingest at h
  split_ifs at h with hkind hselector hbound hedge hle
  · cases h
    exact ⟨hkind, rfl⟩
  · cases hp : pinned ir c <;> rw [hp] at h
    · cases ht : taskOf ir (c.terms.head?.map ConstraintTerm.varRef) <;> simp [ht] at h
    · cases h
  · cases hp : pinned ir c <;> simp [hp] at h
  · cases hp : pinned ir c <;> rw [hp] at h
    · cases ha : commonAsset ir c <;> simp [ha] at h
    · cases h
  · cases hp : pinned ir c <;> simp [hp] at h

/-- **Only a budget with a single term has a common asset.** -/
theorem commonAsset_eq_some {c : Constraint} {a : String} (h : commonAsset ir c = some a) :
    ∃ term v, c.terms = [term] ∧ ir.varById term.varRef = some v ∧ v.semantic = .assignment ∧
      v.assetRef = some a := by
  unfold commonAsset at h
  dsimp only at h
  split_ifs at h with hlength
  obtain ⟨term, hterm⟩ := List.length_eq_one_iff.1 (hlength.2.symm.trans hlength.1)
  have hmem := List.mem_of_head? h
  rw [List.mem_dedup, List.mem_filterMap] at hmem
  obtain ⟨term', hterm', hv⟩ := hmem
  obtain rfl : term' = term := by rwa [hterm, List.mem_singleton] at hterm'
  obtain ⟨v, hv, hasset⟩ := Option.bind_eq_some_iff.1 hv
  split_ifs at hasset with hsem
  exact ⟨term', v, hterm, hv, hsem, hasset⟩

theorem ingest_eq_budget {c : Constraint} {a : String} (h : ingest ir c = .budget a) :
    isScheduling c.kind = false ∧ c.sense = .le ∧ commonAsset ir c = some a := by
  unfold ingest at h
  split_ifs at h with hkind hselector hbound hedge hle
  · cases hp : pinned ir c <;> rw [hp] at h
    · cases ht : taskOf ir (c.terms.head?.map ConstraintTerm.varRef) <;> simp [ht] at h
    · cases h
  · cases hp : pinned ir c <;> simp [hp] at h
  · cases hp : pinned ir c <;> rw [hp] at h
    · cases ha : commonAsset ir c with
      | none => simp [ha] at h
      | some asset =>
        simp only [ha, Ingested.budget.injEq] at h
        exact ⟨Bool.not_eq_true _ ▸ hkind, hle.1, congrArg some h⟩
    · cases h
  · cases hp : pinned ir c <;> simp [hp] at h

theorem mem_forbidden {c : Constraint} (hc : c ∈ ir.constraints) {p : Pair}
    (h : ingest ir c = .keepout p) : p ∈ forbidden ir := by
  refine List.mem_filterMap.mpr ⟨c, hc, ?_⟩
  rw [h]

end Reading

/-! ## Sizes -/

section Sizes

variable {request : AllocationRequest} {ir : AllocationIR}

theorem constraint_eq_of_id {c c' : Constraint} (hc : c ∈ ir.constraints)
    (hc' : c' ∈ ir.constraints) (h : c.id = c'.id) : c = c' :=
  List.inj_on_of_nodup_map ir.constraintIds_nodup hc hc' h

/-- The scheduling constraints are the no-overlap constraints of assets. -/
theorem scheduling_form (h : Produced request ir) {c : Constraint} (hc : c ∈ ir.constraints)
    (hkind : isScheduling c.kind = true) : ∃ (a : String) (sz : Dict Pair ℚ) (ks : List String),
      c = ⟨noOverlapConstraintId a, .noOverlap, noOverlapTerms sz a ks, .le, 0⟩ ∧
        (∀ k ∈ ks, 0 ≤ sz.getD (k, a) 0) ∧
        ∀ k ∈ ks, ∃ t ∈ request.tasks, t.taskId = k ∧ a ∈ eligible request t := by
  cases h.emitted c hc with
  | linear hm =>
    rcases linearConstraint_kind hm with h' | h' | h' <;> rw [h'] at hkind <;> cases hkind
  | startBound => cases hkind
  | budget => cases hkind
  | keepout => cases hkind
  | @noOverlap a sz ks hnd hsizes hks => exact ⟨a, sz, ks, rfl, hsizes, hks⟩

/-- The size of a task on an asset with a no-overlap constraint. -/
theorem getD_sizes (h : Produced request ir) {a : String} {sz : Dict Pair ℚ} {ks : List String}
    (hks : ∀ k ∈ ks, ∃ t ∈ request.tasks, t.taskId = k ∧ a ∈ eligible request t)
    (hc : ⟨noOverlapConstraintId a, .noOverlap, noOverlapTerms sz a ks, .le, 0⟩ ∈ ir.constraints)
    {k : String} (hk : k ∈ ks) : (sizes ir).getD (k, a) 0 = sz.getD (k, a) 0 := by
  have hterm : ∀ k ∈ ks, taskOf ir (some (startVarId k)) = some k := by
    intro k hk
    obtain ⟨t, ht, rfl, -⟩ := hks k hk
    exact taskOf_start h.skeleton ht
  have hingest : ingest ir ⟨noOverlapConstraintId a, .noOverlap, noOverlapTerms sz a ks, .le, 0⟩ =
      .sizes (resourceId (noOverlapConstraintId a)) := ingest_scheduling rfl
  rw [Dict.getD, sizes, Dict.get?_ofList_of_forall (v := sz.getD (k, a) 0), Option.getD_some]
  · refine List.mem_flatMap.mpr ⟨_, hc, ?_⟩
    rw [hingest, resourceId_noOverlapConstraintId]
    exact List.mem_filterMap.mpr ⟨_, List.mem_map.mpr ⟨k, hk, rfl⟩, by rw [hterm k hk]; rfl⟩
  · intro p hp hpk
    obtain ⟨c', hc', hp⟩ := List.mem_flatMap.mp hp
    cases hi : ingest ir c' with
    | sizes resource =>
      rw [hi] at hp
      obtain ⟨term, hterm', hp⟩ := List.mem_filterMap.mp hp
      obtain ⟨task, htask, rfl⟩ := Option.map_eq_some_iff.mp hp
      obtain ⟨rfl, rfl⟩ := Prod.mk.inj hpk
      obtain ⟨hkind, hresource⟩ := ingest_eq_sizes hi
      obtain ⟨b, sz', ks', rfl, -, -⟩ := scheduling_form h hc' hkind
      rw [resourceId_noOverlapConstraintId] at hresource
      subst hresource
      -- one constraint to an asset
      have heq := constraint_eq_of_id hc' hc rfl
      obtain ⟨l, hl, rfl⟩ := List.mem_map.mp ((Constraint.mk.inj heq).2.2.1 ▸ hterm')
      rw [hterm l hl] at htask
      rw [← Option.some.inj htask]
    | _ => rw [hi] at hp; cases hp

theorem sizes_nonneg (h : Produced request ir) (p : Pair) : 0 ≤ (sizes ir).getD p 0 := by
  rw [Dict.getD]
  cases hp : (sizes ir).get? p with
  | none => exact le_rfl
  | some size =>
    obtain ⟨c, hc, hm⟩ := List.mem_flatMap.mp (Dict.get?_ofList_mem hp)
    cases hi : ingest ir c with
    | sizes resource =>
      rw [hi] at hm
      obtain ⟨term, hterm, hm⟩ := List.mem_filterMap.mp hm
      obtain ⟨task, -, heq⟩ := Option.map_eq_some_iff.mp hm
      obtain ⟨a, sz, ks, rfl, hnonneg, -⟩ := scheduling_form h hc (ingest_eq_sizes hi).1
      obtain ⟨k, hk, rfl⟩ := List.mem_map.mp hterm
      rw [Option.getD_some, ← (Prod.mk.inj heq).2]
      exact hnonneg k hk
    | _ => rw [hi] at hm; cases hm

end Sizes

/-! ## Starts -/

section Starts

variable {request : AllocationRequest} {ir : AllocationIR}

theorem mem_bounds (hS : Skeleton request ir) {t : Task} (ht : t ∈ request.tasks) {id : String}
    {sense : ConstraintSense} {bound : ℚ}
    (hc : ⟨id, .timeWindow, [⟨startVarId t.taskId, 1⟩], sense, bound⟩ ∈ ir.constraints) :
    bound ∈ bounds ir sense t.taskId :=
  List.mem_filterMap.mpr ⟨_, hc, if_pos ⟨ingest_startBound hS ht id sense bound, rfl⟩⟩

theorem le_winLo {task : String} {bound : ℚ} (h : bound ∈ bounds ir .ge task) :
    bound ≤ winLo ir task := (le_foldl_max id _ _).2 bound h

/-- The running minimum is at most each of the values. -/
theorem exists_foldl_min {bounds : List ℚ} {init : Option ℚ} {bound : ℚ}
    (h : bound ∈ bounds ∨ ∃ hi, init = some hi ∧ hi ≤ bound) : ∃ hi,
      bounds.foldl (fun hi rhs => some (min (hi.getD rhs) rhs)) init = some hi ∧ hi ≤ bound := by
  induction bounds generalizing init with
  | nil =>
    obtain hmem | hinit := h
    · cases hmem
    · exact hinit
  | cons x xs ih =>
    refine ih ?_
    obtain hmem | ⟨hi, rfl, hle⟩ := h
    · rcases List.mem_cons.mp hmem with rfl | hmem
      · exact .inr ⟨_, rfl, min_le_right _ _⟩
      · exact .inl hmem
    · exact .inr ⟨_, rfl, (min_le_left _ _).trans hle⟩

theorem winHi_le {task : String} {bound : ℚ} (h : bound ∈ bounds ir .le task) :
    ∃ hi, winHi ir task = some hi ∧ hi ≤ bound := exists_foldl_min (.inl h)

/-- No task starts before it is ready. -/
theorem le_of_place {task : String} {ready start : ℚ} (h : place ir task ready = some start) :
    ready ≤ start := by
  unfold place at h
  dsimp only at h
  split_ifs at h with hnil hlate
  · rw [placeAmong] at h
    obtain ⟨choice, -, hstart⟩ := List.exists_of_findSome?_eq_some h
    dsimp only at hstart
    split_ifs at hstart
    obtain rfl := Option.some.inj hstart
    exact le_max_left _ _
  · obtain rfl := Option.some.inj h
    exact le_max_left _ _

/-- A task with at most one window starts within its single bounds. -/
theorem place_single (hS : Skeleton request ir) {t : Task} (ht : t ∈ request.tasks)
    (hsg : t.timeWindows.length < 2) {ready start : ℚ} (h : place ir t.taskId ready = some start) :
    (∀ bound ∈ bounds ir .ge t.taskId, bound ≤ start) ∧
      ∀ bound ∈ bounds ir .le t.taskId, start ≤ bound + eps := by
  change (if choicesOf ir t ≠ [] then placeAmong (choicesOf ir t) ready else _) = _ at h
  rw [if_neg (not_not.2 (choicesOf_of_lt hS ht hsg))] at h
  split_ifs at h with hlate
  obtain rfl := Option.some.inj h
  refine ⟨fun bound hbound => (le_winLo hbound).trans (le_max_right _ _), fun bound hbound => ?_⟩
  obtain ⟨hi, hhi, hle⟩ := winHi_le hbound
  rw [hhi, Option.any_some, decide_eq_true_eq, not_lt] at hlate
  linarith

/-- A task with several windows starts in one of them, whatever its single bounds say. -/
theorem place_plural (hS : Skeleton request ir) {t : Task} (ht : t ∈ request.tasks)
    (hne : t.taskId ≠ "") (hpl : 2 ≤ t.timeWindows.length) {ready start : ℚ}
    (h : place ir t.taskId ready = some start) :
    ∃ w ∈ t.timeWindows, w.startS ≤ start ∧ start ≤ w.endS + eps := by
  have hchoices := windowChoices_eq_sortOn hS ht hne hpl
  have hnil : choicesOf ir t ≠ [] := by
    rw [hchoices, ne_eq, sortOn_eq_nil]
    intro hnil
    have hlength := congrArg List.length (varIds_emittedChoices hpl)
    rw [hnil, List.map_nil, List.length_nil, List.length_map, List.length_range] at hlength
    omega
  change (if choicesOf ir t ≠ [] then placeAmong (choicesOf ir t) ready else _) = _ at h
  rw [if_pos hnil, placeAmong] at h
  obtain ⟨choice, hmem, hstart⟩ := List.exists_of_findSome?_eq_some h
  rw [hchoices, mem_sortOn, mem_emittedChoices hpl] at hmem
  obtain ⟨i, w, hw, rfl⟩ := hmem
  dsimp only at hstart
  split_ifs at hstart with hle
  obtain rfl := Option.some.inj hstart
  exact ⟨w, Skeleton.mem_taskWindows.1 (List.mem_of_getElem? hw), le_max_right _ _, hle⟩

end Starts

/-! ## Budgets -/

section Budgets

variable {request : AllocationRequest} {ir : AllocationIR}

theorem pairEnergy_nonneg (costs : CostTable) (durations : Dict Pair ℚ) (policy : PowerPolicy)
    (taskId assetId : String) : 0 ≤ (pairEnergy costs durations policy taskId assetId).1 := by
  rw [pairEnergy]
  cases hl : (costs.lookup taskId assetId).bind CostEntry.energyJ with
  | none =>
    dsimp only
    split_ifs with h
    · exact mul_nonneg h.le policy.modePower_pos.le
    · exact le_rfl
  | some e =>
    obtain ⟨entry, -, he⟩ := Option.bind_eq_some_iff.mp hl
    exact entry.energy_nonneg e he

/-- The upper bounds over assignment variables are the energy budgets of assets. -/
theorem budget_form (h : Produced request ir) {c : Constraint} (hc : c ∈ ir.constraints)
    (hkind : c.kind = .linear) (hsense : c.sense = .le) :
    ∃ (a : String) (ks : List String) (energy : String → ℚ),
      c = ⟨powerConstraintId a, .linear, ks.map fun k => ⟨assignmentVarId k a, energy k⟩, .le,
          c.rhs⟩ ∧
        (∀ k, 0 ≤ energy k) ∧
        ∀ k ∈ ks, ∃ t ∈ request.tasks, t.taskId = k ∧ a ∈ eligible request t := by
  have hlinear : c ∉ linearConstraints request := by
    intro hm
    rcases linearConstraint_kind hm with h' | h' | h' <;> cases hkind.symm.trans h'
  cases h with
  | bare h =>
    rw [(compileRequest_eq_ok h).2.1, mem_requestConstraints] at hc
    rcases hc with hc | hc
    · exact absurd hc hlinear
    · obtain ⟨a, -, -, rfl⟩ := mem_noOverlapConstraints.1 hc
      cases hkind
  | @constrained slopeDeg context config costs compilation h =>
    obtain ⟨baseIR, hb, -, hconstraints, -⟩ := compileWithConstraints_eq_ok h
    rw [hconstraints, mem_constrainedConstraints hb] at hc
    rcases hc with hc | hc | hc | ⟨p, -, rfl⟩ | hc
    · exact absurd hc hlinear
    · obtain ⟨t, -, envelope, hm⟩ := buildComms_constraints hc
      rcases List.mem_pair.mp hm with rfl | rfl <;> cases hkind
    · obtain ⟨a, -, available, -, rfl⟩ := mem_power_constraints.1 hc
      have hS := skeleton_of_compileRequest hb
      refine ⟨a, _, fun k => (pairEnergy costs _ config.power k a).1, rfl,
        fun k => pairEnergy_nonneg _ _ _ k a, fun k hk => ?_⟩
      obtain ⟨t, ht, hid, ha, -⟩ :=
        hS.mem_assignmentPairs.1 ((mem_candidates hS.assignmentPairs_nodup).mp hk).1
      exact ⟨t, ht, hid, ha⟩
    · cases hsense
    · obtain ⟨a, -, -, rfl⟩ := mem_noOverlapConstraints.1 hc
      cases hkind

/-- What is read as a budget is the energy budget of an asset over one pair. -/
theorem budget_of_ingest (h : Produced request ir) {c : Constraint} (hc : c ∈ ir.constraints)
    {a : String} (hi : ingest ir c = .budget a) :
    ∃ t ∈ request.tasks, a ∈ eligible request t ∧ ∃ energy, 0 ≤ energy ∧
      c = ⟨powerConstraintId a, .linear, [⟨assignmentVarId t.taskId a, energy⟩], .le, c.rhs⟩ := by
  have hS := h.skeleton
  obtain ⟨hkind, hsense, hasset⟩ := ingest_eq_budget hi
  obtain ⟨term, v, hterms, hv, hsem, href⟩ := commonAsset_eq_some hasset
  have hstart : ∀ t ∈ request.tasks, term.varRef ≠ startVarId t.taskId := by
    intro t ht hterm
    rw [hterm, varById_start hS ht] at hv
    obtain rfl := Option.some.inj hv
    cases hsem
  have hlinear : c.kind = .linear := by
    cases h.emitted c hc with
    | linear hm =>
      obtain ⟨t, ht, rfl | hw | ⟨p, -, rfl⟩⟩ := mem_linearConstraints.1 hm
      · cases hsense
      · rcases mem_windowConstraints.1 hw with ⟨w, -, rfl | rfl⟩ | ⟨hpl, rfl | rfl | rfl⟩
        · cases hsense
        · exact absurd (congrArg ConstraintTerm.varRef (List.head_eq_of_cons_eq hterms)).symm
            (hstart t ht)
        · cases hsense
        · cases hsense
        · have hlength := congrArg List.length hterms
          simp only [twinHi, windowTerms, List.length_cons, List.length_map, List.length_zipIdx,
            List.length_nil] at hlength
          omega
      · cases hsense
    | startBound id ht =>
      exact absurd (congrArg ConstraintTerm.varRef (List.head_eq_of_cons_eq hterms)).symm
        (hstart _ ht)
    | budget => rfl
    | keepout => rfl
    | noOverlap => cases hkind
  obtain ⟨b, ks, energy, heq, hnonneg, hks⟩ := budget_form h hc hlinear hsense
  rw [heq] at hterms
  obtain ⟨k, rfl, hk⟩ := List.map_eq_singleton_iff.1 hterms
  obtain ⟨t, ht, rfl, hb⟩ := hks k (List.mem_singleton_self k)
  rw [← hk, varById_assignment hS ht hb] at hv
  obtain rfl := Option.some.inj hv
  obtain rfl := Option.some.inj href
  exact ⟨t, ht, hb, energy t.taskId, hnonneg _, heq⟩

theorem get?_budgetCap (h : Produced request ir) {c : Constraint} (hc : c ∈ ir.constraints)
    {a : String} (hi : ingest ir c = .budget a) : (budgetCap ir).get? a = some c.rhs := by
  refine Dict.get?_ofList_of_forall (List.mem_filterMap.mpr ⟨c, hc, by rw [hi]⟩) fun p hp hpk => ?_
  obtain ⟨c', hc', hp⟩ := List.mem_filterMap.mp hp
  cases hi' : ingest ir c' with
  | budget b =>
    rw [hi'] at hp
    obtain rfl := Option.some.inj hp
    obtain rfl : b = a := hpk
    obtain ⟨t, -, -, energy, -, heq⟩ := budget_of_ingest h hc hi
    obtain ⟨t', -, -, energy', -, heq'⟩ := budget_of_ingest h hc' hi'
    rw [constraint_eq_of_id hc' hc (by rw [heq, heq'])]
  | _ => rw [hi'] at hp; cases hp

theorem get?_budgetCost (h : Produced request ir) {c : Constraint} (hc : c ∈ ir.constraints)
    {a : String} (hi : ingest ir c = .budget a) {t : Task} (ht : t ∈ request.tasks)
    (ha : a ∈ eligible request t) {energy : ℚ}
    (hterms : c.terms = [⟨assignmentVarId t.taskId a, energy⟩]) :
    (budgetCost ir).get? (t.taskId, a) = some energy := by
  have htask : taskOf ir (some (assignmentVarId t.taskId a)) = some t.taskId := by
    rw [taskOf, Option.bind_some, varById_assignment h.skeleton ht ha]
    rfl
  refine Dict.get?_ofList_of_forall (List.mem_flatMap.mpr ⟨c, hc, ?_⟩) fun p hp hpk => ?_
  · rw [hi]
    exact List.mem_filterMap.mpr ⟨_, hterms ▸ List.mem_singleton_self _, by rw [htask]; rfl⟩
  · obtain ⟨c', hc', hp⟩ := List.mem_flatMap.mp hp
    cases hi' : ingest ir c' with
    | budget b =>
      rw [hi'] at hp
      obtain ⟨term, hterm, hp⟩ := List.mem_filterMap.mp hp
      obtain ⟨task, -, rfl⟩ := Option.map_eq_some_iff.mp hp
      obtain rfl : b = a := (Prod.mk.inj hpk).2
      obtain ⟨u, -, -, e, -, heq⟩ := budget_of_ingest h hc hi
      obtain ⟨u', -, -, e', -, heq'⟩ := budget_of_ingest h hc' hi'
      obtain rfl := constraint_eq_of_id hc' hc (by rw [heq, heq'])
      rw [hterms, List.mem_singleton] at hterm
      rw [hterm]
    | _ => rw [hi'] at hp; cases hp

theorem budgetCost_nonneg (h : Produced request ir) (p : Pair) :
    0 ≤ (budgetCost ir).getD p 0 := by
  rw [Dict.getD]
  cases hp : (budgetCost ir).get? p with
  | none => exact le_rfl
  | some cost =>
    obtain ⟨c, hc, hm⟩ := List.mem_flatMap.mp (Dict.get?_ofList_mem hp)
    cases hi : ingest ir c with
    | budget a =>
      rw [hi] at hm
      obtain ⟨term, hterm, hm⟩ := List.mem_filterMap.mp hm
      obtain ⟨task, -, heq⟩ := Option.map_eq_some_iff.mp hm
      obtain ⟨t, -, -, energy, hnonneg, hform⟩ := budget_of_ingest h hc hi
      rw [hform, List.mem_singleton] at hterm
      rw [Option.getD_some, ← (Prod.mk.inj heq).2, hterm]
      exact hnonneg
    | _ => rw [hi] at hm; cases hm

end Budgets

end Stub

end AstroMine.Allocate
