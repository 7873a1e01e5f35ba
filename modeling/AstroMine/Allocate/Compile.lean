import Mathlib.Data.Prod.Lex
import AstroMine.Lib.Instances
import AstroMine.Allocate.Model

/-!
# Compilation of a request

`compile_request` (`ir/compile.py`): one assignment variable for each eligible pair, one start
variable for each task, one selector for each window of a task with several; a cover, the window
constraints and the precedences of each task, a no-overlap constraint for each asset that could be
double-booked, and one objective term for each assignment variable.

Results:
* `compileRequest_eq_ok`: what is in a compiled IR.
* `exists_compileRequest_eq_ok`: a request whose names are distinct compiles.
* `mem_candidates`: the candidates of a no-overlap constraint.
-/

namespace AstroMine.Allocate

open scoped Texts

/-! ## Names -/

/-- A `(task_id, asset_id)` pair (`compile.py:84`). -/
abbrev Pair := String × String

/-- `_UNBOUNDED_HORIZON_S` (`compile.py:77`). -/
def unboundedHorizonS : ℚ := 1000000000000

/-- `assignment_var_id` (`compile.py:87-89`). -/
def assignmentVarId (taskId assetId : String) : String := "assign::" ++ taskId ++ "::" ++ assetId

/-- `start_var_id` (`compile.py:92-94`). -/
def startVarId (taskId : String) : String := "start::" ++ taskId

/-- `f"{index:03d}"`. -/
def zeroPadded (index : ℕ) : String :=
  String.ofList (List.replicate (3 - (toString index).length) '0') ++ toString index

/-- `window_select_var_id` (`compile.py:97-103`). -/
def windowSelectVarId (taskId : String) (index : ℕ) : String :=
  "window::" ++ taskId ++ "::" ++ zeroPadded index

/-- `no_overlap_constraint_id` (`compile.py:106-108`). -/
def noOverlapConstraintId (resourceId : String) : String := "no_overlap::" ++ resourceId

/-! ## Windows -/

/-- `task_windows` (`compile.py:116-123`). -/
def taskWindows (task : Task) : List TimeWindow :=
  sortOn (fun w => toLex (w.startS, w.endS)) task.timeWindows

/-- `window_envelope` (`compile.py:126-139`). -/
def windowEnvelope (task : Task) : ℚ × ℚ :=
  match taskWindows task with
  | [] => (0, unboundedHorizonS)
  | w :: ws => (ws.foldl (fun lo v => min lo v.startS) w.startS,
      ws.foldl (fun hi v => max hi v.endS) w.endS)

/-! ## One asset does one task at a time -/

/-- `tasks_by_asset` (`compile.py:182-187`): the tasks an asset may take, forbidden pairs left
out. -/
def tasksByAsset (pairs : Dict String (List String)) (forbidden : List Pair) :
    Dict String (List String) :=
  Dict.group ((sortOn id pairs.keys).flatMap fun taskId =>
    ((pairs.getD taskId []).filter fun assetId => (taskId, assetId) ∉ forbidden).map
      fun assetId => (assetId, taskId))

/-- `candidates` (`compile.py:191`): the tasks one asset may take, sorted. -/
def candidates (pairs : Dict String (List String)) (forbidden : List Pair) (assetId : String) :
    List String :=
  sortOn id ((tasksByAsset pairs forbidden).getD assetId [])

/-- The terms of one no-overlap constraint (`compile.py:194-199`). -/
def noOverlapTerms (sizes : Dict Pair ℚ) (assetId : String) (taskIds : List String) :
    List ConstraintTerm :=
  taskIds.map fun taskId => ⟨startVarId taskId, sizes.getD (taskId, assetId) 0⟩

/-- The loop body of `no_overlap_constraints` (`compile.py:190-212`). -/
def noOverlapConstraint (pairs : Dict String (List String)) (sizes : Dict Pair ℚ)
    (forbidden : List Pair) (assetId : String) : Option Constraint :=
  -- a single-task resource cannot be double-booked
  if (candidates pairs forbidden assetId).length < 2 then none
  else
    let terms := noOverlapTerms sizes assetId (candidates pairs forbidden assetId)
    -- zero-length points occupy no time
    if ∀ t ∈ terms, t.coefficient ≤ eps then none
    else some ⟨noOverlapConstraintId assetId, .noOverlap, terms, .le, 0⟩

/-- `no_overlap_constraints` (`compile.py:160-213`). -/
def noOverlapConstraints (pairs : Dict String (List String)) (sizes : Dict Pair ℚ)
    (forbidden : List Pair) : List Constraint :=
  (sortOn id (tasksByAsset pairs forbidden).keys).filterMap
    (noOverlapConstraint pairs sizes forbidden)

theorem length_taskWindows (t : Task) : (taskWindows t).length = t.timeWindows.length :=
  (sortOn_perm _ _).length_eq

/-! ## Variables and constraints of a task -/

/-- `_eligible_asset_ids` (`compile.py:216-218`); the asset ids of a request are distinct. -/
def eligibleAssetIds (task : Task) (assets : List AssetRef) : List String :=
  sortOn id ((assets.filter fun a => ∀ c ∈ task.requiredCapabilities, c ∈ a.capabilityTags).map
    AssetRef.assetId)

/-- The assignment variable of a pair (`compile.py:321-331`). -/
def assignmentVariable (taskId assetId : String) : DecisionVariable where
  id := assignmentVarId taskId assetId
  kind := .binary
  lower := some 0
  upper := some 1
  semantic := .assignment
  taskRef := some taskId
  assetRef := some assetId

/-- The start variable of a task, bounded by its envelope (`compile.py:350-360`). -/
def startVariable (task : Task) : DecisionVariable where
  id := startVarId task.taskId
  kind := .continuous
  lower := some (windowEnvelope task).1
  upper := some (windowEnvelope task).2
  semantic := .startTime
  taskRef := some task.taskId
  assetRef := none

/-- The selector of one of the windows of a task (`compile.py:256-266`). -/
def windowSelector (task : Task) (index : ℕ) : DecisionVariable where
  id := windowSelectVarId task.taskId index
  kind := .binary
  lower := some 0
  upper := some 1
  semantic := .windowSelect
  taskRef := some task.taskId
  assetRef := none

/-- The selectors of a task: none unless it has several windows (`compile.py:233-267`). -/
def windowSelectors (task : Task) : List DecisionVariable :=
  if (taskWindows task).length < 2 then []
  else (List.range (taskWindows task).length).map (windowSelector task)

/-- The start term of a task with the selectors weighted by one bound of their windows
(`compile.py:281-284`, `292-295`). -/
def windowTerms (task : Task) (bound : TimeWindow → ℚ) : List ConstraintTerm :=
  ⟨startVarId task.taskId, 1⟩ ::
    (taskWindows task).zipIdx.map fun p => ⟨windowSelectVarId task.taskId p.2, -bound p.1⟩

/-- `twin_lo` of a task whose single window is `window`. -/
def singleWindowLo (task : Task) (window : TimeWindow) : Constraint :=
  ⟨"twin_lo::" ++ task.taskId, .timeWindow, [⟨startVarId task.taskId, 1⟩], .ge, window.startS⟩

/-- `twin_hi` of a task whose single window is `window`. -/
def singleWindowHi (task : Task) (window : TimeWindow) : Constraint :=
  ⟨"twin_hi::" ++ task.taskId, .timeWindow, [⟨startVarId task.taskId, 1⟩], .le, window.endS⟩

/-- Exactly one of the windows of the task hosts it. -/
def twinPick (task : Task) : Constraint :=
  ⟨"twin_pick::" ++ task.taskId, .timeWindow,
    (windowSelectors task).map fun v => ⟨v.id, 1⟩, .eq, 1⟩

/-- `start - sum(lo_k * y_k) >= 0`. -/
def twinLo (task : Task) : Constraint :=
  ⟨"twin_lo::" ++ task.taskId, .timeWindow, windowTerms task TimeWindow.startS, .ge, 0⟩

/-- `start - sum(hi_k * y_k) <= 0`. -/
def twinHi (task : Task) : Constraint :=
  ⟨"twin_hi::" ++ task.taskId, .timeWindow, windowTerms task TimeWindow.endS, .le, 0⟩

/-- The constraints of `_window_constraints` (`compile.py:221-300`). -/
def windowConstraints (task : Task) : List Constraint :=
  match taskWindows task with
  | [] => []
  | [window] => [singleWindowLo task window, singleWindowHi task window]
  | _ => [twinPick task, twinLo task, twinHi task]

/-- Exactly one eligible asset does the task (`compile.py:340-348`). -/
def coverConstraint (task : Task) (eligible : List String) : Constraint :=
  ⟨"cover::" ++ task.taskId, .assignmentCover,
    eligible.map fun assetId => ⟨assignmentVarId task.taskId assetId, 1⟩, .eq, 1⟩

/-- `start[task] - start[pred] >= 0` (`compile.py:368-379`). -/
def precedenceConstraint (task : Task) (pred : String) : Constraint :=
  ⟨"prec::" ++ pred ++ "->" ++ task.taskId, .precedence,
    [⟨startVarId task.taskId, 1⟩, ⟨startVarId pred, -1⟩], .ge, 0⟩

/-- The precedence constraints of a task (`compile.py:366-379`). -/
def precedenceConstraints (task : Task) : List Constraint :=
  (sortOn id task.precedence).map (precedenceConstraint task)

/-- The objective term of a pair (`compile.py:333-335`). -/
def objectiveTerm (task : Task) (assetId : String) : ObjectiveTerm :=
  ⟨"obj::" ++ assignmentVarId task.taskId assetId, assignmentVarId task.taskId assetId,
    task.valueMean⟩

/-! ## `compile_request` -/

section Request

variable (request : AllocationRequest)

/-- The eligible assets of a task of the request. -/
def eligible (task : Task) : List String := eligibleAssetIds task request.assets

/-- The variables of a task in the order they are appended. -/
def taskVariables (task : Task) : List DecisionVariable :=
  (eligible request task).map (assignmentVariable task.taskId) ++
    startVariable task :: windowSelectors task

/-- The cover and the window constraints of a task. -/
def taskConstraints (task : Task) : List Constraint :=
  coverConstraint task (eligible request task) :: windowConstraints task

/-- `tasks` of `compile_request`: sorted by id. -/
def sortedTasks : List Task := sortOn Task.taskId request.tasks

/-- `eligible_by_task` (`compile.py:311-316`). -/
def eligibleByTask : Dict String (List String) :=
  Dict.ofList ((sortedTasks request).map fun t => (t.taskId, eligible request t))

/-- `sizes` (`compile.py:312-320`): the nominal duration for each eligible pair. -/
def nominalSizes : Dict Pair ℚ :=
  Dict.ofList ((sortedTasks request).flatMap fun t =>
    (eligible request t).map fun assetId => ((t.taskId, assetId), t.durationS))

/-- The variables of the compiled IR. -/
def requestVariables : List DecisionVariable :=
  sortOn DecisionVariable.id ((sortedTasks request).flatMap (taskVariables request))

/-- The constraints that are no scheduling constraints, in the order they are appended. -/
def linearConstraints : List Constraint :=
  (sortedTasks request).flatMap (taskConstraints request) ++
    (sortedTasks request).flatMap precedenceConstraints

/-- The constraints of the compiled IR. -/
def requestConstraints : List Constraint :=
  sortOn Constraint.id (linearConstraints request ++
    noOverlapConstraints (eligibleByTask request) (nominalSizes request) [])

/-- The objective terms of the compiled IR. -/
def requestObjective : List ObjectiveTerm :=
  sortOn ObjectiveTerm.id
    ((sortedTasks request).flatMap fun t => (eligible request t).map (objectiveTerm t))

/-- `compile_request` (`compile.py:303-396`). -/
def compileRequest : Except IRError AllocationIR :=
  AllocationIR.create (requestVariables request) (requestConstraints request)
    (requestObjective request) request.objective.sense

end Request

/-! ## Eligible assets -/

theorem mem_eligibleAssetIds {task : Task} {assets : List AssetRef} {assetId : String} :
    assetId ∈ eligibleAssetIds task assets ↔
      ∃ a ∈ assets, a.assetId = assetId ∧ task.requiredCapabilities ⊆ a.capabilityTags := by
  simp only [eligibleAssetIds, mem_sortOn, List.mem_map, List.mem_filter, decide_eq_true_eq]
  constructor
  · rintro ⟨a, ⟨ha, hcaps⟩, rfl⟩
    exact ⟨a, ha, rfl, hcaps⟩
  · rintro ⟨a, ha, rfl, hcaps⟩
    exact ⟨a, ⟨ha, hcaps⟩, rfl⟩

theorem eligible_nodup (request : AllocationRequest) (task : Task) :
    (eligible request task).Nodup := by
  rw [eligible, eligibleAssetIds, sortOn_nodup]
  exact request.assetIds_nodup.sublist (List.filter_sublist.map AssetRef.assetId)

/-- A task of a request is known by its id. -/
theorem task_eq_of_taskId {request : AllocationRequest} {t u : Task} (ht : t ∈ request.tasks)
    (hu : u ∈ request.tasks) (h : t.taskId = u.taskId) : t = u :=
  List.inj_on_of_nodup_map request.taskIds_nodup ht hu h

theorem getD_eligibleByTask {request : AllocationRequest} {t : Task} (ht : t ∈ request.tasks) :
    (eligibleByTask request).getD t.taskId [] = eligible request t := by
  rw [Dict.getD, eligibleByTask, Dict.get?_ofList_of_forall (v := eligible request t)]
  · rfl
  · exact List.mem_map.mpr ⟨t, by simpa [sortedTasks] using ht, rfl⟩
  · intro p hp hpk
    obtain ⟨u, hu, rfl⟩ := List.mem_map.mp hp
    have hu' : u ∈ request.tasks := by simpa [sortedTasks] using hu
    rw [task_eq_of_taskId hu' ht hpk]

theorem mem_getD_eligibleByTask {request : AllocationRequest} {taskId assetId : String} :
    assetId ∈ (eligibleByTask request).getD taskId [] ↔
      ∃ t ∈ request.tasks, t.taskId = taskId ∧ assetId ∈ eligible request t := by
  constructor
  · intro h
    cases hg : (eligibleByTask request).get? taskId with
    | none => simp [Dict.getD, hg] at h
    | some es =>
      obtain ⟨t, ht, hte⟩ := List.mem_map.mp (Dict.get?_ofList_mem hg)
      obtain ⟨rfl, rfl⟩ := Prod.mk.inj hte
      exact ⟨t, by simpa [sortedTasks] using ht, rfl, by simpa [Dict.getD, hg] using h⟩
  · rintro ⟨t, ht, rfl, ha⟩
    rwa [getD_eligibleByTask ht]

theorem getD_nominalSizes {request : AllocationRequest} {t : Task} (ht : t ∈ request.tasks)
    {assetId : String} (ha : assetId ∈ eligible request t) :
    (nominalSizes request).getD (t.taskId, assetId) 0 = t.durationS := by
  rw [Dict.getD, nominalSizes, Dict.get?_ofList_of_forall (v := t.durationS)]
  · rfl
  · refine List.mem_flatMap.mpr ⟨t, by simpa [sortedTasks] using ht, ?_⟩
    exact List.mem_map.mpr ⟨assetId, ha, rfl⟩
  · intro p hp hpk
    obtain ⟨u, hu, hpu⟩ := List.mem_flatMap.mp hp
    obtain ⟨b, -, rfl⟩ := List.mem_map.mp hpu
    have hu' : u ∈ request.tasks := by simpa [sortedTasks] using hu
    rw [task_eq_of_taskId hu' ht (Prod.mk.inj hpk).1]

/-! ## Candidates of a no-overlap constraint -/

theorem filter_eq_of_nodup {α : Type*} [DecidableEq α] {l : List α} (hl : l.Nodup) (a : α) :
    (l.filter fun b => b = a) = if a ∈ l then [a] else [] := by
  induction l with
  | nil => simp
  | cons b l ih =>
    have hb := List.nodup_cons.mp hl
    rw [List.filter_cons, ih hb.2]
    by_cases hba : b = a
    · subst hba
      simp [hb.1]
    · have hab : a ≠ b := fun h => hba h.symm
      simp [hba, hab]

/-- The candidates of an asset are the tasks it is listed for, forbidden pairs left out. -/
theorem getD_tasksByAsset {pairs : Dict String (List String)} (forbidden : List Pair)
    (hnd : ∀ k, (pairs.getD k []).Nodup) (a : String) :
    (tasksByAsset pairs forbidden).getD a [] =
      (sortOn id pairs.keys).filter fun k => a ∈ pairs.getD k [] ∧ (k, a) ∉ forbidden := by
  rw [tasksByAsset, Dict.getD_group]
  generalize sortOn id pairs.keys = ks
  induction ks with
  | nil => rfl
  | cons k ks ih =>
    rw [List.flatMap_cons, List.filter_append, List.map_append, ih, List.filter_cons]
    have hk : (((((pairs.getD k []).filter fun b => (k, b) ∉ forbidden).map fun b => (b, k)).filter
        fun p => p.1 = a).map Prod.snd) =
          if a ∈ pairs.getD k [] ∧ (k, a) ∉ forbidden then [k] else [] := by
      rw [List.filter_map, List.map_map, List.filter_filter]
      have hcongr : ((pairs.getD k []).filter fun b =>
          ((fun p : String × String => decide (p.1 = a)) ∘ fun b => (b, k)) b &&
            decide ((k, b) ∉ forbidden)) =
          ((pairs.getD k []).filter fun b => b = a).filter fun b => (k, b) ∉ forbidden := by
        rw [List.filter_filter]
        refine List.filter_congr fun b _ => ?_
        exact Bool.and_comm _ _
      rw [hcongr, filter_eq_of_nodup (hnd k) a]
      by_cases ha : a ∈ pairs.getD k []
      · by_cases hf : (k, a) ∈ forbidden <;> simp [ha, hf]
      · simp [ha]
    rw [hk]
    by_cases hc : a ∈ pairs.getD k [] ∧ (k, a) ∉ forbidden
    · rw [if_pos hc, if_pos (by simpa using hc)]
      rfl
    · rw [if_neg hc, if_neg (by simpa using hc)]
      rfl

theorem mem_candidates {pairs : Dict String (List String)} {forbidden : List Pair}
    (hnd : ∀ k, (pairs.getD k []).Nodup) {a k : String} :
    k ∈ candidates pairs forbidden a ↔ a ∈ pairs.getD k [] ∧ (k, a) ∉ forbidden := by
  rw [candidates, mem_sortOn, getD_tasksByAsset forbidden hnd]
  simp only [List.mem_filter, mem_sortOn, decide_eq_true_eq, and_iff_right_iff_imp]
  rintro ⟨ha, -⟩
  rw [Dict.mem_keys]
  by_contra hk
  rw [Option.not_isSome_iff_eq_none] at hk
  simp [Dict.getD, hk] at ha

theorem candidates_nodup {pairs : Dict String (List String)} (forbidden : List Pair)
    (hnd : ∀ k, (pairs.getD k []).Nodup) (a : String) :
    (candidates pairs forbidden a).Nodup := by
  rw [candidates, sortOn_nodup, getD_tasksByAsset forbidden hnd]
  exact (sortOn_nodup.2 pairs.nodup_keys).filter _

theorem noOverlapConstraint_eq_some {pairs : Dict String (List String)} {sizes : Dict Pair ℚ}
    {forbidden : List Pair} {a : String} {c : Constraint} :
    noOverlapConstraint pairs sizes forbidden a = some c ↔
      2 ≤ (candidates pairs forbidden a).length ∧
        (∃ k ∈ candidates pairs forbidden a, eps < sizes.getD (k, a) 0) ∧
        c = ⟨noOverlapConstraintId a, .noOverlap,
          noOverlapTerms sizes a (candidates pairs forbidden a), .le, 0⟩ := by
  rw [noOverlapConstraint]
  by_cases hlen : (candidates pairs forbidden a).length < 2
  · rw [if_pos hlen]
    constructor
    · intro h
      cases h
    · rintro ⟨h, -⟩
      omega
  · rw [if_neg hlen]
    dsimp only
    have hall : (∀ t ∈ noOverlapTerms sizes a (candidates pairs forbidden a),
        t.coefficient ≤ eps) ↔ ¬∃ k ∈ candidates pairs forbidden a, eps < sizes.getD (k, a) 0 := by
      simp [noOverlapTerms]
    by_cases hpos : ∃ k ∈ candidates pairs forbidden a, eps < sizes.getD (k, a) 0
    · rw [if_neg (by rw [hall]; exact not_not.mpr hpos), Option.some.injEq]
      constructor
      · rintro rfl
        exact ⟨by omega, hpos, rfl⟩
      · rintro ⟨-, -, rfl⟩
        rfl
    · rw [if_pos (hall.mpr hpos)]
      constructor
      · intro h
        cases h
      · rintro ⟨-, h, -⟩
        exact absurd h hpos

/-- The no-overlap constraints that are emitted. -/
theorem mem_noOverlapConstraints {pairs : Dict String (List String)} {sizes : Dict Pair ℚ}
    {forbidden : List Pair} {c : Constraint} :
    c ∈ noOverlapConstraints pairs sizes forbidden ↔
      ∃ a, 2 ≤ (candidates pairs forbidden a).length ∧
        (∃ k ∈ candidates pairs forbidden a, eps < sizes.getD (k, a) 0) ∧
        c = ⟨noOverlapConstraintId a, .noOverlap,
          noOverlapTerms sizes a (candidates pairs forbidden a), .le, 0⟩ := by
  simp only [noOverlapConstraints, List.mem_filterMap, mem_sortOn, noOverlapConstraint_eq_some]
  refine exists_congr fun a => and_iff_right_of_imp ?_
  rintro ⟨hlen, -⟩
  rw [Dict.mem_keys]
  by_contra hk
  rw [Option.not_isSome_iff_eq_none] at hk
  have hnil : candidates pairs forbidden a = [] := by
    rw [candidates, sortOn_eq_nil]
    simp [Dict.getD, hk]
  rw [hnil] at hlen
  simp at hlen

/-! ## The compiled IR -/

section Compiled

variable {request : AllocationRequest}

@[simp]
theorem mem_sortedTasks {t : Task} : t ∈ sortedTasks request ↔ t ∈ request.tasks :=
  mem_sortOn _ _ _

theorem mem_requestVariables {v : DecisionVariable} :
    v ∈ requestVariables request ↔ ∃ t ∈ request.tasks, v ∈ taskVariables request t := by
  simp [requestVariables]

theorem mem_linearConstraints {c : Constraint} :
    c ∈ linearConstraints request ↔
      ∃ t ∈ request.tasks, c = coverConstraint t (eligible request t) ∨
        c ∈ windowConstraints t ∨ ∃ p ∈ t.precedence, c = precedenceConstraint t p := by
  simp only [linearConstraints, List.mem_append, List.mem_flatMap, mem_sortedTasks,
    taskConstraints, List.mem_cons, precedenceConstraints, List.mem_map, mem_sortOn,
    ← exists_or, ← and_or_left, or_assoc]
  refine exists_congr fun t => and_congr_right fun _ => or_congr_right (or_congr_right ?_)
  exact exists_congr fun p => and_congr_right fun _ => eq_comm

theorem mem_requestConstraints {c : Constraint} :
    c ∈ requestConstraints request ↔ c ∈ linearConstraints request ∨
      c ∈ noOverlapConstraints (eligibleByTask request) (nominalSizes request) [] := by
  simp [requestConstraints]

theorem mem_taskVariables {t : Task} {v : DecisionVariable} :
    v ∈ taskVariables request t ↔
      (∃ a ∈ eligible request t, v = assignmentVariable t.taskId a) ∨ v = startVariable t ∨
        v ∈ windowSelectors t := by
  simp only [taskVariables, List.mem_append, List.mem_map, List.mem_cons]
  exact or_congr_left (exists_congr fun a => and_congr_right fun _ => eq_comm)

theorem mem_windowSelectors {t : Task} {v : DecisionVariable} :
    v ∈ windowSelectors t ↔
      2 ≤ (taskWindows t).length ∧ ∃ i < (taskWindows t).length, v = windowSelector t i := by
  rw [windowSelectors]
  split_ifs with h
  · simp only [List.not_mem_nil, false_iff]
    rintro ⟨h', -⟩
    omega
  · simp only [List.mem_map, List.mem_range]
    constructor
    · rintro ⟨i, hi, rfl⟩
      exact ⟨by omega, i, hi, rfl⟩
    · rintro ⟨-, i, hi, rfl⟩
      exact ⟨i, hi, rfl⟩

/-- A task has no window constraint, two for a single window, three for several windows. -/
theorem mem_windowConstraints {t : Task} {c : Constraint} :
    c ∈ windowConstraints t ↔
      (∃ w, taskWindows t = [w] ∧ (c = singleWindowLo t w ∨ c = singleWindowHi t w)) ∨
        (2 ≤ (taskWindows t).length ∧ (c = twinPick t ∨ c = twinLo t ∨ c = twinHi t)) := by
  rw [windowConstraints]
  split
  · rename_i h
    simp [h]
  · rename_i w h
    simp [h]
  · rename_i hnil hsingle
    have hpl : 2 ≤ (taskWindows t).length := by
      rcases h : taskWindows t with _ | ⟨w, _ | ⟨w', ws⟩⟩
      · exact absurd h hnil
      · exact absurd h (hsingle w)
      · simp
    have hno : ¬∃ w, taskWindows t = [w] ∧ (c = singleWindowLo t w ∨ c = singleWindowHi t w) := by
      rintro ⟨w, h, -⟩
      exact hsingle w h
    simp [hpl, hno]

theorem windowConstraint_kind {t : Task} {c : Constraint} (hc : c ∈ windowConstraints t) :
    c.kind = .timeWindow := by
  rcases mem_windowConstraints.1 hc with ⟨w, -, rfl | rfl⟩ | ⟨-, rfl | rfl | rfl⟩ <;> rfl

/-- The kinds of the linear constraints of a request. -/
theorem linearConstraint_kind {c : Constraint} (hc : c ∈ linearConstraints request) :
    c.kind = .assignmentCover ∨ c.kind = .timeWindow ∨ c.kind = .precedence := by
  obtain ⟨t, -, rfl | hw | ⟨p, -, rfl⟩⟩ := mem_linearConstraints.1 hc
  · exact .inl rfl
  · exact .inr (.inl (windowConstraint_kind hw))
  · exact .inr (.inr rfl)

/-- A term of a window disjunction is over the start or over a selector. -/
theorem mem_twin_terms {t : Task} {c : Constraint}
    (hc : c = twinPick t ∨ c = twinLo t ∨ c = twinHi t) {term : ConstraintTerm}
    (hterm : term ∈ c.terms) :
    term.varRef = startVarId t.taskId ∨
      ∃ i < (taskWindows t).length, term.varRef = windowSelectVarId t.taskId i := by
  have hzip : ∀ bound : TimeWindow → ℚ, term ∈ windowTerms t bound →
      term.varRef = startVarId t.taskId ∨
        ∃ i < (taskWindows t).length, term.varRef = windowSelectVarId t.taskId i := by
    intro bound hb
    rcases List.mem_cons.mp hb with rfl | hb
    · exact Or.inl rfl
    · obtain ⟨⟨w, i⟩, hp, rfl⟩ := List.mem_map.mp hb
      exact Or.inr ⟨i, (List.mem_zipIdx' hp).1, rfl⟩
  rcases hc with rfl | rfl | rfl
  · obtain ⟨v, hv, rfl⟩ := List.mem_map.mp hterm
    obtain ⟨-, i, hi, rfl⟩ := mem_windowSelectors.1 hv
    exact Or.inr ⟨i, hi, rfl⟩
  · exact hzip _ hterm
  · exact hzip _ hterm

/-- What is in a compiled IR. -/
theorem compileRequest_eq_ok {ir : AllocationIR} (h : compileRequest request = .ok ir) :
    ir.decisionVariables = requestVariables request ∧
      ir.constraints = requestConstraints request ∧
      ir.objectiveTerms = requestObjective request ∧
      ir.objectiveSense = request.objective.sense :=
  AllocationIR.create_eq_ok h

end Compiled

/-- The names `compile_request` gives are distinct. -/
structure NamesDistinct (request : AllocationRequest) : Prop where
  variableIds : ((requestVariables request).map DecisionVariable.id).Nodup
  constraintIds : ((requestConstraints request).map Constraint.id).Nodup
  objectiveIds : ((requestObjective request).map ObjectiveTerm.id).Nodup

theorem eligibleByTask_nodup (request : AllocationRequest) (k : String) :
    ((eligibleByTask request).getD k []).Nodup := by
  cases hg : (eligibleByTask request).get? k with
  | none => simp [Dict.getD, hg]
  | some es =>
    obtain ⟨t, -, hte⟩ := List.mem_map.mp (Dict.get?_ofList_mem hg)
    obtain ⟨-, rfl⟩ := Prod.mk.inj hte
    simpa [Dict.getD, hg] using eligible_nodup request t

theorem startVarId_mem {request : AllocationRequest} {t : Task} (ht : t ∈ request.tasks) :
    startVarId t.taskId ∈ (requestVariables request).map DecisionVariable.id :=
  List.mem_map.mpr ⟨startVariable t,
    mem_requestVariables.2 ⟨t, ht, mem_taskVariables.2 (Or.inr (Or.inl rfl))⟩, rfl⟩

theorem assignmentVarId_mem {request : AllocationRequest} {t : Task} (ht : t ∈ request.tasks)
    {a : String} (ha : a ∈ eligible request t) :
    assignmentVarId t.taskId a ∈ (requestVariables request).map DecisionVariable.id :=
  List.mem_map.mpr ⟨assignmentVariable t.taskId a,
    mem_requestVariables.2 ⟨t, ht, mem_taskVariables.2 (Or.inl ⟨a, ha, rfl⟩)⟩, rfl⟩

/-- The linear constraints name variables of the request. -/
theorem linearConstraints_refs {request : AllocationRequest} :
    ∀ c ∈ linearConstraints request, ∀ term ∈ c.terms,
      term.varRef ∈ (requestVariables request).map DecisionVariable.id := by
  intro c hc term hterm
  obtain ⟨t, ht, rfl | hw | ⟨p, hp, rfl⟩⟩ := mem_linearConstraints.1 hc
  · obtain ⟨a, ha, rfl⟩ := List.mem_map.mp hterm
    exact assignmentVarId_mem ht ha
  · rcases mem_windowConstraints.1 hw with ⟨w, -, rfl | rfl⟩ | ⟨hpl, htwin⟩
    · obtain rfl := List.mem_singleton.mp hterm
      exact startVarId_mem ht
    · obtain rfl := List.mem_singleton.mp hterm
      exact startVarId_mem ht
    · rcases mem_twin_terms htwin hterm with h | ⟨i, hi, h⟩
      · rw [h]
        exact startVarId_mem ht
      · rw [h]
        refine List.mem_map.mpr ⟨windowSelector t i, mem_requestVariables.2 ⟨t, ht, ?_⟩, rfl⟩
        exact mem_taskVariables.2 (Or.inr (Or.inr (mem_windowSelectors.2 ⟨hpl, i, hi, rfl⟩)))
  · obtain ⟨u, hu, rfl⟩ := List.mem_map.mp (request.precedence_known t ht p hp)
    rcases List.mem_pair.mp hterm with rfl | rfl
    · exact startVarId_mem ht
    · exact startVarId_mem hu

/-- The no-overlap constraints name start variables of the request. -/
theorem noOverlapConstraints_refs {request : AllocationRequest}
    {pairs : Dict String (List String)} (sizes : Dict Pair ℚ) (forbidden : List Pair)
    (hnd : ∀ k, (pairs.getD k []).Nodup)
    (hpairs : ∀ k a, a ∈ pairs.getD k [] →
      ∃ t ∈ request.tasks, t.taskId = k ∧ a ∈ eligible request t) :
    ∀ c ∈ noOverlapConstraints pairs sizes forbidden, ∀ term ∈ c.terms,
      term.varRef ∈ (requestVariables request).map DecisionVariable.id := by
  intro c hc term hterm
  obtain ⟨a, -, -, rfl⟩ := mem_noOverlapConstraints.1 hc
  obtain ⟨k, hk, rfl⟩ := List.mem_map.mp hterm
  obtain ⟨t, ht, rfl, -⟩ := hpairs k a ((mem_candidates hnd).mp hk).1
  exact startVarId_mem ht

/-- A request whose names are distinct compiles. -/
theorem exists_compileRequest_eq_ok {request : AllocationRequest} (h : NamesDistinct request) :
    ∃ ir, compileRequest request = .ok ir := by
  refine AllocationIR.exists_create_eq_ok _ h.variableIds h.constraintIds h.objectiveIds ?_ ?_
  · intro c hc
    rcases mem_requestConstraints.1 hc with hc | hc
    · exact linearConstraints_refs c hc
    · exact noOverlapConstraints_refs _ _ (eligibleByTask_nodup request)
        (fun k a ha => mem_getD_eligibleByTask.1 ha) c hc
  · intro o ho
    simp only [requestObjective, mem_sortOn, List.mem_flatMap, mem_sortedTasks,
      List.mem_map] at ho
    obtain ⟨t, ht, a, ha, rfl⟩ := ho
    exact assignmentVarId_mem ht ha

end AstroMine.Allocate
