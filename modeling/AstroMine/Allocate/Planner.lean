import AstroMine.Allocate.Constrained
import AstroMine.Allocate.Incumbent
import AstroMine.Allocate.Meaning
import AstroMine.Allocate.Precedence

/-!
# The greedy planner

The loop of `AllocationPlanner.solve` on the stub backend without a context
(`api/planner.py:247-329`): the tasks in precedence order, each on the first capable asset that has
a start for it, then one schedule for each asset, sorted by start and task id.

`ListSchedule` says declaratively what the loop computes: the list of placements in precedence
order, each of which fits first after the ones before it.

Results:
* `earliestStartInWindows_spec`: a start in a window, no earlier than asked.
* `ListSchedule.unique`: a request has at most one list schedule.
* `Fits.sequential`: the tasks of one asset run one after the other.
* `placeAll_cases`: the loop computes the list schedule, or finds that there is none.
-/

namespace AstroMine.Allocate

open Intervals
open Skeleton (InWindow)

/-! ## Starts -/

/-- `earliest_start_in_windows` (`compile.py:142-157`). -/
def earliestStartInWindows (task : Task) (notBefore : ℚ) : Option ℚ :=
  match taskWindows task with
  | [] => some notBefore
  | windows => windows.findSome? fun w =>
      let candidate := max notBefore w.startS
      if candidate ≤ w.endS + eps then some candidate else none

theorem earliestStartInWindows_spec {t : Task} {r s : ℚ}
    (h : earliestStartInWindows t r = some s) :
    r ≤ s ∧ (t.timeWindows = [] ∨ ∃ w ∈ t.timeWindows, InWindow w s) := by
  unfold earliestStartInWindows at h
  split at h
  · rename_i hnil
    cases h
    exact ⟨le_rfl, .inl (Skeleton.taskWindows_eq_nil.1 hnil)⟩
  · obtain ⟨w, hw, hs⟩ := List.exists_of_findSome?_eq_some h
    dsimp only at hs
    split_ifs at hs with hle
    cases hs
    refine ⟨le_max_left _ _, .inr ⟨w, Skeleton.mem_taskWindows.1 hw, ?_, hle⟩⟩
    exact (sub_le_self _ eps_nonneg).trans (le_max_right _ _)

/-! ## The loop -/

/-- What a solve raises. -/
inductive SolveError where
  | compile (e : IRError)
  | keyError (key : String)
  | plan (e : PlanError)
  deriving DecidableEq, Repr

/-- `d[key]`. -/
def lookup {α : Type} (key : String) : Option α → Except SolveError α
  | some a => .ok a
  | none => .error (.keyError key)

/-- `assignment`, `starts` and `busy_until` (`planner.py:259-261`). -/
structure Greedy where
  assignment : Dict String String
  starts : Dict String ℚ
  busyUntil : Dict String ℚ

/-- `max(values, default=0.0)`. -/
def maxDefault : List ℚ → ℚ
  | [] => 0
  | v :: vs => vs.foldl max v

/-- The first capable asset, by id, that has a start for the task no earlier than `ready`
    (`planner.py:268-278`). -/
def firstFit (request : AllocationRequest) (task : Task) (ready : String → ℚ) :
    Option (String × ℚ) :=
  (sortOn AssetRef.assetId request.assets).findSome? fun asset =>
    if task.requiredCapabilities ⊆ asset.capabilityTags then
      (earliestStartInWindows task (ready asset.assetId)).map fun start => (asset.assetId, start)
    else none

/-- The loop body of `_solve_unconstrained` (`planner.py:263-284`); `none` returns infeasible. -/
def placeTask (request : AllocationRequest) (g : Greedy) (taskId : String) :
    Except SolveError (Option Greedy) := do
  let task ← lookup taskId (taskById request taskId)
  let starts ← task.precedence.mapM fun p => lookup p (g.starts.get? p)
  let notBefore := maxDefault starts
  match firstFit request task fun a => max notBefore (g.busyUntil.getD a 0) with
  | none => return none
  | some (chosen, start) =>
    return some
      { assignment := g.assignment.set taskId chosen
        starts := g.starts.set taskId start
        busyUntil := g.busyUntil.set chosen (start + task.durationS) }

/-- The loop over the tasks. -/
def placeAll (request : AllocationRequest) : List String → Greedy → Except SolveError (Option Greedy)
  | [], g => .ok (some g)
  | taskId :: taskIds, g => do
    match ← placeTask request g taskId with
    | none => return none
    | some g => placeAll request taskIds g

/-! ## The plan -/

/-- One entry of the loop of `_assemble_plan` (`planner.py:317-325`). -/
def scheduleEntry (request : AllocationRequest) (starts durations : Dict String ℚ)
    (entry : String × String) : Except SolveError (String × ScheduledTask) := do
  let task ← lookup entry.1 (taskById request entry.1)
  let start ← lookup entry.1 (starts.get? entry.1)
  match ScheduledTask.create entry.1 task.kind start (start + durations.getD entry.1 0) with
  | .error e => .error (.plan e)
  | .ok st => return (entry.2, st)

/-- The schedule of one asset, its tasks sorted by start and id (`planner.py:326-331`). -/
def scheduleOf (assetId : String) (tasks : List ScheduledTask) : Except SolveError AssetSchedule :=
  match AssetSchedule.create assetId (sortOn (fun s => toLex (s.startS, s.taskId)) tasks) with
  | .error e => .error (.plan e)
  | .ok schedule => .ok schedule

/-- `_assemble_plan` (`planner.py:301-331`). -/
def assemblePlan (request : AllocationRequest) (assignment : Dict String String)
    (starts durations : Dict String ℚ) : Except SolveError (List AssetSchedule) := do
  let scheduled ← assignment.entries.mapM (scheduleEntry request starts durations)
  (sortOn AssetRef.assetId request.assets).mapM fun a =>
    scheduleOf a.assetId ((scheduled.filter fun p => p.1 = a.assetId).map Prod.snd)

/-- `{t.task_id: t.duration_s for t in request.tasks}`. -/
def nominalDurations (request : AllocationRequest) : Dict String ℚ :=
  Dict.ofList (request.tasks.map fun t => (t.taskId, t.durationS))

/-- `_infeasible` (`planner.py:733-742`). -/
def infeasible : Allocation where
  status := .infeasible
  plan := none
  realizedObjective := none
  feasible_plan := by rintro (h | h) <;> cases h
  infeasible_plan := fun _ => rfl

/-- `_feasible_allocation` (`planner.py:667-695`) on a plan of status feasible. -/
def feasibleAllocation (plan : List AssetSchedule) (objective : ℚ) : Allocation where
  status := .feasible
  plan := some plan
  realizedObjective := some objective
  feasible_plan := fun _ => rfl
  infeasible_plan := fun h => by cases h

/-- `_solve_unconstrained` (`planner.py:247-299`); `_topological_order` is Kahn's algorithm. -/
def solveUnconstrained (request : AllocationRequest) : Except SolveError Allocation :=
  match compileRequest request with
  | .error e => .error (.compile e)
  | .ok ir => do
    match ← placeAll request (Kahn.order (precedenceOf request.tasks))
      ⟨Dict.empty, Dict.empty, Dict.empty⟩ with
    | none => return infeasible
    | some g =>
      let plan ← assemblePlan request g.assignment g.starts (nominalDurations request)
      return feasibleAllocation plan (realizedObjective ir g.assignment)

/-! ## List schedules -/

/-- A task on an asset from a start. -/
structure Placed where
  task : Task
  asset : String
  start : ℚ

/-- When the task has run. -/
def Placed.stop (p : Placed) : ℚ := p.start + p.task.durationS

/-- The latest of some instants, `0` at the earliest. -/
def latest (instants : List ℚ) : ℚ := instants.foldl max 0

/-- When `t` can start on asset `a` after the placements `xs`: its predecessors have started, and
    the tasks on `a` have run. -/
def readyAt (xs : List Placed) (t : Task) (a : String) : ℚ :=
  latest ((xs.filter fun p => p.task.taskId ∈ t.precedence).map Placed.start ++
    (xs.filter fun p => p.asset = a).map Placed.stop)

/-- Every placement fits first after the ones before it. -/
def Fits (request : AllocationRequest) (ps : List Placed) : Prop :=
  ∀ xs p ys, ps = xs ++ p :: ys → p.task ∈ request.tasks ∧
    firstFit request p.task (readyAt xs p.task) = some (p.asset, p.start)

/-- **The list schedule of a request**: its tasks in precedence order, ties by id, each where it
    fits first. -/
structure ListSchedule (request : AllocationRequest) (ps : List Placed) : Prop where
  order : ps.map (fun p => p.task.taskId) = Kahn.order (precedenceOf request.tasks)
  fits : Fits request ps

/-! ## The latest of some instants -/

theorem latest_le_iff {l : List ℚ} {x : ℚ} : latest l ≤ x ↔ 0 ≤ x ∧ ∀ y ∈ l, y ≤ x := by
  have key : ∀ (l : List ℚ) (a : ℚ), l.foldl max a ≤ x ↔ a ≤ x ∧ ∀ y ∈ l, y ≤ x := by
    intro l
    induction l with
    | nil => simp
    | cons b l ih =>
      intro a
      rw [List.foldl_cons, ih, max_le_iff, List.forall_mem_cons, and_assoc]
  exact key l 0

theorem latest_nonneg (l : List ℚ) : 0 ≤ latest l := (latest_le_iff.1 le_rfl).1

theorem le_latest {l : List ℚ} {y : ℚ} (hy : y ∈ l) : y ≤ latest l :=
  (latest_le_iff.1 le_rfl).2 y hy

/-- The latest depends on the members only. -/
theorem latest_congr {l m : List ℚ} (h : ∀ x, x ∈ l ↔ x ∈ m) : latest l = latest m :=
  le_antisymm (latest_le_iff.2 ⟨latest_nonneg m, fun _ hy => le_latest ((h _).1 hy)⟩)
    (latest_le_iff.2 ⟨latest_nonneg l, fun _ hy => le_latest ((h _).2 hy)⟩)

theorem max_latest (l m : List ℚ) : max (latest l) (latest m) = latest (l ++ m) := by
  refine le_antisymm (max_le ?_ ?_) (latest_le_iff.2 ⟨le_max_of_le_left (latest_nonneg l), ?_⟩)
  · exact latest_le_iff.2 ⟨latest_nonneg _, fun y hy => le_latest (List.mem_append_left m hy)⟩
  · exact latest_le_iff.2 ⟨latest_nonneg _, fun y hy => le_latest (List.mem_append_right l hy)⟩
  · intro y hy
    rcases List.mem_append.mp hy with hy | hy
    · exact (le_latest hy).trans (le_max_left _ _)
    · exact (le_latest hy).trans (le_max_right _ _)

/-- On instants that are not negative the default does not matter. -/
theorem maxDefault_eq {l : List ℚ} (h : ∀ x ∈ l, 0 ≤ x) : maxDefault l = latest l := by
  cases l with
  | nil => rfl
  | cons v vs =>
    rw [maxDefault, latest, List.foldl_cons, max_eq_right (h v (by simp))]

/-! ## What fits -/

variable {request : AllocationRequest}

/-- What `firstFit` finds. -/
theorem firstFit_spec {t : Task} {ready : String → ℚ} {a : String} {s : ℚ}
    (h : firstFit request t ready = some (a, s)) :
    a ∈ eligible request t ∧ ready a ≤ s ∧
      (t.timeWindows = [] ∨ ∃ w ∈ t.timeWindows, InWindow w s) := by
  obtain ⟨asset, hasset, hs⟩ := List.exists_of_findSome?_eq_some h
  split_ifs at hs with hcaps
  obtain ⟨start, hstart, heq⟩ := Option.map_eq_some_iff.mp hs
  cases heq
  obtain ⟨hle, hwin⟩ := earliestStartInWindows_spec hstart
  exact ⟨mem_eligibleAssetIds.2 ⟨asset, (mem_sortOn _ _ _).1 hasset, rfl, hcaps⟩, hle, hwin⟩

theorem firstFit_congr (t : Task) {ready ready' : String → ℚ} (h : ∀ a, ready a = ready' a) :
    firstFit request t ready = firstFit request t ready' := by
  rw [funext h]

theorem fits_nil : Fits request [] := by
  intro xs p ys h
  simp at h

theorem Fits.snoc {xs : List Placed} {p : Placed} (h : Fits request xs) (hp : p.task ∈ request.tasks)
    (hfit : firstFit request p.task (readyAt xs p.task) = some (p.asset, p.start)) :
    Fits request (xs ++ [p]) := by
  intro ys q zs heq
  rcases List.eq_nil_or_concat zs with rfl | ⟨zs', z, rfl⟩
  · obtain ⟨rfl, hpq⟩ := List.append_inj' heq rfl
    cases hpq
    exact ⟨hp, hfit⟩
  · have heq' : xs ++ [p] = (ys ++ q :: zs') ++ [z] := by simpa using heq
    obtain ⟨rfl, -⟩ := List.append_inj' heq' rfl
    exact h ys q zs' rfl

theorem Fits.of_append {xs ys : List Placed} (h : Fits request (xs ++ ys)) : Fits request xs := by
  intro zs p ws heq
  exact h zs p (ws ++ ys) (by rw [heq]; simp)

/-- The placements of given tasks are determined. -/
theorem Fits.unique {ps qs : List Placed} (hp : Fits request ps) (hq : Fits request qs)
    (hids : ps.map (fun p => p.task.taskId) = qs.map fun p => p.task.taskId) : ps = qs := by
  induction ps using List.reverseRecOn generalizing qs with
  | nil => simpa using hids.symm
  | append_singleton xs p ih =>
    rcases List.eq_nil_or_concat qs with rfl | ⟨ys, q, rfl⟩
    · simp at hids
    · rw [List.concat_eq_append] at hq
      have hids' : xs.map (fun p => p.task.taskId) ++ [p.task.taskId] =
          ys.map (fun p => p.task.taskId) ++ [q.task.taskId] := by simpa using hids
      obtain ⟨hxy, hpq⟩ := List.append_inj' hids' rfl
      obtain rfl := ih hp.of_append hq.of_append hxy
      obtain ⟨hpt, hpf⟩ := hp xs p [] rfl
      obtain ⟨hqt, hqf⟩ := hq xs q [] rfl
      have htask := task_eq_of_taskId hpt hqt (List.cons.inj hpq).1
      rw [← htask, hpf] at hqf
      obtain ⟨ha, hs⟩ := Prod.mk.inj (Option.some.inj hqf)
      cases p
      cases q
      cases htask
      cases ha
      cases hs
      simp

theorem ListSchedule.unique {ps qs : List Placed} (hp : ListSchedule request ps)
    (hq : ListSchedule request qs) : ps = qs :=
  hp.fits.unique hq.fits (hp.order.trans hq.order.symm)

theorem Fits.start_nonneg {ps : List Placed} (h : Fits request ps) : ∀ p ∈ ps, 0 ≤ p.start := by
  intro p hp
  obtain ⟨xs, ys, rfl⟩ := List.append_of_mem hp
  obtain ⟨-, hfit⟩ := h xs p ys rfl
  exact (latest_nonneg _).trans (firstFit_spec hfit).2.1

/-- Of two tasks on one asset the one placed first has run when the other one starts. -/
theorem Fits.sequential {ps : List Placed} (h : Fits request ps) :
    ps.Pairwise fun p q => p.asset = q.asset → p.stop ≤ q.start := by
  induction ps using List.reverseRecOn with
  | nil => exact List.Pairwise.nil
  | append_singleton xs q ih =>
    refine List.pairwise_append.mpr ⟨ih h.of_append, List.pairwise_singleton _ _, ?_⟩
    intro p hp q' hq' hsame
    obtain rfl := List.mem_singleton.mp hq'
    obtain ⟨-, hfit⟩ := h xs q' [] rfl
    refine le_trans (le_latest (List.mem_append_right _ ?_)) (firstFit_spec hfit).2.1
    exact List.mem_map.mpr ⟨p, List.mem_filter.mpr ⟨hp, by simpa using hsame⟩, rfl⟩

/-- Every task starts no earlier than its predecessors. -/
theorem Fits.inOrder {ps xs ys : List Placed} {p q : Placed} (h : Fits request ps)
    (hps : ps = xs ++ p :: ys) (hq : q ∈ xs) (hpred : q.task.taskId ∈ p.task.precedence) :
    q.start ≤ p.start := by
  obtain ⟨-, hfit⟩ := h xs p ys hps
  refine le_trans (le_latest (List.mem_append_left _ ?_)) (firstFit_spec hfit).2.1
  exact List.mem_map.mpr ⟨q, List.mem_filter.mpr ⟨hq, by simpa using hpred⟩, rfl⟩

/-! ## The loop computes the list schedule -/

/-- The dictionaries of the loop after the placements `ps`. -/
structure Represents (g : Greedy) (ps : List Placed) : Prop where
  assignment : g.assignment.entries = ps.map fun p => (p.task.taskId, p.asset)
  starts : g.starts.entries = ps.map fun p => (p.task.taskId, p.start)
  busy : ∀ a, g.busyUntil.getD a 0 = latest ((ps.filter fun p => p.asset = a).map Placed.stop)

theorem represents_nil : Represents ⟨Dict.empty, Dict.empty, Dict.empty⟩ [] :=
  ⟨rfl, rfl, fun _ => rfl⟩

theorem Represents.get?_starts {g : Greedy} {ps : List Placed} (h : Represents g ps) {p : Placed}
    (hp : p ∈ ps) : g.starts.get? p.task.taskId = some p.start := by
  rw [Dict.get?_eq_some_iff, h.starts]
  exact List.mem_map.mpr ⟨p, hp, rfl⟩

/-- The starts of the predecessors, and the latest of them. -/
theorem Represents.notBefore {g : Greedy} {xs : List Placed} (h : Represents g xs)
    (hfits : Fits request xs) {t : Task}
    (hpreds : ∀ p ∈ t.precedence, ∃ q ∈ xs, q.task.taskId = p) :
    ∃ starts, (t.precedence.mapM fun p => lookup p (g.starts.get? p)) = .ok starts ∧
      maxDefault starts =
        latest ((xs.filter fun p => p.task.taskId ∈ t.precedence).map Placed.start) := by
  refine ⟨t.precedence.map fun p => (g.starts.get? p).getD 0, ?_, ?_⟩
  · rw [mapM_eq_ok, List.forall₂_map_right_iff, List.forall₂_same]
    intro p hp
    obtain ⟨q, hq, rfl⟩ := hpreds p hp
    rw [h.get?_starts hq]
    rfl
  · rw [maxDefault_eq]
    · refine latest_congr fun x => ?_
      constructor
      · intro hx
        obtain ⟨p, hp, rfl⟩ := List.mem_map.mp hx
        obtain ⟨q, hq, rfl⟩ := hpreds p hp
        refine List.mem_map.mpr ⟨q, List.mem_filter.mpr ⟨hq, by simpa using hp⟩, ?_⟩
        rw [h.get?_starts hq, Option.getD_some]
      · intro hx
        obtain ⟨q, hq, rfl⟩ := List.mem_map.mp hx
        obtain ⟨hq, hp⟩ := List.mem_filter.mp hq
        refine List.mem_map.mpr ⟨q.task.taskId, by simpa using hp, ?_⟩
        rw [h.get?_starts hq, Option.getD_some]
    · intro x hx
      obtain ⟨p, hp, rfl⟩ := List.mem_map.mp hx
      obtain ⟨q, hq, rfl⟩ := hpreds p hp
      rw [h.get?_starts hq, Option.getD_some]
      exact hfits.start_nonneg q hq

/-- **Step.** A pass of the loop places the task where it fits first, or returns. -/
theorem placeTask_spec {g : Greedy} {xs : List Placed} (h : Represents g xs)
    (hfits : Fits request xs) {t : Task} (ht : t ∈ request.tasks)
    (hpreds : ∀ p ∈ t.precedence, ∃ q ∈ xs, q.task.taskId = p)
    (hnew : ∀ q ∈ xs, q.task.taskId ≠ t.taskId) :
    (firstFit request t (readyAt xs t) = none ∧ placeTask request g t.taskId = .ok none) ∨
      ∃ a s g', firstFit request t (readyAt xs t) = some (a, s) ∧
        placeTask request g t.taskId = .ok (some g') ∧ Represents g' (xs ++ [⟨t, a, s⟩]) := by
  obtain ⟨starts, hstarts, hlatest⟩ := h.notBefore hfits hpreds
  have hready : ∀ a, max (maxDefault starts) (g.busyUntil.getD a 0) = readyAt xs t a := by
    intro a
    rw [hlatest, h.busy, max_latest]
    rfl
  have hplace : placeTask request g t.taskId = (match firstFit request t (readyAt xs t) with
      | none => .ok none
      | some (chosen, start) => .ok (some
          { assignment := g.assignment.set t.taskId chosen
            starts := g.starts.set t.taskId start
            busyUntil := g.busyUntil.set chosen (start + t.durationS) })) := by
    unfold placeTask
    rw [taskById_eq_some.2 ⟨ht, rfl⟩]
    show ((t.precedence.mapM fun p => lookup p (g.starts.get? p)) >>= _ :
      Except SolveError (Option Greedy)) = _
    rw [hstarts]
    show (match firstFit request t fun a => max (maxDefault starts) (g.busyUntil.getD a 0) with
      | none => _
      | some (chosen, start) => _) = _
    rw [firstFit_congr t hready]
    rfl
  rw [hplace]
  cases hfit : firstFit request t (readyAt xs t) with
  | none => exact .inl ⟨rfl, rfl⟩
  | some p =>
    obtain ⟨a, s⟩ := p
    have hkey {ν : Type} {f : Placed → ν} :
        t.taskId ∉ (xs.map fun p => (p.task.taskId, f p)).map Prod.fst := by
      rw [List.map_map]
      intro hm
      obtain ⟨q, hq, hid⟩ := List.mem_map.mp hm
      exact hnew q hq hid
    refine .inr ⟨a, s, _, rfl, rfl, ?_, ?_, fun b => ?_⟩
    · show (g.assignment.set t.taskId a).entries = _
      rw [Dict.entries_set_of_notMem _ (by rw [h.assignment]; exact hkey), h.assignment, List.map_append]
      rfl
    · show (g.starts.set t.taskId s).entries = _
      rw [Dict.entries_set_of_notMem _ (by rw [h.starts]; exact hkey), h.starts, List.map_append]
      rfl
    · show ((g.busyUntil.set a (s + t.durationS)).get? b).getD 0 = _
      rw [Dict.get?_set, List.filter_append, List.map_append, ← max_latest, ← h.busy]
      by_cases hb : b = a
      · subst hb
        rw [if_pos rfl, Option.getD_some]
        -- the task runs after everything else on its asset
        have hle : g.busyUntil.getD b 0 ≤ s := by
          rw [h.busy]
          refine le_trans ?_ (firstFit_spec hfit).2.1
          exact latest_le_iff.2 ⟨latest_nonneg _, fun y hy => le_latest (List.mem_append_right _ hy)⟩
        have hs : 0 ≤ s := (latest_nonneg _).trans (firstFit_spec hfit).2.1
        have hstop : latest [s + t.durationS] = s + t.durationS :=
          max_eq_right (add_nonneg hs t.duration_nonneg)
        have hone : ([(⟨t, b, s⟩ : Placed)].filter fun p => p.asset = b) = [⟨t, b, s⟩] := by simp
        rw [hone]
        show s + t.durationS = max _ (latest [s + t.durationS])
        rw [hstop, max_eq_right (hle.trans (le_add_of_nonneg_right t.duration_nonneg))]
      · have hone : ([(⟨t, a, s⟩ : Placed)].filter fun p => p.asset = b) = [] := by
          simp [Ne.symm hb]
        have hnonneg : 0 ≤ g.busyUntil.getD b 0 := by
          rw [h.busy]
          exact latest_nonneg _
        rw [if_neg hb, hone]
        exact (max_eq_left hnonneg).symm

/-- **Run.** The loop computes the list schedule, or finds that there is none. -/
theorem placeAll_cases {taskIds : List String} {g : Greedy} {xs : List Placed}
    (h : Represents g xs) (hfits : Fits request xs)
    (horder : Kahn.order (precedenceOf request.tasks) =
      xs.map (fun p => p.task.taskId) ++ taskIds) :
    (∃ g' ps, placeAll request taskIds g = .ok (some g') ∧ Represents g' ps ∧
        ListSchedule request ps) ∨
      placeAll request taskIds g = .ok none ∧ ∀ ps, ¬ ListSchedule request ps := by
  induction taskIds generalizing g xs with
  | nil => exact .inl ⟨g, xs, rfl, h, by rw [horder, List.append_nil], hfits⟩
  | cons taskId rest ih =>
    obtain ⟨t, ht, rfl, hpreds, hnew⟩ := order_split horder
    have hpreds' : ∀ p ∈ t.precedence, ∃ q ∈ xs, q.task.taskId = p :=
      fun p hp => List.mem_map.mp (hpreds p hp)
    have hnew' : ∀ q ∈ xs, q.task.taskId ≠ t.taskId :=
      fun q hq hid => hnew (List.mem_map.mpr ⟨q, hq, hid⟩)
    rw [placeAll]
    obtain ⟨hnone, hplace⟩ | ⟨a, s, g', hsome, hplace, hrep⟩ :=
      placeTask_spec h hfits ht hpreds' hnew'
    · refine .inr ⟨by rw [hplace]; rfl, fun ps hps => ?_⟩
      -- a list schedule would go on where the loop has stopped
      have hids := hps.order.trans horder
      obtain ⟨ys, zs, rfl, hys, hzs⟩ := List.map_eq_append_iff.mp hids
      obtain ⟨p, zs', rfl, hp, -⟩ := List.map_eq_cons_iff.mp hzs
      obtain rfl := hps.fits.of_append.unique hfits hys
      obtain ⟨hpt, hpf⟩ := hps.fits ys p zs' rfl
      rw [task_eq_of_taskId hpt ht hp, hnone] at hpf
      cases hpf
    · rw [hplace]
      refine ih hrep (hfits.snoc ht hsome) ?_
      rw [horder, List.map_append, List.append_assoc]
      rfl

end AstroMine.Allocate
