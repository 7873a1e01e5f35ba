import AstroMine.Allocate.Comms
import AstroMine.Allocate.Solve
import AstroMine.Allocate.Stub

/-!
# What the greedy solver reports

The placements that the loop of `TrivialStubSolver.solve` builds up (`solvers/trivial.py:242-263`),
and the incumbent it reports, checked by `verify_feasible` against the IR it was handed.

Results:
* `step_spec`, `run_spec`: what a turn of the loop keeps, and what the loop keeps.
* `solve_verifies_iff`: the constraints that the reported plan may break.
* `solve_verifies`: on an IR whose constraints are all heeded the reported plan is verified.
-/

namespace AstroMine.Allocate

open Intervals
open Skeleton (InWindow)

namespace Stub

/-! ## What the loop keeps -/

/-- The dictionaries of the loop after the placements `ps`. -/
structure Mirrors (ir : AllocationIR) (s : State) (ps : List Placed) : Prop where
  assignment : s.assignment.entries = ps.map fun p => (p.task.taskId, p.asset)
  starts : s.starts.entries = ps.map fun p => (p.task.taskId, p.start)
  used : ∀ a, 0 ≤ s.used.getD a 0
  busy : ∀ p ∈ ps, p.start + (sizes ir).getD (p.task.taskId, p.asset) 0 ≤
    s.busyUntil.getD p.asset 0

/-- What is so of the placements of the loop, in their order. -/
structure Keeps (request : AllocationRequest) (ir : AllocationIR) (ps : List Placed) : Prop where
  known : ∀ p ∈ ps, p.task ∈ request.tasks ∧ p.task.taskId ≠ ""
  eligible : ∀ p ∈ ps, p.asset ∈ eligible request p.task ∧ p.asset ≠ ""
  allowed : ∀ p ∈ ps, (p.task.taskId, p.asset) ∉ forbidden ir
  capped : ∀ p ∈ ps, ∀ cap ∈ (budgetCap ir).get? p.asset,
    (budgetCost ir).getD (p.task.taskId, p.asset) 0 ≤ cap + eps
  hosted : ∀ p ∈ ps, ∃ ready, place ir p.task.taskId ready = some p.start
  inOrder : ps.Pairwise fun p q => p.task.taskId ∈ precede ir q.task.taskId → p.start ≤ q.start
  sequential : ps.Pairwise fun p q => p.asset = q.asset →
    p.start + (sizes ir).getD (p.task.taskId, p.asset) 0 ≤ q.start

section Loop

variable {request : AllocationRequest} {ir : AllocationIR}

theorem mirrors_init : Mirrors ir .init [] := ⟨rfl, rfl, fun _ => le_rfl, by simp⟩

theorem keeps_nil : Keeps request ir [] := by constructor <;> simp

/-- What `_choose` finds. -/
theorem choose_eq_some {s : State} {task : String} {ready : ℚ} {placed : String × ℚ}
    (h : choose ir s task ready = some placed) :
    placed.1 ∈ (assignmentPairs ir).getD task [] ∧ (task, placed.1) ∉ forbidden ir ∧
      (∀ cap ∈ (budgetCap ir).get? placed.1,
        s.used.getD placed.1 0 + (budgetCost ir).getD (task, placed.1) 0 ≤ cap + eps) ∧
      place ir task (max ready (s.busyUntil.getD placed.1 0)) = some placed.2 := by
  obtain ⟨asset, hasset, h⟩ := List.exists_of_findSome?_eq_some h
  split_ifs at h with hout
  obtain ⟨start, hstart, rfl⟩ := Option.map_eq_some_iff.mp h
  rw [not_or] at hout
  refine ⟨hasset, hout.1, fun cap hcap => ?_, hstart⟩
  have hunder := hout.2
  rw [overCap, Option.mem_def.mp hcap, Option.any_some, decide_eq_true_eq, not_lt] at hunder
  exact hunder

theorem Mirrors.get?_starts {s : State} {ps : List Placed} (h : Mirrors ir s ps) {p : Placed}
    (hp : p ∈ ps) : s.starts.get? p.task.taskId = some p.start := by
  rw [Dict.get?_eq_some_iff, h.starts]
  exact List.mem_map.mpr ⟨p, hp, rfl⟩

/-- A task starts no earlier than its predecessors that have been placed. -/
theorem Mirrors.le_notBefore {s : State} {ps : List Placed} (h : Mirrors ir s ps) {p : Placed}
    (hp : p ∈ ps) {task : String} (hpred : p.task.taskId ∈ precede ir task) :
    p.start ≤ notBefore ir s task :=
  le_latest (List.mem_filterMap.mpr ⟨_, hpred, h.get?_starts hp⟩)

/-- The dictionaries after one more placement. -/
theorem Mirrors.snoc (h : Produced request ir) {s : State} {ps : List Placed}
    (hm : Mirrors ir s ps) {p : Placed} (hnew : ∀ q ∈ ps, q.task.taskId ≠ p.task.taskId)
    (hready : s.busyUntil.getD p.asset 0 ≤ p.start) :
    Mirrors ir
      { assignment := s.assignment.set p.task.taskId p.asset
        starts := s.starts.set p.task.taskId p.start
        used := s.used.set p.asset
          (s.used.getD p.asset 0 + (budgetCost ir).getD (p.task.taskId, p.asset) 0)
        busyUntil := s.busyUntil.set p.asset
          (p.start + (sizes ir).getD (p.task.taskId, p.asset) 0) }
      (ps ++ [p]) := by
  have hkey {ν : Type} {f : Placed → ν} :
      p.task.taskId ∉ (ps.map fun q => (q.task.taskId, f q)).map Prod.fst := by
    rw [List.map_map]
    intro hmem
    obtain ⟨q, hq, hid⟩ := List.mem_map.mp hmem
    exact hnew q hq hid
  constructor
  · rw [Dict.entries_set_of_notMem _ (by rw [hm.assignment]; exact hkey), hm.assignment, List.map_append]
    rfl
  · rw [Dict.entries_set_of_notMem _ (by rw [hm.starts]; exact hkey), hm.starts, List.map_append]
    rfl
  · intro a
    rw [Dict.getD_set]
    split_ifs
    · exact add_nonneg (hm.used _) (budgetCost_nonneg h _)
    · exact hm.used a
  · intro q hq
    rw [Dict.getD_set]
    rcases List.mem_append.mp hq with hq | hq
    · split_ifs with hsame
      · refine (hm.busy q hq).trans ?_
        rw [hsame]
        exact hready.trans (le_add_of_nonneg_right (sizes_nonneg h _))
      · exact hm.busy q hq
    · obtain rfl := List.mem_singleton.mp hq
      rw [if_pos rfl]

/-- **Step.** A turn of the loop that goes on has placed its task. -/
theorem step_spec (h : Produced request ir) {s s' : State} {ps : List Placed}
    (hm : Mirrors ir s ps) (hk : Keeps request ir ps) {task : String}
    (hnew : ∀ q ∈ ps, q.task.taskId ≠ task) (hstep : step ir s task = some s') :
    ∃ p, p.task.taskId = task ∧ Mirrors ir s' (ps ++ [p]) ∧ Keeps request ir (ps ++ [p]) := by
  obtain ⟨placed, hchoose, rfl⟩ := Option.map_eq_some_iff.mp hstep
  obtain ⟨hasset, hallowed, hcapped, hplace⟩ := choose_eq_some hchoose
  obtain ⟨t, ht, rfl, ha, hne, hane⟩ := h.skeleton.mem_assignmentPairs.1 hasset
  obtain ⟨hpreds, hfree⟩ := max_le_iff.1 (le_of_place hplace)
  refine ⟨⟨t, placed.1, placed.2⟩, rfl,
    hm.snoc h (p := ⟨t, placed.1, placed.2⟩) hnew hfree, ?_⟩
  constructor
  · exact List.forall_mem_append.2 ⟨hk.known, List.forall_mem_singleton.2 ⟨ht, hne⟩⟩
  · exact List.forall_mem_append.2 ⟨hk.eligible, List.forall_mem_singleton.2 ⟨ha, hane⟩⟩
  · exact List.forall_mem_append.2 ⟨hk.allowed, List.forall_mem_singleton.2 hallowed⟩
  · refine List.forall_mem_append.2 ⟨hk.capped, List.forall_mem_singleton.2 fun cap hcap => ?_⟩
    exact (le_add_of_nonneg_left (hm.used placed.1)).trans (hcapped cap hcap)
  · exact List.forall_mem_append.2 ⟨hk.hosted, List.forall_mem_singleton.2 ⟨_, hplace⟩⟩
  · refine List.pairwise_append.2 ⟨hk.inOrder, List.pairwise_singleton _ _, fun q hq => ?_⟩
    exact List.forall_mem_singleton.2 fun hpred => (hm.le_notBefore hq hpred).trans hpreds
  · refine List.pairwise_append.2 ⟨hk.sequential, List.pairwise_singleton _ _, fun q hq => ?_⟩
    refine List.forall_mem_singleton.2 fun hsame => (hm.busy q hq).trans ?_
    rw [hsame]
    exact hfree

/-- **Run.** A loop that comes to its end has placed every task it was given. -/
theorem run_spec (h : Produced request ir) {tasks : List String} {s s' : State} {ps : List Placed}
    (hm : Mirrors ir s ps) (hk : Keeps request ir ps)
    (hnodup : (ps.map (fun p => p.task.taskId) ++ tasks).Nodup) (hrun : run ir tasks s = some s') :
    ∃ ps', ps'.map (fun p => p.task.taskId) = ps.map (fun p => p.task.taskId) ++ tasks ∧
      Mirrors ir s' ps' ∧ Keeps request ir ps' := by
  induction tasks generalizing s ps with
  | nil =>
    obtain rfl := Option.some.inj hrun
    exact ⟨ps, (List.append_nil _).symm, hm, hk⟩
  | cons task tasks ih =>
    obtain ⟨s₁, hstep, hrest⟩ := Option.bind_eq_some_iff.mp hrun
    have hnew : ∀ q ∈ ps, q.task.taskId ≠ task := by
      intro q hq heq
      exact (List.nodup_append.mp hnodup).2.2 _ (List.mem_map.mpr ⟨q, hq, rfl⟩) _
        List.mem_cons_self heq
    obtain ⟨p, rfl, hm', hk'⟩ := step_spec h hm hk hnew hstep
    have happend : (ps ++ [p]).map (fun p => p.task.taskId) ++ tasks =
        ps.map (fun p => p.task.taskId) ++ p.task.taskId :: tasks := by
      rw [List.map_append, List.append_assoc]
      rfl
    obtain ⟨ps', hids, hspec⟩ := ih hm' hk' (happend ▸ hnodup) hrest
    exact ⟨ps', hids.trans happend, hspec⟩

end Loop

/-! ## The reported plan -/

section Plan

variable {request : AllocationRequest} {ir : AllocationIR} {plan : List AssetSchedule}
  {ps : List Placed}

/-- The plan that is built from the dictionaries has the placements. -/
theorem renders_buildPlan {s : State} {kinds : Dict String TaskKind} {durations : Dict Pair ℚ}
    (hm : Mirrors ir s ps) (hplan : buildPlan s.assignment s.starts kinds durations = .ok plan) :
    Renders plan ps := by
  have hasset : ∀ p ∈ ps, s.assignment.get? p.task.taskId = some p.asset := by
    intro p hp
    rw [Dict.get?_eq_some_iff, hm.assignment]
    exact List.mem_map.mpr ⟨p, hp, rfl⟩
  refine ⟨nodup_placements_buildPlan hplan, fun p hp => ?_, fun p hp => ?_⟩
  · rw [assetOf_buildPlan hplan, hasset p hp]
  · rw [startOf, get?_scheduled_buildPlan hplan, hasset p hp, Dict.getD, hm.get?_starts hp]
    rfl

/-- The plan schedules only tasks that were placed. -/
theorem exists_placed_of_isSome {s : State} {kinds : Dict String TaskKind}
    {durations : Dict Pair ℚ} (hm : Mirrors ir s ps)
    (hplan : buildPlan s.assignment s.starts kinds durations = .ok plan) {taskId : String}
    (h : ((scheduled plan).get? taskId).isSome) : ∃ p ∈ ps, p.task.taskId = taskId := by
  rw [get?_scheduled_buildPlan hplan, Option.isSome_map, Option.isSome_iff_exists] at h
  obtain ⟨a, ha⟩ := h
  rw [Dict.get?_eq_some_iff, hm.assignment] at ha
  obtain ⟨p, hp, heq⟩ := List.mem_map.mp ha
  exact ⟨p, hp, congrArg Prod.fst heq⟩

/-- The placements of a loop that has gone through the tasks of the planner. -/
structure Schedules (request : AllocationRequest) (ir : AllocationIR) (ps : List Placed) : Prop
    extends Keeps request ir ps where
  order : ps.map (fun p => p.task.taskId) = Kahn.order (precedenceOf request.tasks)

theorem Schedules.exists_placed (hps : Schedules request ir ps) {t : Task}
    (ht : t ∈ request.tasks) : ∃ p ∈ ps, p.task = t := by
  have hmem := mem_order ht
  rw [← hps.order] at hmem
  obtain ⟨p, hp, hid⟩ := List.mem_map.mp hmem
  exact ⟨p, hp, task_eq_of_taskId (hps.known p hp).1 ht hid⟩

theorem Schedules.eq_of_taskId (hps : Schedules request ir ps) {p q : Placed} (hp : p ∈ ps)
    (hq : q ∈ ps) (h : p.task.taskId = q.task.taskId) : p = q := by
  have hnodup := Kahn.order_nodup (precedenceOf request.tasks)
  rw [← hps.order] at hnodup
  exact List.inj_on_of_nodup_map hnodup hp hq h

/-- Every task starts no earlier than its predecessors. -/
theorem Schedules.precedence (h : Produced request ir) (hps : Schedules request ir ps)
    {p q : Placed} (hp : p ∈ ps) (hq : q ∈ ps) (hpred : q.task.taskId ∈ p.task.precedence) :
    q.start ≤ p.start := by
  obtain ⟨xs, ys, hsplit⟩ := List.append_of_mem hp
  have horder := hps.order
  rw [hsplit, List.map_append, List.map_cons] at horder
  obtain ⟨t, ht, hid, hpreds, -⟩ := order_split horder.symm
  obtain rfl := task_eq_of_taskId ht (hps.known p hp).1 hid
  obtain ⟨q', hq', hid'⟩ := List.mem_map.mp (hpreds _ hpred)
  obtain rfl := hps.eq_of_taskId (hsplit ▸ List.mem_append_left _ hq') hq hid'
  have hpairwise := hps.inOrder
  rw [hsplit, List.pairwise_append] at hpairwise
  exact hpairwise.2.2 q' hq' p List.mem_cons_self ((mem_precede h).2 ⟨p.task, ht, rfl, hpred⟩)

/-- Of two tasks on one asset one has run, by the sizes, when the other one starts. -/
theorem Schedules.runsApart (hps : Schedules request ir ps) {p q : Placed} (hp : p ∈ ps)
    (hq : q ∈ ps) (hne : p ≠ q) (hsame : p.asset = q.asset) :
    p.start + (sizes ir).getD (p.task.taskId, p.asset) 0 ≤ q.start ∨
      q.start + (sizes ir).getD (q.task.taskId, q.asset) 0 ≤ p.start := by
  have hboth : ps.Pairwise fun p q =>
      (p.asset = q.asset → p.start + (sizes ir).getD (p.task.taskId, p.asset) 0 ≤ q.start ∨
        q.start + (sizes ir).getD (q.task.taskId, q.asset) 0 ≤ p.start) :=
    hps.sequential.imp fun hbefore hpq => .inl (hbefore hpq)
  have hsymm : Std.Symm fun p q : Placed =>
      (p.asset = q.asset → p.start + (sizes ir).getD (p.task.taskId, p.asset) 0 ≤ q.start ∨
        q.start + (sizes ir).getD (q.task.taskId, q.asset) 0 ≤ p.start) :=
    ⟨fun _ _ himp hqp => (himp hqp.symm).symm⟩
  exact hboth.forall hp hq hne hsame

end Plan

/-! ## The constraints of the IR -/

section Verified

variable {request : AllocationRequest} {ir : AllocationIR} {plan : List AssetSchedule}
  {ps : List Placed}

/-- The constraint bounds the start of the task and nothing else. -/
def BoundsStart (t : Task) (c : Constraint) : Prop :=
  c.kind = .timeWindow ∧ c.terms = [⟨startVarId t.taskId, 1⟩]

/-- The start of a task with at most one window keeps every bound. -/
theorem Schedules.startBound_single (h : Produced request ir) (hps : Schedules request ir ps)
    {p : Placed} (hp : p ∈ ps) (hsg : p.task.timeWindows.length < 2) {id : String} {bound : ℚ} :
    (⟨id, .timeWindow, [⟨startVarId p.task.taskId, 1⟩], .ge, bound⟩ ∈ ir.constraints →
        bound ≤ p.start) ∧
      (⟨id, .timeWindow, [⟨startVarId p.task.taskId, 1⟩], .le, bound⟩ ∈ ir.constraints →
        p.start ≤ bound + eps) := by
  have ht := (hps.known p hp).1
  obtain ⟨ready, hplace⟩ := hps.hosted p hp
  obtain ⟨hge, hle⟩ := place_single h.skeleton ht hsg hplace
  exact ⟨fun hc => hge _ (mem_bounds h.skeleton ht hc), fun hc => hle _ (mem_bounds h.skeleton ht hc)⟩

/-- Every task starts in one of its windows. -/
theorem Schedules.inWindow (h : Produced request ir) (hps : Schedules request ir ps) {p : Placed}
    (hp : p ∈ ps) :
    p.task.timeWindows = [] ∨ ∃ w ∈ p.task.timeWindows, InWindow w p.start := by
  obtain ⟨ht, hne⟩ := hps.known p hp
  by_cases hpl : 2 ≤ p.task.timeWindows.length
  · obtain ⟨ready, hplace⟩ := hps.hosted p hp
    obtain ⟨w, hw, hlo, hhi⟩ := place_plural h.skeleton ht hne hpl hplace
    exact .inr ⟨w, hw, (sub_le_self _ eps_nonneg).trans hlo, hhi⟩
  · rcases hws : taskWindows p.task with _ | ⟨w, _ | ⟨w', ws⟩⟩
    · exact .inl (Skeleton.taskWindows_eq_nil.1 hws)
    · obtain ⟨hlomem, hhimem⟩ := h.skeleton.singleWindow_mem ht hws
      have hlo := (hps.startBound_single h hp (by omega)).1 hlomem
      have hhi := (hps.startBound_single h hp (by omega)).2 hhimem
      refine .inr ⟨w, Skeleton.mem_taskWindows.1 ?_, (sub_le_self _ eps_nonneg).trans hlo, hhi⟩
      rw [hws]
      exact List.mem_singleton_self w
    · have hlength := length_taskWindows p.task
      rw [hws, List.length_cons, List.length_cons] at hlength
      omega

/-- The linear constraints of the skeleton hold for the plan. -/
theorem Schedules.linearConstraints (h : Produced request ir) (hps : Schedules request ir ps)
    (hplan : Renders plan ps) : ∀ c ∈ linearConstraints request,
      satisfiesConstraint ir (planVariableValues plan ir) c = true := by
  refine ((linearConstraints_iff h.skeleton).2 ⟨fun t ht => ?_, fun t ht => ?_,
    fun t ht u hu hpred => ?_⟩).2
  · obtain ⟨p, hp, rfl⟩ := hps.exists_placed ht
    exact ⟨p.asset, (hps.eligible p hp).1, hplan.asset p hp⟩
  · obtain ⟨p, hp, rfl⟩ := hps.exists_placed ht
    rw [hplan.start p hp]
    exact ⟨hps.inWindow h hp, fun hempty => absurd hempty (hps.known p hp).2⟩
  · obtain ⟨p, hp, rfl⟩ := hps.exists_placed ht
    obtain ⟨q, hq, rfl⟩ := hps.exists_placed hu
    rw [hplan.start p hp, hplan.start q hq]
    exact (hps.precedence h hp hq hpred).trans (le_add_of_nonneg_right eps_nonneg)

/-- A keep-out holds for the plan. -/
theorem Schedules.keepout (h : Produced request ir) (hps : Schedules request ir ps)
    (hplan : Renders plan ps) {t : Task} (ht : t ∈ request.tasks) {a : String}
    (ha : a ∈ eligible request t) (hc : keepoutConstraint (t.taskId, a) ∈ ir.constraints) :
    satisfiesConstraint ir (planVariableValues plan ir) (keepoutConstraint (t.taskId, a)) =
      true := by
  obtain ⟨p, hp, rfl⟩ := hps.exists_placed ht
  rw [h.skeleton.keepout_iff plan ht ha, hplan.asset p hp]
  intro hasset
  obtain rfl := Option.some.inj hasset
  refine hps.allowed p hp (mem_forbidden hc ?_)
  refine ingest_pinned h.skeleton ht ha (hps.known p hp).2 (hps.eligible p hp).2 rfl rfl (.inl rfl) ?_
  rw [keepoutConstraint, abs_zero]
  exact eps_nonneg

/-- A no-overlap constraint holds for the plan. -/
theorem Schedules.noOverlap (h : Produced request ir) (hps : Schedules request ir ps)
    (hplan : Renders plan ps) {a : String} {sz : Dict Pair ℚ} {ks : List String} (hnd : ks.Nodup)
    (hsizes : ∀ k ∈ ks, 0 ≤ sz.getD (k, a) 0)
    (hks : ∀ k ∈ ks, ∃ t ∈ request.tasks, t.taskId = k ∧ a ∈ eligible request t)
    (hc : ⟨noOverlapConstraintId a, .noOverlap, noOverlapTerms sz a ks, .le, 0⟩ ∈ ir.constraints) :
    satisfiesConstraint ir (planVariableValues plan ir)
      ⟨noOverlapConstraintId a, .noOverlap, noOverlapTerms sz a ks, .le, 0⟩ = true := by
  rw [h.skeleton.noOverlap_iff plan hnd hks]
  have hplaced : ∀ k ∈ ks, isPresent ir (planVariableValues plan ir) a (startVarId k) = true →
      ∃ p ∈ ps, p.task.taskId = k ∧ p.asset = a ∧ Skeleton.interval plan sz a k =
        (p.start, p.start + (sizes ir).getD (p.task.taskId, p.asset) 0) := by
    intro k hk hpresent
    obtain ⟨t, ht, rfl, ha⟩ := hks k hk
    obtain ⟨p, hp, rfl⟩ := hps.exists_placed ht
    rw [h.skeleton.isPresent_start plan ht (hps.known p hp).2 ha, hplan.asset p hp] at hpresent
    obtain rfl := Option.some.inj hpresent
    refine ⟨p, hp, rfl, rfl, ?_⟩
    rw [Skeleton.interval, hplan.start p hp, getD_sizes h hks hc hk]
  intro k hk l hl hkl hkp hlp
  obtain ⟨p, hp, rfl, hpa, hpi⟩ := hplaced k hk hkp
  obtain ⟨q, hq, rfl, hqa, hqi⟩ := hplaced l hl hlp
  have hself : ∀ r : Placed, r.start ≤ r.start + (sizes ir).getD (r.task.taskId, r.asset) 0 :=
    fun r => le_add_of_nonneg_right (sizes_nonneg h _)
  rw [hpi, hqi]
  exact apart_of_either eps_nonneg (hself p) (hself q)
    (hps.runsApart hp hq (fun heq => hkl (by rw [heq])) (hpa.trans hqa.symm))

/-- **Spec.** The constraints of the IR hold for the plan when its budgets do and the single bounds
    of the tasks with several windows do. -/
theorem Schedules.constraints_iff (h : Produced request ir) (hps : Schedules request ir ps)
    (hplan : Renders plan ps) :
    (∀ c ∈ ir.constraints, satisfiesConstraint ir (planVariableValues plan ir) c = true) ↔
      (∀ c ∈ ir.constraints, c.kind = .linear → c.sense = .le →
        satisfiesConstraint ir (planVariableValues plan ir) c = true) ∧
      ∀ t ∈ request.tasks, 2 ≤ t.timeWindows.length → ∀ c ∈ ir.constraints, BoundsStart t c →
        satisfiesConstraint ir (planVariableValues plan ir) c = true := by
  have hS := h.skeleton
  have hlinear := hps.linearConstraints h hplan
  refine ⟨fun hall => ⟨fun c hc _ _ => hall c hc, fun _ _ _ c hc _ => hall c hc⟩, ?_⟩
  rintro ⟨hbudgets, hbounds⟩ c hc
  cases h.emitted c hc with
  | linear hm => exact hlinear c hm
  | @startBound id t ht sense bound =>
    by_cases hpl : 2 ≤ t.timeWindows.length
    · exact hbounds t ht hpl _ hc ⟨rfl, rfl⟩
    · rcases h.linear_or_bound hc with hm | hkind | hsense
      · exact hlinear _ hm
      · exact absurd rfl hkind
      · obtain ⟨p, hp, rfl⟩ := hps.exists_placed ht
        rw [hS.startBound_iff plan ht, hplan.start p hp]
        cases sense with
        | le => exact (hps.startBound_single h hp (not_le.1 hpl)).2 hc
        | ge =>
          exact (sub_le_self _ eps_nonneg).trans ((hps.startBound_single h hp (not_le.1 hpl)).1 hc)
        | eq => exact absurd rfl hsense
  | budget id asset energy hks available => exact hbudgets _ hc rfl rfl
  | keepout ht ha => exact hps.keepout h hplan ht ha hc
  | noOverlap hnd hsizes hks => exact hps.noOverlap h hplan hnd hsizes hks hc

end Verified

end Stub

/-! ## Constraints that are heeded -/

/-- Nothing of the IR is lost on the greedy solver: the tasks have names; a budget is over one pair,
and zero meets it, or all tasks of the asset together fit into it; the windows of a task with several
lie within every single bound of its start. -/
structure Heeded (request : AllocationRequest) (ir : AllocationIR) : Prop where
  named : ∀ t ∈ request.tasks, t.taskId ≠ ""
  budgets : ∀ c ∈ ir.constraints, c.kind = .linear → c.sense = .le →
    (c.terms.length = 1 ∧ 0 ≤ c.rhs + eps) ∨
      (c.terms.map ConstraintTerm.coefficient).sum ≤ c.rhs + eps
  bounds : ∀ t ∈ request.tasks, 2 ≤ t.timeWindows.length → ∀ c ∈ ir.constraints,
    Stub.BoundsStart t c → ∀ w ∈ t.timeWindows,
      (c.sense = .ge → c.rhs ≤ w.startS + eps) ∧ (c.sense = .le → w.endS ≤ c.rhs)

namespace Stub

section Heeded

variable {request : AllocationRequest} {ir : AllocationIR} {plan : List AssetSchedule}
  {ps : List Placed}

/-- A task on an asset with a budget of its own fits into it. -/
theorem Schedules.cost_le (h : Produced request ir) (hps : Schedules request ir ps) {p : Placed}
    (hp : p ∈ ps) {id : String} {energy available : ℚ}
    (hc : ⟨id, .linear, [⟨assignmentVarId p.task.taskId p.asset, energy⟩], .le, available⟩ ∈
      ir.constraints) : energy ≤ available + eps := by
  obtain ⟨ht, hne⟩ := hps.known p hp
  obtain ⟨ha, hane⟩ := hps.eligible p hp
  by_cases hzero : |available| ≤ eps
  · -- an empty budget is read as a keep-out
    exact absurd (mem_forbidden hc (ingest_pinned h.skeleton ht ha hne hane rfl rfl (.inr rfl) hzero))
      (hps.allowed p hp)
  · have hi := ingest_budget h.skeleton ht ha id energy (not_le.1 hzero)
    have hcost := hps.capped p hp available (get?_budgetCap h hc hi)
    rwa [Dict.getD, get?_budgetCost h hc hi ht ha rfl, Option.getD_some] at hcost

/-- The budgets hold for the plan. -/
theorem Schedules.budgets (h : Produced request ir) (hps : Schedules request ir ps)
    (hplan : Renders plan ps) (hheeded : Heeded request ir) :
    ∀ c ∈ ir.constraints, c.kind = .linear → c.sense = .le →
      satisfiesConstraint ir (planVariableValues plan ir) c = true := by
  intro c hc hkind hsense
  obtain ⟨a, ks, energy, hform, hnonneg, hks⟩ := budget_form h hc hkind hsense
  rw [hform, h.skeleton.budget_iff plan _ energy hks]
  rcases hheeded.budgets c hc hkind hsense with ⟨hone, hzero⟩ | hall
  · rw [hform, List.length_map] at hone
    obtain ⟨k, rfl⟩ := List.length_eq_one_iff.1 hone
    obtain ⟨t, ht, rfl, ha⟩ := hks k (List.mem_singleton_self k)
    obtain ⟨p, hp, rfl⟩ := hps.exists_placed ht
    rw [List.map_singleton, List.sum_singleton, hplan.asset p hp]
    split_ifs with hasset
    · obtain rfl := Option.some.inj hasset
      exact hps.cost_le h hp (hform ▸ hc)
    · exact hzero
  · rw [hform, List.map_map] at hall
    refine (List.sum_le_sum fun k _ => ?_).trans hall
    split_ifs
    · exact le_rfl
    · exact hnonneg k

/-- The single bounds of the tasks with several windows hold for the plan. -/
theorem Schedules.bounds (h : Produced request ir) (hps : Schedules request ir ps)
    (hplan : Renders plan ps) (hheeded : Heeded request ir) :
    ∀ t ∈ request.tasks, 2 ≤ t.timeWindows.length → ∀ c ∈ ir.constraints, BoundsStart t c →
      satisfiesConstraint ir (planVariableValues plan ir) c = true := by
  intro t ht hpl c hc hbounds
  obtain ⟨p, hp, rfl⟩ := hps.exists_placed ht
  obtain ⟨ready, hplace⟩ := hps.hosted p hp
  obtain ⟨w, hw, hlo, hhi⟩ := place_plural h.skeleton ht (hps.known p hp).2 hpl hplace
  obtain ⟨hge, hle⟩ := hheeded.bounds p.task ht hpl c hc hbounds w hw
  rcases h.linear_or_bound hc with hm | hkind | hsense
  · exact hps.linearConstraints h hplan c hm
  · exact absurd hbounds.1 hkind
  · obtain ⟨id, kind, terms, sense, rhs⟩ := c
    obtain ⟨rfl, rfl⟩ := hbounds
    rw [h.skeleton.startBound_iff plan ht, hplan.start p hp]
    cases sense with
    | le => exact hhi.trans (add_le_add_left (hle rfl) eps)
    | ge => exact (sub_le_iff_le_add.2 (hge rfl)).trans hlo
    | eq => exact absurd rfl hsense

end Heeded

end Stub

/-! ## The incumbent -/

/-- The solver that `_stream_backend` resolves when there is no other (`planner.py:524`). -/
def handedStub (request : AllocationRequest) (durations : Dict Pair ℚ) : TrivialStubSolver where
  taskKinds := requestKinds request
  durations := durations

theorem TrivialStubSolver.solve_eq_ok {solver : TrivialStubSolver} {ir : AllocationIR}
    {tasks : List String} {i : Incumbent} (h : solver.solve ir tasks = .ok i)
    (hfeasible : i.isFeasible = true) : ∃ s, Stub.run ir (solverOrder ir tasks) .init = some s ∧
      buildPlan s.assignment s.starts solver.taskKinds solver.durations = .ok i.plan ∧
      i.objective = realizedObjective ir s.assignment := by
  unfold solve at h
  split at h
  · obtain rfl := Except.ok.inj h
    cases hfeasible
  · rename_i s hs
    obtain ⟨plan, hplan, h⟩ := bind_eq_ok.1 h
    obtain rfl := Except.ok.inj h
    exact ⟨s, hs, hplan, rfl⟩

section Incumbent

variable {request : AllocationRequest} {ir : AllocationIR} {durations : Dict Pair ℚ}
  {tasks : List String} {i : Incumbent}

/-- The reported plan has the placements of the loop. -/
theorem exists_placements (h : Handed request ir durations)
    (hi : (handedStub request durations).solve ir tasks = .ok i) (hfeasible : i.isFeasible = true) :
    ∃ s ps, Stub.Mirrors ir s ps ∧ Stub.Keeps request ir ps ∧
      ps.map (fun p => p.task.taskId) = solverOrder ir tasks ∧
      buildPlan s.assignment s.starts (requestKinds request) durations = .ok i.plan ∧
      i.objective = realizedObjective ir s.assignment := by
  obtain ⟨s, hrun, hplan, hobjective⟩ := TrivialStubSolver.solve_eq_ok hi hfeasible
  have horder : (solverOrder ir tasks).Nodup := by
    rw [solverOrder, plannerRun_eq]
    exact Kahn.order_nodup _
  obtain ⟨ps, hids, hmirrors, hkeeps⟩ :=
    Stub.run_spec h.produced Stub.mirrors_init Stub.keeps_nil horder hrun
  exact ⟨s, ps, hmirrors, hkeeps, hids, hplan, hobjective⟩

/-- On tasks with names the loop goes through the tasks of the planner. -/
theorem schedules_of_keeps (h : Handed request ir durations) (hnodup : tasks.Nodup)
    (htasks : ∀ t, t ∈ tasks ↔ t ∈ startTasks ir) (hnamed : ∀ t ∈ request.tasks, t.taskId ≠ "")
    {ps : List Placed} (hkeeps : Stub.Keeps request ir ps)
    (hids : ps.map (fun p => p.task.taskId) = solverOrder ir tasks) :
    Stub.Schedules request ir ps := by
  refine ⟨hkeeps, ?_⟩
  rw [hids, solverOrder_eq h.produced hnamed hnodup htasks, topologicalOrder_eq]

/-- **Spec.** A plan that is reported as feasible passes the verifier if and only if the tasks have
    names, the budgets hold for it, and so do the single bounds of the tasks with several windows. -/
theorem solve_verifies_iff (h : Handed request ir durations) (hnodup : tasks.Nodup)
    (htasks : ∀ t, t ∈ tasks ↔ t ∈ startTasks ir)
    (hi : (handedStub request durations).solve ir tasks = .ok i) (hfeasible : i.isFeasible = true) :
    verifyFeasible (feasibleAllocation i.plan i.objective) ir = true ↔
      (∀ t ∈ request.tasks, t.taskId ≠ "") ∧
        (∀ c ∈ ir.constraints, c.kind = .linear → c.sense = .le →
          satisfiesConstraint ir (planVariableValues i.plan ir) c = true) ∧
        ∀ t ∈ request.tasks, 2 ≤ t.timeWindows.length → ∀ c ∈ ir.constraints, Stub.BoundsStart t c →
          satisfiesConstraint ir (planVariableValues i.plan ir) c = true := by
  have hS := h.produced.skeleton
  obtain ⟨s, ps, hmirrors, hkeeps, hids, hplan, hobjective⟩ := exists_placements h hi hfeasible
  have hrenders := Stub.renders_buildPlan hmirrors hplan
  constructor
  · intro hverified
    obtain ⟨plan, hplan', -, hcovers, hall, -⟩ := verifyFeasible_iff.1 hverified
    obtain rfl := Option.some.inj hplan'
    have hnamed : ∀ t ∈ request.tasks, t.taskId ≠ "" := by
      intro t ht
      obtain ⟨p, hp, hid⟩ := Stub.exists_placed_of_isSome hmirrors hplan
        ((coversStarts_iff hS).1 hcovers t ht)
      rw [← hid]
      exact (hkeeps.known p hp).2
    have hps := schedules_of_keeps h hnodup htasks hnamed hkeeps hids
    exact ⟨hnamed, (hps.constraints_iff h.produced hrenders).1 hall⟩
  · rintro ⟨hnamed, hrest⟩
    have hps := schedules_of_keeps h hnodup htasks hnamed hkeeps hids
    refine verifyFeasible_iff.2 ⟨i.plan, rfl, hrenders.scheduledOnce,
      (coversStarts_iff hS).2 fun t ht => ?_, (hps.constraints_iff h.produced hrenders).2 hrest, ?_⟩
    · obtain ⟨p, hp, rfl⟩ := hps.exists_placed ht
      exact isSome_of_assetOf (hrenders.asset p hp)
    · rw [objectiveValue_eq_realizedObjective hS h.overPairs (assetOf_buildPlan hplan)]
      refine honestObjective_iff.2 ⟨_, rfl, ?_⟩
      rw [hobjective, sub_self, abs_zero]
      exact mul_nonneg eps_nonneg (zero_le_one.trans (le_max_left _ _))

end Incumbent

/-! ## A battery for two tasks, and for one -/

/-- Two tasks of a second each, `100` J by the default mode, for two rovers with a battery. -/
def twoDigs (joules : ℚ) : AllocationRequest where
  tasks := [{ pointTask "dig" [] with durationS := 1, duration_nonneg := one_nonneg },
    { pointTask "haul" [] with durationS := 1, duration_nonneg := one_nonneg }]
  assets := [⟨"rover1", [], Dict.ofList [("energy_j", joules)]⟩,
    ⟨"rover2", [], Dict.ofList [("energy_j", joules)]⟩]
  objective := ⟨.maximize, Dict.empty⟩
  tasks_ne_nil := List.cons_ne_nil _ _
  assets_ne_nil := List.cons_ne_nil _ _
  taskIds_nodup := by simp [pointTask]
  assetIds_nodup := by simp
  precedence_irrefl := by simp [pointTask]
  precedence_known := by simp [pointTask]
  precedence_acyclic := by decide +kernel

/-- A haul with two windows, before a contact and around it. -/
def haulAtContact : AllocationRequest where
  tasks := [{ haulTask "haul" ⟨0, 10, ten_nonneg⟩ 5 five_nonneg with
    timeWindows := [⟨0, 10, ten_nonneg⟩, ⟨100, 200, by norm_num⟩] }]
  assets := [rover]
  objective := ⟨.maximize, Dict.empty⟩
  tasks_ne_nil := by decide
  assets_ne_nil := rover_ne_nil
  taskIds_nodup := by decide
  assetIds_nodup := rover_nodup
  precedence_irrefl := by decide
  precedence_known := by decide
  precedence_acyclic := by decide +kernel

/-- The constrained IR of two digs: only the power pass has something to say. -/
def compileDigs (joules : ℚ) : Except IRError ConstraintCompilation :=
  compileWithConstraints (fun _ _ => 0) (twoDigs joules) (plantContext [])
    { haulConfig with comms := none } ⟨Dict.empty⟩

/-- The verdict on what the greedy solver reports, with the placements. -/
def reported (request : AllocationRequest) (compilation : ConstraintCompilation) :
    Option (List (String × String × ℚ) × Bool) :=
  match (handedStub request compilation.report.durations).solve compilation.ir
    (startTasks compilation.ir) with
  | .error _ => none
  | .ok i => if i.isFeasible then
      some (placements i.plan, verifyFeasible (feasibleAllocation i.plan i.objective) compilation.ir)
    else none

theorem exists_of_reported {request : AllocationRequest} {compilation : ConstraintCompilation}
    {placed : List (String × String × ℚ)} {verdict : Bool}
    (h : reported request compilation = some (placed, verdict)) :
    ∃ i, (handedStub request compilation.report.durations).solve compilation.ir
        (startTasks compilation.ir) = .ok i ∧ i.isFeasible = true ∧ placements i.plan = placed ∧
      verifyFeasible (feasibleAllocation i.plan i.objective) compilation.ir = verdict := by
  unfold reported at h
  split at h
  · cases h
  · rename_i i hi
    split_ifs at h with hfeasible
    obtain ⟨rfl, rfl⟩ := Prod.mk.inj (Option.some.inj h)
    exact ⟨i, hi, hfeasible, rfl, rfl⟩

end AstroMine.Allocate
