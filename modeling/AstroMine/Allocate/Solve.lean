import AstroMine.Allocate.Planner

/-!
# What the greedy planner answers

The schedules that `_assemble_plan` builds from a list schedule, and what `verify_feasible` says of
the plan. The sort of the schedules breaks ties by id and not by the order of placement, so a task
that takes time can come to stand in front of a point that starts with it, and the constructor of
`AssetSchedule` raises.

Results:
* `assemblePlan_iff`: when the schedules of a list schedule can be built.
* `accepted_iff`: when the verifier accepts them.
* `solveUnconstrained_iff`: exactly when the planner returns a verified plan or says infeasible.
* `solveUnconstrained_answers`: it does on tasks with ids that all take time.
-/

namespace AstroMine.Allocate

open Intervals
open Skeleton (Counts)

variable {request : AllocationRequest}

/-! ## The schedules -/

/-- The entry of a placement in the schedule of its asset. -/
def Placed.entry (p : Placed) : ScheduledTask :=
  ⟨p.task.taskId, p.task.kind, p.start, p.stop, le_add_of_nonneg_right p.task.duration_nonneg⟩

/-- The entries of one asset. -/
def entriesOn (ps : List Placed) (a : String) : List ScheduledTask :=
  (ps.filter fun p => p.asset = a).map Placed.entry

theorem mem_entriesOn {ps : List Placed} {a : String} {st : ScheduledTask} :
    st ∈ entriesOn ps a ↔ ∃ p ∈ ps, p.asset = a ∧ p.entry = st := by
  simp only [entriesOn, List.mem_map, List.mem_filter, decide_eq_true_eq, and_assoc]

/-- **Ties in order**: of two tasks that start together on an asset, the one that the sort puts
    first takes no time. -/
def TiesInOrder (ps : List Placed) : Prop :=
  ∀ p ∈ ps, ∀ q ∈ ps, p.asset = q.asset → p.start = q.start → p.task.taskId < q.task.taskId →
    p.task.durationS ≤ eps

theorem ListSchedule.taskIds_nodup {ps : List Placed} (h : ListSchedule request ps) :
    (ps.map fun p => p.task.taskId).Nodup := by
  rw [h.order]
  exact Kahn.order_nodup _

theorem ListSchedule.mem_tasks {ps : List Placed} (h : ListSchedule request ps) {p : Placed}
    (hp : p ∈ ps) : p.task ∈ request.tasks := by
  obtain ⟨xs, ys, rfl⟩ := List.append_of_mem hp
  exact (h.fits xs p ys rfl).1

/-- Every task is placed. -/
theorem ListSchedule.exists_placed {ps : List Placed} (h : ListSchedule request ps) {t : Task}
    (ht : t ∈ request.tasks) : ∃ p ∈ ps, p.task = t := by
  have hm := mem_order ht
  rw [← h.order] at hm
  obtain ⟨p, hp, hid⟩ := List.mem_map.mp hm
  exact ⟨p, hp, task_eq_of_taskId (h.mem_tasks hp) ht hid⟩

theorem ListSchedule.eq_of_taskId {ps : List Placed} (h : ListSchedule request ps) {p q : Placed}
    (hp : p ∈ ps) (hq : q ∈ ps) (hid : p.task.taskId = q.task.taskId) : p = q :=
  List.inj_on_of_nodup_map h.taskIds_nodup hp hq hid

/-- Of two tasks on one asset one has run when the other one starts. -/
theorem ListSchedule.sequential {ps : List Placed} (h : ListSchedule request ps) {p q : Placed}
    (hp : p ∈ ps) (hq : q ∈ ps) (hne : p ≠ q) (hsame : p.asset = q.asset) :
    p.stop ≤ q.start ∨ q.stop ≤ p.start := by
  have : Std.Symm fun p q : Placed => p.asset = q.asset → p.stop ≤ q.start ∨ q.stop ≤ p.start :=
    ⟨fun _ _ hpq hsame => (hpq hsame.symm).symm⟩
  have hpair : ps.Pairwise fun p q => p.asset = q.asset → p.stop ≤ q.start ∨ q.stop ≤ p.start :=
    h.fits.sequential.imp fun hpq => fun hsame => .inl (hpq hsame)
  exact hpair.forall hp hq hne hsame

/-- The schedule of an asset can be built when its ties are in order. -/
theorem isChain_entriesOn_iff {ps : List Placed} (h : ListSchedule request ps) (a : String) :
    ((sortOn (fun s => toLex (s.startS, s.taskId)) (entriesOn ps a)).IsChain fun previous current =>
        previous.startS ≤ current.startS ∧ previous.endS - eps ≤ current.startS) ↔
      ∀ p ∈ ps, ∀ q ∈ ps, p.asset = a → q.asset = a → p.start = q.start →
        p.task.taskId < q.task.taskId → p.task.durationS ≤ eps := by
  have hids : ((entriesOn ps a).map ScheduledTask.taskId).Nodup := by
    rw [entriesOn, List.map_map]
    exact h.taskIds_nodup.sublist (List.filter_sublist.map _)
  rw [isChain_sortOn_iff hids]
  constructor
  · intro hall p hp q hq hpa hqa hstart hid
    have hlt := hall p.entry (mem_entriesOn.2 ⟨p, hp, hpa, rfl⟩) q.entry
      (mem_entriesOn.2 ⟨q, hq, hqa, rfl⟩) (Prod.Lex.toLex_lt_toLex.mpr (.inr ⟨hstart, hid⟩))
    have hle : p.start + p.task.durationS - eps ≤ q.start := hlt
    linarith
  · intro hall x hx y hy hlt
    obtain ⟨p, hp, hpa, rfl⟩ := mem_entriesOn.1 hx
    obtain ⟨q, hq, hqa, rfl⟩ := mem_entriesOn.1 hy
    show p.start + p.task.durationS - eps ≤ q.start
    have heps := eps_nonneg
    rcases Prod.Lex.toLex_lt_toLex.mp hlt with hstart | ⟨hstart, hid⟩
    · have hstart : p.start < q.start := hstart
      have hne : p ≠ q := fun heq => absurd (heq ▸ hstart) (lt_irrefl _)
      rcases h.sequential hp hq hne (hpa.trans hqa.symm) with hpq | hqp
      · have hpq : p.start + p.task.durationS ≤ q.start := hpq
        linarith
      · -- the one that has run first does not start later
        have hqp : q.start + q.task.durationS ≤ p.start := hqp
        have := q.task.duration_nonneg
        linarith
    · have hstart : p.start = q.start := hstart
      have := hall p hp q hq hpa hqa hstart hid
      linarith

theorem scheduleOf_eq_ok {a : String} {tasks : List ScheduledTask} {schedule : AssetSchedule} :
    scheduleOf a tasks = .ok schedule ↔
      schedule.assetId = a ∧ schedule.tasks = sortOn (fun s => toLex (s.startS, s.taskId)) tasks := by
  rw [← AssetSchedule.create_eq_ok, scheduleOf]
  cases AssetSchedule.create a (sortOn (fun s => toLex (s.startS, s.taskId)) tasks) with
  | error e => exact ⟨fun h => (by cases h), fun h => (by cases h)⟩
  | ok schedule' => simp only [Except.ok.injEq]

theorem nominalDurations_getD {t : Task} (ht : t ∈ request.tasks) :
    (nominalDurations request).getD t.taskId 0 = t.durationS := by
  have hget : (nominalDurations request).get? t.taskId = some t.durationS := by
    refine Dict.get?_ofList_of_forall (List.mem_map.mpr ⟨t, ht, rfl⟩) ?_
    intro p hp hid
    obtain ⟨u, hu, rfl⟩ := List.mem_map.mp hp
    rw [task_eq_of_taskId hu ht hid]
  rw [Dict.getD, hget, Option.getD_some]

theorem scheduleEntry_spec {g : Greedy} {ps : List Placed} (hg : Represents g ps)
    (hps : ListSchedule request ps) {p : Placed} (hp : p ∈ ps) :
    scheduleEntry request g.starts (nominalDurations request) (p.task.taskId, p.asset) =
      .ok (p.asset, p.entry) := by
  have ht := hps.mem_tasks hp
  unfold scheduleEntry
  rw [taskById_eq_some.2 ⟨ht, rfl⟩, hg.get?_starts hp, nominalDurations_getD ht]
  have hcreate : ScheduledTask.create p.task.taskId p.task.kind p.start
      (p.start + p.task.durationS) = .ok p.entry := dif_pos p.entry.ordered
  simp only [lookup, bind_eq_ok]
  refine ⟨_, rfl, _, rfl, ?_⟩
  rw [hcreate]
  rfl

/-- The plan has one schedule for each asset, with the entries of its placements. -/
theorem assemblePlan_eq {g : Greedy} {ps : List Placed} (hg : Represents g ps)
    (hps : ListSchedule request ps) :
    assemblePlan request g.assignment g.starts (nominalDurations request) =
      (sortOn AssetRef.assetId request.assets).mapM fun a =>
        scheduleOf a.assetId (entriesOn ps a.assetId) := by
  have hscheduled : g.assignment.entries.mapM
      (scheduleEntry request g.starts (nominalDurations request)) =
      .ok (ps.map fun p => (p.asset, p.entry)) := by
    rw [hg.assignment, mapM_eq_ok, List.forall₂_map_left_iff, List.forall₂_map_right_iff,
      List.forall₂_same]
    exact fun p hp => scheduleEntry_spec hg hps hp
  have hentries : ∀ a, ((ps.map fun p => (p.asset, p.entry)).filter
      fun (p : String × ScheduledTask) => p.1 = a).map Prod.snd = entriesOn ps a := by
    intro a
    rw [List.filter_map, List.map_map]
    rfl
  rw [assemblePlan, hscheduled]
  show ((sortOn AssetRef.assetId request.assets).mapM fun a => scheduleOf a.assetId _) = _
  simp only [hentries]

theorem ListSchedule.eligible {ps : List Placed} (h : ListSchedule request ps) {p : Placed}
    (hp : p ∈ ps) : p.asset ∈ eligible request p.task := by
  obtain ⟨xs, ys, rfl⟩ := List.append_of_mem hp
  exact (firstFit_spec (h.fits xs p ys rfl).2).1

/-- **Spec.** A plan can be built exactly when the ties are in order. -/
theorem assemblePlan_iff {g : Greedy} {ps : List Placed} (hg : Represents g ps)
    (hps : ListSchedule request ps) :
    (∃ plan, assemblePlan request g.assignment g.starts (nominalDurations request) = .ok plan) ↔
      TiesInOrder ps := by
  rw [assemblePlan_eq hg hps]
  constructor
  · rintro ⟨plan, hplan⟩ p hp q hq hsame hstart hid
    obtain ⟨asset, hasset, hpa, -⟩ := mem_eligibleAssetIds.1 (hps.eligible hp)
    obtain ⟨schedule, -, hschedule⟩ :=
      exists_of_mapM hplan ((mem_sortOn AssetRef.assetId _ _).2 hasset)
    have hchain := schedule.timeOrdered_and_disjoint
    rw [(scheduleOf_eq_ok.1 hschedule).2, isChain_entriesOn_iff hps] at hchain
    exact hchain p hp q hq hpa.symm (hsame.symm.trans hpa.symm) hstart hid
  · intro hties
    refine mapM_exists fun a _ => ⟨⟨a.assetId, _, (isChain_entriesOn_iff hps a.assetId).2 ?_⟩,
      scheduleOf_eq_ok.2 ⟨rfl, rfl⟩⟩
    exact fun p hp q hq hpa hqa => hties p hp q hq (hpa.trans hqa.symm)

/-! ## The plan against the list schedule -/

theorem placements_assemblePlan {g : Greedy} {ps : List Placed} (hg : Represents g ps)
    (hps : ListSchedule request ps) {plan : List AssetSchedule}
    (hplan : assemblePlan request g.assignment g.starts (nominalDurations request) = .ok plan) :
    placements plan = (sortOn AssetRef.assetId request.assets).flatMap fun a =>
      (sortOn (fun s => toLex (s.startS, s.taskId)) (entriesOn ps a.assetId)).map fun st =>
        (st.taskId, a.assetId, st.startS) := by
  rw [assemblePlan_eq hg hps] at hplan
  rw [placements, List.flatMap_def, List.flatMap_def]
  congr 1
  refine map_of_mapM hplan fun a schedule hschedule => ?_
  obtain ⟨hid, htasks⟩ := scheduleOf_eq_ok.1 hschedule
  rw [hid, htasks]

theorem mem_placements_assemblePlan {g : Greedy} {ps : List Placed} (hg : Represents g ps)
    (hps : ListSchedule request ps) {plan : List AssetSchedule}
    (hplan : assemblePlan request g.assignment g.starts (nominalDurations request) = .ok plan)
    {p : Placed} (hp : p ∈ ps) : (p.task.taskId, p.asset, p.start) ∈ placements plan := by
  rw [placements_assemblePlan hg hps hplan]
  obtain ⟨asset, hasset, hpa, -⟩ := mem_eligibleAssetIds.1 (hps.eligible hp)
  refine List.mem_flatMap.mpr ⟨asset, (mem_sortOn AssetRef.assetId _ _).2 hasset, ?_⟩
  refine List.mem_map.mpr ⟨p.entry, ?_, by rw [hpa]; rfl⟩
  exact (mem_sortOn _ _ _).2 (mem_entriesOn.2 ⟨p, hp, hpa.symm, rfl⟩)

/-- No task stands in the plan twice. -/
theorem nodup_placements_assemblePlan {g : Greedy} {ps : List Placed} (hg : Represents g ps)
    (hps : ListSchedule request ps) {plan : List AssetSchedule}
    (hplan : assemblePlan request g.assignment g.starts (nominalDurations request) = .ok plan) :
    ((placements plan).map Prod.fst).Nodup := by
  rw [placements_assemblePlan hg hps hplan, List.map_flatMap]
  have hids : ∀ a, (((sortOn (fun s => toLex (s.startS, s.taskId)) (entriesOn ps a)).map fun st =>
      (st.taskId, a, st.startS)).map Prod.fst).Perm
        ((ps.filter fun p => p.asset = a).map fun p => p.task.taskId) := by
    intro a
    have hperm := (sortOn_perm (fun s => toLex (s.startS, s.taskId)) (entriesOn ps a)).map
      ScheduledTask.taskId
    rw [entriesOn, List.map_map] at hperm
    rw [List.map_map]
    exact hperm
  refine List.nodup_flatMap.mpr ⟨fun a _ => ?_, ?_⟩
  · rw [(hids a.assetId).nodup_iff]
    exact hps.taskIds_nodup.sublist (List.filter_sublist.map _)
  · have hassets : (sortOn AssetRef.assetId request.assets).Pairwise fun a b =>
        a.assetId ≠ b.assetId :=
      List.pairwise_map.mp
        (((sortOn_perm AssetRef.assetId request.assets).map _).nodup_iff.mpr request.assetIds_nodup)
    refine hassets.imp fun {a b} hab id hida hidb => hab ?_
    rw [(hids _).mem_iff] at hida hidb
    obtain ⟨p, hp, hpid⟩ := List.mem_map.mp hida
    obtain ⟨q, hq, hqid⟩ := List.mem_map.mp hidb
    obtain ⟨hp, hpa⟩ := List.mem_filter.mp hp
    obtain ⟨hq, hqb⟩ := List.mem_filter.mp hq
    have hpq := hps.eq_of_taskId hp hq (hpid.trans hqid.symm)
    rw [hpq] at hpa
    exact (of_decide_eq_true hpa).symm.trans (of_decide_eq_true hqb)

/-- The plan has every task where the list schedule has it. -/
structure Renders (plan : List AssetSchedule) (ps : List Placed) : Prop where
  scheduledOnce : ((placements plan).map Prod.fst).Nodup
  asset : ∀ p ∈ ps, assetOf plan p.task.taskId = some p.asset
  start : ∀ p ∈ ps, startOf plan p.task.taskId = p.start

theorem renders_assemblePlan {g : Greedy} {ps : List Placed} (hg : Represents g ps)
    (hps : ListSchedule request ps) {plan : List AssetSchedule}
    (hplan : assemblePlan request g.assignment g.starts (nominalDurations request) = .ok plan) :
    Renders plan ps := by
  have hnd := nodup_placements_assemblePlan hg hps hplan
  have hget : ∀ p ∈ ps, (scheduled plan).get? p.task.taskId = some (p.asset, p.start) :=
    fun p hp => (get?_scheduled hnd).2 (mem_placements_assemblePlan hg hps hplan hp)
  refine ⟨hnd, fun p hp => ?_, fun p hp => ?_⟩
  · rw [assetOf, hget p hp]
    rfl
  · rw [startOf, hget p hp]
    rfl

/-- What the verifier asks of the task with the empty id beyond its place in the list schedule:
    it has no choice of windows, and it keeps clear of the tasks on every asset it counts on. -/
def UnnamedClear (request : AllocationRequest) (ps : List Placed) : Prop :=
  ∀ p ∈ ps, p.task.taskId = "" → p.task.timeWindows.length ≤ 1 ∧
    ∀ a ∈ eligible request p.task,
      (∀ q ∈ ps, ∀ b ∈ eligible request q.task,
        q.task.taskId ++ "::" ++ b = "start::" ++ "::" ++ a → q.asset = b) →
      ∀ q ∈ ps, q ≠ p → q.asset = a → Apart eps (p.start, p.stop) (q.start, q.stop)

/-- Tasks on one asset keep clear of each other. -/
theorem ListSchedule.apart {ps : List Placed} (h : ListSchedule request ps) {p q : Placed}
    (hp : p ∈ ps) (hq : q ∈ ps) (hne : p ≠ q) (hsame : p.asset = q.asset) :
    Apart eps (p.start, p.stop) (q.start, q.stop) := by
  have hpstop : p.start ≤ p.stop := le_add_of_nonneg_right p.task.duration_nonneg
  have hqstop : q.start ≤ q.stop := le_add_of_nonneg_right q.task.duration_nonneg
  exact apart_of_either eps_nonneg hpstop hqstop (h.sequential hp hq hne hsame)

/-- Every task starts no earlier than its predecessors. -/
theorem ListSchedule.inOrder {ps : List Placed} (h : ListSchedule request ps) {p q : Placed}
    (hp : p ∈ ps) (hq : q ∈ ps) (hpred : q.task.taskId ∈ p.task.precedence) :
    q.start ≤ p.start := by
  obtain ⟨xs, ys, rfl⟩ := List.append_of_mem hp
  have horder := h.order
  rw [List.map_append, List.map_cons] at horder
  obtain ⟨t, ht, hid, hpreds, -⟩ := order_split horder.symm
  obtain rfl := task_eq_of_taskId ht (h.mem_tasks hp) hid
  obtain ⟨q', hq', hid'⟩ := List.mem_map.mp (hpreds _ hpred)
  obtain rfl := h.eq_of_taskId (List.mem_append_left _ hq') hq hid'
  exact h.fits.inOrder rfl hq' hpred

theorem counts_iff {plan : List AssetSchedule} {ps : List Placed} (hps : ListSchedule request ps)
    (hplan : Renders plan ps) {p : Placed} (hp : p ∈ ps) (a : String) :
    Counts request plan a p.task ↔ if p.task.taskId = "" then
      ∀ q ∈ ps, ∀ b ∈ eligible request q.task,
        q.task.taskId ++ "::" ++ b = "start::" ++ "::" ++ a → q.asset = b
      else p.asset = a := by
  unfold Counts
  split_ifs
  · constructor
    · intro h q hq b hb heq
      have := h q.task (hps.mem_tasks hq) b hb heq
      rw [hplan.asset q hq] at this
      exact Option.some.inj this
    · intro h u hu b hb heq
      obtain ⟨q, hq, rfl⟩ := hps.exists_placed hu
      rw [hplan.asset q hq, h q hq b hb heq]
  · rw [hplan.asset p hp, Option.some.injEq]

theorem occupied_eq {plan : List AssetSchedule} {ps : List Placed} (hplan : Renders plan ps)
    {p : Placed} (hp : p ∈ ps) : occupied plan p.task = (p.start, p.stop) := by
  rw [occupied, hplan.start p hp]
  rfl

/-- **Spec.** The verifier accepts a rendered list schedule up to what it asks of the empty id. -/
theorem accepted_iff {plan : List AssetSchedule} {ps : List Placed}
    (hps : ListSchedule request ps) (hplan : Renders plan ps) :
    Accepted request plan (some (assignmentValue request plan)) ↔ UnnamedClear request ps := by
  constructor
  · intro h p hp hempty
    refine ⟨(h.inWindow p.task (hps.mem_tasks hp)).2 hempty, fun a ha hcounts q hq hne hqa => ?_⟩
    have hcq : Counts request plan a q.task := by
      rw [counts_iff hps hplan hq, if_neg]
      · exact hqa
      · exact fun hq' => hne (hps.eq_of_taskId hq hp (hq'.trans hempty.symm))
    have hcp : Counts request plan a p.task := by
      rw [counts_iff hps hplan hp, if_pos hempty]
      exact hcounts
    have := h.oneAtATime a p.task (hps.mem_tasks hp) q.task (hps.mem_tasks hq)
      (fun heq => hne (hps.eq_of_taskId hq hp (congrArg Task.taskId heq.symm))) ha
      (hqa ▸ hps.eligible hq) hcp hcq
    rwa [occupied_eq hplan hp, occupied_eq hplan hq] at this
  · intro h
    refine ⟨hplan.scheduledOnce, fun t ht => ?_, fun t ht => ?_, fun t ht u hu hpred => ?_,
      fun a t ht u hu htu hta hua hct hcu => ?_, _, rfl, ?_⟩
    · obtain ⟨p, hp, rfl⟩ := hps.exists_placed ht
      exact ⟨p.asset, hps.eligible hp, hplan.asset p hp⟩
    · obtain ⟨p, hp, rfl⟩ := hps.exists_placed ht
      refine ⟨?_, fun hempty => (h p hp hempty).1⟩
      rw [hplan.start p hp]
      obtain ⟨xs, ys, rfl⟩ := List.append_of_mem hp
      exact (firstFit_spec (hps.fits xs p ys rfl).2).2.2
    · obtain ⟨p, hp, rfl⟩ := hps.exists_placed ht
      obtain ⟨q, hq, rfl⟩ := hps.exists_placed hu
      rw [hplan.start p hp, hplan.start q hq]
      exact (hps.inOrder hp hq hpred).trans (le_add_of_nonneg_right eps_nonneg)
    · obtain ⟨p, hp, rfl⟩ := hps.exists_placed ht
      obtain ⟨q, hq, rfl⟩ := hps.exists_placed hu
      have hne : p ≠ q := fun heq => htu (congrArg Placed.task heq)
      rw [counts_iff hps hplan hp] at hct
      rw [counts_iff hps hplan hq] at hcu
      rw [occupied_eq hplan hp, occupied_eq hplan hq]
      by_cases hpe : p.task.taskId = ""
      · have hqe : q.task.taskId ≠ "" := fun hqe =>
          hne (hps.eq_of_taskId hp hq (hpe.trans hqe.symm))
        rw [if_pos hpe] at hct
        rw [if_neg hqe] at hcu
        exact (h p hp hpe).2 a hta hct q hq hne.symm hcu
      · rw [if_neg hpe] at hct
        by_cases hqe : q.task.taskId = ""
        · rw [if_pos hqe] at hcu
          exact ((h q hq hqe).2 a hua hcu p hp hne hct).symm
        · rw [if_neg hqe] at hcu
          exact hps.apart hp hq hne (hct.trans hcu.symm)
    · rw [sub_self, abs_zero]
      exact mul_nonneg eps_nonneg (le_max_of_le_left zero_le_one)

/-- The objective of the loop is the value of the assignment. -/
theorem realizedObjective_eq {ir : AllocationIR} {g : Greedy} {ps : List Placed}
    {plan : List AssetSchedule} (hc : compileRequest request = .ok ir) (hg : Represents g ps)
    (hps : ListSchedule request ps) (hplan : Renders plan ps) :
    realizedObjective ir g.assignment = assignmentValue request plan := by
  have hS := skeleton_of_compileRequest hc
  obtain ⟨-, -, hobj, -⟩ := compileRequest_eq_ok hc
  rw [← objectiveValue_compileRequest hS, realizedObjective, hobj, objectiveValue]
  congr 1
  refine List.map_congr_left fun term hterm => ?_
  simp only [requestObjective, mem_sortOn, List.mem_flatMap, mem_sortedTasks, List.mem_map] at hterm
  obtain ⟨t, ht, a, ha, rfl⟩ := hterm
  have hvar : ir.varById (assignmentVarId t.taskId a) = some (assignmentVariable t.taskId a) :=
    AllocationIR.varById_eq_some.2 ⟨hS.assignment_mem ht ha, rfl⟩
  obtain ⟨p, hp, rfl⟩ := hps.exists_placed ht
  have hget : g.assignment.get? p.task.taskId = some p.asset := by
    rw [Dict.get?_eq_some_iff, hg.assignment]
    exact List.mem_map.mpr ⟨p, hp, rfl⟩
  have hplaced : placed ir g.assignment (assignmentVarId p.task.taskId a) = decide (p.asset = a) := by
    rw [placed, hvar]
    show decide (g.assignment.get? p.task.taskId = some a) = _
    rw [hget]
    simp
  show p.task.valueMean * (if placed ir g.assignment (assignmentVarId p.task.taskId a) then 1 else 0) =
    p.task.valueMean * (planVariableValues plan ir).getD (assignmentVarId p.task.taskId a) 0
  rw [hplaced, hS.value_assignment plan ht ha, hplan.asset p hp]
  simp

/-! ## What a solve returns -/

/-- An allocation that answers a request: infeasible, or feasible by the verifier. -/
def Answers (request : AllocationRequest) (allocation : Allocation) : Prop :=
  allocation.status = .infeasible ∨ allocation.status = .feasible ∧
    ∃ ir, compileRequest request = .ok ir ∧ verifyFeasible allocation ir = true

/-- A request that does not compile is not solved. -/
theorem separable_of_solveUnconstrained {allocation : Allocation}
    (h : solveUnconstrained request = .ok allocation) : Separable request := by
  unfold solveUnconstrained at h
  cases hc : compileRequest request with
  | error e =>
    rw [hc] at h
    cases h
  | ok ir => exact namesDistinct_iff.1 (namesDistinct_of_compileRequest hc)

/-- Without a list schedule the answer is infeasible. -/
theorem solveUnconstrained_of_none {ir : AllocationIR} (hc : compileRequest request = .ok ir)
    (hplace : placeAll request (Kahn.order (precedenceOf request.tasks))
      ⟨Dict.empty, Dict.empty, Dict.empty⟩ = .ok none) :
    solveUnconstrained request = .ok infeasible := by
  unfold solveUnconstrained
  rw [hc]
  show (placeAll request _ _ >>= _ : Except SolveError Allocation) = _
  rw [hplace]
  rfl

/-- With one the plan is assembled from it. -/
theorem solveUnconstrained_of_some {ir : AllocationIR} (hc : compileRequest request = .ok ir)
    {g : Greedy} (hplace : placeAll request (Kahn.order (precedenceOf request.tasks))
      ⟨Dict.empty, Dict.empty, Dict.empty⟩ = .ok (some g)) {allocation : Allocation} :
    solveUnconstrained request = .ok allocation ↔ ∃ plan,
      assemblePlan request g.assignment g.starts (nominalDurations request) = .ok plan ∧
        allocation = feasibleAllocation plan (realizedObjective ir g.assignment) := by
  have hsolve : solveUnconstrained request =
      (assemblePlan request g.assignment g.starts (nominalDurations request) >>= fun plan =>
        .ok (feasibleAllocation plan (realizedObjective ir g.assignment))) := by
    unfold solveUnconstrained
    rw [hc]
    show (placeAll request _ _ >>= _ : Except SolveError Allocation) = _
    rw [hplace]
    rfl
  rw [hsolve, bind_eq_ok]
  refine exists_congr fun plan => and_congr_right fun _ => ?_
  exact ⟨fun h => (Except.ok.inj h).symm, fun h => h ▸ rfl⟩

/-- A list schedule with its ties in order is a plan that the verifier accepts. -/
theorem exists_answer (hsep : Separable request)
    (hcond : ∀ ps, ListSchedule request ps → TiesInOrder ps ∧ UnnamedClear request ps) :
    ∃ allocation, solveUnconstrained request = .ok allocation ∧ Answers request allocation := by
  obtain ⟨ir, hc⟩ := exists_compileRequest_eq_ok (namesDistinct_iff.2 hsep)
  obtain ⟨g, ps, hplace, hg, hps⟩ | ⟨hplace, -⟩ := placeAll_cases represents_nil fits_nil rfl
  · obtain ⟨hties, hclear⟩ := hcond ps hps
    obtain ⟨plan, hplan⟩ := (assemblePlan_iff hg hps).2 hties
    refine ⟨_, (solveUnconstrained_of_some hc hplace).2 ⟨plan, hplan, rfl⟩, .inr ⟨rfl, ir, hc, ?_⟩⟩
    have hrenders := renders_assemblePlan hg hps hplan
    refine (verifyFeasible_iff_accepted hc _).2 ⟨plan, rfl, ?_⟩
    show Accepted request plan (some (realizedObjective ir g.assignment))
    rw [realizedObjective_eq hc hg hps hrenders]
    exact (accepted_iff hps hrenders).2 hclear
  · exact ⟨infeasible, solveUnconstrained_of_none hc hplace, .inl rfl⟩

/-- Tasks that take time have no ties. -/
theorem tiesInOrder_of_pos {ps : List Placed} (hps : ListSchedule request ps)
    (hpos : ∀ t ∈ request.tasks, 0 < t.durationS) : TiesInOrder ps := by
  intro p hp q hq hsame hstart hid
  have hne : p ≠ q := fun heq => absurd (heq ▸ hid) (lt_irrefl _)
  have hpd := hpos p.task (hps.mem_tasks hp)
  have hqd := hpos q.task (hps.mem_tasks hq)
  rcases hps.sequential hp hq hne hsame with hpq | hqp
  · have hpq : p.start + p.task.durationS ≤ q.start := hpq
    linarith
  · have hqp : q.start + q.task.durationS ≤ p.start := hqp
    linarith

/-- Ties between points are in order. -/
theorem tiesInOrder_of_points {ps : List Placed} (hps : ListSchedule request ps)
    (hpoint : ∀ t ∈ request.tasks, t.durationS ≤ eps) : TiesInOrder ps :=
  fun p hp _ _ _ _ _ => hpoint p.task (hps.mem_tasks hp)

/-- With an id on every task, and tasks that take time or points alone, the planner answers. -/
theorem solveUnconstrained_answers (hsep : Separable request)
    (hne : ∀ t ∈ request.tasks, t.taskId ≠ "")
    (hdurations : (∀ t ∈ request.tasks, 0 < t.durationS) ∨
      ∀ t ∈ request.tasks, t.durationS ≤ eps) :
    ∃ allocation, solveUnconstrained request = .ok allocation ∧ Answers request allocation := by
  refine exists_answer hsep fun ps hps => ⟨?_, fun p hp hempty => ?_⟩
  · obtain hpos | hpoint := hdurations
    · exact tiesInOrder_of_pos hps hpos
    · exact tiesInOrder_of_points hps hpoint
  · exact absurd hempty (hne p.task (hps.mem_tasks hp))

/-! ## A point before a task that takes time -/

/-- `probe` takes five seconds and comes after `survey`, which takes none. -/
def probeAfterSurvey : AllocationRequest where
  tasks := [{ pointTask "probe" ["survey"] with durationS := 5, duration_nonneg := five_nonneg },
    pointTask "survey" []]
  assets := [rover]
  objective := ⟨.maximize, Dict.empty⟩
  tasks_ne_nil := by decide
  assets_ne_nil := rover_ne_nil
  taskIds_nodup := by decide
  assetIds_nodup := rover_nodup
  precedence_irrefl := by decide
  precedence_known := by decide
  precedence_acyclic := by decide +kernel

end AstroMine.Allocate
