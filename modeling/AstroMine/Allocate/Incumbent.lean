import AstroMine.Allocate.Verify
import AstroMine.Lib.Except

/-!
# Incumbents and plan decoding

What every backend streams (`solvers/base.py`) and how a solved assignment becomes a plan
(`solvers/_common.py`).

Results:
* `isChain_sortOn_iff`: when the sorted tasks of an asset make a schedule.
* `buildPlan_iff`: when the plan of an assignment can be built.
* `get?_scheduled_buildPlan`: a plan places the tasks as its assignment does.
-/

namespace AstroMine.Allocate

/-- `Incumbent` (`base.py`, lines 33–50). -/
structure Incumbent where
  objective : ℚ
  bound : Option ℚ
  gap : Option ℚ
  plan : List AssetSchedule
  status : AllocationStatus
  isFeasible : Bool := true

/-! ## Plan decoding -/

/-- Whether a variable is an assignment that was chosen (`_common.py`, line 34). -/
def placed (ir : AllocationIR) (assignment : Dict String String) (varRef : String) : Bool :=
  (ir.varById varRef).any fun var =>
    var.taskRef.any fun taskId => assignment.get? taskId = var.assetRef

/-- `realized_objective` (lines 24–36). -/
def realizedObjective (ir : AllocationIR) (assignment : Dict String String) : ℚ :=
  (ir.objectiveTerms.map fun term =>
    term.coefficient * (if placed ir assignment term.varRef then 1 else 0)).sum

/-- Why a plan cannot be built: a task without a kind, or a schedule that its model rejects. -/
inductive PlanError where
  | unknownTask (taskId : String)
  | endsBeforeStart (taskId : String)
  | doubleBooked (assetId : String)
  deriving DecidableEq, Repr

/-- The constructor of `ScheduledTask`. -/
def ScheduledTask.create (taskId : String) (kind : TaskKind) (startS endS : ℚ) :
    Except PlanError ScheduledTask :=
  if h : startS ≤ endS then .ok ⟨taskId, kind, startS, endS, h⟩
  else .error (.endsBeforeStart taskId)

/-- The constructor of `AssetSchedule`. -/
def AssetSchedule.create (assetId : String) (tasks : List ScheduledTask) :
    Except PlanError AssetSchedule :=
  if h : tasks.IsChain fun previous current =>
      previous.startS ≤ current.startS ∧ previous.endS - eps ≤ current.startS then
    .ok ⟨assetId, tasks, h⟩
  else .error (.doubleBooked assetId)

/-- The scheduled task of one assignment (lines 53–58). -/
def scheduleTask (starts : Dict String ℚ) (taskKinds : Dict String TaskKind)
    (durations : Dict (String × String) ℚ) (pair : String × String) :
    Except PlanError (String × ScheduledTask) := do
  let start := starts.getD pair.1 0
  let stop := start + durations.getD pair 0
  match taskKinds.get? pair.1 with
  | none => .error (.unknownTask pair.1)
  | some kind => return (pair.2, ← ScheduledTask.create pair.1 kind start stop)

/-- `build_plan` (lines 39–63). -/
def buildPlan (assignment : Dict String String) (starts : Dict String ℚ)
    (taskKinds : Dict String TaskKind) (durations : Dict (String × String) ℚ) :
    Except PlanError (List AssetSchedule) := do
  let byAsset ← assignment.entries.mapM (scheduleTask starts taskKinds durations)
  (sortOn Prod.fst (Dict.group byAsset).entries).mapM fun entry =>
    AssetSchedule.create entry.1 (sortOn (fun s => toLex (s.startS, s.taskId)) entry.2)

/-! ## Schedules -/

theorem ScheduledTask.create_eq_ok {taskId : String} {kind : TaskKind} {startS endS : ℚ}
    {st : ScheduledTask} : ScheduledTask.create taskId kind startS endS = .ok st ↔
      st.taskId = taskId ∧ st.kind = kind ∧ st.startS = startS ∧ st.endS = endS := by
  unfold ScheduledTask.create
  constructor
  · intro h
    split_ifs at h
    cases h
    exact ⟨rfl, rfl, rfl, rfl⟩
  · rintro ⟨rfl, rfl, rfl, rfl⟩
    rw [dif_pos st.ordered]

theorem AssetSchedule.create_eq_ok {assetId : String} {tasks : List ScheduledTask}
    {schedule : AssetSchedule} : AssetSchedule.create assetId tasks = .ok schedule ↔
      schedule.assetId = assetId ∧ schedule.tasks = tasks := by
  unfold AssetSchedule.create
  constructor
  · intro h
    split_ifs at h
    cases h
    exact ⟨rfl, rfl⟩
  · rintro ⟨rfl, rfl⟩
    rw [dif_pos schedule.timeOrdered_and_disjoint]

/-- The sorted tasks make a schedule when each has ended by the start of those sorted after it. -/
theorem isChain_sortOn_iff {tasks : List ScheduledTask}
    (hnd : (tasks.map ScheduledTask.taskId).Nodup) :
    ((sortOn (fun s => toLex (s.startS, s.taskId)) tasks).IsChain fun previous current =>
        previous.startS ≤ current.startS ∧ previous.endS - eps ≤ current.startS) ↔
      ∀ s ∈ tasks, ∀ s' ∈ tasks, toLex (s.startS, s.taskId) < toLex (s'.startS, s'.taskId) →
        s.endS - eps ≤ s'.startS := by
  have : IsTrans ScheduledTask fun previous current =>
      previous.startS ≤ current.startS ∧ previous.endS - eps ≤ current.startS :=
    ⟨fun _ _ _ hxy hyz => ⟨hxy.1.trans hyz.1, hxy.2.trans hyz.1⟩⟩
  have hkeys : (tasks.map fun s => toLex (s.startS, s.taskId)).Nodup := by
    refine List.Nodup.of_map (fun k => (ofLex k).2) ?_
    rwa [List.map_map]
  rw [List.isChain_iff_pairwise, pairwise_sortOn_iff hkeys]
  refine forall₄_congr fun s _ s' _ => forall_congr' fun hlt => ?_
  exact and_iff_right (Prod.Lex.toLex_lt_toLex.mp hlt |>.elim le_of_lt fun h => h.1.le)

/-! ## Built plans -/

section BuildPlan

variable {assignment : Dict String String} {starts : Dict String ℚ}
  {taskKinds : Dict String TaskKind} {durations : Dict (String × String) ℚ}

theorem scheduleTask_eq_ok {pair : String × String} {b : String × ScheduledTask} :
    scheduleTask starts taskKinds durations pair = .ok b ↔
      b.1 = pair.2 ∧ b.2.taskId = pair.1 ∧ taskKinds.get? pair.1 = some b.2.kind ∧
        b.2.startS = starts.getD pair.1 0 ∧
        b.2.endS = starts.getD pair.1 0 + durations.getD pair 0 := by
  unfold scheduleTask
  cases taskKinds.get? pair.1 with
  | none => simp
  | some kind =>
    simp only [bind_eq_ok, ScheduledTask.create_eq_ok, Option.some.injEq]
    constructor
    · rintro ⟨st, ⟨htask, hkind, hstart, hend⟩, h⟩
      cases h
      exact ⟨rfl, htask, hkind.symm, hstart, hend⟩
    · rintro ⟨hasset, htask, hkind, hstart, hend⟩
      exact ⟨b.2, ⟨htask, hkind.symm, hstart, hend⟩, congrArg Except.ok (Prod.ext hasset.symm rfl)⟩

variable {byAsset : List (String × ScheduledTask)}

/-- The scheduled tasks are those of the assignment. -/
theorem entries_of_byAsset
    (h : assignment.entries.mapM (scheduleTask starts taskKinds durations) = .ok byAsset) :
    byAsset.map (fun b => (b.2.taskId, b.1)) = assignment.entries := by
  rw [map_of_mapM (k := fun pair => pair) h, List.map_id']
  intro pair b hb
  obtain ⟨hasset, htask, -⟩ := scheduleTask_eq_ok.1 hb
  exact Prod.ext htask hasset

theorem nodup_of_byAsset
    (h : assignment.entries.mapM (scheduleTask starts taskKinds durations) = .ok byAsset) :
    (byAsset.map fun b => b.2.taskId).Nodup := by
  have hkeys := assignment.keys_nodup
  rw [← entries_of_byAsset h, List.map_map] at hkeys
  exact hkeys

/-- The tasks of one asset. -/
theorem mem_group_iff {e : String × List ScheduledTask} :
    e ∈ (Dict.group byAsset).entries ↔ (∃ b ∈ byAsset, b.1 = e.1) ∧
      (byAsset.filter fun b => b.1 = e.1).map Prod.snd = e.2 := by
  rw [← Dict.get?_eq_some_iff, Dict.get?_group]
  split_ifs with h
  · simp [h]
  · simp [h]

theorem mem_group_snd {e : String × List ScheduledTask} (he : e ∈ (Dict.group byAsset).entries)
    {st : ScheduledTask} : st ∈ e.2 ↔ (e.1, st) ∈ byAsset := by
  rw [← (mem_group_iff.1 he).2, List.mem_map]
  constructor
  · rintro ⟨b, hb, rfl⟩
    obtain ⟨hb, hasset⟩ := List.mem_filter.mp hb
    rwa [← of_decide_eq_true hasset]
  · intro h
    exact ⟨(e.1, st), List.mem_filter.mpr ⟨h, decide_eq_true rfl⟩, rfl⟩

theorem nodup_group_snd
    (h : assignment.entries.mapM (scheduleTask starts taskKinds durations) = .ok byAsset)
    {e : String × List ScheduledTask} (he : e ∈ (Dict.group byAsset).entries) :
    (e.2.map ScheduledTask.taskId).Nodup := by
  rw [← (mem_group_iff.1 he).2, List.map_map]
  exact (nodup_of_byAsset h).sublist (List.filter_sublist.map _)

theorem buildPlan_eq_ok {plan : List AssetSchedule} :
    buildPlan assignment starts taskKinds durations = .ok plan ↔ ∃ byAsset,
      assignment.entries.mapM (scheduleTask starts taskKinds durations) = .ok byAsset ∧
        (sortOn Prod.fst (Dict.group byAsset).entries).mapM (fun entry => AssetSchedule.create
          entry.1 (sortOn (fun s => toLex (s.startS, s.taskId)) entry.2)) = .ok plan :=
  bind_eq_ok

/-- The schedules of the assets can be built when on each of them every task has ended by the start
of those that the sort puts after it. -/
theorem schedules_iff
    (h : assignment.entries.mapM (scheduleTask starts taskKinds durations) = .ok byAsset) :
    (∃ plan, buildPlan assignment starts taskKinds durations = .ok plan) ↔
      ∀ e ∈ (Dict.group byAsset).entries, ∀ s ∈ e.2, ∀ s' ∈ e.2,
        toLex (s.startS, s.taskId) < toLex (s'.startS, s'.taskId) → s.endS - eps ≤ s'.startS := by
  constructor
  · rintro ⟨plan, hplan⟩ e he
    obtain ⟨byAsset', h', hall⟩ := buildPlan_eq_ok.1 hplan
    obtain rfl := Except.ok.inj (h.symm.trans h')
    obtain ⟨schedule, -, hschedule⟩ := exists_of_mapM hall ((mem_sortOn _ _ _).2 he)
    have hchain := schedule.timeOrdered_and_disjoint
    rwa [(AssetSchedule.create_eq_ok.1 hschedule).2,
      isChain_sortOn_iff (nodup_group_snd h he)] at hchain
  · intro hends
    have hcreate : ∃ plan, (sortOn Prod.fst (Dict.group byAsset).entries).mapM (fun e =>
        AssetSchedule.create e.1 (sortOn (fun s => toLex (s.startS, s.taskId)) e.2)) = .ok plan := by
      refine mapM_exists fun e he => ?_
      rw [mem_sortOn] at he
      exact ⟨⟨e.1, _, (isChain_sortOn_iff (nodup_group_snd h he)).2 (hends e he)⟩,
        AssetSchedule.create_eq_ok.2 ⟨rfl, rfl⟩⟩
    obtain ⟨plan, hplan⟩ := hcreate
    exact ⟨plan, buildPlan_eq_ok.2 ⟨byAsset, h, hplan⟩⟩

/-- **Spec.** A plan can be built when every task on an asset has ended by the start of those that
    the sort puts after it. -/
theorem buildPlan_iff (hkinds : ∀ p ∈ assignment.entries, (taskKinds.get? p.1).isSome)
    (hdurations : ∀ p ∈ assignment.entries, 0 ≤ durations.getD p 0) :
    (∃ plan, buildPlan assignment starts taskKinds durations = .ok plan) ↔
      ∀ p ∈ assignment.entries, ∀ q ∈ assignment.entries, p.2 = q.2 →
        toLex (starts.getD p.1 0, p.1) < toLex (starts.getD q.1 0, q.1) →
          starts.getD p.1 0 + durations.getD p 0 - eps ≤ starts.getD q.1 0 := by
  obtain ⟨byAsset, hbyAsset⟩ : ∃ byAsset,
      assignment.entries.mapM (scheduleTask starts taskKinds durations) = .ok byAsset := by
    refine mapM_exists fun p hp => ?_
    obtain ⟨kind, hkind⟩ := Option.isSome_iff_exists.mp (hkinds p hp)
    exact ⟨(p.2, ⟨p.1, kind, starts.getD p.1 0, starts.getD p.1 0 + durations.getD p 0,
      le_add_of_nonneg_right (hdurations p hp)⟩), scheduleTask_eq_ok.2 ⟨rfl, rfl, hkind, rfl, rfl⟩⟩
  rw [schedules_iff hbyAsset]
  constructor
  · intro h p hp q hq hsame hlt
    obtain ⟨b, hb, hpb⟩ := exists_of_mapM hbyAsset hp
    obtain ⟨c, hc, hqc⟩ := exists_of_mapM hbyAsset hq
    obtain ⟨hbasset, hbtask, -, hbstart, hbend⟩ := scheduleTask_eq_ok.1 hpb
    obtain ⟨hcasset, hctask, -, hcstart, -⟩ := scheduleTask_eq_ok.1 hqc
    have hgroup : (b.1, (byAsset.filter fun c => c.1 = b.1).map Prod.snd) ∈
        (Dict.group byAsset).entries := mem_group_iff.2 ⟨⟨b, hb, rfl⟩, rfl⟩
    have hcb : c.1 = b.1 := hcasset.trans (hsame.symm.trans hbasset.symm)
    have hends := h _ hgroup b.2 ((mem_group_snd hgroup).2 hb) c.2
      ((mem_group_snd hgroup).2 (hcb ▸ hc)) (by rwa [hbstart, hbtask, hcstart, hctask])
    rwa [hbend, hcstart] at hends
  · intro h e he s hs s' hs' hlt
    obtain ⟨p, hp, hps⟩ := (mem_of_mapM hbyAsset _).1 ((mem_group_snd he).1 hs)
    obtain ⟨q, hq, hqs⟩ := (mem_of_mapM hbyAsset _).1 ((mem_group_snd he).1 hs')
    obtain ⟨hpasset, hptask, -, hpstart, hpend⟩ := scheduleTask_eq_ok.1 hps
    obtain ⟨hqasset, hqtask, -, hqstart, -⟩ := scheduleTask_eq_ok.1 hqs
    dsimp only at hpasset hptask hpstart hpend hqasset hqtask hqstart
    rw [hpend, hqstart]
    exact h p hp q hq (hpasset.symm.trans hqasset)
      (by rwa [hpstart, hptask, hqstart, hqtask] at hlt)

/-! ## What a built plan schedules -/

/-- The placements of a plan are the pairs of its assignment, with their starts. -/
theorem mem_placements_buildPlan {plan : List AssetSchedule}
    (hplan : buildPlan assignment starts taskKinds durations = .ok plan)
    {p : String × String × ℚ} : p ∈ placements plan ↔
      (p.1, p.2.1) ∈ assignment.entries ∧ p.2.2 = starts.getD p.1 0 := by
  obtain ⟨byAsset, hbyAsset, hall⟩ := buildPlan_eq_ok.1 hplan
  constructor
  · intro hp
    obtain ⟨schedule, hschedule, hp⟩ := List.mem_flatMap.mp hp
    obtain ⟨st, hst, rfl⟩ := List.mem_map.mp hp
    obtain ⟨e, he, hcreate⟩ := (mem_of_mapM hall _).1 hschedule
    obtain ⟨hasset, htasks⟩ := AssetSchedule.create_eq_ok.1 hcreate
    rw [mem_sortOn] at he
    rw [htasks, mem_sortOn, mem_group_snd he] at hst
    obtain ⟨q, hq, hqst⟩ := (mem_of_mapM hbyAsset _).1 hst
    obtain ⟨hqasset, hqtask, -, hqstart, -⟩ := scheduleTask_eq_ok.1 hqst
    dsimp only at hqasset hqtask hqstart
    rw [hqtask, hasset, hqasset]
    exact ⟨hq, hqstart⟩
  · rintro ⟨hp, hstart⟩
    obtain ⟨b, hb, hpb⟩ := exists_of_mapM hbyAsset hp
    obtain ⟨hbasset, hbtask, -, hbstart, -⟩ := scheduleTask_eq_ok.1 hpb
    have hgroup : (b.1, (byAsset.filter fun c => c.1 = b.1).map Prod.snd) ∈
        (Dict.group byAsset).entries := mem_group_iff.2 ⟨⟨b, hb, rfl⟩, rfl⟩
    obtain ⟨schedule, hschedule, hcreate⟩ := exists_of_mapM hall ((mem_sortOn _ _ _).2 hgroup)
    obtain ⟨hasset, htasks⟩ := AssetSchedule.create_eq_ok.1 hcreate
    refine List.mem_flatMap.mpr ⟨schedule, hschedule, List.mem_map.mpr ⟨b.2, ?_, ?_⟩⟩
    · rw [htasks, mem_sortOn]
      exact (mem_group_snd hgroup).2 hb
    · rw [hbtask, hasset, hbasset, hbstart, ← hstart]

/-- No task stands in the plan twice. -/
theorem nodup_placements_buildPlan {plan : List AssetSchedule}
    (hplan : buildPlan assignment starts taskKinds durations = .ok plan) :
    ((placements plan).map Prod.fst).Nodup := by
  obtain ⟨byAsset, hbyAsset, hall⟩ := buildPlan_eq_ok.1 hplan
  have hschedule : ∀ schedule ∈ plan, ∃ e ∈ (Dict.group byAsset).entries,
      schedule.assetId = e.1 ∧ schedule.tasks = sortOn (fun s => toLex (s.startS, s.taskId)) e.2 := by
    intro schedule hm
    obtain ⟨e, he, hcreate⟩ := (mem_of_mapM hall _).1 hm
    exact ⟨e, (mem_sortOn _ _ _).1 he, AssetSchedule.create_eq_ok.1 hcreate⟩
  have hassets : (plan.map AssetSchedule.assetId).Nodup := by
    rw [map_of_mapM hall fun e schedule hcreate => (AssetSchedule.create_eq_ok.1 hcreate).1]
    exact ((sortOn_perm _ _).map _).nodup_iff.mpr (Dict.group byAsset).keys_nodup
  rw [placements, List.map_flatMap]
  refine List.nodup_flatMap.mpr ⟨fun schedule hm => ?_, ?_⟩
  · obtain ⟨e, he, -, htasks⟩ := hschedule schedule hm
    rw [List.map_map, htasks]
    exact ((sortOn_perm _ _).map _).nodup_iff.mpr (nodup_group_snd hbyAsset he)
  · refine (List.pairwise_map.mp hassets).imp_of_mem fun {x y} hx hy hne id hidx hidy => hne ?_
    obtain ⟨e, he, hex, hxtasks⟩ := hschedule x hx
    obtain ⟨e', he', hey, hytasks⟩ := hschedule y hy
    simp only [List.map_map, List.mem_map, Function.comp_apply, hxtasks, hytasks, mem_sortOn]
      at hidx hidy
    obtain ⟨st, hst, rfl⟩ := hidx
    obtain ⟨st', hst', hid⟩ := hidy
    have heq := List.inj_on_of_nodup_map (nodup_of_byAsset hbyAsset) ((mem_group_snd he).1 hst)
      ((mem_group_snd he').1 hst') hid.symm
    rw [hex, hey, (Prod.mk.inj heq).1]

/-- **Spec.** A plan schedules the tasks of its assignment, at their starts. -/
theorem get?_scheduled_buildPlan {plan : List AssetSchedule}
    (hplan : buildPlan assignment starts taskKinds durations = .ok plan) (taskId : String) :
    (scheduled plan).get? taskId =
      (assignment.get? taskId).map fun assetId => (assetId, starts.getD taskId 0) := by
  refine Option.ext fun v => ?_
  rw [show v = (v.1, v.2) from rfl, get?_scheduled (nodup_placements_buildPlan hplan),
    mem_placements_buildPlan hplan, Option.map_eq_some_iff]
  simp only [← Dict.get?_eq_some_iff]
  constructor
  · rintro ⟨hasset, hstart⟩
    exact ⟨v.1, hasset, Prod.ext rfl hstart.symm⟩
  · rintro ⟨a, hasset, hv⟩
    obtain ⟨rfl, hstart⟩ := Prod.mk.inj hv
    exact ⟨hasset, hstart.symm⟩

end BuildPlan

end AstroMine.Allocate
