import AstroMine.Allocate.Names
import AstroMine.Lib.Except

/-!
# Precedence

The validator of a request (`api/model.py:217-251`) and the order in which the greedy planner takes
the tasks (`api/planner.py:105-123`).

Results:
* `plannerStep_eq`: the two loops take the same task and leave the same ones ready.
* `validate_spec`: a request is accepted exactly when its precedences are known tasks, no task is
  its own and there is no cycle, and the planner then takes the least ready task at each place of
  an order of all tasks.
-/

namespace AstroMine.Allocate

/-! ## The validator -/

/-- What the validation of a request raises. -/
inductive RequestError where
  | tooShort (field : String)
  | duplicateTaskId
  | duplicateAssetId
  | selfPrecedence (taskId : String)
  | unknownPrecedence (taskId p : String)
  | cycle
  deriving DecidableEq, Repr

/-- The body of the loops over the tasks and their precedences (`api/model.py:226-231`). -/
def checkPrecedence (known : List String) (t : Task) (p : String) : Except RequestError Unit := do
  refuseIf (p = t.taskId) (.selfPrecedence t.taskId)
  refuseIf (p ∉ known) (.unknownPrecedence t.taskId p)

/-- `_assert_acyclic` (`api/model.py:235-251`). -/
def assertAcyclic (tasks : List Task) : Except RequestError Unit :=
  refuseIf ((Kahn.order (precedenceOf tasks)).length ≠ (precedenceOf tasks).entries.length) .cycle

/-- `_well_formed` (`api/model.py:217-233`). -/
def wellFormed (tasks : List Task) (assets : List AssetRef) : Except RequestError Unit := do
  let taskIds := tasks.map Task.taskId
  refuseIf (taskIds.dedup.length ≠ taskIds.length) .duplicateTaskId
  let assetIds := assets.map AssetRef.assetId
  refuseIf (assetIds.dedup.length ≠ assetIds.length) .duplicateAssetId
  tasks.forM fun t => t.precedence.forM (checkPrecedence taskIds t)
  assertAcyclic tasks

/-- The lengths of the fields (`api/model.py:211-212`), then `_well_formed`. -/
def checkRequest (tasks : List Task) (assets : List AssetRef) : Except RequestError Unit := do
  refuseIf (tasks.length < 1) (.tooShort "tasks")
  refuseIf (assets.length < 1) (.tooShort "assets")
  wellFormed tasks assets

theorem length_dedup_eq_iff {ids : List String} : ids.dedup.length = ids.length ↔ ids.Nodup := by
  constructor
  · intro h
    exact List.dedup_eq_self.1 ((List.dedup_sublist ids).eq_of_length h)
  · intro h
    rw [List.dedup_eq_self.2 h]

theorem checkPrecedence_eq_ok {known : List String} {t : Task} {p : String} :
    checkPrecedence known t p = .ok () ↔ p ≠ t.taskId ∧ p ∈ known := by
  rw [checkPrecedence, seq_eq_ok, refuseIf_eq_ok, refuseIf_eq_ok, not_not]

/-- What the checks accept, with a cycle as the loop finds it. -/
theorem checkRequest_eq_ok {tasks : List Task} {assets : List AssetRef} :
    checkRequest tasks assets = .ok () ↔ tasks ≠ [] ∧ assets ≠ [] ∧
      (tasks.map Task.taskId).Nodup ∧ (assets.map AssetRef.assetId).Nodup ∧
      (∀ t ∈ tasks, ∀ p ∈ t.precedence, p ≠ t.taskId ∧ p ∈ tasks.map Task.taskId) ∧
      (Kahn.order (precedenceOf tasks)).length = (precedenceOf tasks).entries.length := by
  simp only [checkRequest, wellFormed, assertAcyclic, seq_eq_ok, refuseIf_eq_ok, forM_eq_ok,
    checkPrecedence_eq_ok, not_not, length_dedup_eq_iff, not_lt, Nat.one_le_iff_ne_zero, ne_eq,
    List.length_eq_zero_iff]

/-- `AllocationRequest(tasks=…, assets=…, objective=…)`. -/
def validate (tasks : List Task) (assets : List AssetRef) (objective : Objective) :
    Except RequestError AllocationRequest :=
  match h : checkRequest tasks assets with
  | .error e => .error e
  | .ok () =>
    have hok := checkRequest_eq_ok.1 h
    .ok
      { tasks := tasks
        assets := assets
        objective := objective
        tasks_ne_nil := hok.1
        assets_ne_nil := hok.2.1
        taskIds_nodup := hok.2.2.1
        assetIds_nodup := hok.2.2.2.1
        precedence_irrefl := fun t ht hmem => (hok.2.2.2.2.1 t ht _ hmem).1 rfl
        precedence_known := fun t ht p hp => (hok.2.2.2.2.1 t ht p hp).2
        precedence_acyclic := hok.2.2.2.2.2 }

theorem exists_validate_iff {tasks : List Task} {assets : List AssetRef} (objective : Objective) :
    (∃ request, validate tasks assets objective = .ok request) ↔ checkRequest tasks assets = .ok () := by
  rw [validate]
  split
  · rename_i e he
    simp [he]
  · rename_i hok
    simp [hok]

theorem tasks_of_validate {tasks : List Task} {assets : List AssetRef} {objective : Objective}
    {request : AllocationRequest} (h : validate tasks assets objective = .ok request) :
    request.tasks = tasks := by
  rw [validate] at h
  split at h
  · cases h
  · cases h
    rfl

/-! ## The planner's loop -/

/-- The body of the inner loop of `_topological_order` (`planner.py:117-121`). -/
def appendReady (tid : String) (order ready : List String) (p : String × List String) :
    List String :=
  if tid ∈ p.2 ∧ (p.2.filter fun q => q ≠ tid) = [] ∧ p.1 ∉ order ∧ p.1 ∉ ready then ready ++ [p.1]
  else ready

/-- One turn of the outer loop (`planner.py:114-122`). -/
def plannerStep (s : Kahn.State String) : Kahn.State String :=
  match s.ready with
  | [] => s
  | tid :: ready =>
    let order := s.removed ++ [tid]
    { preds := s.preds.mapValues fun ps => ps.filter fun q => q ≠ tid
      ready := sortOn id (s.preds.entries.foldl (appendReady tid order) ready)
      removed := order }

/-- So many turns of the loop. -/
def plannerRun : ℕ → Kahn.State String → Kahn.State String
  | 0, s => s
  | n + 1, s => plannerRun n (plannerStep s)

/-- `_topological_order` (`planner.py:105-123`): the loop takes each task at most once. -/
def topologicalOrder (request : AllocationRequest) : List String :=
  let preds := precedenceOf request.tasks
  (plannerRun preds.entries.length (Kahn.init preds)).removed

/-- A task that the inner loop has appended does not come again. -/
theorem foldl_appendReady {tid : String} {order : List String} (es : List (String × List String))
    (hnodup : (es.map Prod.fst).Nodup) (ready : List String) :
    es.foldl (appendReady tid order) ready = ready ++ (es.filter fun p =>
      tid ∈ p.2 ∧ (p.2.filter fun q => q ≠ tid) = [] ∧ p.1 ∉ order ∧ p.1 ∉ ready).map Prod.fst := by
  induction es generalizing ready with
  | nil => simp
  | cons p es ih =>
    rw [List.map_cons, List.nodup_cons] at hnodup
    rw [List.foldl_cons, ih hnodup.2, List.filter_cons]
    by_cases hp : tid ∈ p.2 ∧ (p.2.filter fun q => q ≠ tid) = [] ∧ p.1 ∉ order ∧ p.1 ∉ ready
    · rw [appendReady, if_pos hp, if_pos (decide_eq_true hp), List.map_cons, List.append_assoc,
        List.singleton_append]
      congr 3
      refine List.filter_congr fun q hq => ?_
      have hne : q.1 ≠ p.1 := fun h => hnodup.1 (List.mem_map.mpr ⟨q, hq, h⟩)
      simp only [List.mem_append, List.mem_singleton, hne, or_false]
    · rw [appendReady, if_neg hp, if_neg (by simpa only [decide_eq_true_eq] using hp)]

/-- **Step.** The planner and the validator take the same task and leave the same ones ready. -/
theorem plannerStep_eq (s : Kahn.State String) : plannerStep s = Kahn.step s := by
  rw [plannerStep, Kahn.step]
  cases s.ready with
  | nil => rfl
  | cons tid ready => simp only [foldl_appendReady _ s.preds.keys_nodup]

/-- **Run.** The loops agree on whole runs. -/
theorem plannerRun_eq (n : ℕ) (s : Kahn.State String) : plannerRun n s = Kahn.run n s := by
  induction n generalizing s with
  | zero => rfl
  | succ n ih => rw [plannerRun, Kahn.run, plannerStep_eq, ih]

theorem topologicalOrder_eq (request : AllocationRequest) :
    topologicalOrder request = Kahn.order (precedenceOf request.tasks) := by
  rw [topologicalOrder, plannerRun_eq, Kahn.order]

/-! ## Precedence between tasks -/

/-- A task lists another one in its precedence. -/
def Precedes (tasks : List Task) (p id : String) : Prop :=
  ∃ t ∈ tasks, t.taskId = id ∧ p ∈ t.precedence

theorem entries_precedenceOf {tasks : List Task} (h : (tasks.map Task.taskId).Nodup) :
    (precedenceOf tasks).entries = tasks.map fun t => (t.taskId, t.precedence) := by
  refine Dict.entries_ofList ?_
  rw [List.map_map]
  exact h

theorem keys_precedenceOf {tasks : List Task} (h : (tasks.map Task.taskId).Nodup) :
    (precedenceOf tasks).keys = tasks.map Task.taskId := by
  rw [Dict.keys, entries_precedenceOf h, List.map_map]
  rfl

theorem precedes_precedenceOf {tasks : List Task} (h : (tasks.map Task.taskId).Nodup) :
    Kahn.Precedes (precedenceOf tasks) = Precedes tasks := by
  funext p id
  apply propext
  rw [Kahn.Precedes, entries_precedenceOf h, Precedes]
  constructor
  · rintro ⟨ps, hmem, hp⟩
    obtain ⟨t, ht, he⟩ := List.mem_map.mp hmem
    obtain ⟨rfl, rfl⟩ := Prod.mk.inj he
    exact ⟨t, ht, rfl, hp⟩
  · rintro ⟨t, ht, rfl, hp⟩
    exact ⟨t.precedence, List.mem_map.mpr ⟨t, ht, rfl⟩, hp⟩

/-- A request with known precedences, none of them of a task on itself, and without a cycle. -/
structure WellFormed (tasks : List Task) (assets : List AssetRef) : Prop where
  tasks_ne_nil : tasks ≠ []
  assets_ne_nil : assets ≠ []
  taskIds_nodup : (tasks.map Task.taskId).Nodup
  assetIds_nodup : (assets.map AssetRef.assetId).Nodup
  irrefl : ∀ t ∈ tasks, t.taskId ∉ t.precedence
  known : ∀ t ∈ tasks, ∀ p ∈ t.precedence, p ∈ tasks.map Task.taskId
  acyclic : ∀ id, ¬ Relation.TransGen (Precedes tasks) id id

/-- The order of all tasks that takes the least task whose predecessors are taken. -/
structure PrecedenceOrder (tasks : List Task) (order : List String) : Prop where
  perm : order.Perm (tasks.map Task.taskId)
  after : ∀ xs id ys, order = xs ++ id :: ys → ∀ p, Precedes tasks p id → p ∈ xs
  least : ∀ xs id ys, order = xs ++ id :: ys → ∀ t ∈ tasks, t.taskId ∉ xs →
    (∀ p ∈ t.precedence, p ∈ xs) → id ≤ t.taskId

/-- The loop of the validator finds every cycle and nothing else. -/
theorem length_order_iff {tasks : List Task} (hnodup : (tasks.map Task.taskId).Nodup)
    (hknown : ∀ t ∈ tasks, ∀ p ∈ t.precedence, p ∈ tasks.map Task.taskId) :
    (Kahn.order (precedenceOf tasks)).length = (precedenceOf tasks).entries.length ↔
      ∀ id, ¬ Relation.TransGen (Precedes tasks) id id := by
  rw [Kahn.length_order_iff, precedes_precedenceOf hnodup]
  intro id ps hps p hp
  rw [entries_precedenceOf hnodup] at hps
  obtain ⟨t, ht, he⟩ := List.mem_map.mp hps
  obtain ⟨rfl, rfl⟩ := Prod.mk.inj he
  rw [keys_precedenceOf hnodup]
  exact hknown t ht p hp

theorem checkRequest_eq_ok_iff {tasks : List Task} {assets : List AssetRef} :
    checkRequest tasks assets = .ok () ↔ WellFormed tasks assets := by
  rw [checkRequest_eq_ok]
  constructor
  · rintro ⟨htasks, hassets, hids, haids, hprec, hlen⟩
    have hknown : ∀ t ∈ tasks, ∀ p ∈ t.precedence, p ∈ tasks.map Task.taskId :=
      fun t ht p hp => (hprec t ht p hp).2
    exact ⟨htasks, hassets, hids, haids, fun t ht hmem => (hprec t ht _ hmem).1 rfl, hknown,
      (length_order_iff hids hknown).1 hlen⟩
  · intro h
    refine ⟨h.tasks_ne_nil, h.assets_ne_nil, h.taskIds_nodup, h.assetIds_nodup,
      fun t ht p hp => ⟨?_, h.known t ht p hp⟩, (length_order_iff h.taskIds_nodup h.known).2 h.acyclic⟩
    rintro rfl
    exact h.irrefl t ht hp

/-- The order of an accepted request. -/
theorem precedenceOrder_order (request : AllocationRequest) :
    PrecedenceOrder request.tasks (Kahn.order (precedenceOf request.tasks)) := by
  have hentries := entries_precedenceOf request.taskIds_nodup
  refine ⟨?_, ?_, ?_⟩
  · rw [← keys_precedenceOf request.taskIds_nodup]
    exact Kahn.order_perm_of_length request.precedence_acyclic
  · rintro xs id ys h p ⟨t, ht, rfl, hp⟩
    refine Kahn.order_ordered _ xs t.taskId ys h t.precedence ?_ p hp
    rw [hentries]
    exact List.mem_map.mpr ⟨t, ht, rfl⟩
  · intro xs id ys h t ht hnew hall
    refine Kahn.order_least _ xs id ys h t.taskId t.precedence ?_ hnew hall
    rw [hentries]
    exact List.mem_map.mpr ⟨t, ht, rfl⟩

/-- Every task of the request is in the order. -/
theorem mem_order {request : AllocationRequest} {t : Task} (ht : t ∈ request.tasks) :
    t.taskId ∈ Kahn.order (precedenceOf request.tasks) :=
  (precedenceOrder_order request).perm.mem_iff.mpr (List.mem_map_of_mem ht)

/-- A task of the order is new, and its predecessors stand before it. -/
theorem order_split {request : AllocationRequest} {xs ys : List String} {taskId : String}
    (h : Kahn.order (precedenceOf request.tasks) = xs ++ taskId :: ys) :
    ∃ t ∈ request.tasks, t.taskId = taskId ∧ (∀ p ∈ t.precedence, p ∈ xs) ∧ taskId ∉ xs := by
  have horder := precedenceOrder_order request
  have hmem : taskId ∈ Kahn.order (precedenceOf request.tasks) := by
    rw [h]
    exact List.mem_append_right _ List.mem_cons_self
  obtain ⟨t, ht, hid⟩ := List.mem_map.mp (horder.perm.mem_iff.mp hmem)
  refine ⟨t, ht, hid, fun p hp => horder.after xs taskId ys h p ⟨t, ht, hid, hp⟩, fun hxs => ?_⟩
  have hnodup := Kahn.order_nodup (precedenceOf request.tasks)
  rw [h] at hnodup
  exact (List.nodup_append.mp hnodup).2.2 taskId hxs taskId List.mem_cons_self rfl

/-- **Main theorem.** Exactly the well-formed requests are accepted, and the planner takes the
    tasks of an accepted one in the order of their precedence. -/
theorem validate_spec (tasks : List Task) (assets : List AssetRef) (objective : Objective) :
    ((∃ request, validate tasks assets objective = .ok request) ↔ WellFormed tasks assets) ∧
      ∀ request, validate tasks assets objective = .ok request →
        request.tasks = tasks ∧ PrecedenceOrder tasks (topologicalOrder request) := by
  refine ⟨by rw [exists_validate_iff, checkRequest_eq_ok_iff], fun request h => ?_⟩
  have htasks := tasks_of_validate h
  rw [topologicalOrder_eq, ← htasks]
  exact ⟨rfl, precedenceOrder_order request⟩

/-- `haul` lists `dig` twice and stands before it. -/
theorem validate_spec_repeated :
    ∃ request, validate [pointTask "haul" ["dig", "dig"], pointTask "dig" []] [rover]
        ⟨.maximize, Dict.empty⟩ = .ok request ∧
      PrecedenceOrder [pointTask "haul" ["dig", "dig"], pointTask "dig" []]
        (topologicalOrder request) := by
  obtain ⟨request, h⟩ := (exists_validate_iff ⟨.maximize, Dict.empty⟩).2
    (show checkRequest [pointTask "haul" ["dig", "dig"], pointTask "dig" []] [rover] = .ok () by
      decide +kernel)
  exact ⟨request, h, ((validate_spec _ _ _).2 request h).2⟩

end AstroMine.Allocate
