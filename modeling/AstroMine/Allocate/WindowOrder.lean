import AstroMine.Lib.FixedWidth
import AstroMine.Allocate.Bounds
import AstroMine.Allocate.Planner

/-!
# The order of the windows read back

`window_choices` (`ir/utils.py:58-103`) sorts the selectors of a task by their ids, which number the
windows with three digits, and `place` of the greedy solver (`solvers/trivial.py:93-114`) takes the
first of them that can host a start.

Results:
* `windowChoices_eq_sortOn`: the windows read back, in the order of the names.
* `sorted_times_iff`: exactly when their times come back in order.
* `placeAmong_emittedChoices`: over windows in order the solver starts a task as early as the planner.
* `windows_chronological_iff`: exactly when the windows come back in the order of the compiler.
-/

namespace AstroMine.Allocate

open FixedWidth
open Skeleton (selectorChoice)

/-! ## Names -/

theorem toList_zeroPadded_eq (i : ℕ) : (zeroPadded i).toList = padded 3 i := by
  rw [toList_zeroPadded, padded, Nat.toString_eq_repr, ← String.length_toList, Nat.toList_repr]

/-- The selectors of one task are sorted like their padded indices. -/
theorem windowSelectVarId_lt_iff (t : String) (i j : ℕ) :
    windowSelectVarId t i < windowSelectVarId t j ↔ padded 3 i < padded 3 j := by
  have htext : ∀ k, (windowSelectVarId t k).toList =
      ("window::" ++ t ++ "::").toList ++ padded 3 k := by
    intro k
    rw [windowSelectVarId, String.toList_append, toList_zeroPadded_eq]
  rw [String.lt_iff_toList_lt, htext, htext, append_left_lt_iff]

/-! ## The choices of a task -/

/-- The windows of a task with several, each behind its selector, in the order of the compiler
(`compile.py:246-267`). -/
def emittedChoices (t : Task) : List WindowChoice :=
  if (taskWindows t).length < 2 then []
  else (taskWindows t).zipIdx.map fun p => selectorChoice t p.2 p.1

/-- The times of a window read back. -/
def WindowChoice.times (choice : WindowChoice) : ℚ × ℚ := (choice.startS, choice.endS)

/-- The choices of a task that an IR states. -/
def choicesOf (ir : AllocationIR) (t : Task) : List WindowChoice :=
  (windowChoices ir).getD t.taskId []

theorem taskWindows_pairwise (t : Task) : (taskWindows t).Pairwise fun w w' =>
    toLex (w.startS, w.endS) ≤ toLex (w'.startS, w'.endS) :=
  sortOn_pairwise _ _

theorem getElem?_emittedChoices {t : Task} (hpl : 2 ≤ t.timeWindows.length) (i : ℕ) :
    (emittedChoices t)[i]? = (taskWindows t)[i]?.map (selectorChoice t i) := by
  rw [emittedChoices, if_neg (by rw [length_taskWindows]; omega), List.getElem?_map,
    List.getElem?_zipIdx, Option.map_map, Nat.zero_add]
  rfl

theorem mem_emittedChoices {t : Task} (hpl : 2 ≤ t.timeWindows.length) {choice : WindowChoice} :
    choice ∈ emittedChoices t ↔
      ∃ i w, (taskWindows t)[i]? = some w ∧ choice = selectorChoice t i w := by
  rw [List.mem_iff_getElem?]
  refine exists_congr fun i => ?_
  rw [getElem?_emittedChoices hpl, Option.map_eq_some_iff]
  exact exists_congr fun w => and_congr_right' eq_comm

theorem varIds_emittedChoices {t : Task} (hpl : 2 ≤ t.timeWindows.length) :
    (emittedChoices t).map WindowChoice.varId =
      (List.range t.timeWindows.length).map (windowSelectVarId t.taskId) := by
  have hsnd : (emittedChoices t).map WindowChoice.varId =
      ((taskWindows t).zipIdx.map Prod.snd).map (windowSelectVarId t.taskId) := by
    rw [emittedChoices, if_neg (by rw [length_taskWindows]; omega), List.map_map, List.map_map]
    rfl
  rw [hsnd, List.zipIdx_map_snd, length_taskWindows, List.range_eq_range']

theorem times_emittedChoices {t : Task} (hpl : 2 ≤ t.timeWindows.length) :
    (emittedChoices t).map WindowChoice.times =
      (taskWindows t).map fun w => (w.startS, w.endS) := by
  have hfst : (emittedChoices t).map WindowChoice.times =
      ((taskWindows t).zipIdx.map Prod.fst).map fun w => (w.startS, w.endS) := by
    rw [emittedChoices, if_neg (by rw [length_taskWindows]; omega), List.map_map, List.map_map]
    rfl
  rw [hfst, List.zipIdx_map_fst]

theorem nodup_varIds_emittedChoices {t : Task} (hpl : 2 ≤ t.timeWindows.length) :
    ((emittedChoices t).map WindowChoice.varId).Nodup := by
  rw [varIds_emittedChoices hpl]
  exact List.Nodup.map (fun i j h => (windowSelectVarId_inj h).2) List.nodup_range

/-! ## The choices read back -/

section ReadBack

variable {request : AllocationRequest} {ir : AllocationIR} {t : Task}

/-- Nothing is read back for a task with at most one window. -/
theorem choicesOf_of_lt (hS : Skeleton request ir) (ht : t ∈ request.tasks)
    (hsg : t.timeWindows.length < 2) : choicesOf ir t = [] := by
  have hnone : (windowChoices ir).get? t.taskId = none := by
    rw [windowChoices, Dict.get?_group, if_neg]
    rintro ⟨⟨task, choice⟩, hp, htask⟩
    obtain ⟨varId, -, hchoice⟩ := List.mem_filterMap.mp hp
    obtain ⟨v, hv, rfl, hsem, href⟩ :=
      selectorTask_mem (Skeleton.windowChoice_task hchoice).1
    rcases hS.variable_cases hv with ⟨u, -, a, -, rfl⟩ | ⟨u, -, rfl⟩ | ⟨u, hu, hpl, i, hi, rfl⟩
    · cases hsem
    · cases hsem
    · have huid : u.taskId = task := Option.some.inj (Option.filter_eq_some_iff.mp href).1
      obtain rfl := task_eq_of_taskId hu ht (huid.trans htask)
      rw [length_taskWindows] at hpl
      omega
  rw [choicesOf, Dict.getD, hnone, Option.getD_none]

/-- **The windows read back are those of the compiler, in the order of the names.** -/
theorem windowChoices_eq_sortOn (hS : Skeleton request ir) (ht : t ∈ request.tasks)
    (hne : t.taskId ≠ "") (hpl : 2 ≤ t.timeWindows.length) :
    choicesOf ir t = sortOn WindowChoice.varId (emittedChoices t) := by
  have hpl' : 2 ≤ (taskWindows t).length := by rwa [length_taskWindows]
  have hkeys : (sortOn id (selectorTask ir).keys).Pairwise (· < ·) :=
    (pairwise_sortOn_iff (by rw [List.map_id]; exact Dict.nodup_keys _)).2 fun _ _ _ _ h => h
  have hchoices : choicesOf ir t = (((sortOn id (selectorTask ir).keys).filterMap
      (windowChoice ir)).filter fun p => p.1 = t.taskId).map Prod.snd := Dict.getD_group _ _
  have hread : (choicesOf ir t).Pairwise fun x y => x.varId < y.varId := by
    rw [hchoices, List.pairwise_map]
    refine List.Pairwise.filter _ (List.Pairwise.filterMap _ ?_ hkeys)
    intro varId varId' hlt choice hchoice choice' hchoice'
    rwa [(Skeleton.windowChoice_task hchoice).2, (Skeleton.windowChoice_task hchoice').2]
  have hsorted : (sortOn WindowChoice.varId (emittedChoices t)).Pairwise
      fun x y => x.varId < y.varId :=
    (pairwise_sortOn_iff (nodup_varIds_emittedChoices hpl)).2 fun _ _ _ _ h => h
  refine List.Perm.eq_of_pairwise (fun _ _ _ _ hlt hgt => absurd hlt (lt_asymm hgt)) hread hsorted ?_
  have hnodup : ∀ {xs : List WindowChoice}, (xs.Pairwise fun x y => x.varId < y.varId) → xs.Nodup :=
    fun h => h.imp fun hlt heq => absurd hlt (by rw [heq]; exact lt_irrefl _)
  refine (List.perm_ext_iff_of_nodup (hnodup hread) (hnodup hsorted)).2 fun choice => ?_
  obtain ⟨choices, hget, hmem⟩ := hS.mem_windowChoices ht hne hpl'
  rw [mem_sortOn, mem_emittedChoices hpl, choicesOf, Dict.getD, hget, Option.getD_some, hmem]

end ReadBack

/-! ## The order -/

theorem pairwise_range_iff {R : ℕ → ℕ → Prop} {n : ℕ} :
    (List.range n).Pairwise R ↔ ∀ i j, i < j → j < n → R i j := by
  rw [List.pairwise_iff_getElem]
  simp only [List.length_range, List.getElem_range]
  exact ⟨fun h i j hij hj => h i j (hij.trans hj) hj hij, fun h i j _ hj hij => h i j hij hj⟩

/-- The names number the windows in order as long as three digits suffice. -/
theorem pairwise_varIds_iff {t : Task} (hpl : 2 ≤ t.timeWindows.length) :
    ((emittedChoices t).Pairwise fun x y => x.varId ≤ y.varId) ↔ t.timeWindows.length ≤ 1000 := by
  have hids : ((emittedChoices t).Pairwise fun x y => x.varId ≤ y.varId) ↔
      StrictMonoOn (padded 3) (Set.Iio t.timeWindows.length) := by
    rw [← List.pairwise_map (f := WindowChoice.varId) (R := fun x y => x ≤ y),
      varIds_emittedChoices hpl, List.pairwise_map, pairwise_range_iff]
    constructor
    · intro h i hi j hj hij
      have hne : windowSelectVarId t.taskId i ≠ windowSelectVarId t.taskId j :=
        fun heq => hij.ne (windowSelectVarId_inj heq).2
      exact (windowSelectVarId_lt_iff _ i j).1 (lt_of_le_of_ne (h i j hij hj) hne)
    · intro h i j hij hj
      exact ((windowSelectVarId_lt_iff _ i j).2 (h (hij.trans hj) hj hij)).le
  exact hids.trans (strictMonoOn_padded_iff (by decide))

/-- The first of the alternatives that can host a start (`trivial.py:102-106`). -/
def placeAmong (alternatives : List WindowChoice) (notBefore : ℚ) : Option ℚ :=
  alternatives.findSome? fun w =>
    let candidate := max notBefore w.startS
    if candidate ≤ w.endS + eps then some candidate else none

/-- The planner takes the first window that can host a start, when there is a window. -/
theorem earliestStartInWindows_of_ne_nil {t : Task} (hne : taskWindows t ≠ []) (notBefore : ℚ) :
    earliestStartInWindows t notBefore = (taskWindows t).findSome? fun w =>
      if max notBefore w.startS ≤ w.endS + eps then some (max notBefore w.startS) else none := by
  rw [earliestStartInWindows]
  split
  · rename_i hnil
    exact absurd hnil hne
  · rfl

/-- Over the windows in order the greedy solver starts a task as early as the planner. -/
theorem placeAmong_emittedChoices {t : Task} (hpl : 2 ≤ t.timeWindows.length) (notBefore : ℚ) :
    placeAmong (emittedChoices t) notBefore = earliestStartInWindows t notBefore := by
  rw [← length_taskWindows] at hpl
  have hne : taskWindows t ≠ [] := List.ne_nil_of_length_pos (by omega)
  rw [earliestStartInWindows_of_ne_nil hne, ← List.zipIdx_map_fst 0 (taskWindows t), placeAmong,
    emittedChoices, if_neg (by omega), List.findSome?_map, List.findSome?_map]
  rfl

section Produced

variable {request : AllocationRequest} {ir : AllocationIR} {t : Task}

/-- The times of the windows of a named task come back in order if and only if any two windows that
    their names put the other way round are the same window. -/
theorem sorted_times_iff (h : Produced request ir) (ht : t ∈ request.tasks) (hne : t.taskId ≠ "")
    (hpl : 2 ≤ t.timeWindows.length) :
    (choicesOf ir t).map WindowChoice.times = (emittedChoices t).map WindowChoice.times ↔
      ∀ i j w w', (taskWindows t)[i]? = some w → (taskWindows t)[j]? = some w' → i < j →
        windowSelectVarId t.taskId j < windowSelectVarId t.taskId i → w = w' := by
  have horder : ((emittedChoices t).map WindowChoice.times).Pairwise
      fun x y => toLex x ≤ toLex y := by
    rw [times_emittedChoices hpl, List.pairwise_map]
    exact taskWindows_pairwise t
  have hsorted : (choicesOf ir t).map WindowChoice.times =
      (emittedChoices t).map WindowChoice.times ↔
        (choicesOf ir t).Pairwise fun x y => toLex x.times ≤ toLex y.times := by
    constructor
    · intro heq
      rw [← heq, List.pairwise_map] at horder
      exact horder
    · intro hpair
      refine List.Perm.eq_of_pairwise (fun x y _ _ hxy hyx => toLex.injective (le_antisymm hxy hyx))
        (List.pairwise_map.2 hpair) horder (List.Perm.map _ ?_)
      rw [windowChoices_eq_sortOn h.skeleton ht hne hpl]
      exact sortOn_perm _ _
  rw [hsorted, windowChoices_eq_sortOn h.skeleton ht hne hpl,
    pairwise_sortOn_iff (nodup_varIds_emittedChoices hpl)]
  have hup : ∀ {i j : ℕ} {w w' : TimeWindow}, (taskWindows t)[i]? = some w →
      (taskWindows t)[j]? = some w' → i < j →
        toLex (w.startS, w.endS) ≤ toLex (w'.startS, w'.endS) := by
    intro i j w w' hi hj hij
    obtain ⟨hilt, rfl⟩ := List.getElem?_eq_some_iff.1 hi
    obtain ⟨hjlt, rfl⟩ := List.getElem?_eq_some_iff.1 hj
    exact List.pairwise_iff_getElem.1 (taskWindows_pairwise t) i j hilt hjlt hij
  constructor
  · intro hall i j w w' hi hj hij hlt
    have hle := hall _ ((mem_emittedChoices hpl).2 ⟨j, w', hj, rfl⟩) _
      ((mem_emittedChoices hpl).2 ⟨i, w, hi, rfl⟩) hlt
    have htimes := toLex.injective (le_antisymm (hup hi hj hij) hle)
    cases w
    cases w'
    simpa using htimes
  · intro hall x hx y hy hlt
    obtain ⟨i, w, hi, rfl⟩ := (mem_emittedChoices hpl).1 hx
    obtain ⟨j, w', hj, rfl⟩ := (mem_emittedChoices hpl).1 hy
    rcases lt_trichotomy i j with hij | rfl | hij
    · exact hup hi hj hij
    · exact absurd hlt (lt_irrefl _)
    · rw [hall j i w' w hj hi hij hlt]
      exact le_refl (toLex (w.startS, w.endS))

/-- The windows of a task come back in the order of the compiler, and the greedy solver tries them in
that order: it starts the task as early as its windows allow. -/
structure Chronological (ir : AllocationIR) (t : Task) : Prop where
  choices : choicesOf ir t = emittedChoices t
  earliest : 2 ≤ t.timeWindows.length →
    ∀ notBefore, placeAmong (choicesOf ir t) notBefore = earliestStartInWindows t notBefore

theorem chronological_iff_choices :
    Chronological ir t ↔ choicesOf ir t = emittedChoices t := by
  refine ⟨Chronological.choices, fun h => ⟨h, fun hpl notBefore => ?_⟩⟩
  rw [h]
  exact placeAmong_emittedChoices hpl notBefore

/-- **Main theorem.** Whatever a request compiles to: the windows of a task come back in order, and
    the greedy solver tries them in that order, if and only if the task has at most one window or has
    a name and at most 1000 windows. -/
theorem windows_chronological_iff (h : Produced request ir) (ht : t ∈ request.tasks) :
    Chronological ir t ↔
      (2 ≤ t.timeWindows.length → t.taskId ≠ "" ∧ t.timeWindows.length ≤ 1000) := by
  rw [chronological_iff_choices]
  by_cases hpl : 2 ≤ t.timeWindows.length
  · rw [imp_iff_right hpl]
    by_cases hne : t.taskId = ""
    · refine iff_of_false (fun heq => ?_) fun hcond => hcond.1 hne
      rw [choicesOf, hne, Dict.getD, Skeleton.windowChoices_unnamed, Option.getD_none] at heq
      have hlength := congrArg List.length (varIds_emittedChoices hpl)
      rw [← heq, List.length_map, List.length_map, List.length_range, List.length_nil] at hlength
      omega
    · rw [windowChoices_eq_sortOn h.skeleton ht hne hpl, sortOn_eq_self_iff, pairwise_varIds_iff hpl,
        and_iff_right hne]
  · refine iff_of_true ?_ fun hpl' => absurd hpl' hpl
    rw [choicesOf_of_lt h.skeleton ht (by omega), emittedChoices,
      if_pos (by rw [length_taskWindows]; omega)]

end Produced

/-! ## A task with too many windows -/

/-- The windows `[0, 1]`, `[2, 3]`, …, `n` of them. -/
def everyOtherSecond (n : ℕ) : List TimeWindow :=
  (List.range n).map fun i : ℕ => ⟨2 * i, 2 * i + 1, by linarith⟩

theorem everyOtherSecond_pairwise (n : ℕ) : (everyOtherSecond n).Pairwise fun w w' =>
    toLex (w.startS, w.endS) < toLex (w'.startS, w'.endS) := by
  rw [everyOtherSecond, List.pairwise_map, pairwise_range_iff]
  intro i j hij _
  have hcast : (i : ℚ) < j := by exact_mod_cast hij
  refine Prod.Lex.toLex_lt_toLex.2 (.inl ?_)
  dsimp only
  linarith

theorem getElem?_everyOtherSecond {n i : ℕ} {w : TimeWindow} :
    (everyOtherSecond n)[i]? = some w ↔ i < n ∧ w.startS = 2 * i ∧ w.endS = 2 * i + 1 := by
  rw [everyOtherSecond, List.getElem?_map, Option.map_eq_some_iff]
  constructor
  · rintro ⟨k, hk, rfl⟩
    obtain ⟨hlt, rfl⟩ := List.getElem?_eq_some_iff.1 hk
    rw [List.length_range] at hlt
    rw [List.getElem_range]
    exact ⟨hlt, rfl, rfl⟩
  · rintro ⟨hlt, hstart, hend⟩
    refine ⟨i, List.getElem?_range hlt, ?_⟩
    cases w
    cases hstart
    cases hend
    rfl

/-- A task with these windows. -/
def crowdedTask (n : ℕ) : Task :=
  { pointTask "dig" [] with
    timeWindows := everyOtherSecond n
    duration_nonneg := pointTask_nonneg "dig" }

theorem taskWindows_crowdedTask (n : ℕ) : taskWindows (crowdedTask n) = everyOtherSecond n :=
  sortOn_eq_self_iff.2 ((everyOtherSecond_pairwise n).imp le_of_lt)

/-- The request for one of them. -/
def crowded (n : ℕ) : AllocationRequest where
  tasks := [crowdedTask n]
  assets := [rover]
  objective := ⟨.maximize, Dict.empty⟩
  tasks_ne_nil := List.cons_ne_nil _ _
  assets_ne_nil := rover_ne_nil
  taskIds_nodup := List.nodup_singleton _
  assetIds_nodup := rover_nodup
  precedence_irrefl := by simp [crowdedTask, pointTask]
  precedence_known := by simp [crowdedTask, pointTask]
  precedence_acyclic := by rfl

theorem exists_compileRequest_crowded (n : ℕ) : ∃ ir, compileRequest (crowded n) = .ok ir := by
  have hplain : ':' ∉ "dig".toList ∧ '-' ∉ "dig".toList := by decide
  have hseparable : Separable (crowded n) := by
    refine separable_of_plain ?_ ?_ ?_ <;> intro t ht <;> obtain rfl := List.mem_singleton.1 ht
    · exact hplain.1
    · exact hplain.2
    · exact List.nodup_nil
  exact exists_compileRequest_eq_ok hseparable.namesDistinct

theorem windows_in_order :
    ∃ ir, Produced (crowded 3) ir ∧ crowdedTask 3 ∈ (crowded 3).tasks ∧
      Chronological ir (crowdedTask 3) := by
  obtain ⟨ir, hir⟩ := exists_compileRequest_crowded 3
  have hmem : crowdedTask 3 ∈ (crowded 3).tasks := List.mem_singleton_self _
  exact ⟨ir, .bare hir, hmem, (windows_chronological_iff (.bare hir) hmem).2 fun _ => by decide⟩

/-- From 202 on only the windows with the index 101 and later ones can host a start. -/
theorem le_of_hosts {w : TimeWindow} {i : ℕ} (hend : w.endS = 2 * i + 1)
    (hosts : max 202 w.startS ≤ w.endS + eps) : 101 ≤ i := by
  have hle : (202 : ℚ) ≤ 2 * i + 1 + eps := hend ▸ (le_max_left _ _).trans hosts
  rw [eps] at hle
  have hcast : (100 : ℚ) < i := by linarith
  exact_mod_cast hcast

/-- The name of the last window stands before all others from the index 101 on. -/
theorem windowSelectVarId_last_le (t : String) {i : ℕ} (hlow : 101 ≤ i) (hi : i ≤ 1000) :
    windowSelectVarId t 1000 ≤ windowSelectVarId t i := by
  rcases hi.eq_or_lt with rfl | hlt
  · exact le_rfl
  · refine ((windowSelectVarId_lt_iff t 1000 i).2 (lt_of_lt_of_le (padded_pow_lt 2) ?_)).le
    rcases hlow.eq_or_lt with rfl | hlow
    · exact le_rfl
    · exact ((padded_lt_padded_iff (by decide) (by decide) hlt).2 hlow).le

/-- **Counterexample.** Asked for a start from 202 on, which is the beginning of a window, the greedy
    solver tries the last window before it and starts the task at 2000. -/
theorem windows_out_of_order :
    ∃ ir, compileRequest (crowded 1001) = .ok ir ∧ crowdedTask 1001 ∈ (crowded 1001).tasks ∧
      placeAmong (choicesOf ir (crowdedTask 1001)) 202 = some 2000 ∧
      earliestStartInWindows (crowdedTask 1001) 202 = some 202 ∧
      ¬ Chronological ir (crowdedTask 1001) := by
  obtain ⟨ir, hir⟩ := exists_compileRequest_crowded 1001
  have hmem : crowdedTask 1001 ∈ (crowded 1001).tasks := List.mem_singleton_self _
  have hpl : 2 ≤ (crowdedTask 1001).timeWindows.length := by
    rw [crowdedTask, everyOtherSecond, List.length_map, List.length_range]
    decide
  have hget : ∀ {i : ℕ} {w : TimeWindow}, (taskWindows (crowdedTask 1001))[i]? = some w ↔
      i < 1001 ∧ w.startS = 2 * i ∧ w.endS = 2 * i + 1 := by
    intro i w
    rw [taskWindows_crowdedTask, getElem?_everyOtherSecond]
  have hlate : placeAmong (choicesOf ir (crowdedTask 1001)) 202 = some 2000 := by
    rw [windowChoices_eq_sortOn (skeleton_of_compileRequest hir) hmem (by decide) hpl]
    refine findSome?_sortOn (nodup_varIds_emittedChoices hpl)
      ((mem_emittedChoices hpl).2 ⟨1000, ⟨2000, 2001, by norm_num⟩, hget.2 (by norm_num), rfl⟩)
      (by norm_num [selectorChoice, eps]) fun choice hchoice hsome => ?_
    obtain ⟨i, w, hi, rfl⟩ := (mem_emittedChoices hpl).1 hchoice
    obtain ⟨hlt, -, hend⟩ := hget.1 hi
    dsimp only at hsome
    split_ifs at hsome with hosts
    · exact windowSelectVarId_last_le _ (le_of_hosts hend hosts) (by omega)
    · cases hsome
  have hearly : earliestStartInWindows (crowdedTask 1001) 202 = some 202 := by
    have hnodup : ((everyOtherSecond 1001).map fun w => toLex (w.startS, w.endS)).Nodup :=
      List.pairwise_map.2 ((everyOtherSecond_pairwise 1001).imp ne_of_lt)
    have hsearch : ∀ y ∈ everyOtherSecond 1001, (if max 202 y.startS ≤ y.endS + eps then
        some (max 202 y.startS) else none).isSome →
          toLex ((202 : ℚ), (203 : ℚ)) ≤ toLex (y.startS, y.endS) := by
      intro w hw hsome
      obtain ⟨i, hi⟩ := List.mem_iff_getElem?.1 hw
      obtain ⟨-, hstart, hend⟩ := getElem?_everyOtherSecond.1 hi
      split_ifs at hsome with hosts
      · have hcast : (101 : ℚ) ≤ i := by exact_mod_cast le_of_hosts hend hosts
        refine Prod.Lex.toLex_le_toLex'.2 ⟨?_, fun _ => ?_⟩
        · dsimp only
          linarith
        · dsimp only
          linarith
      · cases hsome
    have hne : taskWindows (crowdedTask 1001) ≠ [] := List.ne_nil_of_length_pos (by
      rw [length_taskWindows]
      omega)
    have hsorted : sortOn (fun w : TimeWindow => toLex (w.startS, w.endS)) (everyOtherSecond 1001) =
        everyOtherSecond 1001 :=
      sortOn_eq_self_iff.2 ((everyOtherSecond_pairwise 1001).imp le_of_lt)
    have hwindow : (⟨202, 203, by norm_num⟩ : TimeWindow) ∈ everyOtherSecond 1001 :=
      List.mem_of_getElem? (i := 101) (getElem?_everyOtherSecond.2 (by norm_num))
    rw [earliestStartInWindows_of_ne_nil hne, taskWindows_crowdedTask, ← hsorted]
    exact findSome?_sortOn hnodup hwindow (by norm_num [eps]) hsearch
  refine ⟨ir, hir, hmem, hlate, hearly, fun h => ?_⟩
  have heq := h.earliest hpl 202
  rw [hlate, hearly] at heq
  exact absurd (Option.some.inj heq) (by norm_num)

end AstroMine.Allocate
