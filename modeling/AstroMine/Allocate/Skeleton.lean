import Mathlib.Algebra.BigOperators.Group.List.Basic
import AstroMine.Allocate.Names
import AstroMine.Allocate.Verify

/-!
# The skeleton of an IR and the values of a plan

Every pass keeps the variables and the linear constraints of `compile_request` and adds window
constraints over start variables only. For such an IR the verifier reads back the windows of the
request, and each family of the skeleton says of a plan what the request says.

Results:
* `Skeleton.mem_windowChoices`: the windows read back are those of the request.
* `Skeleton.window_iff`: the window constraints hold when the start lies in a window.
* `Skeleton.cover_iff`, `Skeleton.precedence_iff`, `Skeleton.noOverlap_iff`: the other families.
-/

namespace AstroMine.Allocate

open Intervals

/-- What the IRs of a request have in common. -/
structure Skeleton (request : AllocationRequest) (ir : AllocationIR) : Prop where
  variables_eq : ir.decisionVariables = requestVariables request
  linear_mem : ∀ c ∈ linearConstraints request, c ∈ ir.constraints
  window_only : ∀ c ∈ ir.constraints, c.kind = .timeWindow → c ∈ linearConstraints request ∨
    ∀ term ∈ c.terms, ∃ t ∈ request.tasks, term.varRef = startVarId t.taskId

/-- A sum over positions with one term that does not vanish. -/
theorem sum_zipIdx_ite {α M : Type*} [AddCommMonoid M] (f : α → M) (l : List α) (k n : ℕ) :
    ((l.zipIdx n).map fun p => if p.2 = n + k then f p.1 else 0).sum = ((l[k]?).map f).getD 0 := by
  induction l generalizing n k with
  | nil => simp
  | cons a l ih =>
    rw [List.zipIdx_cons, List.map_cons, List.sum_cons]
    cases k with
    | zero =>
      have hzero : ((l.zipIdx (n + 1)).map fun p => if p.2 = n + 0 then f p.1 else 0).sum = 0 := by
        refine List.sum_eq_zero fun x hx => ?_
        obtain ⟨⟨b, j⟩, hj, rfl⟩ := List.mem_map.mp hx
        have hle := List.le_snd_of_mem_zipIdx hj
        rw [if_neg (by simp only at hle ⊢; omega)]
      rw [hzero]
      simp
    | succ k =>
      have := ih k (n + 1)
      rw [show n + (k + 1) = n + 1 + k by omega, this,
        if_neg (show ¬(a, n).2 = n + 1 + k by simp only; omega)]
      simp

/-- The IR of `compile_request` is a skeleton. -/
theorem skeleton_of_compileRequest {request : AllocationRequest} {ir : AllocationIR}
    (h : compileRequest request = .ok ir) : Skeleton request ir := by
  obtain ⟨hv, hc, -, -⟩ := compileRequest_eq_ok h
  refine ⟨hv, fun c hm => ?_, fun c hm hk => ?_⟩
  · rw [hc, mem_requestConstraints]
    exact Or.inl hm
  · rw [hc, mem_requestConstraints] at hm
    rcases hm with hm | hm
    · exact Or.inl hm
    · obtain ⟨a, -, -, rfl⟩ := mem_noOverlapConstraints.1 hm
      cases hk

/-- A sum with one term that does not vanish. -/
theorem sum_map_ite_eq {α : Type*} [DecidableEq α] {l : List α} (hl : l.Nodup) (a : α)
    (f : α → ℚ) : (l.map fun b => if b = a then f b else 0).sum = if a ∈ l then f a else 0 := by
  induction l with
  | nil => simp
  | cons b l ih =>
    have hb := List.nodup_cons.mp hl
    rw [List.map_cons, List.sum_cons, ih hb.2]
    by_cases hba : b = a
    · subst hba
      simp [hb.1]
    · have hab : a ≠ b := fun h => hba h.symm
      simp [hba, hab]

theorem variableValue_assignmentVariable (plan : List AssetSchedule) (ir : AllocationIR)
    (taskId a : String) :
    variableValue plan ir (assignmentVariable taskId a) =
      if (assetOf plan taskId).isSome ∧ assetOf plan taskId = some a then 1 else 0 := rfl

/-! ## Selectors -/

/-- The task a selector belongs to. -/
theorem get?_selectorTask {ir : AllocationIR} {v : DecisionVariable}
    (hv : v ∈ ir.decisionVariables) :
    (selectorTask ir).get? v.id = if v.semantic = .windowSelect then truthy v.taskRef else none := by
  have hlist : ∀ p ∈ ir.decisionVariables.filterMap (fun var =>
      if var.semantic = .windowSelect then (truthy var.taskRef).map fun t => (var.id, t) else none),
      p.1 = v.id → v.semantic = .windowSelect ∧ truthy v.taskRef = some p.2 := by
    intro p hp hpk
    obtain ⟨w, hw, hwp⟩ := List.mem_filterMap.mp hp
    split_ifs at hwp with hsem
    obtain ⟨t, ht, rfl⟩ := Option.map_eq_some_iff.mp hwp
    obtain rfl := AllocationIR.variable_eq_of_id hw hv hpk
    exact ⟨hsem, ht⟩
  by_cases hsem : v.semantic = .windowSelect
  · rw [if_pos hsem]
    cases ht : truthy v.taskRef with
    | none =>
      refine Dict.get?_ofList_eq_none fun p hp hpk => ?_
      have := (hlist p hp hpk).2
      rw [ht] at this
      cases this
    | some t =>
      refine Dict.get?_ofList_of_forall (List.mem_filterMap.mpr ⟨v, hv, ?_⟩) ?_
      · rw [if_pos hsem, ht, Option.map_some]
      · intro p hp hpk
        have := (hlist p hp hpk).2
        rw [ht] at this
        exact (Option.some.inj this).symm
  · rw [if_neg hsem]
    refine Dict.get?_ofList_eq_none fun p hp hpk => hsem (hlist p hp hpk).1

theorem selectorTask_mem {ir : AllocationIR} {id task : String}
    (h : (selectorTask ir).get? id = some task) :
    ∃ v ∈ ir.decisionVariables, v.id = id ∧ v.semantic = .windowSelect ∧
      truthy v.taskRef = some task := by
  obtain ⟨v, hv, hp⟩ := List.mem_filterMap.mp (Dict.get?_ofList_mem h)
  split_ifs at hp with hsem
  obtain ⟨t, ht, heq⟩ := Option.map_eq_some_iff.mp hp
  obtain ⟨rfl, rfl⟩ := Prod.mk.inj heq
  exact ⟨v, hv, rfl, hsem, ht⟩

theorem truthy_some {s : String} (h : s ≠ "") : truthy (some s) = some s := by
  simp [truthy, h]

namespace Skeleton

variable {request : AllocationRequest} {ir : AllocationIR}

theorem mem_variables (hS : Skeleton request ir) {v : DecisionVariable} :
    v ∈ ir.decisionVariables ↔ ∃ t ∈ request.tasks, v ∈ taskVariables request t := by
  rw [hS.variables_eq, mem_requestVariables]

theorem assignment_mem (hS : Skeleton request ir) {t : Task} (ht : t ∈ request.tasks)
    {a : String} (ha : a ∈ eligible request t) :
    assignmentVariable t.taskId a ∈ ir.decisionVariables :=
  hS.mem_variables.2 ⟨t, ht, mem_taskVariables.2 (Or.inl ⟨a, ha, rfl⟩)⟩

theorem start_mem (hS : Skeleton request ir) {t : Task} (ht : t ∈ request.tasks) :
    startVariable t ∈ ir.decisionVariables :=
  hS.mem_variables.2 ⟨t, ht, mem_taskVariables.2 (Or.inr (Or.inl rfl))⟩

theorem selector_mem (hS : Skeleton request ir) {t : Task} (ht : t ∈ request.tasks)
    (hpl : 2 ≤ (taskWindows t).length) {i : ℕ} (hi : i < (taskWindows t).length) :
    windowSelector t i ∈ ir.decisionVariables :=
  hS.mem_variables.2 ⟨t, ht, mem_taskVariables.2
    (Or.inr (Or.inr (mem_windowSelectors.2 ⟨hpl, i, hi, rfl⟩)))⟩

/-- The variables of the three kinds. -/
theorem variable_cases (hS : Skeleton request ir) {v : DecisionVariable}
    (hv : v ∈ ir.decisionVariables) :
    (∃ t ∈ request.tasks, ∃ a ∈ eligible request t, v = assignmentVariable t.taskId a) ∨
      (∃ t ∈ request.tasks, v = startVariable t) ∨
      ∃ t ∈ request.tasks, 2 ≤ (taskWindows t).length ∧
        ∃ i < (taskWindows t).length, v = windowSelector t i := by
  obtain ⟨t, ht, hvt⟩ := hS.mem_variables.1 hv
  rcases mem_taskVariables.1 hvt with ⟨a, ha, rfl⟩ | rfl | hw
  · exact Or.inl ⟨t, ht, a, ha, rfl⟩
  · exact Or.inr (Or.inl ⟨t, ht, rfl⟩)
  · obtain ⟨hpl, i, hi, rfl⟩ := mem_windowSelectors.1 hw
    exact Or.inr (Or.inr ⟨t, ht, hpl, i, hi, rfl⟩)

/-- The selectors of a task have distinct names. -/
theorem selectorId_injOn (hS : Skeleton request ir) {t : Task} (ht : t ∈ request.tasks)
    (hpl : 2 ≤ (taskWindows t).length) {i j : ℕ} (hi : i < (taskWindows t).length)
    (hj : j < (taskWindows t).length)
    (h : windowSelectVarId t.taskId i = windowSelectVarId t.taskId j) : i = j := by
  have hnd := ir.variableIds_nodup
  rw [hS.variables_eq, requestVariables,
    ((sortOn_perm _ _).map DecisionVariable.id).nodup_iff, List.map_flatMap] at hnd
  have htask := (List.nodup_flatMap.mp hnd).1 t (mem_sortedTasks.2 ht)
  have hsel : ((windowSelectors t).map DecisionVariable.id).Nodup := by
    refine htask.sublist (List.Sublist.map _ ?_)
    exact (List.sublist_cons_self _ _).trans (List.sublist_append_right _ _)
  rw [windowSelectors, if_neg (by omega), List.map_map] at hsel
  exact List.inj_on_of_nodup_map hsel (List.mem_range.mpr hi) (List.mem_range.mpr hj) h

/-- A selector belongs to one window of one task. -/
theorem selector_inj (hS : Skeleton request ir) {t u : Task} (ht : t ∈ request.tasks)
    (hu : u ∈ request.tasks) (hplt : 2 ≤ (taskWindows t).length)
    (hplu : 2 ≤ (taskWindows u).length) {i j : ℕ} (hi : i < (taskWindows t).length)
    (hj : j < (taskWindows u).length)
    (h : windowSelectVarId u.taskId j = windowSelectVarId t.taskId i) : u = t ∧ j = i := by
  have hvar := AllocationIR.variable_eq_of_id (hS.selector_mem hu hplu hj)
    (hS.selector_mem ht hplt hi) h
  have hid : u.taskId = t.taskId := Option.some.inj (congrArg DecisionVariable.taskRef hvar)
  obtain rfl := task_eq_of_taskId hu ht hid
  exact ⟨rfl, hS.selectorId_injOn ht hplt hj hi h⟩

/-- No start variable has the name of a selector. -/
theorem start_ne_selector (hS : Skeleton request ir) {t u : Task} (ht : t ∈ request.tasks)
    (hu : u ∈ request.tasks) (hpl : 2 ≤ (taskWindows t).length) {i : ℕ}
    (hi : i < (taskWindows t).length) : startVarId u.taskId ≠ windowSelectVarId t.taskId i := by
  intro h
  have hvar := AllocationIR.variable_eq_of_id (hS.start_mem hu) (hS.selector_mem ht hpl hi) h
  have hsem := congrArg DecisionVariable.semantic hvar
  cases hsem

/-! ## Windows read back -/

theorem selectorTask_selector (hS : Skeleton request ir) {t : Task} (ht : t ∈ request.tasks)
    (hne : t.taskId ≠ "") (hpl : 2 ≤ (taskWindows t).length) {i : ℕ}
    (hi : i < (taskWindows t).length) :
    (selectorTask ir).get? (windowSelectVarId t.taskId i) = some t.taskId := by
  have h := get?_selectorTask (hS.selector_mem ht hpl hi)
  rw [if_pos (show (windowSelector t i).semantic = .windowSelect from rfl)] at h
  exact h.trans (truthy_some hne)

/-- A term over a selector in a window constraint is a term of its task. -/
theorem selector_term (hS : Skeleton request ir) {t : Task} (ht : t ∈ request.tasks)
    (hpl : 2 ≤ (taskWindows t).length) {i : ℕ} (hi : i < (taskWindows t).length)
    {c : Constraint} (hc : c ∈ ir.constraints) (hk : c.kind = .timeWindow) {term : ConstraintTerm}
    (hterm : term ∈ c.terms) (href : term.varRef = windowSelectVarId t.taskId i) :
    c = twinPick t ∨ c = twinLo t ∨ c = twinHi t := by
  have hstart : ∀ u ∈ request.tasks, term.varRef ≠ startVarId u.taskId := by
    intro u hu h
    exact hS.start_ne_selector ht hu hpl hi (h.symm.trans href)
  rcases hS.window_only c hc hk with hlin | hall
  · obtain ⟨u, hu, rfl | hw | ⟨p, -, rfl⟩⟩ := mem_linearConstraints.1 hlin
    · cases hk
    · rcases mem_windowConstraints.1 hw with ⟨w, -, hsingle⟩ | ⟨hplu, htwin⟩
      · -- a single window has no selector
        rcases hsingle with rfl | rfl
        all_goals
          obtain rfl := List.mem_singleton.mp hterm
          exact absurd rfl (hstart u hu)
      · rcases mem_twin_terms htwin hterm with h | ⟨j, hj, h⟩
        · exact absurd h (hstart u hu)
        · obtain ⟨rfl, -⟩ := hS.selector_inj ht hu hpl hplu hi hj (h.symm.trans href)
          exact htwin
    · cases hk
  · obtain ⟨u, hu, h⟩ := hall term hterm
    exact absurd h (hstart u hu)

/-- The constraints of a task are in the IR. -/
theorem coverConstraint_mem (hS : Skeleton request ir) {t : Task} (ht : t ∈ request.tasks) :
    coverConstraint t (eligible request t) ∈ ir.constraints :=
  hS.linear_mem _ (mem_linearConstraints.2 ⟨t, ht, Or.inl rfl⟩)

theorem windowConstraint_mem (hS : Skeleton request ir) {t : Task} (ht : t ∈ request.tasks)
    {c : Constraint} (hc : c ∈ windowConstraints t) : c ∈ ir.constraints :=
  hS.linear_mem c (mem_linearConstraints.2 ⟨t, ht, Or.inr (Or.inl hc)⟩)

theorem precedenceConstraint_mem (hS : Skeleton request ir) {t : Task} (ht : t ∈ request.tasks)
    {p : String} (hp : p ∈ t.precedence) : precedenceConstraint t p ∈ ir.constraints :=
  hS.linear_mem _ (mem_linearConstraints.2 ⟨t, ht, Or.inr (Or.inr ⟨p, hp, rfl⟩)⟩)

/-- So are the two bounds of a single window. -/
theorem singleWindow_mem (hS : Skeleton request ir) {t : Task} (ht : t ∈ request.tasks)
    {w : TimeWindow} (hw : taskWindows t = [w]) :
    singleWindowLo t w ∈ ir.constraints ∧ singleWindowHi t w ∈ ir.constraints :=
  ⟨hS.windowConstraint_mem ht (mem_windowConstraints.2 (Or.inl ⟨w, hw, Or.inl rfl⟩)),
    hS.windowConstraint_mem ht (mem_windowConstraints.2 (Or.inl ⟨w, hw, Or.inr rfl⟩))⟩

/-- And the three constraints of a disjunction. -/
theorem twin_mem (hS : Skeleton request ir) {t : Task} (ht : t ∈ request.tasks)
    (hpl : 2 ≤ (taskWindows t).length) {c : Constraint}
    (hc : c = twinPick t ∨ c = twinLo t ∨ c = twinHi t) : c ∈ ir.constraints :=
  hS.windowConstraint_mem ht (mem_windowConstraints.2 (Or.inr ⟨hpl, hc⟩))

/-- The bound of a selector is read from the one constraint of its task that has the sense. -/
theorem get?_selectorBounds (hS : Skeleton request ir) {t : Task} (ht : t ∈ request.tasks)
    (hne : t.taskId ≠ "") (hpl : 2 ≤ (taskWindows t).length) {i : ℕ} {w : TimeWindow}
    (hw : (taskWindows t)[i]? = some w) {c : Constraint} {bound : TimeWindow → ℚ}
    (hc : c = twinPick t ∨ c = twinLo t ∨ c = twinHi t) (hterms : c.terms = windowTerms t bound)
    (huniq : ∀ c', c' = twinPick t ∨ c' = twinLo t ∨ c' = twinHi t → c'.sense = c.sense → c' = c) :
    (selectorBounds ir c.sense).get? (windowSelectVarId t.taskId i) = some (bound w) := by
  have hkind : c.kind = .timeWindow := by rcases hc with rfl | rfl | rfl <;> rfl
  obtain ⟨hi, -⟩ := List.getElem?_eq_some_iff.mp hw
  refine Dict.get?_ofList_of_forall ?_ ?_
  · refine List.mem_flatMap.mpr ⟨c, ?_, ?_⟩
    · simp [hS.twin_mem ht hpl hc, hkind]
    · refine List.mem_map.mpr ⟨⟨windowSelectVarId t.taskId i, -bound w⟩, ?_, by simp⟩
      rw [List.mem_filter, hterms]
      refine ⟨List.mem_cons_of_mem _ (List.mem_map.mpr ⟨(w, i), ?_, rfl⟩), ?_⟩
      · exact List.mem_zipIdx_iff_getElem?.mpr hw
      · rw [hS.selectorTask_selector ht hne hpl hi]
        rfl
  · intro p hp hpk
    obtain ⟨c', hc', hpc⟩ := List.mem_flatMap.mp hp
    obtain ⟨term, hterm, rfl⟩ := List.mem_map.mp hpc
    simp only [List.mem_filter, decide_eq_true_eq] at hc' hterm
    have htwin := hS.selector_term ht hpl hi hc'.1 hc'.2.1 hterm.1 hpk
    rw [huniq c' htwin hc'.2.2, hterms] at hterm
    rcases List.mem_cons.mp hterm.1 with rfl | hm
    · exact absurd hpk (hS.start_ne_selector ht ht hpl hi)
    · obtain ⟨⟨w', j⟩, hwj, rfl⟩ := List.mem_map.mp hm
      obtain rfl := hS.selectorId_injOn ht hpl (List.mem_zipIdx' hwj).1 hi hpk
      rw [List.mem_zipIdx_iff_getElem?, hw] at hwj
      simp [Option.some.inj hwj]

/-- The choice behind the selector of a window. -/
def selectorChoice (t : Task) (i : ℕ) (w : TimeWindow) : WindowChoice :=
  ⟨windowSelectVarId t.taskId i, w.startS, w.endS⟩

theorem windowChoice_selector (hS : Skeleton request ir) {t : Task} (ht : t ∈ request.tasks)
    (hne : t.taskId ≠ "") (hpl : 2 ≤ (taskWindows t).length) {i : ℕ} {w : TimeWindow}
    (hw : (taskWindows t)[i]? = some w) :
    windowChoice ir (windowSelectVarId t.taskId i) = some (t.taskId, selectorChoice t i w) := by
  obtain ⟨hi, -⟩ := List.getElem?_eq_some_iff.mp hw
  have hlo := hS.get?_selectorBounds ht hne hpl hw (c := twinLo t)
    (Or.inr (Or.inl rfl)) rfl (by rintro c (rfl | rfl | rfl) h <;> first | rfl | cases h)
  have hhi := hS.get?_selectorBounds ht hne hpl hw (c := twinHi t)
    (Or.inr (Or.inr rfl)) rfl (by rintro c (rfl | rfl | rfl) h <;> first | rfl | cases h)
  rw [show (twinLo t).sense = .ge from rfl] at hlo
  rw [show (twinHi t).sense = .le from rfl] at hhi
  simp only [windowChoice, hS.selectorTask_selector ht hne hpl hi, hlo, hhi]
  rfl

/-- A choice belongs to the task of its selector. -/
theorem windowChoice_task {varId : String} {choice : String × WindowChoice}
    (h : windowChoice ir varId = some choice) :
    (selectorTask ir).get? varId = some choice.1 ∧ choice.2.varId = varId := by
  obtain ⟨task, htask, h⟩ := Option.bind_eq_some_iff.mp h
  obtain ⟨lo, -, h⟩ := Option.bind_eq_some_iff.mp h
  obtain ⟨hi, -, h⟩ := Option.bind_eq_some_iff.mp h
  obtain rfl := Option.some.inj h
  exact ⟨htask, rfl⟩

/-- The choices of a task with several windows. -/
theorem mem_choices (hS : Skeleton request ir) {t : Task} (ht : t ∈ request.tasks)
    (hne : t.taskId ≠ "") (hpl : 2 ≤ (taskWindows t).length) {choice : WindowChoice} :
    (t.taskId, choice) ∈ (sortOn id (selectorTask ir).keys).filterMap (windowChoice ir) ↔
      ∃ i w, (taskWindows t)[i]? = some w ∧ choice = selectorChoice t i w := by
  simp only [List.mem_filterMap, mem_sortOn]
  constructor
  · rintro ⟨varId, -, hchoice⟩
    obtain ⟨v, hv, rfl, hsem, href⟩ := selectorTask_mem (windowChoice_task hchoice).1
    rcases hS.variable_cases hv with ⟨u, -, a, -, rfl⟩ | ⟨u, -, rfl⟩ | ⟨u, hu, -, i, hi, rfl⟩
    · cases hsem
    · cases hsem
    · have huid : u.taskId = t.taskId := Option.some.inj (Option.filter_eq_some_iff.mp href).1
      obtain rfl := task_eq_of_taskId hu ht huid
      have hw := List.getElem?_eq_getElem hi
      rw [show (windowSelector u i).id = windowSelectVarId u.taskId i from rfl,
        hS.windowChoice_selector ht hne hpl hw] at hchoice
      exact ⟨i, _, hw, (Prod.mk.inj (Option.some.inj hchoice)).2.symm⟩
  · rintro ⟨i, w, hw, rfl⟩
    refine ⟨windowSelectVarId t.taskId i, ?_, hS.windowChoice_selector ht hne hpl hw⟩
    rw [Dict.mem_keys,
      hS.selectorTask_selector ht hne hpl (List.getElem?_eq_some_iff.mp hw).1]
    rfl

/-- **The windows read back for a task with several windows are its own.** -/
theorem mem_windowChoices (hS : Skeleton request ir) {t : Task} (ht : t ∈ request.tasks)
    (hne : t.taskId ≠ "") (hpl : 2 ≤ (taskWindows t).length) :
    ∃ choices, (windowChoices ir).get? t.taskId = some choices ∧ ∀ choice, choice ∈ choices ↔
      ∃ i w, (taskWindows t)[i]? = some w ∧ choice = selectorChoice t i w := by
  have hget := Dict.get?_group
    ((sortOn id (selectorTask ir).keys).filterMap (windowChoice ir)) t.taskId
  have hex : ∃ p ∈ (sortOn id (selectorTask ir).keys).filterMap (windowChoice ir),
      p.1 = t.taskId := by
    have h0 : 0 < (taskWindows t).length := by omega
    exact ⟨_, (hS.mem_choices ht hne hpl).mpr ⟨0, _, List.getElem?_eq_getElem h0, rfl⟩, rfl⟩
  rw [if_pos hex] at hget
  refine ⟨_, hget, fun choice => ?_⟩
  rw [← hS.mem_choices ht hne hpl, List.mem_map]
  constructor
  · rintro ⟨⟨k, choice'⟩, hp, rfl⟩
    obtain ⟨hp, hk⟩ := List.mem_filter.mp hp
    obtain rfl : k = t.taskId := by simpa using hk
    exact hp
  · intro h
    exact ⟨(t.taskId, choice), List.mem_filter.mpr ⟨h, by simp⟩, rfl⟩

/-- The start lies in the window, up to the tolerance of the verifier. -/
def InWindow (w : TimeWindow) (start : ℚ) : Prop := w.startS - eps ≤ start ∧ start ≤ w.endS + eps

/-- The selected window of a placed task contains its start, and is missing only when none
does. -/
theorem selected_cases (hS : Skeleton request ir) {t : Task} (ht : t ∈ request.tasks)
    (hne : t.taskId ≠ "") (hpl : 2 ≤ (taskWindows t).length) {plan : List AssetSchedule}
    {a : String} {start : ℚ} (hp : (scheduled plan).get? t.taskId = some (a, start)) :
    (∃ i w, (taskWindows t)[i]? = some w ∧
      selected plan ir t.taskId = some (windowSelectVarId t.taskId i) ∧ InWindow w start) ∨
      selected plan ir t.taskId = none ∧ ∀ w ∈ taskWindows t, ¬InWindow w start := by
  obtain ⟨choices, hget, hmem⟩ := hS.mem_windowChoices ht hne hpl
  have hsel : selected plan ir t.taskId =
      (choices.find? fun w => w.contains start).map WindowChoice.varId := by
    simp only [selected, hget, hp, Option.bind_eq_bind, Option.bind_some]
    cases choices.find? fun w => w.contains start <;> rfl
  cases hf : choices.find? fun w => w.contains start with
  | some choice =>
    left
    obtain ⟨i, w, hw, rfl⟩ := (hmem choice).mp (List.mem_of_find?_eq_some hf)
    have hcont := List.find?_some hf
    rw [WindowChoice.contains, decide_eq_true_eq] at hcont
    exact ⟨i, w, hw, by rw [hsel, hf]; rfl, hcont⟩
  | none =>
    right
    refine ⟨by rw [hsel, hf]; rfl, fun w hw hin => ?_⟩
    obtain ⟨i, hi⟩ := List.mem_iff_getElem?.mp hw
    have hno := List.find?_eq_none.mp hf _ ((hmem _).mpr ⟨i, w, hi, rfl⟩)
    rw [WindowChoice.contains, decide_eq_true_eq] at hno
    exact hno hin

/-! ## Values of the variables -/

section Values

variable (plan : List AssetSchedule)

theorem value_assignment (hS : Skeleton request ir) {t : Task} (ht : t ∈ request.tasks)
    {a : String} (ha : a ∈ eligible request t) :
    (planVariableValues plan ir).getD (assignmentVarId t.taskId a) 0 =
      if assetOf plan t.taskId = some a then 1 else 0 := by
  have h := getD_planVariableValues plan (hS.assignment_mem ht ha)
  rw [variableValue_assignmentVariable] at h
  refine h.trans ?_
  by_cases hp : assetOf plan t.taskId = some a
  · rw [if_pos hp, if_pos ⟨by rw [hp]; rfl, hp⟩]
  · rw [if_neg hp, if_neg fun h => hp h.2]

theorem value_start (hS : Skeleton request ir) {t : Task} (ht : t ∈ request.tasks) :
    (planVariableValues plan ir).getD (startVarId t.taskId) 0 = startOf plan t.taskId :=
  getD_planVariableValues plan (hS.start_mem ht)

theorem value_selector (hS : Skeleton request ir) {t : Task} (ht : t ∈ request.tasks)
    (hpl : 2 ≤ (taskWindows t).length) {i : ℕ} (hi : i < (taskWindows t).length) :
    (planVariableValues plan ir).getD (windowSelectVarId t.taskId i) 0 =
      if selected plan ir t.taskId = some (windowSelectVarId t.taskId i) then 1 else 0 :=
  getD_planVariableValues plan (hS.selector_mem ht hpl hi)

/-! ## Covers and precedences -/

/-- A cover holds when the task is on an eligible asset. -/
theorem cover_iff (hS : Skeleton request ir) {t : Task} (ht : t ∈ request.tasks) :
    satisfiesConstraint ir (planVariableValues plan ir) (coverConstraint t (eligible request t)) =
        true ↔ ∃ a ∈ eligible request t, assetOf plan t.taskId = some a := by
  have hsum : weightedSum (planVariableValues plan ir)
      (coverConstraint t (eligible request t)).terms =
        ((eligible request t).map fun a =>
          if assetOf plan t.taskId = some a then (1 : ℚ) else 0).sum := by
    rw [weightedSum, coverConstraint, List.map_map]
    congr 1
    refine List.map_congr_left fun a ha => ?_
    rw [Function.comp_apply, one_mul, hS.value_assignment plan ht ha]
  rw [satisfiesConstraint_linear rfl, hsum]
  change |_ - (1 : ℚ)| ≤ eps ↔ _
  cases hp : assetOf plan t.taskId with
  | none =>
    have hzero : ((eligible request t).map fun a =>
        if (none : Option String) = some a then (1 : ℚ) else 0).sum = 0 := by simp
    rw [hzero]
    constructor
    · intro h
      norm_num [eps] at h
    · rintro ⟨a, -, h⟩
      cases h
  | some a =>
    have hone : ((eligible request t).map fun b =>
        if some a = some b then (1 : ℚ) else 0).sum =
          if a ∈ eligible request t then 1 else 0 := by
      refine Eq.trans ?_ (sum_map_ite_eq (eligible_nodup request t) a fun _ => 1)
      congr 1
      refine List.map_congr_left fun b _ => ?_
      by_cases hb : b = a
      · rw [if_pos hb, if_pos (congrArg some hb.symm)]
      · rw [if_neg hb, if_neg fun h => hb (Option.some.inj h).symm]
    rw [hone]
    by_cases ha : a ∈ eligible request t
    · simp [ha, eps_nonneg]
    · rw [if_neg ha]
      constructor
      · intro h
        norm_num [eps] at h
      · rintro ⟨b, hb, h⟩
        exact absurd (Option.some.inj h ▸ hb) ha

/-- A precedence holds when the task starts no earlier, up to the tolerance. -/
theorem precedence_iff (hS : Skeleton request ir) {t u : Task} (ht : t ∈ request.tasks)
    (hu : u ∈ request.tasks) :
    satisfiesConstraint ir (planVariableValues plan ir) (precedenceConstraint t u.taskId) = true ↔
      startOf plan u.taskId ≤ startOf plan t.taskId + eps := by
  rw [satisfiesConstraint_linear rfl]
  simp only [precedenceConstraint, satisfies, weightedSum, List.map_cons, List.map_nil,
    List.sum_cons, List.sum_nil, hS.value_start plan ht, hS.value_start plan hu]
  constructor <;> intro h <;> linarith

/-! ## Windows -/

/-- The sum of a window constraint when one selector is set: the start against that window. -/
theorem weightedSum_windowTerms (hS : Skeleton request ir) {t : Task} (ht : t ∈ request.tasks)
    (hpl : 2 ≤ (taskWindows t).length) (bound : TimeWindow → ℚ) {k : ℕ} {w : TimeWindow}
    (hw : (taskWindows t)[k]? = some w)
    (hsel : selected plan ir t.taskId = some (windowSelectVarId t.taskId k)) :
    weightedSum (planVariableValues plan ir) (windowTerms t bound) =
      startOf plan t.taskId - bound w := by
  have hk := (List.getElem?_eq_some_iff.mp hw).1
  have hsum : (((taskWindows t).zipIdx.map fun p =>
      (⟨windowSelectVarId t.taskId p.2, -bound p.1⟩ : ConstraintTerm)).map fun term =>
        term.coefficient * (planVariableValues plan ir).getD term.varRef 0) =
      (taskWindows t).zipIdx.map fun p => if p.2 = 0 + k then -bound p.1 else 0 := by
    rw [List.map_map]
    refine List.map_congr_left fun p hp => ?_
    have hj : p.2 < (taskWindows t).length := (List.mem_zipIdx' hp).1
    rw [Function.comp_apply, hS.value_selector plan ht hpl hj, hsel]
    by_cases hpk : p.2 = k
    · rw [hpk, if_pos rfl, if_pos (by omega), mul_one]
    · rw [if_neg, if_neg (by omega), mul_zero]
      intro h
      exact hpk (hS.selectorId_injOn ht hpl hk hj (Option.some.inj h)).symm
  rw [weightedSum, windowTerms, List.map_cons, List.sum_cons, hsum,
    sum_zipIdx_ite (fun w => -bound w), hw, hS.value_start plan ht]
  simp only [Option.map_some, Option.getD_some]
  ring

/-- The number of selectors that are set. -/
theorem weightedSum_twinPick (hS : Skeleton request ir) {t : Task} (ht : t ∈ request.tasks)
    (hpl : 2 ≤ (taskWindows t).length) :
    (∀ k < (taskWindows t).length,
      selected plan ir t.taskId = some (windowSelectVarId t.taskId k) →
        weightedSum (planVariableValues plan ir) (twinPick t).terms = 1) ∧
      (selected plan ir t.taskId = none →
        weightedSum (planVariableValues plan ir) (twinPick t).terms = 0) := by
  have hsum : weightedSum (planVariableValues plan ir) (twinPick t).terms =
      ((List.range (taskWindows t).length).map fun i =>
        if selected plan ir t.taskId = some (windowSelectVarId t.taskId i) then (1 : ℚ)
        else 0).sum := by
    rw [weightedSum, twinPick, windowSelectors, if_neg (by omega), List.map_map, List.map_map]
    congr 1
    refine List.map_congr_left fun i hi => ?_
    rw [Function.comp_apply, Function.comp_apply, one_mul]
    exact hS.value_selector plan ht hpl (List.mem_range.mp hi)
  rw [hsum]
  constructor
  · intro k hk hsel
    have hite : ((List.range (taskWindows t).length).map fun i =>
        if selected plan ir t.taskId = some (windowSelectVarId t.taskId i) then (1 : ℚ) else 0) =
        (List.range (taskWindows t).length).map fun i => if i = k then 1 else 0 := by
      refine List.map_congr_left fun i hi => ?_
      rw [hsel]
      by_cases hik : i = k
      · rw [hik, if_pos rfl, if_pos rfl]
      · rw [if_neg hik, if_neg]
        intro h
        have hi' := List.mem_range.mp hi
        exact hik (hS.selectorId_injOn ht hpl hk hi' (Option.some.inj h)).symm
    rw [hite, sum_map_ite_eq List.nodup_range k fun _ => 1, if_pos (List.mem_range.mpr hk)]
  · intro hsel
    rw [hsel]
    simp

theorem mem_taskWindows {t : Task} {w : TimeWindow} : w ∈ taskWindows t ↔ w ∈ t.timeWindows :=
  mem_sortOn _ _ _

theorem taskWindows_eq_nil {t : Task} : taskWindows t = [] ↔ t.timeWindows = [] :=
  sortOn_eq_nil _ _

/-- Several windows: the constraints of the task are the three of the disjunction. -/
theorem forall_windowConstraints_plural {t : Task} (hpl : 2 ≤ (taskWindows t).length)
    (values : Dict String ℚ) :
    (∀ c ∈ windowConstraints t, satisfiesConstraint ir values c = true) ↔
      satisfies (weightedSum values (twinPick t).terms) .eq 1 ∧
        satisfies (weightedSum values (windowTerms t TimeWindow.startS)) .ge 0 ∧
        satisfies (weightedSum values (windowTerms t TimeWindow.endS)) .le 0 := by
  constructor
  · intro h
    have hc : ∀ c, c = twinPick t ∨ c = twinLo t ∨ c = twinHi t →
        satisfiesConstraint ir values c = true :=
      fun c hc => h c (mem_windowConstraints.2 (Or.inr ⟨hpl, hc⟩))
    exact ⟨(satisfiesConstraint_linear rfl).mp (hc _ (Or.inl rfl)),
      (satisfiesConstraint_linear rfl).mp (hc _ (Or.inr (Or.inl rfl))),
      (satisfiesConstraint_linear rfl).mp (hc _ (Or.inr (Or.inr rfl)))⟩
  · rintro ⟨hpick, hlo, hhi⟩ c hc
    rcases mem_windowConstraints.1 hc with ⟨w, hw, -⟩ | ⟨-, rfl | rfl | rfl⟩
    · rw [hw] at hpl
      simp at hpl
    · exact (satisfiesConstraint_linear rfl).mpr hpick
    · exact (satisfiesConstraint_linear rfl).mpr hlo
    · exact (satisfiesConstraint_linear rfl).mpr hhi

theorem plural_window_iff (hS : Skeleton request ir) {t : Task} (ht : t ∈ request.tasks)
    (hne : t.taskId ≠ "") (hpl : 2 ≤ (taskWindows t).length) {a : String} {start : ℚ}
    (hp : (scheduled plan).get? t.taskId = some (a, start)) :
    (∀ c ∈ windowConstraints t, satisfiesConstraint ir (planVariableValues plan ir) c = true) ↔
      ∃ w ∈ t.timeWindows, InWindow w start := by
  have hstart : startOf plan t.taskId = start := by
    rw [startOf, hp]
    rfl
  rw [forall_windowConstraints_plural hpl]
  rcases hS.selected_cases ht hne hpl hp with ⟨k, w, hw, hsel, hin⟩ | ⟨hsel, hno⟩
  · have hk := (List.getElem?_eq_some_iff.mp hw).1
    rw [(hS.weightedSum_twinPick plan ht hpl).1 k hk hsel,
      hS.weightedSum_windowTerms plan ht hpl _ hw hsel,
      hS.weightedSum_windowTerms plan ht hpl _ hw hsel, hstart]
    have hwm : w ∈ t.timeWindows := mem_taskWindows.1 (List.mem_of_getElem? hw)
    obtain ⟨hlo, hhi⟩ := hin
    refine iff_of_true ⟨?_, ?_, ?_⟩ ⟨w, hwm, hlo, hhi⟩
    · simp [satisfies, eps_nonneg]
    · simp only [satisfies]
      linarith
    · simp only [satisfies]
      linarith
  · -- no selector is set, so the pick constraint fails
    rw [(hS.weightedSum_twinPick plan ht hpl).2 hsel]
    refine iff_of_false ?_ ?_
    · rintro ⟨h, -⟩
      norm_num [satisfies, eps] at h
    · rintro ⟨w, hw, hin⟩
      exact hno w (mem_taskWindows.2 hw) hin

theorem single_window_iff (hS : Skeleton request ir) {t : Task} (ht : t ∈ request.tasks)
    {w : TimeWindow} (hw : taskWindows t = [w]) :
    (∀ c ∈ windowConstraints t, satisfiesConstraint ir (planVariableValues plan ir) c = true) ↔
      InWindow w (startOf plan t.taskId) := by
  have hlo : satisfiesConstraint ir (planVariableValues plan ir) (singleWindowLo t w) = true ↔
      w.startS - eps ≤ startOf plan t.taskId := by
    rw [satisfiesConstraint_linear rfl]
    simp [singleWindowLo, satisfies, weightedSum, hS.value_start plan ht]
  have hhi : satisfiesConstraint ir (planVariableValues plan ir) (singleWindowHi t w) = true ↔
      startOf plan t.taskId ≤ w.endS + eps := by
    rw [satisfiesConstraint_linear rfl]
    simp [singleWindowHi, satisfies, weightedSum, hS.value_start plan ht]
  rw [windowConstraints, hw]
  simp only [List.mem_cons, List.not_mem_nil, or_false, forall_eq_or_imp, forall_eq, hlo, hhi,
    InWindow]

/-- **The window constraints of a placed task hold when its start lies in one of its windows.** -/
theorem window_iff (hS : Skeleton request ir) {t : Task} (ht : t ∈ request.tasks)
    (hne : t.taskId ≠ "") (hp : ((scheduled plan).get? t.taskId).isSome) :
    (∀ c ∈ windowConstraints t, satisfiesConstraint ir (planVariableValues plan ir) c = true) ↔
      t.timeWindows = [] ∨ ∃ w ∈ t.timeWindows, InWindow w (startOf plan t.taskId) := by
  rcases hws : taskWindows t with _ | ⟨w, _ | ⟨w', ws⟩⟩
  · refine iff_of_true ?_ (Or.inl (taskWindows_eq_nil.1 hws))
    intro c hc
    rw [windowConstraints, hws] at hc
    cases hc
  · have hmem : ∀ w', w' ∈ t.timeWindows ↔ w' = w := by
      intro w'
      rw [← mem_taskWindows, hws, List.mem_singleton]
    have hnil : t.timeWindows ≠ [] := List.ne_nil_of_mem ((hmem w).mpr rfl)
    rw [hS.single_window_iff plan ht hws, or_iff_right hnil]
    constructor
    · intro h
      exact ⟨w, (hmem w).mpr rfl, h⟩
    · rintro ⟨w', hw', hin⟩
      rw [(hmem w').mp hw'] at hin
      exact hin
  · have hpl : 2 ≤ (taskWindows t).length := by simp [hws]
    have hnil : t.timeWindows ≠ [] := by
      rw [ne_eq, ← taskWindows_eq_nil, hws]
      exact List.cons_ne_nil _ _
    obtain ⟨⟨a, start⟩, hp⟩ := Option.isSome_iff_exists.mp hp
    have hstart : startOf plan t.taskId = start := by
      rw [startOf, hp]
      rfl
    rw [hS.plural_window_iff plan ht hne hpl hp, or_iff_right hnil, hstart]

/-- No windows are read back for a task with the empty id. -/
theorem windowChoices_unnamed (ir : AllocationIR) : (windowChoices ir).get? "" = none := by
  rw [windowChoices, Dict.get?_group, if_neg]
  rintro ⟨⟨task, choice⟩, hp, htask⟩
  obtain ⟨varId, -, hchoice⟩ := List.mem_filterMap.mp hp
  obtain ⟨v, -, -, -, href⟩ := selectorTask_mem (windowChoice_task hchoice).1
  rw [show task = "" from htask] at href
  simpa using (Option.filter_eq_some_iff.mp href).2

/-- The selectors of a task with the empty id are never set. -/
theorem selected_unnamed (ir : AllocationIR) : selected plan ir "" = none := by
  rw [selected, windowChoices_unnamed]
  rfl

/-- The window constraints of any placed task: those of a task with the empty id fail as soon as
    they are a disjunction. -/
theorem windowConstraints_iff (hS : Skeleton request ir) {t : Task} (ht : t ∈ request.tasks)
    (hp : ((scheduled plan).get? t.taskId).isSome) :
    (∀ c ∈ windowConstraints t, satisfiesConstraint ir (planVariableValues plan ir) c = true) ↔
      (t.timeWindows = [] ∨ ∃ w ∈ t.timeWindows, InWindow w (startOf plan t.taskId)) ∧
        (t.taskId = "" → t.timeWindows.length ≤ 1) := by
  have hlen := length_taskWindows t
  by_cases hne : t.taskId = ""
  · by_cases hpl : 2 ≤ (taskWindows t).length
    · -- no selector is set, so the pick constraint fails
      have hsel : selected plan ir t.taskId = none := by
        rw [hne]
        exact selected_unnamed plan ir
      rw [forall_windowConstraints_plural hpl, (hS.weightedSum_twinPick plan ht hpl).2 hsel]
      refine iff_of_false ?_ ?_
      · rintro ⟨h, -⟩
        norm_num [satisfies, eps] at h
      · rintro ⟨-, h⟩
        have := h hne
        omega
    · have hcases : taskWindows t = [] ∨ ∃ w, taskWindows t = [w] := by
        rcases h : taskWindows t with _ | ⟨w, _ | ⟨w', ws⟩⟩
        · exact .inl rfl
        · exact .inr ⟨w, rfl⟩
        · rw [h] at hpl
          simp at hpl
      rw [and_iff_left (fun _ => by omega)]
      obtain hnil | ⟨w, hw⟩ := hcases
      · refine iff_of_true (fun c hc => ?_) (.inl (taskWindows_eq_nil.1 hnil))
        rw [windowConstraints, hnil] at hc
        cases hc
      · have hmem : ∀ w', w' ∈ t.timeWindows ↔ w' = w := by
          intro w'
          rw [← mem_taskWindows, hw, List.mem_singleton]
        have hnil : t.timeWindows ≠ [] := List.ne_nil_of_mem ((hmem w).mpr rfl)
        rw [hS.single_window_iff plan ht hw, or_iff_right hnil]
        simp only [hmem, exists_eq_left]
  · rw [hS.window_iff plan ht hne hp, and_iff_left (fun h => absurd h hne)]

/-! ## One task at a time -/

/-- The interval a task would take on asset `a`. -/
def interval (sizes : Dict Pair ℚ) (a taskId : String) : ℚ × ℚ :=
  (startOf plan taskId, startOf plan taskId + sizes.getD (taskId, a) 0)

theorem termTask_start (hS : Skeleton request ir) {t : Task} (ht : t ∈ request.tasks)
    (hne : t.taskId ≠ "") : termTask ir (startVarId t.taskId) = t.taskId := by
  have hvar : ir.varById (startVarId t.taskId) = some (startVariable t) :=
    AllocationIR.varById_eq_some.2 ⟨hS.start_mem ht, rfl⟩
  rw [termTask, hvar, Option.bind_some]
  change (truthy (some t.taskId)).getD _ = _
  rw [truthy_some hne, Option.getD_some]

theorem isPresent_start (hS : Skeleton request ir) {t : Task} (ht : t ∈ request.tasks)
    (hne : t.taskId ≠ "") {a : String} (ha : a ∈ eligible request t) :
    isPresent ir (planVariableValues plan ir) a (startVarId t.taskId) = true ↔
      assetOf plan t.taskId = some a := by
  have hval := hS.value_assignment plan ht ha
  have hget := get?_planVariableValues plan (hS.assignment_mem ht ha)
  rw [show (assignmentVariable t.taskId a).id = assignmentVarId t.taskId a from rfl] at hget
  rw [Dict.getD, hget, Option.getD_some] at hval
  rw [isPresent, hS.termTask_start ht hne, hget]
  simp only [hval]
  by_cases hp : assetOf plan t.taskId = some a
  · simp [hp]
    norm_num
  · simp [hp]

/-- Whether a task counts on asset `a`: it is placed there. For the task with the empty id the name
    of its start variable stands in for the id (`schedule.py:70-71`), so it counts on every asset,
    unless a pair whose ids spell the same text is not chosen. -/
def Counts (request : AllocationRequest) (plan : List AssetSchedule) (a : String) (t : Task) : Prop :=
  if t.taskId = "" then
    ∀ u ∈ request.tasks, ∀ b ∈ eligible request u, u.taskId ++ "::" ++ b = "start::" ++ "::" ++ a →
      assetOf plan u.taskId = some b
  else assetOf plan t.taskId = some a

theorem isPresent_iff_counts (hS : Skeleton request ir) {t : Task} (ht : t ∈ request.tasks)
    {a : String} (ha : a ∈ eligible request t) :
    isPresent ir (planVariableValues plan ir) a (startVarId t.taskId) = true ↔
      Counts request plan a t := by
  unfold Counts
  by_cases hne : t.taskId = ""
  · rw [if_pos hne]
    have hvar : ir.varById (startVarId t.taskId) = some (startVariable t) :=
      AllocationIR.varById_eq_some.2 ⟨hS.start_mem ht, rfl⟩
    have hterm : termTask ir (startVarId t.taskId) = "start::" := by
      rw [termTask, hvar, Option.bind_some]
      show (truthy (some t.taskId)).getD (startVarId t.taskId) = _
      rw [hne]
      rfl
    have hpair : ∀ u ∈ request.tasks, ∀ b ∈ eligible request u,
        u.taskId ++ "::" ++ b = "start::" ++ "::" ++ a →
          (planVariableValues plan ir).get? (assignmentVarId "start::" a) =
            some (variableValue plan ir (assignmentVariable u.taskId b)) := by
      intro u hu b hb hjoin
      have hid : assignmentVarId "start::" a = (assignmentVariable u.taskId b).id := by
        rw [assignmentVarId_eq, ← hjoin, ← assignmentVarId_eq]
        rfl
      rw [hid]
      exact get?_planVariableValues plan (hS.assignment_mem hu hb)
    rw [isPresent, hterm]
    by_cases hex : ∃ u ∈ request.tasks, ∃ b ∈ eligible request u,
        u.taskId ++ "::" ++ b = "start::" ++ "::" ++ a
    · obtain ⟨u, hu, b, hb, hjoin⟩ := hex
      have honly : ∀ u' ∈ request.tasks, ∀ b' ∈ eligible request u',
          u'.taskId ++ "::" ++ b' = "start::" ++ "::" ++ a → u' = u ∧ b' = b := by
        intro u' hu' b' hb' hjoin'
        have hv := AllocationIR.variable_eq_of_id (hS.assignment_mem hu' hb')
          (hS.assignment_mem hu hb) (by
            show assignmentVarId u'.taskId b' = assignmentVarId u.taskId b
            rw [assignmentVarId_eq, hjoin', ← hjoin, ← assignmentVarId_eq])
        exact ⟨task_eq_of_taskId hu' hu (Option.some.inj (congrArg DecisionVariable.taskRef hv)),
          Option.some.inj (congrArg DecisionVariable.assetRef hv)⟩
      rw [hpair u hu b hb hjoin]
      dsimp only
      rw [variableValue_assignmentVariable]
      constructor
      · intro h u' hu' b' hb' hjoin'
        obtain ⟨rfl, rfl⟩ := honly u' hu' b' hb' hjoin'
        by_contra hno
        rw [if_neg (fun h => hno h.2)] at h
        norm_num at h
      · intro h
        have hchosen := h u hu b hb hjoin
        rw [if_pos ⟨by rw [hchosen]; rfl, hchosen⟩]
        norm_num
    · have hnone : (planVariableValues plan ir).get? (assignmentVarId "start::" a) = none := by
        refine Dict.get?_ofList_eq_none fun p hp hpk => hex ?_
        obtain ⟨v, hv, rfl⟩ := List.mem_map.mp hp
        have hpk' := Eq.trans hpk (assignmentVarId_eq "start::" a)
        obtain ⟨u, hu, b, hb, rfl⟩ | ⟨u, -, rfl⟩ | ⟨u, -, -, i, -, rfl⟩ := hS.variable_cases hv
        · exact ⟨u, hu, b, hb,
            (family_inj (by decide) (by decide) ((assignmentVarId_eq _ _).symm.trans hpk')).2⟩
        · exact absurd (family_inj (by decide) (by decide) hpk').1 (by decide)
        · exact absurd (family_inj (by decide) (by decide)
            ((windowSelectVarId_eq _ _).symm.trans hpk')).1 (by decide)
      rw [hnone]
      exact iff_of_true rfl fun u hu b hb hjoin => absurd ⟨u, hu, b, hb, hjoin⟩ hex
  · rw [if_neg hne]
    exact hS.isPresent_start plan ht hne ha

/-- **A no-overlap constraint keeps the tasks that count on its asset apart.** -/
theorem noOverlap_iff (hS : Skeleton request ir) {sizes : Dict Pair ℚ} {a : String}
    {ks : List String} (hnd : ks.Nodup)
    (hks : ∀ k ∈ ks, ∃ t ∈ request.tasks, t.taskId = k ∧ a ∈ eligible request t) :
    satisfiesConstraint ir (planVariableValues plan ir)
        ⟨noOverlapConstraintId a, .noOverlap, noOverlapTerms sizes a ks, .le, 0⟩ = true ↔
      ∀ k ∈ ks, ∀ l ∈ ks, k ≠ l →
        isPresent ir (planVariableValues plan ir) a (startVarId k) = true →
        isPresent ir (planVariableValues plan ir) a (startVarId l) = true →
        Apart eps (interval plan sizes a k) (interval plan sizes a l) := by
  let present (k : String) : Bool := isPresent ir (planVariableValues plan ir) a (startVarId k)
  have hpresent : presentIntervals
      ⟨noOverlapConstraintId a, .noOverlap, noOverlapTerms sizes a ks, .le, 0⟩ ir
        (planVariableValues plan ir) = (ks.filter present).map (interval plan sizes a) := by
    rw [presentIntervals, resourceId_noOverlapConstraintId, noOverlapTerms, List.filter_map,
      List.map_map]
    refine List.map_congr_left fun k hk => ?_
    obtain ⟨t, ht, rfl, -⟩ := hks k (List.mem_filter.mp hk).1
    rw [Function.comp_apply, hS.value_start plan ht]
    rfl
  rw [satisfiesNoOverlap_iff rfl, hpresent, List.pairwise_map]
  constructor
  · intro hpw k hk l hl hkl hka hla
    have hsymm : Std.Symm fun k l =>
        Apart eps (interval plan sizes a k) (interval plan sizes a l) :=
      ⟨fun _ _ h => Apart.symm h⟩
    exact hpw.forall (List.mem_filter.mpr ⟨hk, hka⟩) (List.mem_filter.mpr ⟨hl, hla⟩) hkl
  · intro hall
    refine (hnd.filter present).pairwise_of_forall_ne fun k hk l hl hkl => ?_
    have hk' := List.mem_filter.mp hk
    have hl' := List.mem_filter.mp hl
    exact hall k hk'.1 l hl'.1 hkl hk'.2 hl'.2

/-- Intervals no longer than the tolerance are apart. -/
theorem apart_of_size_le {sizes : Dict Pair ℚ} {a k l : String}
    (hk : sizes.getD (k, a) 0 ≤ eps) (hl : sizes.getD (l, a) 0 ≤ eps) :
    Apart eps (interval plan sizes a k) (interval plan sizes a l) := by
  constructor
  · intro h
    have hle := start_le_of_toLex_le h
    simp only [interval] at hle ⊢
    linarith
  · intro h
    have hle := start_le_of_toLex_le h
    simp only [interval] at hle ⊢
    linarith

/-- The no-overlap constraints keep every two candidates of an asset apart; the assets without a
constraint need none. -/
theorem noOverlapConstraints_iff (hS : Skeleton request ir) {pairs : Dict String (List String)}
    {sizes : Dict Pair ℚ} {forbidden : List Pair} (hnd : ∀ k, (pairs.getD k []).Nodup)
    (hpairs : ∀ k a, a ∈ pairs.getD k [] →
      ∃ t ∈ request.tasks, t.taskId = k ∧ a ∈ eligible request t) :
    (∀ c ∈ noOverlapConstraints pairs sizes forbidden,
        satisfiesConstraint ir (planVariableValues plan ir) c = true) ↔
      ∀ a, ∀ k ∈ candidates pairs forbidden a, ∀ l ∈ candidates pairs forbidden a, k ≠ l →
        isPresent ir (planVariableValues plan ir) a (startVarId k) = true →
        isPresent ir (planVariableValues plan ir) a (startVarId l) = true →
        Apart eps (interval plan sizes a k) (interval plan sizes a l) := by
  have hks : ∀ a, ∀ k ∈ candidates pairs forbidden a,
      ∃ t ∈ request.tasks, t.taskId = k ∧ a ∈ eligible request t :=
    fun a k hk => hpairs k a ((mem_candidates hnd).mp hk).1
  constructor
  · intro hall a k hk l hl hkl hka hla
    by_cases hpos : ∃ m ∈ candidates pairs forbidden a, eps < sizes.getD (m, a) 0
    · have hlen : 2 ≤ (candidates pairs forbidden a).length := by
        have hsub : [k, l].Nodup := by simpa using hkl
        refine (List.subperm_of_subset hsub fun m hm => ?_).length_le
        rcases List.mem_pair.mp hm with rfl | rfl
        · exact hk
        · exact hl
      have hc := hall _ (mem_noOverlapConstraints.2 ⟨a, hlen, hpos, rfl⟩)
      exact (hS.noOverlap_iff plan (candidates_nodup forbidden hnd a) (hks a)).mp hc
        k hk l hl hkl hka hla
    · have hle : ∀ m ∈ candidates pairs forbidden a, sizes.getD (m, a) 0 ≤ eps := by
        intro m hm
        by_contra h
        exact hpos ⟨m, hm, not_le.mp h⟩
      exact apart_of_size_le plan (hle k hk) (hle l hl)
  · intro hall c hc
    obtain ⟨a, -, -, rfl⟩ := mem_noOverlapConstraints.1 hc
    exact (hS.noOverlap_iff plan (candidates_nodup forbidden hnd a) (hks a)).mpr (hall a)

end Values

end Skeleton

end AstroMine.Allocate
