import AstroMine.Allocate.Bounds
import AstroMine.Allocate.CpSat
import AstroMine.Lib.DeletionFilter

/-!
# Irreducible infeasible sets

`lower_for_iis` (`model/compile/cpsat.py`) restricts the lowered model to some of the constraints,
and `_refine` (`explain/iis.py`) drops from a conflict the constraints it does not need. The literals
of the kept constraints are assumptions of the solve, so they are read as true. The verdict of a
solve under its deterministic time limit is a parameter.

Results:
* `monotone_infeasible`: more constraints stay infeasible.
* `not_infeasible_nil`: the bounds alone are feasible.
* `refine_irreducible`: what `_refine` returns.
-/

namespace AstroMine.Allocate

open Rounding DeletionFilter

/-! ## The lowering of some constraints -/

/-- `_iis_variable` (`cpsat.py:330-341`): the domain of a start is widened. -/
def iisVariable (var : DecisionVariable) (timeScale : ℤ) : Except LowerError (String × ℤ × ℤ) :=
  match var.kind with
  | .continuous => .ok (var.id, 0, ⌊maxHorizonS * (timeScale : ℚ)⌋)
  | _ => makeVariable var timeScale

/-- `_add_linear` (`cpsat.py:156-206`), enforced. -/
def addLinearEnforced (ir : AllocationIR) (c : Constraint) (timeScale : ℤ) : CpConstraint :=
  let scale := constraintScale ir c timeScale
  .linear (c.terms.map (lowerTerm ir scale)) c.sense (roundRhs (c.rhs * scale) c.sense)

/-- The lowering of one kept constraint (`cpsat.py:371-384`). -/
def iisConstraint (ir : AllocationIR) (timeScale : ℤ) (c : Constraint) : CpConstraint :=
  match c.kind with
  | .noOverlap => .noOverlap (optionalIntervals ir c timeScale)
  | .cumulative => .cumulative (optionalIntervals ir c timeScale) (roundHalfEven c.rhs)
  | _ => addLinearEnforced ir c timeScale

/-- `lower_for_iis` (`cpsat.py:344-393`) with `keep`. -/
def lowerForIis (ir : AllocationIR) (timeScale : ℤ) (keep : List String) :
    Except LowerError CpSatModel := do
  let domains ← ir.decisionVariables.mapM fun var => iisVariable var timeScale
  return {
    domains := domains
    constraints := ((sortOn Constraint.id ir.constraints).filter fun c => c.id ∈ keep).map
      (iisConstraint ir timeScale)
    objective := none
    timeScale := timeScale
    objectiveScale := defaultObjectiveScale }

/-- The kept constraints cannot hold together. -/
def Infeasible (ir : AllocationIR) (keep : List String) : Prop :=
  ∀ m, lowerForIis ir defaultTimeScale keep = .ok m → ¬ ∃ value, m.Solution value

/-! ## Refinement -/

/-- `xs[:n]`; a negative `n` counts from the end. -/
def sliceTo {α : Type} (xs : List α) (n : ℤ) : List α :=
  if 0 ≤ n then xs.take n.toNat else xs.take (xs.length - (-n).toNat)

/-- `_refine` (`iis.py:118-148`); `solve` is the verdict on the model lowered from a trial. -/
def refine (solve : List String → Verdict) (candidate : List String) (budget : ℤ) : List String :=
  if candidate.length ≤ 1 then candidate
  else filterLoop solve (sliceTo candidate budget) candidate

/-- The trials of a refinement. -/
def refineTrials (solve : List String → Verdict) (candidate : List String) (budget : ℤ) :
    List (List String) :=
  if candidate.length ≤ 1 then [] else trials solve (sliceTo candidate budget) candidate

/-! ## Infeasibility of a set of constraints -/

variable {request : AllocationRequest} {ir : AllocationIR}

theorem lowerForIis_eq_ok {timeScale : ℤ} {keep : List String} {m : CpSatModel} :
    lowerForIis ir timeScale keep = .ok m ↔ ∃ domains,
      ir.decisionVariables.mapM (fun var => iisVariable var timeScale) = .ok domains ∧
      m = { domains := domains
            constraints := ((sortOn Constraint.id ir.constraints).filter fun c => c.id ∈ keep).map
              (iisConstraint ir timeScale)
            objective := none
            timeScale := timeScale
            objectiveScale := defaultObjectiveScale } := by
  rw [lowerForIis, bind_eq_ok]
  refine exists_congr fun domains => and_congr_right fun _ => ?_
  exact ⟨fun h => (Except.ok.inj h).symm, fun h => h ▸ rfl⟩

/-- More constraints stay infeasible. -/
theorem monotone_infeasible (ir : AllocationIR) : MonotoneSet (Infeasible ir) := by
  intro s t hst hs m hm hsol
  obtain ⟨domains, hdomains, rfl⟩ := lowerForIis_eq_ok.1 hm
  obtain ⟨value, hsol⟩ := hsol
  refine hs _ (lowerForIis_eq_ok.2 ⟨domains, hdomains, rfl⟩) ⟨value, hsol.domains, fun c hc => ?_⟩
  refine hsol.constraints c ?_
  obtain ⟨kept, hkept, rfl⟩ := List.mem_map.mp hc
  obtain ⟨hmem, hid⟩ := List.mem_filter.mp hkept
  exact List.mem_map_of_mem
    (List.mem_filter.mpr ⟨hmem, decide_eq_true (hst (of_decide_eq_true hid))⟩)

/-- The domains of the variables of a compiled IR. -/
theorem iisVariable_of_produced (hir : Produced request ir) {v : DecisionVariable}
    (hv : v ∈ ir.decisionVariables) :
    ∃ lo hi, iisVariable v defaultTimeScale = .ok (v.id, lo, hi) ∧ lo ≤ hi := by
  rcases hir.skeleton.variable_cases hv with ⟨t, -, a, -, rfl⟩ | ⟨t, -, rfl⟩ | ⟨t, -, -, i, -, rfl⟩
  · exact ⟨0, 1, rfl, by decide⟩
  · refine ⟨0, _, rfl, Int.floor_nonneg.mpr ?_⟩
    norm_num [maxHorizonS, defaultTimeScale]
  · exact ⟨0, 1, rfl, by decide⟩

theorem lowerForIis_returns (hir : Produced request ir) (keep : List String) :
    ∃ m, lowerForIis ir defaultTimeScale keep = .ok m := by
  have hreturns : ∀ v ∈ ir.decisionVariables, ∃ d, iisVariable v defaultTimeScale = .ok d := by
    intro v hv
    obtain ⟨lo, hi, h, -⟩ := iisVariable_of_produced hir hv
    exact ⟨_, h⟩
  obtain ⟨domains, hdomains⟩ := mapM_exists hreturns
  exact ⟨_, lowerForIis_eq_ok.2 ⟨domains, hdomains, rfl⟩⟩

/-- The bounds alone are feasible: every variable at the least value of its domain. -/
theorem not_infeasible_nil (hir : Produced request ir) : ¬ Infeasible ir [] := by
  intro hinf
  obtain ⟨m, hm⟩ := lowerForIis_returns hir []
  refine hinf m hm ?_
  obtain ⟨domains, hdomains, rfl⟩ := lowerForIis_eq_ok.1 hm
  refine ⟨fun id => ((ir.varById id).bind fun v =>
    (iisVariable v defaultTimeScale).toOption.map fun d => d.2.1).getD 0, fun d hd => ?_, fun c hc => ?_⟩
  · obtain ⟨v, hv, hd⟩ := (mem_of_mapM hdomains d).1 hd
    obtain ⟨lo, hi, h, hle⟩ := iisVariable_of_produced hir hv
    rw [h] at hd
    cases hd
    dsimp only
    rw [AllocationIR.varById_eq_some.2 ⟨hv, rfl⟩, Option.bind_some, h]
    exact ⟨le_rfl, hle⟩
  · obtain ⟨kept, hkept, rfl⟩ := List.mem_map.mp hc
    exact absurd (of_decide_eq_true (List.mem_filter.mp hkept).2) List.not_mem_nil

theorem sliceTo_of_length_le {α : Type} {xs : List α} {n : ℤ} (h : (xs.length : ℤ) ≤ n) :
    sliceTo xs n = xs := by
  unfold sliceTo
  rw [if_pos (by omega), List.take_of_length_le (by omega)]

theorem sliceTo_length_le {α : Type} (xs : List α) (n : ℤ) : (sliceTo xs n).length ≤ xs.length := by
  unfold sliceTo
  split_ifs
  · exact List.length_take_le' _ _
  · exact List.length_take_le' _ _

/-- **Main theorem.** A refinement ends with part of the conflict, which is itself a conflict. When
    no trial is left open and the conflict is within the budget, no constraint of it can be left
    out. -/
theorem refine_irreducible (hir : Produced request ir) {solve : List String → Verdict}
    (hsound : Sound (Infeasible ir) solve) {candidate : List String}
    (hconflict : Infeasible ir candidate) (budget : ℤ) :
    (refineTrials solve candidate budget).length ≤ candidate.length ∧
      (refine solve candidate budget).Sublist candidate ∧
      Infeasible ir (refine solve candidate budget) ∧
      ((∀ trial ∈ refineTrials solve candidate budget, solve trial ≠ .unknown) →
        (candidate.length : ℤ) ≤ budget →
        Irreducible (Infeasible ir) (refine solve candidate budget)) := by
  unfold refine refineTrials
  split_ifs with hsmall
  · refine ⟨Nat.zero_le _, List.Sublist.refl _, hconflict, fun _ _ x hx hinf => ?_⟩
    -- without its only member the set is empty
    have hnil : without candidate x = [] := by
      obtain ⟨y, rfl⟩ : ∃ y, candidate = [y] := by
        refine List.length_eq_one_iff.mp (le_antisymm hsmall ?_)
        exact List.length_pos_iff.mpr (List.ne_nil_of_mem hx)
      obtain rfl := List.mem_singleton.mp hx
      simp [without]
    rw [hnil] at hinf
    exact not_infeasible_nil hir hinf
  · refine ⟨(length_trials_le solve _ candidate).trans (sliceTo_length_le candidate budget),
      filterLoop_sublist solve _ candidate, filterLoop_infeasible hsound _ hconflict,
      fun hdecided hbudget => ?_⟩
    refine filterLoop_irreducible (monotone_infeasible ir) hsound (not_infeasible_nil hir) hdecided ?_
    rw [sliceTo_of_length_le hbudget]
    exact fun x hx => .inl hx

/-- The cover of a task that no asset can do is a conflict. -/
theorem infeasible_of_uncovered (hir : Produced request ir) {t : Task} (ht : t ∈ request.tasks)
    (heligible : eligible request t = []) {keep : List String}
    (hkeep : (coverConstraint t []).id ∈ keep) : Infeasible ir keep := by
  intro m hm hsol
  obtain ⟨domains, -, rfl⟩ := lowerForIis_eq_ok.1 hm
  obtain ⟨value, hsol⟩ := hsol
  have hmem : coverConstraint t [] ∈ ir.constraints := by
    rw [← heligible]
    exact hir.skeleton.coverConstraint_mem ht
  have hholds : linearValue value [] = roundHalfEven ((1 : ℚ) * ((1 : ℤ) : ℚ)) :=
    hsol.constraints (iisConstraint ir defaultTimeScale (coverConstraint t []))
      (List.mem_map_of_mem (List.mem_filter.mpr
        ⟨(mem_sortOn _ _ _).2 hmem, decide_eq_true hkeep⟩))
  -- the empty sum is to be one
  rw [one_mul, roundHalfEven_intCast] at hholds
  cases hholds

/-! ## A request that no asset can serve -/

/-- Two tasks that ask for what the rover does not have. -/
def unservedTasks : AllocationRequest where
  tasks := [{ pointTask "dig" [] with
      requiredCapabilities := [.excavationBucket], duration_nonneg := pointTask_nonneg "dig" },
    { pointTask "haul" [] with
      requiredCapabilities := [.returnBulkHauler], duration_nonneg := pointTask_nonneg "haul" }]
  assets := [rover]
  objective := ⟨.maximize, Dict.empty⟩
  tasks_ne_nil := by decide
  assets_ne_nil := rover_ne_nil
  taskIds_nodup := by decide
  assetIds_nodup := rover_nodup
  precedence_irrefl := by decide
  precedence_known := by decide
  precedence_acyclic := by decide +kernel

/-- The conflict of the two covers. -/
def uncovered : List String := ["cover::dig", "cover::haul"]

/-- A solver that knows the two covers only. -/
def solveCovers (trial : List String) : Verdict :=
  if "cover::dig" ∈ trial ∨ "cover::haul" ∈ trial then .infeasible else .unknown

theorem refine_irreducible_unservedTasks :
    ∃ ir, compileRequest unservedTasks = .ok ir ∧ refine solveCovers uncovered 64 = ["cover::haul"] ∧
      Irreducible (Infeasible ir) (refine solveCovers uncovered 64) := by
  obtain ⟨ir, hir⟩ := @exists_compileRequest_eq_ok unservedTasks
    (separable_of_plain (by decide) (by decide) (by decide)).namesDistinct
  have hinf : ∀ trial, "cover::dig" ∈ trial ∨ "cover::haul" ∈ trial → Infeasible ir trial := by
    rintro trial (hdig | hhaul)
    · exact infeasible_of_uncovered (.bare hir) (t := unservedTasks.tasks[0]) (by simp) (by decide)
        hdig
    · exact infeasible_of_uncovered (.bare hir) (t := unservedTasks.tasks[1]) (by simp) (by decide)
        hhaul
  have hsound : Sound (Infeasible ir) solveCovers := by
    refine ⟨fun s hs => ?_, fun s hs => ?_⟩ <;> unfold solveCovers at hs <;> split_ifs at hs with h
    exact hinf s h
  refine ⟨ir, hir, by decide, ?_⟩
  exact (refine_irreducible (.bare hir) hsound (hinf uncovered (by decide)) 64).2.2.2
    (by decide) (by decide)

end AstroMine.Allocate
