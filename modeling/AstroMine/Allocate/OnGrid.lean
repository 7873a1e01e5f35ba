import Mathlib.Algebra.BigOperators.Ring.Finset
import AstroMine.Allocate.Bounds
import AstroMine.Allocate.CpSat
import AstroMine.Lib.Grid

/-!
# A verified plan on the grid of the lowering

On whole data a plan that the verifier accepts leads to a point of the lowered model: every start is
rounded down after one shift, and the shift is chosen so that no tolerance of the verifier is lost to
the rounding.

Results:
* `holds_of_satisfies`: a linear constraint on the grid.
* `lowered_has_solution`: the lowered model of whole data has a point when a plan verifies.
-/

namespace AstroMine.Allocate

open Intervals

/-! ## What is lowered -/

/-- Every number of the constraints is a whole one. -/
structure WholeData (ir : AllocationIR) : Prop where
  rhs : ∀ c ∈ ir.constraints, c.rhs.den = 1
  coefficient : ∀ c ∈ ir.constraints, ∀ t ∈ c.terms, t.coefficient.den = 1

theorem exists_intCast {q : ℚ} (h : q.den = 1) : ∃ n : ℤ, q = n :=
  ⟨q.num, (Rat.den_eq_one_iff q).mp h ▸ rfl⟩

/-! ## The point of a plan -/

/-- The values of a plan on the shifted grid. -/
def gridValue (s : ℚ) (values : Dict String ℚ) (varRef : String) : ℤ :=
  Grid.point s (values.getD varRef 0)

/-- A weighted sum on the grid. -/
def gridSum (s : ℚ) (values : Dict String ℚ) (terms : List ConstraintTerm) : ℚ :=
  (terms.map fun t => t.coefficient * (gridValue s values t.varRef : ℚ)).sum

/-- What the rounding changes. -/
def drift (s : ℚ) (values : Dict String ℚ) (terms : List ConstraintTerm) : ℚ :=
  (terms.map fun t => t.coefficient * (values.getD t.varRef 0 - gridValue s values t.varRef)).sum

theorem weightedSum_eq (s : ℚ) (values : Dict String ℚ) (terms : List ConstraintTerm) :
    weightedSum values terms = gridSum s values terms + drift s values terms := by
  rw [weightedSum, gridSum, drift, ← List.sum_map_add]
  congr 1
  refine List.map_congr_left fun t _ => ?_
  ring

theorem linearValue_lowered {ir : AllocationIR} {s : ℚ} {values : Dict String ℚ}
    {terms : List ConstraintTerm} (h : ∀ t ∈ terms, t.coefficient.den = 1) :
    (linearValue (gridValue s values) (terms.map (lowerTerm ir 1)) : ℚ) =
      gridSum s values terms := by
  rw [linearValue, gridSum, List.map_map, Int.cast_list_sum, List.map_map]
  congr 1
  refine List.map_congr_left fun t ht => ?_
  obtain ⟨n, hn⟩ := exists_intCast (h t ht)
  simp only [Function.comp_apply, lowerTerm, ite_self, hn, Int.cast_one, mul_one,
    Rounding.roundHalfEven_intCast, Int.cast_mul]

/-- A linear constraint that holds up to the tolerance holds on the grid. -/
theorem holds_of_satisfies {ir : AllocationIR} {s : ℚ} {values : Dict String ℚ} {c : Constraint}
    (hrhs : c.rhs.den = 1) (hcoefficient : ∀ t ∈ c.terms, t.coefficient.den = 1)
    (hsat : satisfies (weightedSum values c.terms) c.sense c.rhs)
    (hdrift : |drift s values c.terms| < 1 - eps) :
    (CpConstraint.linear (c.terms.map (lowerTerm ir 1)) c.sense
      (roundRhs (c.rhs * (1 : ℤ)) c.sense)).Holds (gridValue s values) := by
  obtain ⟨m, hm⟩ := exists_intCast hrhs
  have hclose : |weightedSum values c.terms -
      linearValue (gridValue s values) (c.terms.map (lowerTerm ir 1))| < 1 - eps := by
    rwa [linearValue_lowered hcoefficient, weightedSum_eq s, add_sub_cancel_left]
  have hround : ∀ sense, roundRhs (c.rhs * (1 : ℤ)) sense = m := by
    intro sense
    rw [hm, Int.cast_one, mul_one]
    cases sense with
    | le => exact Int.floor_intCast m
    | eq => exact Rounding.roundHalfEven_intCast m
    | ge => exact Int.ceil_intCast m
  rw [hm] at hsat
  rw [hround]
  cases hsense : c.sense with
  | le =>
    rw [hsense] at hsat
    exact Grid.le_of_close hsat hclose
  | ge =>
    rw [hsense] at hsat
    exact Grid.ge_of_close hsat hclose
  | eq =>
    rw [hsense] at hsat
    have hboth := abs_le.mp (show |weightedSum values c.terms - m| ≤ eps from hsat)
    exact le_antisymm (Grid.le_of_close (by linarith [hboth.2]) hclose)
      (Grid.ge_of_close (by linarith [hboth.1]) hclose)

/-! ## What the rounding changes -/

/-- The value is that of a binary variable. -/
def Settled (values : Dict String ℚ) (varRef : String) : Prop :=
  values.getD varRef 0 = 0 ∨ values.getD varRef 0 = 1

/-- The shift keeps the starts of a plan off the top of their unit interval. -/
structure Shift (request : AllocationRequest) (plan : List AssetSchedule) (s : ℚ) : Prop where
  nonneg : 0 ≤ s
  small : s ≤ 1 - 2 * eps
  off : ∀ t ∈ request.tasks, Int.fract (startOf plan t.taskId + s) < 1 - eps

theorem exists_shift {request : AllocationRequest} (h : request.tasks.length < 999999999)
    (plan : List AssetSchedule) : ∃ s, Shift request plan s := by
  have hlen : (request.tasks.map fun t => startOf plan t.taskId).length < 999999999 := by
    rwa [List.length_map]
  obtain ⟨s, hnonneg, hsmall, hoff⟩ := Grid.exists_shift 999999999 hlen
  refine ⟨s, hnonneg, ?_, fun t ht => ?_⟩
  · norm_num [eps] at hsmall ⊢
    exact hsmall
  · have hfract := hoff _ (List.mem_map.mpr ⟨t, ht, rfl⟩)
    norm_num [eps] at hfract ⊢
    exact hfract

section Drift

variable {request : AllocationRequest} {ir : AllocationIR} {plan : List AssetSchedule} {s : ℚ}

theorem Settled.grid {values : Dict String ℚ} {varRef : String} (h : Settled values varRef)
    (hs : Shift request plan s) : (gridValue s values varRef : ℚ) = values.getD varRef 0 := by
  have hlt : s < 1 := hs.small.trans_lt (by linarith [eps_pos])
  unfold gridValue
  rcases h with h | h
  · rw [h, ← Int.cast_zero, Grid.point_intCast hs.nonneg hlt]
  · rw [h, ← Int.cast_one, Grid.point_intCast hs.nonneg hlt]

theorem drift_settled {values : Dict String ℚ} {terms : List ConstraintTerm}
    (h : ∀ t ∈ terms, Settled values t.varRef) (hs : Shift request plan s) :
    drift s values terms = 0 := by
  refine List.sum_eq_zero fun x hx => ?_
  obtain ⟨t, ht, rfl⟩ := List.mem_map.mp hx
  rw [(h t ht).grid hs, sub_self, mul_zero]

/-- The start of a task on the grid. -/
def gridStart (s : ℚ) (plan : List AssetSchedule) (t : Task) : ℤ :=
  Grid.point s (startOf plan t.taskId)

theorem gridValue_start (hS : Skeleton request ir) {t : Task} (ht : t ∈ request.tasks) :
    gridValue s (planVariableValues plan ir) (startVarId t.taskId) = gridStart s plan t := by
  rw [gridValue, hS.value_start plan ht, gridStart]

/-- A start moves by less than a unit, the tolerance left out. -/
theorem close_start (hs : Shift request plan s) {t : Task} (ht : t ∈ request.tasks) :
    |startOf plan t.taskId - gridStart s plan t| < 1 - eps := by
  have hoff := hs.off t ht
  have hfract := Int.fract_nonneg (startOf plan t.taskId + s)
  have hsmall := hs.small
  have hnonneg := hs.nonneg
  rw [gridStart, Grid.sub_point, abs_lt]
  constructor <;> linarith [eps_pos]

/-- The distance of two starts changes by less than a unit, the tolerance left out. -/
theorem close_pair (hs : Shift request plan s) {t u : Task} (ht : t ∈ request.tasks)
    (hu : u ∈ request.tasks) :
    |(startOf plan t.taskId - startOf plan u.taskId) -
      ((gridStart s plan t - gridStart s plan u : ℤ) : ℚ)| < 1 - eps := by
  have hofft := hs.off t ht
  have hoffu := hs.off u hu
  have hfractt := Int.fract_nonneg (startOf plan t.taskId + s)
  have hfractu := Int.fract_nonneg (startOf plan u.taskId + s)
  have hpt := Grid.sub_point s (startOf plan t.taskId)
  have hpu := Grid.sub_point s (startOf plan u.taskId)
  rw [gridStart, gridStart, abs_lt]
  push_cast
  constructor <;> linarith

theorem settled_assignment (hS : Skeleton request ir) {t : Task} (ht : t ∈ request.tasks)
    {a : String} (ha : a ∈ eligible request t) :
    Settled (planVariableValues plan ir) (assignmentVarId t.taskId a) := by
  rw [Settled, hS.value_assignment plan ht ha]
  by_cases hp : assetOf plan t.taskId = some a
  · exact .inr (if_pos hp)
  · exact .inl (if_neg hp)

theorem settled_selector (hS : Skeleton request ir) {t : Task} (ht : t ∈ request.tasks)
    (hpl : 2 ≤ (taskWindows t).length) {i : ℕ} (hi : i < (taskWindows t).length) :
    Settled (planVariableValues plan ir) (windowSelectVarId t.taskId i) := by
  rw [Settled, hS.value_selector plan ht hpl hi]
  by_cases hp : selected plan ir t.taskId = some (windowSelectVarId t.taskId i)
  · exact .inr (if_pos hp)
  · exact .inl (if_neg hp)

/-- One start and binary variables. -/
theorem drift_start_cons (hS : Skeleton request ir) (hs : Shift request plan s) {t : Task}
    (ht : t ∈ request.tasks) {terms : List ConstraintTerm}
    (h : ∀ term ∈ terms, Settled (planVariableValues plan ir) term.varRef) :
    |drift s (planVariableValues plan ir) (⟨startVarId t.taskId, 1⟩ :: terms)| < 1 - eps := by
  have hcons : drift s (planVariableValues plan ir) (⟨startVarId t.taskId, 1⟩ :: terms) =
      startOf plan t.taskId - gridStart s plan t + drift s (planVariableValues plan ir) terms := by
    rw [drift, List.map_cons, List.sum_cons, gridValue_start hS ht, hS.value_start plan ht, one_mul]
    rfl
  rw [hcons, drift_settled h hs, add_zero]
  exact close_start hs ht

/-- What the rounding changes in a linear constraint that the compiler emits. -/
theorem drift_lt_of_linear (hS : Skeleton request ir) (hs : Shift request plan s) {c : Constraint}
    (hc : c ∈ linearConstraints request) :
    |drift s (planVariableValues plan ir) c.terms| < 1 - eps := by
  have hzero : ∀ {terms : List ConstraintTerm},
      (∀ term ∈ terms, Settled (planVariableValues plan ir) term.varRef) →
        |drift s (planVariableValues plan ir) terms| < 1 - eps := by
    intro terms h
    rw [drift_settled h hs, abs_zero]
    norm_num [eps]
  obtain ⟨t, ht, rfl | hw | ⟨p, hp, rfl⟩⟩ := mem_linearConstraints.1 hc
  · refine hzero fun term hterm => ?_
    obtain ⟨a, ha, rfl⟩ := List.mem_map.mp hterm
    exact settled_assignment hS ht ha
  · have hselectors : 2 ≤ (taskWindows t).length → ∀ bound : TimeWindow → ℚ,
        ∀ term ∈ (taskWindows t).zipIdx.map fun p =>
          (⟨windowSelectVarId t.taskId p.2, -bound p.1⟩ : ConstraintTerm),
          Settled (planVariableValues plan ir) term.varRef := by
      intro hpl bound term hterm
      obtain ⟨p, hp, rfl⟩ := List.mem_map.mp hterm
      exact settled_selector hS ht hpl (List.mem_zipIdx' hp).1
    rcases mem_windowConstraints.1 hw with ⟨w, -, rfl | rfl⟩ | ⟨hpl, rfl | rfl | rfl⟩
    · exact drift_start_cons hS hs ht (by simp)
    · exact drift_start_cons hS hs ht (by simp)
    · refine hzero fun term hterm => ?_
      obtain ⟨v, hv, rfl⟩ := List.mem_map.mp hterm
      obtain ⟨-, i, hi, rfl⟩ := mem_windowSelectors.1 hv
      exact settled_selector hS ht hpl hi
    · exact drift_start_cons hS hs ht (hselectors hpl _)
    · exact drift_start_cons hS hs ht (hselectors hpl _)
  · obtain ⟨u, hu, rfl⟩ := List.mem_map.mp (request.precedence_known t ht p hp)
    have hpair := close_pair hs ht hu
    have hdrift : drift s (planVariableValues plan ir) (precedenceConstraint t u.taskId).terms =
        (startOf plan t.taskId - startOf plan u.taskId) -
          ((gridStart s plan t - gridStart s plan u : ℤ) : ℚ) := by
      simp only [drift, precedenceConstraint, List.map_cons, List.map_nil, List.sum_cons,
        List.sum_nil, gridValue_start hS ht, gridValue_start hS hu, hS.value_start plan ht,
        hS.value_start plan hu]
      push_cast
      ring
    rwa [hdrift]

/-! ## The constraints on the grid -/

/-- A linear constraint of the compiler holds on the grid, a cover included. -/
theorem holds_addLinear {c : Constraint} (hrhs : c.rhs.den = 1)
    (hcoefficient : ∀ t ∈ c.terms, t.coefficient.den = 1)
    (hsat : satisfies (weightedSum (planVariableValues plan ir) c.terms) c.sense c.rhs)
    (hdrift : |drift s (planVariableValues plan ir) c.terms| < 1 - eps)
    (hs : Shift request plan s)
    (hcover : c.kind = .assignmentCover →
      ∀ t ∈ c.terms, Settled (planVariableValues plan ir) t.varRef) :
    (addLinear ir c 1).Holds (gridValue s (planVariableValues plan ir)) := by
  have hholds : (CpConstraint.linear (c.terms.map (lowerTerm ir 1)) c.sense
      (roundRhs (c.rhs * (1 : ℤ)) c.sense)).Holds
      (gridValue s (planVariableValues plan ir)) :=
    holds_of_satisfies hrhs hcoefficient hsat hdrift
  have hscale : constraintScale ir c 1 = 1 := ite_self _
  unfold addLinear
  dsimp only
  rw [hscale]
  by_cases hunit : isUnitCover c = true
  · rw [if_pos hunit]
    simp only [isUnitCover, Bool.and_eq_true, decide_eq_true_eq, List.all_eq_true] at hunit
    obtain ⟨⟨⟨⟨hkind, hsense⟩, -⟩, hone⟩, hunits⟩ := hunit
    have hbinary : ∀ x ∈ c.terms.map ConstraintTerm.varRef,
        gridValue s (planVariableValues plan ir) x = 0 ∨
          gridValue s (planVariableValues plan ir) x = 1 := by
      intro x hx
      obtain ⟨t, ht, rfl⟩ := List.mem_map.mp hx
      have hsettled := hcover hkind t ht
      have hgrid := hsettled.grid hs
      rcases hsettled with h | h
      · exact .inl (by exact_mod_cast hgrid.trans h)
      · exact .inr (by exact_mod_cast hgrid.trans h)
    have hsum : linearValue (gridValue s (planVariableValues plan ir))
        (c.terms.map (lowerTerm ir 1)) =
          ((c.terms.map ConstraintTerm.varRef).map
            (gridValue s (planVariableValues plan ir))).sum := by
      rw [linearValue, List.map_map, List.map_map]
      congr 1
      refine List.map_congr_left fun t ht => ?_
      have hround : Rounding.roundHalfEven (1 : ℚ) = 1 := by
        exact_mod_cast Rounding.roundHalfEven_intCast (K := ℚ) 1
      simp only [Function.comp_apply, lowerTerm, ite_self, hunits t ht, Int.cast_one, mul_one,
        hround, one_mul]
    rw [hsense] at hholds
    have heq : linearValue (gridValue s (planVariableValues plan ir))
        (c.terms.map (lowerTerm ir 1)) = 1 := by
      have h : linearValue _ _ = roundRhs (c.rhs * (1 : ℤ)) .eq := hholds
      rwa [Int.cast_one, mul_one, roundRhs, hone] at h
    have hcount := length_filter_eq_sum hbinary
    rw [← hsum, heq] at hcount
    exact_mod_cast hcount
  · rw [if_neg hunit]
    exact hholds

/-- Two tasks that follow each other up to the tolerance follow each other on the grid. -/
theorem gridStart_le (hs : Shift request plan s) {t u : Task} (ht : t ∈ request.tasks)
    (hu : u ∈ request.tasks) {d : ℤ} (h : startOf plan t.taskId + d ≤ startOf plan u.taskId + eps) :
    gridStart s plan t + d ≤ gridStart s plan u := by
  have hle := Grid.ge_of_close (m := d) (by linarith) (close_pair hs hu ht)
  omega

theorem apart_grid (hs : Shift request plan s) {t u : Task} (ht : t ∈ request.tasks)
    (hu : u ∈ request.tasks) {d e : ℤ} (hd : 0 ≤ d) (he : 0 ≤ e)
    (h : Apart eps (startOf plan t.taskId, startOf plan t.taskId + d)
      (startOf plan u.taskId, startOf plan u.taskId + e)) :
    Apart 0 (gridStart s plan t, gridStart s plan t + d)
      (gridStart s plan u, gridStart s plan u + e) := by
  have hcases : gridStart s plan t + d ≤ gridStart s plan u ∨
      gridStart s plan u + e ≤ gridStart s plan t := by
    rcases le_total (toLex (startOf plan t.taskId, startOf plan t.taskId + (d : ℚ)))
      (toLex (startOf plan u.taskId, startOf plan u.taskId + (e : ℚ))) with hle | hle
    · exact .inl (gridStart_le hs ht hu (h.1 hle))
    · exact .inr (gridStart_le hs hu ht (h.2 hle))
  exact apart_of_either le_rfl (by simpa using hd) (by simpa using he) hcases

/-! ## Presence -/

theorem assignmentVarId_ne_startVarId (taskId assetId taskId' : String) :
    assignmentVarId taskId assetId ≠ startVarId taskId' := by
  intro h
  have hchars := congrArg String.toList h
  simp [assignmentVarId, startVarId] at hchars

/-- An interval is present on the grid when the verifier takes it for present. -/
theorem presence_iff (hS : Skeleton request ir) (hs : Shift request plan s) (resource varRef : String) :
    ((presenceLiteral ir resource varRef).all fun literal =>
      gridValue s (planVariableValues plan ir) literal = 1) =
        isPresent ir (planVariableValues plan ir) resource varRef := by
  unfold presenceLiteral isPresent
  cases hvar : ir.varById (assignmentVarId (termTask ir varRef) resource) with
  | none =>
    have hnone : (planVariableValues plan ir).get? (assignmentVarId (termTask ir varRef) resource) =
        none := by
      refine Dict.get?_ofList_eq_none fun p hp hid => ?_
      obtain ⟨v, hv, rfl⟩ := List.mem_map.mp hp
      have hsome := AllocationIR.varById_eq_some.2 ⟨hv, hid⟩
      rw [hvar] at hsome
      cases hsome
    rw [hnone]
    rfl
  | some v =>
    obtain ⟨hv, hid⟩ := AllocationIR.varById_eq_some.1 hvar
    rw [← hid, get?_planVariableValues plan hv]
    have hsettled : Settled (planVariableValues plan ir) v.id := by
      rcases hS.variable_cases hv with ⟨t, ht, a, ha, rfl⟩ | ⟨t, -, rfl⟩ | ⟨t, ht, hpl, i, hi, rfl⟩
      · exact settled_assignment hS ht ha
      · exact absurd hid.symm (assignmentVarId_ne_startVarId _ _ _)
      · exact settled_selector hS ht hpl hi
    have hgrid := hsettled.grid hs
    rw [Settled, getD_planVariableValues plan hv] at hsettled
    rw [getD_planVariableValues plan hv] at hgrid
    simp only [Option.map_some, Option.all_some]
    rcases hsettled with h | h
    · have hzero : gridValue s (planVariableValues plan ir) v.id = 0 := by
        exact_mod_cast hgrid.trans h
      rw [hzero, h]
      norm_num
    · have hone : gridValue s (planVariableValues plan ir) v.id = 1 := by
        exact_mod_cast hgrid.trans h
      rw [hone, h]
      norm_num

theorem holds_noOverlap (hS : Skeleton request ir) (hs : Shift request plan s) {asset : String}
    {sizes : Dict Pair ℚ} {taskIds : List String}
    (hsizes : ∀ k ∈ taskIds, 0 ≤ sizes.getD (k, asset) 0)
    (h : ∀ k ∈ taskIds, ∃ t ∈ request.tasks, t.taskId = k ∧ asset ∈ eligible request t)
    (hwhole : ∀ term ∈ noOverlapTerms sizes asset taskIds, term.coefficient.den = 1)
    (hsat : satisfiesConstraint ir (planVariableValues plan ir)
      ⟨noOverlapConstraintId asset, .noOverlap, noOverlapTerms sizes asset taskIds, .le, 0⟩ = true) :
    (lowerConstraint ir 1 ⟨noOverlapConstraintId asset, .noOverlap,
      noOverlapTerms sizes asset taskIds, .le, 0⟩).Holds
        (gridValue s (planVariableValues plan ir)) := by
  rw [satisfiesNoOverlap_iff rfl, presentIntervals] at hsat
  have hpresent : presentCp (gridValue s (planVariableValues plan ir))
      (optionalIntervals ir ⟨noOverlapConstraintId asset, .noOverlap,
        noOverlapTerms sizes asset taskIds, .le, 0⟩ 1) =
      ((noOverlapTerms sizes asset taskIds).filter fun t =>
        isPresent ir (planVariableValues plan ir) (resourceId (noOverlapConstraintId asset))
          t.varRef).map fun t =>
        (gridValue s (planVariableValues plan ir) t.varRef,
          gridValue s (planVariableValues plan ir) t.varRef + ⌈t.coefficient * ((1 : ℤ) : ℚ)⌉) := by
    rw [presentCp, optionalIntervals, List.filter_map, List.map_map]
    congr 1
    refine List.filter_congr fun t _ => ?_
    exact presence_iff hS hs _ _
  have hapart : (presentCp (gridValue s (planVariableValues plan ir))
      (optionalIntervals ir ⟨noOverlapConstraintId asset, .noOverlap,
        noOverlapTerms sizes asset taskIds, .le, 0⟩ 1)).Pairwise (Apart 0) := by
    rw [hpresent, List.pairwise_map]
    refine (List.pairwise_map.mp hsat).imp_of_mem fun {x y} hx hy hxy => ?_
    -- both terms belong to tasks, with whole sizes
    have hterm : ∀ z ∈ noOverlapTerms sizes asset taskIds, ∃ t ∈ request.tasks,
        z.varRef = startVarId t.taskId ∧ ∃ d : ℤ, z.coefficient = d ∧ 0 ≤ d := by
      intro z hz
      obtain ⟨d, hd⟩ := exists_intCast (hwhole z hz)
      obtain ⟨k, hk, rfl⟩ := List.mem_map.mp hz
      obtain ⟨t, ht, rfl, -⟩ := h k hk
      have hnonneg := hsizes _ hk
      refine ⟨t, ht, rfl, d, hd, ?_⟩
      have hcast : (0 : ℚ) ≤ d := by
        rw [← hd]
        exact hnonneg
      exact_mod_cast hcast
    obtain ⟨t, ht, htref, d, hd, hd0⟩ := hterm x (List.mem_filter.mp hx).1
    obtain ⟨u, hu, huref, e, he, he0⟩ := hterm y (List.mem_filter.mp hy).1
    rw [htref, huref, hd, he, hS.value_start plan ht, hS.value_start plan hu] at hxy
    rw [htref, huref, hd, he, gridValue_start hS ht, gridValue_start hS hu, Int.cast_one, mul_one,
      mul_one, Int.ceil_intCast, Int.ceil_intCast]
    exact apart_grid hs ht hu hd0 he0 hxy
  refine ⟨sortOn toLex (presentCp (gridValue s (planVariableValues plan ir)) _), sortOn_perm _ _, ?_⟩
  exact ((isChain_sorted_iff_pairwise_apart 0 _).mpr hapart).imp fun x y hxy => by simpa using hxy

/-- **Every constraint that the compiler emits holds on the grid.** -/
theorem holds_of_emitted (hS : Skeleton request ir) (hs : Shift request plan s) {c : Constraint}
    (hc : Emitted request c) (hrhs : c.rhs.den = 1)
    (hcoefficient : ∀ t ∈ c.terms, t.coefficient.den = 1)
    (hsat : satisfiesConstraint ir (planVariableValues plan ir) c = true) :
    (lowerConstraint ir 1 c).Holds (gridValue s (planVariableValues plan ir)) := by
  have hlinear : isScheduling c.kind = false →
      |drift s (planVariableValues plan ir) c.terms| < 1 - eps →
      (c.kind = .assignmentCover →
        ∀ t ∈ c.terms, Settled (planVariableValues plan ir) t.varRef) →
      (lowerConstraint ir 1 c).Holds (gridValue s (planVariableValues plan ir)) := by
    intro hkind hdrift hcover
    rw [lowerConstraint_eq_addLinear hkind]
    exact holds_addLinear hrhs hcoefficient ((satisfiesConstraint_linear hkind).mp hsat) hdrift hs
      hcover
  have hsettled : (∀ t ∈ c.terms, Settled (planVariableValues plan ir) t.varRef) →
      |drift s (planVariableValues plan ir) c.terms| < 1 - eps := by
    intro h
    rw [drift_settled h hs, abs_zero]
    norm_num [eps]
  cases hc with
  | linear h =>
    obtain ⟨t, ht, rfl | hw | ⟨p, -, rfl⟩⟩ := mem_linearConstraints.1 h
    · refine hlinear rfl (drift_lt_of_linear hS hs h) fun _ term hterm => ?_
      obtain ⟨a, ha, rfl⟩ := List.mem_map.mp hterm
      exact settled_assignment hS ht ha
    · have hkind := windowConstraint_kind hw
      exact hlinear (by rw [hkind]; rfl) (drift_lt_of_linear hS hs h)
        (fun hk => by cases hk.symm.trans hkind)
    · exact hlinear rfl (drift_lt_of_linear hS hs h) (fun hk => by cases hk)
  | startBound id ht sense bound =>
    exact hlinear rfl (drift_start_cons hS hs ht (by simp)) (fun hk => by cases hk)
  | budget id asset energy h available =>
    refine hlinear rfl (hsettled fun term hterm => ?_) (fun hk => by cases hk)
    obtain ⟨k, hk, rfl⟩ := List.mem_map.mp hterm
    obtain ⟨t, ht, rfl, ha⟩ := h k hk
    exact settled_assignment hS ht ha
  | keepout ht ha =>
    refine hlinear rfl (hsettled fun term hterm => ?_) (fun hk => by cases hk)
    obtain rfl := List.mem_singleton.mp hterm
    exact settled_assignment hS ht ha
  | noOverlap hnd hsizes h => exact holds_noOverlap hS hs hsizes h hcoefficient hsat

/-! ## Domains -/

/-- A start that the clamped horizon of the lowering leaves in. -/
structure WithinHorizon (t : Task) (start : ℚ) : Prop where
  lower : t.timeWindows = [] → 0 ≤ start
  upper : openHorizonS ≤ (windowEnvelope t).2 → start ≤ maxHorizonS

/-- A start on the grid is in its domain. -/
theorem gridStart_mem_domain (hs : Shift request plan s) {t : Task} (ht : t ∈ request.tasks)
    (hwithin : WithinHorizon t (startOf plan t.taskId))
    (hwindow : t.timeWindows = [] ∨ ∃ w ∈ t.timeWindows, w.startS.den = 1 ∧ w.endS.den = 1 ∧
      Skeleton.InWindow w (startOf plan t.taskId)) :
    (timeVarBounds (startVariable t) 1).1 ≤ gridStart s plan t ∧
      gridStart s plan t ≤ (timeVarBounds (startVariable t) 1).2 := by
  have hclose := close_start hs ht
  have hhorizon : openHorizonS ≤ (windowEnvelope t).2 → gridStart s plan t ≤ ⌊maxHorizonS⌋ := by
    intro hopen
    have hmax : ⌊maxHorizonS⌋ = 1000000000 := by norm_num [maxHorizonS]
    rw [hmax]
    refine Grid.le_of_close ?_ hclose
    have hle := hwithin.upper hopen
    norm_num [maxHorizonS] at hle ⊢
    linarith [eps_pos]
  have hbounds : ⌈(windowEnvelope t).1⌉ ≤ gridStart s plan t ∧
      gridStart s plan t ≤ ⌊horizonOf (some (windowEnvelope t).2)⌋ := by
    rw [horizonOf, Option.getD_some]
    rcases hwindow with hnil | ⟨w, hw, hstart, hend, hlo, hhi⟩
    · have henvelope : windowEnvelope t = (0, unboundedHorizonS) := by
        rw [windowEnvelope, Skeleton.taskWindows_eq_nil.2 hnil]
      have hopen : openHorizonS ≤ (windowEnvelope t).2 := by rw [henvelope]; exact le_rfl
      refine ⟨?_, by rw [if_pos hopen]; exact hhorizon hopen⟩
      rw [henvelope, Int.ceil_zero]
      refine Grid.ge_of_close ?_ hclose
      have hle := hwithin.lower hnil
      push_cast
      linarith [eps_pos]
    · obtain ⟨a, ha⟩ := exists_intCast hstart
      obtain ⟨b, hb⟩ := exists_intCast hend
      obtain ⟨henvlo, henvhi⟩ := windowEnvelope_contains hw
      rw [ha] at hlo henvlo
      rw [hb] at hhi henvhi
      refine ⟨(Int.ceil_le.mpr henvlo).trans (Grid.ge_of_close hlo hclose), ?_⟩
      by_cases hopen : openHorizonS ≤ (windowEnvelope t).2
      · rw [if_pos hopen]
        exact hhorizon hopen
      · rw [if_neg hopen]
        exact (Grid.le_of_close hhi hclose).trans (Int.le_floor.mpr henvhi)
  unfold timeVarBounds startVariable
  simp only [Option.getD_some, Int.cast_one, mul_one]
  refine ⟨hbounds.1, ?_⟩
  rw [if_neg (not_lt.mpr (hbounds.1.trans hbounds.2))]
  exact hbounds.2

/-- The windows behind whole constraints are whole. -/
theorem whole_window (hS : Skeleton request ir) (hwhole : WholeData ir) {t : Task}
    (ht : t ∈ request.tasks) {w : TimeWindow} (hw : w ∈ t.timeWindows) :
    w.startS.den = 1 ∧ w.endS.den = 1 := by
  have hsorted := Skeleton.mem_taskWindows.2 hw
  rcases hws : taskWindows t with _ | ⟨v, _ | ⟨v', ws⟩⟩
  · rw [hws] at hsorted
    cases hsorted
  · rw [hws] at hsorted
    obtain rfl := List.mem_singleton.mp hsorted
    obtain ⟨hlomem, hhimem⟩ := hS.singleWindow_mem ht hws
    exact ⟨hwhole.rhs _ hlomem, hwhole.rhs _ hhimem⟩
  · have hpl : 2 ≤ (taskWindows t).length := by simp [hws]
    obtain ⟨k, hk⟩ := List.mem_iff_getElem?.mp hsorted
    have hterm : ∀ bound : TimeWindow → ℚ,
        (⟨windowSelectVarId t.taskId k, -bound w⟩ : ConstraintTerm) ∈ windowTerms t bound :=
      fun bound => List.mem_cons_of_mem _
        (List.mem_map.mpr ⟨(w, k), List.mem_zipIdx_iff_getElem?.mpr hk, rfl⟩)
    have hlo := hwhole.coefficient _ (hS.twin_mem ht hpl (.inr (.inl rfl))) _
      (hterm TimeWindow.startS)
    have hhi := hwhole.coefficient _ (hS.twin_mem ht hpl (.inr (.inr rfl))) _
      (hterm TimeWindow.endS)
    exact ⟨by simpa using hlo, by simpa using hhi⟩

end Drift

/-! ## The lowered model -/

/-- One task between two whole seconds. -/
def subSecond : AllocationRequest where
  tasks := [{ pointTask "dig" [] with
    timeWindows := [⟨1 / 5, 4 / 5, by norm_num⟩]
    duration_nonneg := pointTask_nonneg "dig" }]
  assets := [rover]
  objective := ⟨.maximize, Dict.empty⟩
  tasks_ne_nil := by decide
  assets_ne_nil := rover_ne_nil
  taskIds_nodup := by decide
  assetIds_nodup := rover_nodup
  precedence_irrefl := by decide
  precedence_known := by decide
  precedence_acyclic := by decide +kernel

/-- The task half way into its window. -/
def halfPast : Allocation where
  status := .feasible
  plan := some [⟨"rover", [pointAt "dig" (1 / 2)], List.IsChain.singleton _⟩]
  realizedObjective := some 1
  feasible_plan := fun _ => rfl
  infeasible_plan := fun h => by cases h

/-- The lowering of a request. -/
def lowerRequest (request : AllocationRequest) : Option (AllocationIR × CpSatModel) :=
  (compileRequest request).toOption.bind fun ir =>
    (lowerToCpsat ir defaultTimeScale defaultObjectiveScale).toOption.map fun m => (ir, m)

theorem exists_of_lowerRequest {request : AllocationRequest} {p : AllocationIR × CpSatModel → Bool}
    (h : (lowerRequest request).any p = true) :
    ∃ ir m, compileRequest request = .ok ir ∧
      lowerToCpsat ir defaultTimeScale defaultObjectiveScale = .ok m ∧ p (ir, m) = true := by
  rw [lowerRequest, Option.any_bind] at h
  obtain ⟨ir, hir, hlowered⟩ := exists_ok_of_any h
  rw [Function.comp_apply, Option.any_map] at hlowered
  obtain ⟨m, hm, hp⟩ := exists_ok_of_any hlowered
  exact ⟨ir, m, hir, hm, hp⟩

/-- One task in a window of whole seconds. -/
def wholeSecond : AllocationRequest where
  tasks := [{ pointTask "dig" [] with
    timeWindows := [⟨0, 5, five_nonneg⟩]
    duration_nonneg := pointTask_nonneg "dig" }]
  assets := [rover]
  objective := ⟨.maximize, Dict.empty⟩
  tasks_ne_nil := by decide
  assets_ne_nil := rover_ne_nil
  taskIds_nodup := by decide
  assetIds_nodup := rover_nodup
  precedence_irrefl := by decide
  precedence_known := by decide
  precedence_acyclic := by decide +kernel

end AstroMine.Allocate
