import AstroMine.Lib.Flt
import AstroMine.Lib.Instances
import AstroMine.Lib.Tridiagonal
import Mathlib.Tactic.Positivity
import Mathlib.Tactic.Ring

/-!
# The heat of a regolith column (`worlds/thermal/_solver.py`)

A vertical column of layers takes up sunlight and a flux from its surroundings at the surface, gives
off heat there as the fourth power of its temperature, and conducts the rest down to an insulated
bottom. A step of the solver is implicit, with the radiation linearized at the temperature before.
The arithmetic is exact; `pi` and the fourth root are parameters.

Results:
* `backwardEulerStep_spec`: a step has the one column that the implicit equations ask for, and the
  column gains in it what its surface took up.
* `Above.step`: a step keeps the column above what the flux keeps in balance.
-/

namespace AstroMine.Worlds

open Tridiagonal
open scoped Numerals

/-! ## Model: a step -/

section Step

variable {K : Type} [Field K]

/-- `STEFAN_BOLTZMANN_W_M2_K4` (line 42). -/
def stefanBoltzmann : K := ((5670374419 : ℕ) : K) / ((10 ^ 17 : ℕ) : K)

/-- The rows below the surface (lines 166–176), where `g` is the conductance to the layer above. -/
def columnRows (dt g : K) : List K → List K → List K → List (Row K)
  | t :: ts, c :: cs, g' :: gs =>
    ⟨-dt * g, c + dt * (g + g'), -dt * g', c * t⟩ :: columnRows dt g' ts cs gs
  | [t], [c], [] => [⟨-dt * g, c + dt * g, 0, c * t⟩]
  | _, _, _ => []

/-- The rows of a step (lines 150–176): the surface, and the layers below. A column has two layers
at least. -/
def stepRows (dt absorbed environment emissivity : K) (capacity conductance temps : List K) :
    List (Row K) :=
  match temps, capacity, conductance with
  | t :: ts, c :: cs, g :: gs =>
    let b := 4 * emissivity * stefanBoltzmann * t ^ 3
    let a := emissivity * stefanBoltzmann * t ^ 4 - b * t
    ⟨0, c + dt * (g + b), -dt * g, c * t + dt * (absorbed + environment - a)⟩ ::
      columnRows dt g ts cs gs
  | _, _, _ => []

/-- `_backward_euler_step` (lines 135–178). -/
def backwardEulerStep (dt absorbed environment emissivity : K)
    (capacity conductance temps : List K) : List K :=
  thomas (stepRows dt absorbed environment emissivity capacity conductance temps)

end Step

/-! ## Model: the layers -/

section Layers

variable {K : Type} [Field K]

/-- The depths of the centres of layers, the first at `above`. -/
def centers (above : K) : List K → List K
  | [] => []
  | t :: ts => (above + t - 1 / 2 * t) :: centers (above + t) ts

/-- `build_layers` (lines 77–88). -/
def buildLayers (nLayers : ℕ) (totalDepth growth : K) : List K × List K :=
  let raw := (List.range nLayers).map fun i => growth ^ i
  let thickness := raw.map fun r => r / raw.sum * totalDepth
  (thickness, centers 0 thickness)

/-- `np.diff`. -/
def diffs : List K → List K
  | a :: b :: rest => (b - a) :: diffs (b :: rest)
  | _ => []

/-- `thermal_conductivity` (lines 50–58). -/
def thermalConductivity (inertia density specificHeat : K) : K :=
  inertia ^ 2 / (density * specificHeat)

/-- `skin_depth` (lines 61–74). -/
def skinDepth [HasSqrt K] (pi inertia density specificHeat period : K) : K :=
  let k := thermalConductivity inertia density specificHeat
  let kappa := k / (density * specificHeat)
  HasSqrt.sqrt (kappa * period / pi)

end Layers

/-! ## Model: the integration -/

/-- The arguments of `solve_surface_curve` that do not shape the default flux. -/
structure ColumnParams (K : Type) where
  inertia : K
  density : K
  specificHeat : K
  emissivity : K
  environment : K
  period : K
  nPhase : ℕ
  substeps : ℕ
  nLayers : ℕ
  depthSkinDepths : K
  layerGrowth : K
  maxPeriods : ℕ
  tol : K
  tInit : Option K

section Solve

variable {K : Type} [Field K] [LinearOrder K] [HasSqrt K] (pi : K) (fourthRoot : K → K)
  (absorbed : K → K)

/-- `heat_capacity` (lines 224–226). -/
def ColumnParams.capacity (c : ColumnParams K) : List K :=
  (buildLayers c.nLayers (c.depthSkinDepths * skinDepth pi c.inertia c.density c.specificHeat
    c.period) c.layerGrowth).1.map fun t => c.density * c.specificHeat * t

/-- `conductance` (lines 223–227). -/
def ColumnParams.conductance (c : ColumnParams K) : List K :=
  (diffs (buildLayers c.nLayers (c.depthSkinDepths * skinDepth pi c.inertia c.density c.specificHeat
    c.period) c.layerGrowth).2).map fun d =>
      thermalConductivity c.inertia c.density c.specificHeat / d

/-- `t_init_k` (lines 229–232). -/
def ColumnParams.initial (c : ColumnParams K) : K :=
  match c.tInit with
  | some t => t
  | none =>
    let mean := ((List.range c.nPhase).map fun p : ℕ => absorbed ((p : K) / (c.nPhase : K))).sum /
      (c.nPhase : K)
    max (fourthRoot ((c.environment + mean) / (c.emissivity * stefanBoltzmann))) 3

/-- The step at substep `s` of phase `p` (lines 246–256). -/
def ColumnParams.step (c : ColumnParams K) (p : ℕ) (temps : List K) (s : ℕ) : List K :=
  backwardEulerStep (c.period / ((c.nPhase * c.substeps : ℕ) : K))
    (absorbed (((p : K) + (s : K) / (c.substeps : K)) / (c.nPhase : K))) c.environment c.emissivity
    (c.capacity pi) (c.conductance pi) temps

/-- One phase (lines 244–256): the surface temperature is read, and the substeps are taken. -/
def ColumnParams.phase (c : ColumnParams K) (state : List K × List K) (p : ℕ) :
    List K × List K :=
  (state.1 ++ [state.2.headD 0], (List.range c.substeps).foldl (c.step pi absorbed p) state.2)

/-- The curve of a period and the column after it. -/
def ColumnParams.cycle (c : ColumnParams K) (temps : List K) : List K × List K :=
  (List.range c.nPhase).foldl (c.phase pi absorbed) ([], temps)

/-- Two curves agree within the tolerance everywhere. -/
def ColumnParams.agree (c : ColumnParams K) (curve previous : List K) : Bool :=
  (curve.zip previous).all fun q => decide (|q.1 - q.2| < c.tol)

/-- The loop over the periods (lines 241–260), with as many left as `fuel`. -/
def ColumnParams.periods (c : ColumnParams K) :
    ℕ → ℕ → List K → List K → List K × Bool × ℕ
  | 0, run, previous, _ => (previous, false, run)
  | fuel + 1, run, previous, temps =>
    let period := c.cycle pi absorbed temps
    if 0 < run ∧ c.agree period.1 previous then (period.1, true, run + 1)
    else c.periods fuel (run + 1) period.1 period.2

/-- `solve_surface_curve` (lines 181–261): the curve, whether it converged, and the periods run. -/
def solveSurfaceCurve (c : ColumnParams K) : List K × Bool × ℕ :=
  c.periods pi absorbed c.maxPeriods 0 []
    (List.replicate c.nLayers (c.initial fourthRoot absorbed))

end Solve

/-! ## The rows of a step -/

section Rows

variable {K : Type} [Field K] [LinearOrder K] [IsStrictOrderedRing K]

/-- Layers, each with its capacity and all but the last with the conductance to the next. -/
inductive Layers : List K → List K → Prop
  | bottom {c : K} : 0 < c → Layers [c] []
  | layer {c g : K} {cs gs : List K} : 0 < c → 0 < g → Layers cs gs → Layers (c :: cs) (g :: gs)

theorem stefanBoltzmann_pos : (0 : K) < stefanBoltzmann :=
  div_pos (Nat.cast_pos.mpr (by norm_num)) (Nat.cast_pos.mpr (by norm_num))

omit [IsStrictOrderedRing K] in
/-- What all rows below the surface satisfy. -/
theorem forall_columnRows {P : Row K → Prop} {dt : K} {cs gs ts : List K} (h : Layers cs gs)
    (hlen : ts.length = cs.length) {g : K} (hg : 0 < g)
    (hbottom : ∀ {g t c : K}, 0 < g → 0 < c → t ∈ ts → P ⟨-dt * g, c + dt * g, 0, c * t⟩)
    (hlayer : ∀ {g g' t c : K}, 0 < g → 0 < g' → 0 < c → t ∈ ts →
      P ⟨-dt * g, c + dt * (g + g'), -dt * g', c * t⟩) : ∀ r ∈ columnRows dt g ts cs gs, P r := by
  induction h generalizing g ts with
  | bottom hc =>
    obtain ⟨t, rfl⟩ := List.length_eq_one_iff.mp hlen
    intro r hr
    obtain rfl := List.mem_singleton.mp hr
    exact hbottom hg hc (List.mem_singleton_self t)
  | layer hc hg' _ ih =>
    cases ts with
    | nil => cases hlen
    | cons t ts =>
      refine List.forall_mem_cons.mpr ⟨hlayer hg hg' hc List.mem_cons_self, ?_⟩
      exact ih (Nat.succ.inj hlen) hg'
        (fun hg hc ht => hbottom hg hc (List.mem_cons_of_mem t ht))
        (fun hg hg' hc ht => hlayer hg hg' hc (List.mem_cons_of_mem t ht))

omit [IsStrictOrderedRing K] in
theorem Layers.length_pos {cs gs : List K} (h : Layers cs gs) : 0 < cs.length := by
  cases h <;> exact Nat.succ_pos _

omit [IsStrictOrderedRing K] in
theorem length_columnRows {dt g : K} {cs gs ts : List K} (h : Layers cs gs)
    (hlen : ts.length = cs.length) : (columnRows dt g ts cs gs).length = ts.length := by
  induction h generalizing g ts with
  | bottom hc =>
    obtain ⟨t, rfl⟩ := List.length_eq_one_iff.mp hlen
    rfl
  | layer _ _ _ ih =>
    cases ts with
    | nil => cases hlen
    | cons t ts => exact congrArg (· + 1) (ih (Nat.succ.inj hlen))

omit [IsStrictOrderedRing K] in
theorem columnRows_ne_nil {dt g : K} {cs gs ts : List K} (h : Layers cs gs)
    (hlen : ts.length = cs.length) : columnRows dt g ts cs gs ≠ [] := by
  rw [← List.length_pos_iff, length_columnRows h hlen, hlen]
  exact h.length_pos

omit [IsStrictOrderedRing K] in
theorem closed_columnRows {dt g : K} {cs gs ts : List K} (h : Layers cs gs)
    (hlen : ts.length = cs.length) : Closed (columnRows dt g ts cs gs) := by
  induction h generalizing g ts with
  | bottom hc =>
    obtain ⟨t, rfl⟩ := List.length_eq_one_iff.mp hlen
    intro r hr
    obtain rfl := Option.some.inj hr
    rfl
  | layer _ _ hlayers ih =>
    cases ts with
    | nil => cases hlen
    | cons t ts =>
      have hlen' := Nat.succ.inj hlen
      exact (ih hlen').cons (columnRows_ne_nil hlayers hlen')

variable {dt absorbed environment emissivity t c g : K} {ts cs gs : List K}

omit [LinearOrder K] [IsStrictOrderedRing K] in
/-- The surface row. -/
theorem stepRows_cons : stepRows dt absorbed environment emissivity (c :: cs) (g :: gs) (t :: ts) =
    ⟨0, c + dt * (g + 4 * emissivity * stefanBoltzmann * t ^ 3), -dt * g,
      c * t + dt * (absorbed + environment + 3 * emissivity * stefanBoltzmann * t ^ 4)⟩ ::
      columnRows dt g ts cs gs := by
  unfold stepRows
  simp only [List.cons.injEq, Row.mk.injEq, and_true, true_and]
  ring

omit [IsStrictOrderedRing K] in
theorem closed_stepRows (h : Layers cs gs) (hlen : ts.length = cs.length) :
    Closed (stepRows dt absorbed environment emissivity (c :: cs) (g :: gs) (t :: ts)) :=
  (closed_columnRows h hlen).cons (columnRows_ne_nil h hlen)

theorem dominant_stepRows (hdt : 0 < dt) (hemissivity : 0 ≤ emissivity) (ht : 0 ≤ t) (hc : 0 < c)
    (hg : 0 < g) (h : Layers cs gs) (hlen : ts.length = cs.length) :
    ∀ r ∈ stepRows dt absorbed environment emissivity (c :: cs) (g :: gs) (t :: ts),
      r.Dominant := by
  have hσ := stefanBoltzmann_pos (K := K)
  rw [stepRows_cons]
  refine List.forall_mem_cons.mpr ⟨⟨le_rfl, ?_, ?_⟩, forall_columnRows h hlen hg ?_ ?_⟩
  · nlinarith
  · have hloss : 0 ≤ dt * (4 * emissivity * stefanBoltzmann * t ^ 3) := by positivity
    nlinarith
  · intro g t c hg hc _
    have hflow := mul_pos hdt hg
    exact ⟨by dsimp only; linarith, le_rfl, by dsimp only; linarith⟩
  · intro g g' t c hg hg' hc _
    have hflow := mul_pos hdt hg
    have hflow' := mul_pos hdt hg'
    exact ⟨by dsimp only; linarith, by dsimp only; linarith, by dsimp only; linarith⟩

/-! ## What a step does -/

/-- The heat of the layers. -/
def heat (capacity temps : List K) : K := (List.zipWith (· * ·) capacity temps).sum

omit [IsStrictOrderedRing K] in
/-- The layers below the surface gain what flows in from above. -/
theorem heat_of_solves {xs : List K} (h : Layers cs gs) (hlen : ts.length = cs.length) {p : K}
    (hsolves : Solves p (columnRows dt g ts cs gs) xs) :
    heat cs xs = heat cs ts + dt * g * (p - xs.headD 0) := by
  induction h generalizing g ts p xs with
  | @bottom c hc =>
    obtain ⟨t, rfl⟩ := List.length_eq_one_iff.mp hlen
    cases xs with
    | nil => exact hsolves.elim
    | cons x xs =>
      obtain ⟨hrow, hrest⟩ := hsolves
      cases xs with
      | cons y ys => exact hrest.elim
      | nil =>
        simp only [heat, List.zipWith_cons_cons, List.zipWith_nil_right, List.sum_cons,
          List.sum_nil, List.headD_cons, List.headD_nil] at hrow ⊢
        linear_combination hrow
  | @layer c g' cs gs _ _ _ ih =>
    cases ts with
    | nil => cases hlen
    | cons t ts =>
      cases xs with
      | nil => exact hsolves.elim
      | cons x xs =>
        obtain ⟨hrow, hrest⟩ := hsolves
        have hbelow := ih (Nat.succ.inj hlen) hrest
        simp only [heat, List.zipWith_cons_cons, List.sum_cons, List.headD_cons] at hbelow hrow ⊢
        linear_combination hrow + hbelow

end Rows

section Columns

variable {K : Type} [Field K] [LinearOrder K] [IsStrictOrderedRing K]
  {capacity conductance temps : List K} {dt absorbed environment emissivity m : K}

/-- The column of temperatures fits the layers, is above absolute zero, and nowhere below `m`. -/
structure Above (capacity : List K) (m : K) (temps : List K) : Prop where
  length : temps.length = capacity.length
  pos : ∀ t ∈ temps, 0 < t
  le : ∀ t ∈ temps, m ≤ t

/-- The tangent of the fourth power is below it. -/
theorem tangent_le (m t : K) : 4 * t ^ 3 * m ≤ m ^ 4 + 3 * t ^ 4 := by
  have hsq : 0 ≤ (t - m) ^ 2 * (2 * t ^ 2 + (t + m) ^ 2) := by positivity
  linear_combination hsq

/-- **Spec.** A step has the one column that the implicit equations ask for, for any step size. What
the column gains is what its surface took up, less the linearized radiation. -/
theorem backwardEulerStep_spec (hlayers : Layers capacity conductance) (hsome : conductance ≠ [])
    (hdt : 0 < dt) (hemissivity : 0 ≤ emissivity) (hlen : temps.length = capacity.length)
    (hpos : ∀ t ∈ temps, 0 < t) :
    (∀ xs, Solves 0 (stepRows dt absorbed environment emissivity capacity conductance temps) xs ↔
      xs = backwardEulerStep dt absorbed environment emissivity capacity conductance temps) ∧
    ∃ t x, temps.head? = some t ∧
      (backwardEulerStep dt absorbed environment emissivity capacity conductance temps).head? =
        some x ∧
      heat capacity (backwardEulerStep dt absorbed environment emissivity capacity conductance
        temps) = heat capacity temps + dt * (absorbed + environment -
          emissivity * stefanBoltzmann * (t ^ 4 + 4 * t ^ 3 * (x - t))) := by
  cases hlayers with
  | bottom hc => exact absurd rfl hsome
  | @layer c g cs gs hc hg hlayers =>
    cases temps with
    | nil => cases hlen
    | cons t ts =>
      have hlen' : ts.length = cs.length := Nat.succ.inj hlen
      have hiff : ∀ xs, Solves 0 (stepRows dt absorbed environment emissivity (c :: cs) (g :: gs)
          (t :: ts)) xs ↔ xs = thomas (stepRows dt absorbed environment emissivity (c :: cs)
            (g :: gs) (t :: ts)) := fun xs =>
        solves_iff_thomas (dominant_stepRows hdt hemissivity (hpos t List.mem_cons_self).le hc hg
          hlayers hlen') (closed_stepRows hlayers hlen')
      refine ⟨hiff, ?_⟩
      have hsolves := (hiff _).mpr rfl
      change Solves 0 _ (backwardEulerStep _ _ _ _ _ _ _) at hsolves
      generalize backwardEulerStep dt absorbed environment emissivity (c :: cs) (g :: gs)
        (t :: ts) = out at hsolves
      rw [stepRows_cons] at hsolves
      cases out with
      | nil => exact hsolves.elim
      | cons x xs =>
        obtain ⟨hrow, hrest⟩ := hsolves
        have hbelow := heat_of_solves hlayers hlen' hrest
        refine ⟨t, x, rfl, rfl, ?_⟩
        simp only [heat, List.zipWith_cons_cons, List.sum_cons] at hbelow hrow ⊢
        linear_combination hrow + hbelow

theorem twoLayers_step : (∀ xs : List ℚ, Solves 0 (stepRows 1 0 0 1 [1, 1] [1] [2, 2]) xs ↔
      xs = backwardEulerStep 1 0 0 1 [1, 1] [1] [2, 2]) ∧
    ∃ t x, [(2 : ℚ), 2].head? = some t ∧
      (backwardEulerStep (1 : ℚ) 0 0 1 [1, 1] [1] [2, 2]).head? = some x ∧
      heat [1, 1] (backwardEulerStep (1 : ℚ) 0 0 1 [1, 1] [1] [2, 2]) = heat [1, 1] [2, 2] +
        1 * (0 + 0 - 1 * stefanBoltzmann * (t ^ 4 + 4 * t ^ 3 * (x - t))) :=
  backwardEulerStep_spec (.layer one_pos one_pos (.bottom one_pos)) (by simp) one_pos zero_le_one
    rfl (by simp)

/-- **Step.** A step keeps the column above absolute zero, and above any temperature that the flux
keeps in balance. -/
theorem Above.step (h : Above capacity m temps) (hlayers : Layers capacity conductance)
    (hsome : conductance ≠ []) (hdt : 0 < dt) (hemissivity : 0 ≤ emissivity)
    (hnonneg : 0 ≤ absorbed + environment)
    (hflux : emissivity * stefanBoltzmann * m ^ 4 ≤ absorbed + environment) :
    Above capacity m
      (backwardEulerStep dt absorbed environment emissivity capacity conductance temps) := by
  cases hlayers with
  | bottom hc => exact absurd rfl hsome
  | @layer c g cs gs hc hg hlayers =>
    obtain ⟨hlen, hpos, hle⟩ := h
    cases temps with
    | nil => cases hlen
    | cons t ts =>
      have hlen' : ts.length = cs.length := Nat.succ.inj hlen
      have ht := hpos t List.mem_cons_self
      have hσ := mul_nonneg hemissivity (stefanBoltzmann_pos (K := K)).le
      have hdom : ∀ r ∈ stepRows dt absorbed environment emissivity (c :: cs) (g :: gs) (t :: ts),
          r.Dominant := dominant_stepRows hdt hemissivity ht.le hc hg hlayers hlen'
      have hclosed : Closed (stepRows dt absorbed environment emissivity (c :: cs) (g :: gs)
        (t :: ts)) := closed_stepRows hlayers hlen'
      have hfirst : ∀ r ∈ (stepRows dt absorbed environment emissivity (c :: cs) (g :: gs)
          (t :: ts)).head?, r.sub = 0 := by
        intro r hr
        rw [stepRows_cons] at hr
        obtain rfl := Option.some.inj hr
        rfl
      refine ⟨?_, ?_, ?_⟩
      · rw [backwardEulerStep, length_thomas, stepRows_cons, List.length_cons,
          length_columnRows hlayers hlen']
        exact hlen
      · refine pos_of_mem_thomas hdom hclosed hfirst ?_
        rw [stepRows_cons]
        refine List.forall_mem_cons.mpr ⟨?_, forall_columnRows hlayers hlen' hg ?_ ?_⟩
        · have hstored := mul_pos hc ht
          have hradiated : 0 ≤ 3 * emissivity * stefanBoltzmann * t ^ 4 := by
            have ht4 : 0 ≤ t ^ 4 := by positivity
            nlinarith
          have hgained := mul_nonneg hdt.le (add_nonneg hnonneg hradiated)
          exact add_pos_of_pos_of_nonneg hstored hgained
        · exact fun _ hc' ht' => mul_pos hc' (hpos _ (List.mem_cons_of_mem t ht'))
        · exact fun _ _ hc' ht' => mul_pos hc' (hpos _ (List.mem_cons_of_mem t ht'))
      · refine le_of_mem_thomas hdom hclosed hfirst ?_
        rw [stepRows_cons]
        refine List.forall_mem_cons.mpr ⟨?_, forall_columnRows hlayers hlen' hg ?_ ?_⟩
        · have hstored := mul_le_mul_of_nonneg_left (hle t List.mem_cons_self) hc.le
          have htangent := mul_le_mul_of_nonneg_left (tangent_le m t) hσ
          have hbalance : m * (4 * emissivity * stefanBoltzmann * t ^ 3) ≤
              absorbed + environment + 3 * emissivity * stefanBoltzmann * t ^ 4 := by linarith
          have hgained := mul_le_mul_of_nonneg_left hbalance hdt.le
          dsimp only
          linarith
        · intro g t' c' _ hc' ht'
          have hstored := mul_le_mul_of_nonneg_left (hle t' (List.mem_cons_of_mem t ht')) hc'.le
          dsimp only
          linarith
        · intro g g' t' c' _ _ hc' ht'
          have hstored := mul_le_mul_of_nonneg_left (hle t' (List.mem_cons_of_mem t ht')) hc'.le
          dsimp only
          linarith

end Columns

end AstroMine.Worlds
