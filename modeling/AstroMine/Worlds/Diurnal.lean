import AstroMine.Lib.RealVec
import AstroMine.Worlds.Thermal
import Mathlib.Analysis.SpecialFunctions.Pow.Real
import Mathlib.Analysis.SpecialFunctions.Trigonometric.Basic

/-!
# The diurnal curve of a column (`worlds/thermal/_solver.py`)

The column is stepped through whole periods until the surface temperatures of a period agree with
those of the period before. Every reading is the surface of a column that a run of steps leaves, so
what a step keeps holds of the curve.

Results:
* `layers_buildLayers`: the layers have positive capacities, and conductances between them.
* `solveSurfaceCurve_run`: the loop stops at the first period that agrees with the one before.
* `surfaceCurve_floor`: the surface is never colder than the least flux keeps it.
-/

namespace AstroMine.Worlds

open scoped Numerals

/-! ## The layers -/

section Layers

variable {K : Type} [Field K] [LinearOrder K] [IsStrictOrderedRing K]

/-- The distances of centres lie between layers, of which they have halves. -/
theorem layers_of_thickness {thickness : List K} (hpos : ∀ t ∈ thickness, 0 < t)
    (hne : thickness ≠ []) {rc k : K} (hrc : 0 < rc) (hk : 0 < k) (above : K) :
    Layers (thickness.map fun t => rc * t)
      ((diffs (centers above thickness)).map fun d => k / d) := by
  induction thickness generalizing above with
  | nil => exact absurd rfl hne
  | cons t ts ih =>
    have ht := hpos t List.mem_cons_self
    cases ts with
    | nil => exact .bottom (mul_pos hrc ht)
    | cons t' ts =>
      have ht' := hpos t' (List.mem_cons_of_mem t List.mem_cons_self)
      have hrest := ih (fun s hs => hpos s (List.mem_cons_of_mem t hs)) (List.cons_ne_nil t' ts)
        (above + t)
      refine .layer (mul_pos hrc ht) (div_pos hk ?_) hrest
      linarith

theorem layers_buildLayers {n : ℕ} {depth growth rc k : K} (hn : 0 < n) (hdepth : 0 < depth)
    (hgrowth : 0 < growth) (hrc : 0 < rc) (hk : 0 < k) :
    Layers ((buildLayers n depth growth).1.map fun t => rc * t)
      ((diffs (buildLayers n depth growth).2).map fun d => k / d) := by
  have hraw : ∀ r ∈ (List.range n).map (fun i => growth ^ i), 0 < r := by
    intro r hr
    obtain ⟨i, -, rfl⟩ := List.mem_map.mp hr
    exact pow_pos hgrowth i
  have hne : (List.range n).map (fun i => growth ^ i) ≠ [] := by
    rw [← List.length_pos_iff, List.length_map, List.length_range]
    exact hn
  refine layers_of_thickness ?_ (List.map_eq_nil_iff.not.mpr hne) hrc hk 0
  intro t ht
  obtain ⟨r, hr, rfl⟩ := List.mem_map.mp ht
  exact mul_pos (div_pos (hraw r hr) (List.sum_pos _ hraw hne)) hdepth

end Layers

/-! ## The loop over the periods -/

section Loop

variable {K : Type} [Field K] [LinearOrder K] [HasSqrt K] {pi : K} {fourthRoot : K → K}
  {absorbed : K → K} {c : ColumnParams K}

variable (pi fourthRoot absorbed c) in
/-- The column in front of a period. -/
def ColumnParams.columnAt : ℕ → List K
  | 0 => List.replicate c.nLayers (c.initial fourthRoot absorbed)
  | k + 1 => (c.cycle pi absorbed (columnAt k)).2

variable (pi fourthRoot absorbed c) in
/-- The curve of a period. -/
def ColumnParams.curveAt (k : ℕ) : List K :=
  (c.cycle pi absorbed (c.columnAt pi fourthRoot absorbed k)).1

omit [LinearOrder K] in
/-- A period reads one temperature a phase. -/
theorem ColumnParams.length_cycle (temps : List K) :
    (c.cycle pi absorbed temps).1.length = c.nPhase := by
  have hrun : ∀ (ps : List ℕ) (state : List K × List K),
      (ps.foldl (c.phase pi absorbed) state).1.length = state.1.length + ps.length := by
    intro ps
    induction ps with
    | nil => exact fun _ => rfl
    | cons p ps ih =>
      intro state
      rw [List.foldl_cons, ih, ColumnParams.phase, List.length_append, List.length_singleton,
        List.length_cons]
      omega
  rw [ColumnParams.cycle, hrun, List.length_range]
  exact Nat.zero_add _

/-- The curve of a period agrees with the one before. -/
def ColumnParams.Settled (curve : ℕ → List K) (k : ℕ) : Prop :=
  0 < k ∧ c.agree (curve k) (curve (k - 1)) = true

/-- What the loop returns after the period `n`: the first that settled, or the last there is. -/
structure ColumnParams.Stops (c : ColumnParams K) (curve : ℕ → List K)
    (out : List K × Bool × ℕ) (n : ℕ) : Prop where
  temperatures : out.1 = curve n
  converged : out.2.1 = true ↔ c.Settled curve n
  periods : out.2.2 = n + 1
  le : n < c.maxPeriods
  last : out.2.1 = false → n + 1 = c.maxPeriods
  first : ∀ k < n, ¬ c.Settled curve k

/-- **Run.** From the period `run` on. -/
theorem periods_stops {fuel run : ℕ} (hfuel : run + fuel = c.maxPeriods) (hsome : 0 < fuel)
    {previous : List K} (hprevious : 0 < run →
      previous = c.curveAt pi fourthRoot absorbed (run - 1))
    (hfirst : ∀ k < run, ¬ c.Settled (c.curveAt pi fourthRoot absorbed) k) :
    ∃ n, c.Stops (c.curveAt pi fourthRoot absorbed) (c.periods pi absorbed fuel run previous
      (c.columnAt pi fourthRoot absorbed run)) n := by
  induction fuel generalizing run previous with
  | zero => exact absurd hsome (lt_irrefl 0)
  | succ fuel ih =>
    have hsettled : (0 < run ∧ c.agree (c.curveAt pi fourthRoot absorbed run) previous = true) ↔
        c.Settled (c.curveAt pi fourthRoot absorbed) run :=
      and_congr_right fun hrun => by rw [hprevious hrun]
    rw [ColumnParams.periods]
    change ∃ n, c.Stops _ (if 0 < run ∧ c.agree (c.curveAt pi fourthRoot absorbed run) previous
      then (c.curveAt pi fourthRoot absorbed run, true, run + 1)
      else c.periods pi absorbed fuel (run + 1) (c.curveAt pi fourthRoot absorbed run)
        (c.columnAt pi fourthRoot absorbed (run + 1))) n
    by_cases hstop : 0 < run ∧ c.agree (c.curveAt pi fourthRoot absorbed run) previous = true
    · rw [if_pos hstop]
      exact ⟨run, rfl, ⟨fun _ => hsettled.mp hstop, fun _ => rfl⟩, rfl, by omega,
        fun h => (by cases h), hfirst⟩
    · rw [if_neg hstop]
      have hfirst' : ∀ k < run + 1, ¬ c.Settled (c.curveAt pi fourthRoot absorbed) k := by
        intro k hk
        rcases Nat.lt_succ_iff_lt_or_eq.mp hk with hk | rfl
        · exact hfirst k hk
        · exact fun h => hstop (hsettled.mpr h)
      cases fuel with
      | zero =>
        refine ⟨run, rfl, ⟨fun h => (by cases h), fun h => ?_⟩, rfl, by omega, fun _ => ?_, hfirst⟩
        · exact absurd (hsettled.mpr h) hstop
        · omega
      | succ fuel => exact ih (by omega) (Nat.succ_pos fuel) (fun _ => rfl) hfirst'

theorem solveSurfaceCurve_stops (hsome : 0 < c.maxPeriods) :
    ∃ n, c.Stops (c.curveAt pi fourthRoot absorbed)
      (solveSurfaceCurve pi fourthRoot absorbed c) n :=
  periods_stops (Nat.zero_add _) hsome (fun h => absurd h (lt_irrefl 0))
    fun _ hk => absurd hk (Nat.not_lt_zero _)

/-- **Main theorem.** The solver reports convergence exactly when a period within the limit agrees
with the one before. It returns the curve of the first that does, or else of the last. -/
theorem solveSurfaceCurve_converged (hsome : 0 < c.maxPeriods) :
    ((solveSurfaceCurve pi fourthRoot absorbed c).2.1 = true ↔
        ∃ k < c.maxPeriods, c.Settled (c.curveAt pi fourthRoot absorbed) k) ∧
      ∃ n, (solveSurfaceCurve pi fourthRoot absorbed c).1 = c.curveAt pi fourthRoot absorbed n ∧
        (solveSurfaceCurve pi fourthRoot absorbed c).2.2 = n + 1 ∧
        (∀ k < n, ¬ c.Settled (c.curveAt pi fourthRoot absorbed) k) ∧
        (c.Settled (c.curveAt pi fourthRoot absorbed) n ∨ n + 1 = c.maxPeriods) := by
  obtain ⟨n, hstops⟩ : ∃ n, c.Stops (c.curveAt pi fourthRoot absorbed)
      (solveSurfaceCurve pi fourthRoot absorbed c) n := solveSurfaceCurve_stops hsome
  refine ⟨⟨fun h => ⟨n, hstops.le, hstops.converged.mp h⟩, ?_⟩, n, hstops.temperatures,
    hstops.periods, hstops.first, ?_⟩
  · rintro ⟨k, hk, hsettled⟩
    by_contra hnot
    have hlast := hstops.last (Bool.eq_false_iff.mpr hnot)
    have hkn : k = n := by
      have hge : ¬ k < n := fun hlt => hstops.first k hlt hsettled
      omega
    exact hnot (hstops.converged.mpr (hkn ▸ hsettled))
  · cases hconv : (solveSurfaceCurve pi fourthRoot absorbed c).2.1 with
    | true => exact .inl (hstops.converged.mp hconv)
    | false => exact .inr (hstops.last hconv)

end Loop

/-- The column of a crater floor in permanent shadow (worlds/thermal/__init__.py:110), with the
solver's own grid. -/
noncomputable def craterFloor : ColumnParams ℝ where
  inertia := (100 : ℕ)
  density := (1500 : ℕ)
  specificHeat := (700 : ℕ)
  emissivity := (95 : ℕ) / (100 : ℕ)
  environment := (14 : ℕ) / (100 : ℕ)
  period := (25514428 : ℕ) / (10 : ℕ)
  nPhase := 48
  substeps := 8
  nLayers := 30
  depthSkinDepths := (8 : ℕ)
  layerGrowth := (12 : ℕ) / (10 : ℕ)
  maxPeriods := 40
  tol := 1 / (2 : ℕ)
  tInit := none

theorem craterFloor_converged :
    ((solveSurfaceCurve Real.pi (fun x => x ^ (1 / 4 : ℝ)) (fun _ => 0) craterFloor).2.1 = true ↔
        ∃ k < craterFloor.maxPeriods, craterFloor.Settled
          (craterFloor.curveAt Real.pi (fun x => x ^ (1 / 4 : ℝ)) fun _ => 0) k) ∧
      ∃ n, (solveSurfaceCurve Real.pi (fun x => x ^ (1 / 4 : ℝ)) (fun _ => 0) craterFloor).1 =
          craterFloor.curveAt Real.pi (fun x => x ^ (1 / 4 : ℝ)) (fun _ => 0) n ∧
        (solveSurfaceCurve Real.pi (fun x => x ^ (1 / 4 : ℝ)) (fun _ => 0) craterFloor).2.2 =
          n + 1 ∧
        (∀ k < n, ¬ craterFloor.Settled
          (craterFloor.curveAt Real.pi (fun x => x ^ (1 / 4 : ℝ)) fun _ => 0) k) ∧
        (craterFloor.Settled (craterFloor.curveAt Real.pi (fun x => x ^ (1 / 4 : ℝ)) fun _ => 0) n ∨
          n + 1 = craterFloor.maxPeriods) :=
  solveSurfaceCurve_converged (by norm_num [craterFloor])

/-! ## The floor -/

section Floor

variable {absorbed : ℝ → ℝ} {c : ColumnParams ℝ} {m : ℝ}

/-- What the parameters are: quantities above zero, and a grid of two layers at least. -/
structure ColumnParams.Valid (c : ColumnParams ℝ) : Prop where
  inertia : 0 < c.inertia
  density : 0 < c.density
  specificHeat : 0 < c.specificHeat
  emissivity : 0 < c.emissivity
  period : 0 < c.period
  nPhase : 0 < c.nPhase
  substeps : 0 < c.substeps
  nLayers : 2 ≤ c.nLayers
  depthSkinDepths : 0 < c.depthSkinDepths
  layerGrowth : 0 < c.layerGrowth

theorem craterFloor_valid : craterFloor.Valid := by
  constructor <;> norm_num [craterFloor]

theorem ColumnParams.Valid.layers (hc : c.Valid) :
    Layers (c.capacity Real.pi) (c.conductance Real.pi) ∧ c.conductance Real.pi ≠ [] ∧
      (c.capacity Real.pi).length = c.nLayers := by
  have hk : 0 < thermalConductivity c.inertia c.density c.specificHeat :=
    div_pos (pow_pos hc.inertia 2) (mul_pos hc.density hc.specificHeat)
  have hskin : 0 < skinDepth Real.pi c.inertia c.density c.specificHeat c.period := by
    refine Real.sqrt_pos.mpr (div_pos (mul_pos (div_pos hk ?_) hc.period) Real.pi_pos)
    exact mul_pos hc.density hc.specificHeat
  have hlayers : Layers (c.capacity Real.pi) (c.conductance Real.pi) :=
    layers_buildLayers (by have := hc.nLayers; omega) (mul_pos hc.depthSkinDepths hskin)
      hc.layerGrowth (mul_pos hc.density hc.specificHeat) hk
  have hlen : (c.capacity Real.pi).length = c.nLayers := by
    unfold ColumnParams.capacity buildLayers
    simp only [List.length_map, List.length_range]
  refine ⟨hlayers, fun hnil => ?_, hlen⟩
  have htwo := hc.nLayers
  rw [hnil] at hlayers
  cases hcap : c.capacity Real.pi with
  | nil => rw [hcap] at hlen; simp at hlen; omega
  | cons a as =>
    rw [hcap] at hlayers hlen
    cases hlayers
    simp at hlen
    omega

/-- **Step.** A phase reads a temperature above the floor, and leaves a column above it. -/
theorem Above.phase (hc : c.Valid) (hnonneg : ∀ phase, 0 ≤ absorbed phase + c.environment)
    (hflux : ∀ phase, c.emissivity * stefanBoltzmann * m ^ 4 ≤ absorbed phase + c.environment)
    {state : List ℝ × List ℝ} (hcurve : ∀ t ∈ state.1, 0 < t ∧ m ≤ t)
    (htemps : Above (c.capacity Real.pi) m state.2) (p : ℕ) :
    (∀ t ∈ (c.phase Real.pi absorbed state p).1, 0 < t ∧ m ≤ t) ∧
      Above (c.capacity Real.pi) m (c.phase Real.pi absorbed state p).2 := by
  obtain ⟨hlayers, hsome, -⟩ := hc.layers
  have hdt : 0 < c.period / ((c.nPhase * c.substeps : ℕ) : ℝ) :=
    div_pos hc.period (Nat.cast_pos.mpr (Nat.mul_pos hc.nPhase hc.substeps))
  constructor
  · intro t ht
    rcases List.mem_append.mp ht with ht | ht
    · exact hcurve t ht
    · obtain rfl := List.mem_singleton.mp ht
      cases htop : state.2 with
      | nil =>
        have hlen := htemps.length
        have hpos := hlayers.length_pos
        rw [htop] at hlen
        exact absurd hlen.symm hpos.ne'
      | cons x xs =>
        have hx : x ∈ state.2 := htop ▸ List.mem_cons_self
        exact ⟨htemps.pos x hx, htemps.le x hx⟩
  · unfold ColumnParams.phase
    refine List.foldlRecOn _ _ htemps fun temps h s _ => ?_
    exact h.step hlayers hsome hdt hc.emissivity.le (hnonneg _) (hflux _)

theorem Above.cycle (hc : c.Valid) (hnonneg : ∀ phase, 0 ≤ absorbed phase + c.environment)
    (hflux : ∀ phase, c.emissivity * stefanBoltzmann * m ^ 4 ≤ absorbed phase + c.environment)
    {temps : List ℝ} (htemps : Above (c.capacity Real.pi) m temps) :
    (∀ t ∈ (c.cycle Real.pi absorbed temps).1, 0 < t ∧ m ≤ t) ∧
      Above (c.capacity Real.pi) m (c.cycle Real.pi absorbed temps).2 := by
  unfold ColumnParams.cycle
  refine List.foldlRecOn (motive := fun state : List ℝ × List ℝ =>
    (∀ t ∈ state.1, 0 < t ∧ m ≤ t) ∧ Above (c.capacity Real.pi) m state.2) _ _
    ⟨fun t ht => (by cases ht), htemps⟩ fun state h p _ => ?_
  exact Above.phase hc hnonneg hflux h.1 h.2 p

/-- The initial temperature is above the floor. -/
theorem floor_le_initial (hc : c.Valid) (hm : 0 ≤ m)
    (hflux : ∀ phase, c.emissivity * stefanBoltzmann * m ^ 4 ≤ absorbed phase + c.environment)
    (hinit : ∀ t ∈ c.tInit, 0 < t ∧ m ≤ t) :
    0 < c.initial (fun x => x ^ (1 / 4 : ℝ)) absorbed ∧
      m ≤ c.initial (fun x => x ^ (1 / 4 : ℝ)) absorbed := by
  unfold ColumnParams.initial
  cases htInit : c.tInit with
  | some t => exact hinit t htInit
  | none =>
    refine ⟨lt_max_of_lt_right three_pos, le_max_of_le_left ?_⟩
    have hσ : 0 < c.emissivity * stefanBoltzmann := mul_pos hc.emissivity stefanBoltzmann_pos
    have hn : (0 : ℝ) < c.nPhase := Nat.cast_pos.mpr hc.nPhase
    -- The mean flux is no less than the least.
    have hmean : c.emissivity * stefanBoltzmann * m ^ 4 ≤ c.environment +
        ((List.range c.nPhase).map fun p : ℕ => absorbed ((p : ℝ) / (c.nPhase : ℝ))).sum /
          (c.nPhase : ℝ) := by
      have hsum := List.card_nsmul_le_sum
        ((List.range c.nPhase).map fun p : ℕ => absorbed ((p : ℝ) / (c.nPhase : ℝ)))
        (c.emissivity * stefanBoltzmann * m ^ 4 - c.environment) (by
          intro x hx
          obtain ⟨p, -, rfl⟩ := List.mem_map.mp hx
          linarith [hflux ((p : ℝ) / (c.nPhase : ℝ))])
      rw [List.length_map, List.length_range, nsmul_eq_mul] at hsum
      have hdiv := (le_div_iff₀' hn).mpr hsum
      linarith
    calc m = (m ^ 4) ^ (1 / 4 : ℝ) := by
          rw [← Real.rpow_natCast, ← Real.rpow_mul hm]
          norm_num
      _ ≤ _ := by
          refine Real.rpow_le_rpow (by positivity) ?_ (by norm_num)
          rw [le_div_iff₀' hσ]
          exact hmean

/-- **Main theorem.** For any flux at the surface and any number of periods, phases and substeps:
the curve is above absolute zero, and nowhere colder than the temperature that radiates the least
flux, where the column does not start colder. -/
theorem surfaceCurve_floor (hc : c.Valid) (hm : 0 ≤ m)
    (hflux : ∀ phase, c.emissivity * stefanBoltzmann * m ^ 4 ≤ absorbed phase + c.environment)
    (hinit : ∀ t ∈ c.tInit, 0 < t ∧ m ≤ t) :
    ∀ t ∈ (solveSurfaceCurve Real.pi (fun x => x ^ (1 / 4 : ℝ)) absorbed c).1, 0 < t ∧ m ≤ t := by
  have hnonneg : ∀ phase, 0 ≤ absorbed phase + c.environment := fun phase =>
    le_trans (mul_nonneg (mul_pos hc.emissivity stefanBoltzmann_pos).le (pow_nonneg hm 4))
      (hflux phase)
  have hcolumn : ∀ k, Above (c.capacity Real.pi) m
      (c.columnAt Real.pi (fun x => x ^ (1 / 4 : ℝ)) absorbed k) := by
    intro k
    induction k with
    | zero =>
      obtain ⟨hpos, hle⟩ := floor_le_initial hc hm hflux hinit
      refine ⟨(List.length_replicate ..).trans hc.layers.2.2.symm, fun t ht => ?_, fun t ht => ?_⟩
      · rwa [List.eq_of_mem_replicate ht]
      · rwa [List.eq_of_mem_replicate ht]
    | succ k ih => exact (ih.cycle hc hnonneg hflux).2
  intro t ht
  by_cases hsome : 0 < c.maxPeriods
  · obtain ⟨n, hstops⟩ : ∃ n, c.Stops (c.curveAt Real.pi (fun x => x ^ (1 / 4 : ℝ)) absorbed)
        (solveSurfaceCurve Real.pi (fun x => x ^ (1 / 4 : ℝ)) absorbed c) n :=
      solveSurfaceCurve_stops hsome
    rw [hstops.temperatures] at ht
    exact ((hcolumn n).cycle hc hnonneg hflux).1 t ht
  · rw [solveSurfaceCurve, Nat.eq_zero_of_not_pos hsome] at ht
    cases ht

end Floor

end AstroMine.Worlds
