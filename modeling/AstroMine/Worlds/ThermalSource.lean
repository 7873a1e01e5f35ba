import AstroMine.Lib.Except
import AstroMine.Lib.Memo
import AstroMine.Worlds.Diurnal
import Mathlib.Algebra.Order.Floor.Ring
import Mathlib.Analysis.Convex.Basic

/-!
# Temperatures under the real sun (`worlds/thermal/_illumination.py`)

The forcing of a cell's column are samples of the sun over one period, between which is interpolated
around the period, and so is the curve that the column gives back. The curve of a cell is kept from
the first place in it that was asked for.

Where the sun stands, and which cell a place is in, are parameters, and so are the sine of an angle
in degrees, `pi` and the fourth root.

Results:
* `periodic_mem`: interpolation stays in a convex set that has the samples.
* `temperatures_first`: what a sequence of queries is answered.
* `temperatures_floor`: no answer is colder than what the surroundings alone keep up.
-/

namespace AstroMine.Worlds

open scoped Numerals

/-! ## Model -/

section Model

variable {K : Type} [Field K] [LinearOrder K] [FloorRing K]

/-- `np.interp` at points in order. -/
def interp (x : K) : List (K × K) → K
  | [] => 0
  | [p] => p.2
  | p :: q :: rest =>
    if x < p.1 then p.2
    else if x < q.1 then (q.2 - p.2) / (q.1 - p.1) * (x - p.1) + p.2
    else interp x (q :: rest)

/-- The samples at their phases, from the first on. -/
def phaseGrid (n : ℕ) (first : ℕ) : List K → List (K × K)
  | [] => []
  | v :: vs => ((first : K) / (n : K), v) :: phaseGrid n (first + 1) vs

/-- The interpolation of samples of one period (lines 70–84, and `DiurnalCurve.temperature_at`). -/
def periodic (values : List K) (phase : K) : K :=
  interp (Int.fract phase) (phaseGrid values.length 0 values ++ [(1, values.headD 0)])

/-- `solar_flux` (provider/_geometry.py:111), where `sin` takes degrees. -/
def solarFlux (sin : K → K) (solarConstant elevation : K) (lit : Bool) : K :=
  if lit then
    if 0 < sin elevation then solarConstant * sin elevation else 0
  else 0

/-- What `IlluminationThermalSource` is built of. -/
structure SourceParams (K : Type) where
  column : ColumnParams K
  albedo : K
  solarConstant : K
  reference : K
  nSamples : ℕ

/-- What the source asks of the world: whether and how high the sun stands at a place and a time,
and the cell of a place. -/
structure Sky (K ε : Type) where
  illuminationAt : K × K → K → Except ε (Bool × K)
  rowcol : K × K → ℤ × ℤ

variable {ε : Type} [HasSqrt K] (sin : K → K) (pi : K) (fourthRoot : K → K) (sky : Sky K ε)
  (s : SourceParams K)

/-- The flux that is absorbed at a sample (lines 73–78). -/
def SourceParams.sample (place : K × K) (i : ℕ) : Except ε K := do
  let phase : K := (i : K) / (s.nSamples : K)
  let sun ← sky.illuminationAt place (s.reference + phase * s.column.period)
  return (1 - s.albedo) * solarFlux sin s.solarConstant sun.2 sun.1

/-- `solve_illumination_driven_curve` (lines 89–148): the temperatures of the curve. -/
def SourceParams.curve (place : K × K) : Except ε (List K) := do
  let absorbed ← (List.range s.nSamples).mapM (s.sample sin sky place)
  return (solveSurfaceCurve pi fourthRoot (periodic absorbed) s.column).1

/-- `curve_at` (lines 178–193). -/
def SourceParams.curveAt (cache : Dict (ℤ × ℤ) (List K)) (place : K × K) :
    Except ε (List K) × Dict (ℤ × ℤ) (List K) :=
  Memo.request sky.rowcol (s.curve sin pi fourthRoot sky) cache place

/-- The answer to a query for a time, from the curve (lines 200–201). -/
def SourceParams.read (time : K) (temps : List K) : K :=
  periodic temps ((time - s.reference) / s.column.period)

/-- `temperature_k` (lines 195–201), asked of a place and a time. -/
def SourceParams.temperature (cache : Dict (ℤ × ℤ) (List K)) (q : (K × K) × K) :
    Except ε K × Dict (ℤ × ℤ) (List K) :=
  let curve := s.curveAt sin pi fourthRoot sky cache q.1
  (curve.1.map (s.read q.2), curve.2)

/-- A sequence of queries. -/
def SourceParams.temperatures (cache : Dict (ℤ × ℤ) (List K)) :
    List ((K × K) × K) → List (Except ε K)
  | [] => []
  | q :: qs => (s.temperature sin pi fourthRoot sky cache q).1 ::
      temperatures (s.temperature sin pi fourthRoot sky cache q).2 qs

end Model

/-! ## The cache -/

section Cache

variable {K ε : Type} [Field K] [LinearOrder K] [FloorRing K] [HasSqrt K] {sin : K → K} {pi : K}
  {fourthRoot : K → K} {sky : Sky K ε} {s : SourceParams K}

theorem temperatures_eq (cache : Dict (ℤ × ℤ) (List K)) (qs : List ((K × K) × K)) :
    s.temperatures sin pi fourthRoot sky cache qs =
      List.zipWith (fun curve q => curve.map (s.read q.2))
        (Memo.serve sky.rowcol (s.curve sin pi fourthRoot sky) cache (qs.map Prod.fst)) qs := by
  induction qs generalizing cache with
  | nil => rfl
  | cons q qs ih => exact congrArg (_ :: ·) (ih _)

/-- **Main theorem.** Whatever the queries are and in whatever order: a query is answered from the
curve of the first place in its cell that was asked for and had one, and where there is none, from
the curve of its own place. -/
theorem temperatures_first (qs : List ((K × K) × K)) :
    s.temperatures sin pi fourthRoot sky .empty qs =
      List.zipWith (fun curve q => curve.map (s.read q.2))
        (Memo.inOrder sky.rowcol (s.curve sin pi fourthRoot sky) [] (qs.map Prod.fst)) qs := by
  rw [temperatures_eq, Memo.serve_eq_first]

end Cache

/-! ## Interpolation -/

section Interpolation

variable {K : Type} [Field K] [LinearOrder K] [IsStrictOrderedRing K]

/-- Interpolation stays in a convex set that has the values. -/
theorem interp_mem {S : Set K} (hS : Convex K S) {x : K} {ps : List (K × K)} (hne : ps ≠ [])
    (hps : ∀ p ∈ ps, p.2 ∈ S) : interp x ps ∈ S := by
  induction ps with
  | nil => exact absurd rfl hne
  | cons p ps ih =>
    cases ps with
    | nil => exact hps p List.mem_cons_self
    | cons q rest =>
      have hp := hps p List.mem_cons_self
      have hq := hps q (List.mem_cons_of_mem p List.mem_cons_self)
      rw [interp]
      by_cases hlow : x < p.1
      · rwa [if_pos hlow]
      rw [if_neg hlow]
      by_cases hhigh : x < q.1
      · rw [if_pos hhigh]
        -- The point divides the interval in the ratio `t`.
        have hwidth : 0 < q.1 - p.1 := sub_pos.mpr ((not_lt.mp hlow).trans_lt hhigh)
        set t := (x - p.1) / (q.1 - p.1) with ht
        have ht0 : 0 ≤ t := div_nonneg (sub_nonneg.mpr (not_lt.mp hlow)) hwidth.le
        have ht1 : t ≤ 1 := (div_le_one hwidth).mpr (by linarith)
        have hmem := hS hp hq (sub_nonneg.mpr ht1) ht0 (sub_add_cancel 1 t)
        rw [smul_eq_mul, smul_eq_mul] at hmem
        convert hmem using 1
        rw [ht]
        field_simp
        ring
      · rw [if_neg hhigh]
        exact ih (List.cons_ne_nil q rest) fun r hr => hps r (List.mem_cons_of_mem p hr)

omit [LinearOrder K] [IsStrictOrderedRing K] in
theorem mem_phaseGrid {n first : ℕ} {values : List K} {p : K × K}
    (h : p ∈ phaseGrid n first values) : p.2 ∈ values := by
  induction values generalizing first with
  | nil => cases h
  | cons v vs ih =>
    rcases List.mem_cons.mp h with rfl | h
    · exact List.mem_cons_self
    · exact List.mem_cons_of_mem v (ih h)

theorem periodic_mem [FloorRing K] {S : Set K} (hS : Convex K S) {values : List K}
    (hne : values ≠ []) (hvalues : ∀ v ∈ values, v ∈ S) (phase : K) :
    periodic values phase ∈ S := by
  refine interp_mem hS (List.append_ne_nil_of_right_ne_nil _ (List.cons_ne_nil _ _)) fun p hp => ?_
  rcases List.mem_append.mp hp with hp | hp
  · exact hvalues p.2 (mem_phaseGrid hp)
  · obtain rfl := List.mem_singleton.mp hp
    obtain ⟨v, vs, rfl⟩ := List.exists_cons_of_ne_nil hne
    exact hvalues v List.mem_cons_self

end Interpolation

/-! ## The floor -/

section Floor

variable {ε : Type} {sin : ℝ → ℝ} {sky : Sky ℝ ε} {s : SourceParams ℝ} {m : ℝ}

/-- What is absorbed at a sample is not negative. -/
theorem sample_nonneg (halbedo : s.albedo ≤ 1) (hsolar : 0 ≤ s.solarConstant) {place : ℝ × ℝ}
    {i : ℕ} {flux : ℝ} (h : s.sample sin sky place i = .ok flux) : 0 ≤ flux := by
  obtain ⟨sun, -, h⟩ := bind_eq_ok.mp h
  obtain rfl := Except.ok.inj h
  refine mul_nonneg (sub_nonneg.mpr halbedo) ?_
  unfold solarFlux
  by_cases hlit : sun.1 = true
  · rw [if_pos hlit]
    by_cases hup : 0 < sin sun.2
    · rw [if_pos hup]
      exact mul_nonneg hsolar hup.le
    · rw [if_neg hup]
  · rw [if_neg hlit]

/-- The curve of a place is above the floor. -/
theorem curve_floor (hc : s.column.Valid) (hsamples : 0 < s.nSamples)
    (hperiods : 0 < s.column.maxPeriods) (halbedo : s.albedo ≤ 1) (hsolar : 0 ≤ s.solarConstant)
    (hm : 0 ≤ m) (hflux : s.column.emissivity * stefanBoltzmann * m ^ 4 ≤ s.column.environment)
    (hinit : ∀ t ∈ s.column.tInit, 0 < t ∧ m ≤ t) {place : ℝ × ℝ} {temps : List ℝ}
    (h : s.curve sin Real.pi (fun x => x ^ (1 / 4 : ℝ)) sky place = .ok temps) :
    temps ≠ [] ∧ ∀ t ∈ temps, 0 < t ∧ m ≤ t := by
  obtain ⟨absorbed, habsorbed, h⟩ := bind_eq_ok.mp h
  obtain rfl := Except.ok.inj h
  have hnonneg : ∀ flux ∈ absorbed, flux ∈ Set.Ici (0 : ℝ) :=
    forall_of_mapM habsorbed fun i flux => sample_nonneg halbedo hsolar
  have hlen : absorbed.length = s.nSamples := by
    rw [← (mapM_eq_ok.mp habsorbed).length_eq, List.length_range]
  have hne : absorbed ≠ [] := by
    rw [← List.length_pos_iff, hlen]
    exact hsamples
  have hforcing : ∀ phase, s.column.emissivity * stefanBoltzmann * m ^ 4 ≤
      periodic absorbed phase + s.column.environment := by
    intro phase
    have hphase : 0 ≤ periodic absorbed phase := periodic_mem (convex_Ici 0) hne hnonneg phase
    linarith
  obtain ⟨n, hstops⟩ : ∃ n, s.column.Stops
      (s.column.curveAt Real.pi (fun x => x ^ (1 / 4 : ℝ)) (periodic absorbed))
      (solveSurfaceCurve Real.pi (fun x => x ^ (1 / 4 : ℝ)) (periodic absorbed) s.column) n :=
    solveSurfaceCurve_stops hperiods
  constructor
  · rw [hstops.temperatures, ← List.length_pos_iff, ColumnParams.curveAt,
      ColumnParams.length_cycle]
    exact hc.nPhase
  · exact surfaceCurve_floor hc hm hforcing hinit

/-- **Main theorem.** Whatever the sun does, and whatever is asked in whatever order: no answer is
at absolute zero or below, or colder than the temperature that radiates what the surroundings give
alone. -/
theorem temperatures_floor (hc : s.column.Valid) (hsamples : 0 < s.nSamples)
    (hperiods : 0 < s.column.maxPeriods) (halbedo : s.albedo ≤ 1) (hsolar : 0 ≤ s.solarConstant)
    (hm : 0 ≤ m) (hflux : s.column.emissivity * stefanBoltzmann * m ^ 4 ≤ s.column.environment)
    (hinit : ∀ t ∈ s.column.tInit, 0 < t ∧ m ≤ t) (qs : List ((ℝ × ℝ) × ℝ)) {t : ℝ}
    (ht : .ok t ∈ s.temperatures sin Real.pi (fun x => x ^ (1 / 4 : ℝ)) sky .empty qs) :
    0 < t ∧ m ≤ t := by
  rw [temperatures_eq, Memo.serve_eq_first] at ht
  rw [← List.map_uncurry_zip_eq_zipWith] at ht
  obtain ⟨⟨curve, q⟩, hmem, hread⟩ := List.mem_map.mp ht
  obtain ⟨place, hplace⟩ := Memo.exists_of_mem_inOrder (List.of_mem_zip hmem).1
  obtain ⟨temps, htemps, rfl⟩ := map_eq_ok.mp hread
  obtain ⟨hne, hall⟩ :=
    curve_floor hc hsamples hperiods halbedo hsolar hm hflux hinit (hplace.trans htemps)
  exact periodic_mem ((convex_Ioi 0).inter (convex_Ici m)) hne hall _

/-- A source for a crater floor, with one sample. -/
noncomputable def shadowed : SourceParams ℝ where
  column := craterFloor
  albedo := (12 : ℕ) / (100 : ℕ)
  solarConstant := (1361 : ℕ)
  reference := 0
  nSamples := 1

/-- A sky where the sun never rises. -/
def darkSky : Sky ℝ String := ⟨fun _ _ => .ok (false, 0), fun _ => (0, 0)⟩

theorem shadowed_floor : ∃ t, .ok t ∈ shadowed.temperatures Real.sin Real.pi
      (fun x => x ^ (1 / 4 : ℝ)) darkSky .empty [((0, 0), 0)] ∧ 0 < t ∧ 40 ≤ t := by
  have hanswered : ∃ t, .ok t ∈ shadowed.temperatures Real.sin Real.pi
      (fun x => x ^ (1 / 4 : ℝ)) darkSky .empty [((0, 0), 0)] := ⟨_, List.mem_cons_self⟩
  obtain ⟨t, ht⟩ := hanswered
  have hone : (0 : ℕ) < 1 := one_pos
  refine ⟨t, ht, temperatures_floor craterFloor_valid hone ?_ ?_ ?_ ?_ ?_ ?_ _ ht⟩
  · norm_num [shadowed, craterFloor]
  · norm_num [shadowed]
  · norm_num [shadowed]
  · norm_num
  · norm_num [shadowed, craterFloor, stefanBoltzmann]
  · simp [shadowed, craterFloor]

end Floor

end AstroMine.Worlds
