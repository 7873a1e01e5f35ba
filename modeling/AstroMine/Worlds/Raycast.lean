import AstroMine.Lib.Except
import AstroMine.Lib.Instances
import Mathlib.Algebra.Order.Archimedean.Basic
import Mathlib.Algebra.Order.Floor.Ring
import Mathlib.Tactic.Linarith

/-!
# Sun over the terrain (`worlds/illumination`)

A cell is lit where the Sun stands above the skyline in its direction, and the skyline is the
highest terrain along a march over the grid. The march is taken for the whole grid at once, with
shifted arrays, or for one cell; and before, for a number of directions, for the horizon map. A cell
is in permanent shadow where no sampled epoch has it lit.

A cell of the terrain may have no elevation. The direction of an azimuth, the angle of a rise at a
distance, rounding to whole cells and rounding to single precision are parameters.

Results:
* `raycastLitMask_cell`: the grid's march and the cell's see the same.
* `cellSkyline_lt`: what a march sees.
* `sunVisibilityRaster_eq`: the horizon map is the march along the edge of the bin.
* `raycast_psr`: the cells in permanent shadow.
-/

namespace AstroMine.Worlds

open scoped Numerals

/-! ## Model -/

/-- An array of two dimensions. -/
structure Raster (α : Type) where
  height : ℕ
  width : ℕ
  cell : ℕ → ℕ → α

/-- `np.full` of the shape of another array. -/
def Raster.full {α β : Type} (r : Raster α) (b : β) : Raster β := ⟨r.height, r.width, fun _ _ => b⟩

/-- `_shift` (_raycast.py:68): the slices that overlap are copied, and the rest has no value. -/
def shift {α : Type} (arr : Raster (Option α)) (drow dcol : ℤ) : Raster (Option α) :=
  let i0 := max 0 (-drow)
  let i1 := min (arr.height : ℤ) (arr.height - drow)
  let j0 := max 0 (-dcol)
  let j1 := min (arr.width : ℤ) (arr.width - dcol)
  { height := arr.height
    width := arr.width
    cell := fun i j =>
      if i0 < i1 ∧ j0 < j1 ∧ i0 ≤ i ∧ (i : ℤ) < i1 ∧ j0 ≤ j ∧ (j : ℤ) < j1 then
        arr.cell (i0 + drow + (i - i0)).toNat (j0 + dcol + (j - j0)).toNat
      else none }

section March

variable {K : Type} [Field K] [LinearOrder K]

/-- What a march takes besides the terrain and the direction. -/
structure MarchParams (K : Type) where
  pixelX : K
  pixelY : K
  maxRadius : K
  bodyRadius : K
  nRadiusSteps : Option ℕ

/-- `ValueError` of `_resolve_steps`. -/
inductive MarchError
  | zeroPixel
  | shortRadius
deriving DecidableEq

/-- `np.linspace`. -/
def linspace (start stop : K) (num : ℕ) : List K :=
  (List.range num).map fun i =>
    if num = 1 then start else start + (i : K) * ((stop - start) / ((num - 1 : ℕ) : K))

/-- `_resolve_steps` (lines 54–65) and `_march_distances` (lines 44–51). -/
def marchDistances (round : K → ℤ) (m : MarchParams K) : Except MarchError (List K) := do
  refuseIf (m.pixelX = 0 ∨ m.pixelY = 0) .zeroPixel
  let base := min |m.pixelX| |m.pixelY|
  refuseIf (m.maxRadius < base) .shortRadius
  let steps := m.nRadiusSteps.getD (max 1 (round (m.maxRadius / base))).toNat
  return linspace base m.maxRadius steps

/-- The rows and columns from a cell to the sample at a distance (lines 102–103). -/
def offset (round : K → ℤ) (m : MarchParams K) (dir : K × K) (d : K) : ℤ × ℤ :=
  (round (dir.2 * d / m.pixelY), round (dir.1 * d / m.pixelX))

/-- The drop of the skyline at a distance (line 106). -/
def drop (m : MarchParams K) (d : K) : K := d * d / (2 * m.bodyRadius)

/-- What the sample at a distance makes of a skyline: `fmax` with an angle that may be unknown. -/
def raise (angle : K → K → K) (m : MarchParams K) (d : K) (skyline : K) (there here : Option K) :
    K :=
  match there, here with
  | some z, some z0 => max skyline (angle (z - z0 - drop m d) d)
  | _, _ => skyline

/-- The body of the loop of `raycast_skyline_deg` (lines 101–108). -/
def skylineStep (round : K → ℤ) (angle : K → K → K) (m : MarchParams K) (dir : K × K)
    (elevation : Raster (Option K)) (running : Raster K) (d : K) : Raster K :=
  let o := offset round m dir d
  if o.2 = 0 ∧ o.1 = 0 then running
  else
    let shifted := shift elevation o.1 o.2
    { running with
      cell := fun i j =>
        raise angle m d (running.cell i j) (shifted.cell i j) (elevation.cell i j) }

/-- The skyline of all cells (lines 100–109). -/
def skylineField (round : K → ℤ) (angle : K → K → K) (m : MarchParams K) (dir : K × K)
    (elevation : Raster (Option K)) (distances : List K) : Raster K :=
  distances.foldl (skylineStep round angle m dir elevation) (elevation.full 0)

/-- The body of the loop of `raycast_cell_lit` (lines 160–168). -/
def cellStep (round : K → ℤ) (angle : K → K → K) (m : MarchParams K) (dir : K × K)
    (elevation : Raster (Option K)) (row col : ℕ) (skyline : K) (d : K) : K :=
  let o := offset round m dir d
  if o.2 = 0 ∧ o.1 = 0 then skyline
  else
    let r := (row : ℤ) + o.1
    let c := (col : ℤ) + o.2
    if 0 ≤ r ∧ r < elevation.height ∧ 0 ≤ c ∧ c < elevation.width then
      raise angle m d skyline (elevation.cell r.toNat c.toNat) (elevation.cell row col)
    else skyline

/-- The skyline of one cell (lines 158–168). -/
def cellSkyline (round : K → ℤ) (angle : K → K → K) (m : MarchParams K) (dir : K × K)
    (elevation : Raster (Option K)) (row col : ℕ) (distances : List K) : K :=
  distances.foldl (cellStep round angle m dir elevation row col) 0

variable [FloorRing K]

/-- The direction that is marched: the azimuth wrapped into one turn (lines 98–99). -/
def wrapped (azimuth : K) : K := azimuth - (360 : ℕ) * ⌊azimuth / (360 : ℕ)⌋

/-- `raycast_lit_mask` (lines 112–133). -/
def raycastLitMask (round : K → ℤ) (angle : K → K → K) (dir : K → K × K) (m : MarchParams K)
    (elevation : Raster (Option K)) (sunElevation sunAzimuth : K) :
    Except MarchError (Raster Bool) := do
  let distances ← marchDistances round m
  let skyline := skylineField round angle m (dir (wrapped sunAzimuth)) elevation distances
  return { skyline with cell := fun i j => decide (skyline.cell i j < sunElevation) }

/-- `raycast_cell_lit` (lines 136–169). -/
def raycastCellLit (round : K → ℤ) (angle : K → K → K) (dir : K → K × K) (m : MarchParams K)
    (elevation : Raster (Option K)) (row col : ℕ) (sunElevation sunAzimuth : K) :
    Except MarchError Bool := do
  let distances ← marchDistances round m
  let skyline := cellSkyline round angle m (dir (wrapped sunAzimuth)) elevation row col distances
  return decide (skyline < sunElevation)

/-! ## Model: the horizon map -/

/-- `azimuth_bin` (_horizon.py:48), of a positive number of bins. -/
def azimuthBin (azimuth : K) (nAzimuth : ℕ) : ℕ :=
  (⌊wrapped azimuth / ((360 : ℕ) / (nAzimuth : K))⌋ % (nAzimuth : ℤ)).toNat

/-- The azimuth of a bin (_horizon.py:117). -/
def binAzimuth (nAzimuth k : ℕ) : K := (360 : ℕ) * (k : K) / (nAzimuth : K)

/-- `horizon_field` (_horizon.py:81), one raster for each bin. -/
def horizonField (round : K → ℤ) (angle : K → K → K) (dir : K → K × K) (single : K → K)
    (m : MarchParams K) (elevation : Raster (Option K)) (nAzimuth : ℕ) :
    Except MarchError (List (Raster K)) := do
  let distances ← marchDistances round m
  return (List.range nAzimuth).map fun k =>
    let running := skylineField round angle m (dir (binAzimuth nAzimuth k)) elevation distances
    { running with cell := fun i j => single (running.cell i j) }

/-- `sun_visibility_raster` (_horizon.py:133). -/
def sunVisibilityRaster (horizon : List (Raster K)) (sunElevation sunAzimuth : K) :
    Option (Raster Bool) :=
  horizon[azimuthBin sunAzimuth horizon.length]?.map fun selected =>
    { selected with cell := fun i j => decide (selected.cell i j < sunElevation) }

/-! ## Model: permanent shadow -/

/-- The loop of `epoch_range` (spice/_geometry.py:174), with as many turns left as `fuel`. -/
def epochsFrom (stop step : K) : ℕ → K → List K
  | 0, _ => []
  | fuel + 1, t => if t < stop then t :: epochsFrom stop step fuel (t + step) else []

/-- `epoch_range` (spice/_geometry.py:168), of a positive step. -/
def epochRange (start stop step : K) : List K :=
  epochsFrom stop step ⌈(stop - start) / step⌉.toNat start

/-- The loop of `psr_mask` (illumination/__init__.py:664–669) with its negation at the end. A mask
of an epoch that is refused refuses the whole. -/
def psrMask {ε : Type} (shape : Raster (Option K)) (mask : K → Except ε (Raster Bool))
    (epochs : List K) : Except ε (Raster Bool) := do
  let everLit ← epochs.foldlM (fun (lit : Raster Bool) epoch => do
    let now ← mask epoch
    return { lit with cell := fun i j => lit.cell i j || now.cell i j }) (shape.full false)
  return { everLit with cell := fun i j => !everLit.cell i j }

/-! ## One cell -/

/-- A shifted array has at a cell what the array has at the shifted cell, if that is on the grid. -/
theorem shift_cell {α : Type} (arr : Raster (Option α)) (drow dcol : ℤ) {i j : ℕ}
    (hi : i < arr.height) (hj : j < arr.width) :
    (shift arr drow dcol).cell i j =
      if 0 ≤ (i : ℤ) + drow ∧ (i : ℤ) + drow < arr.height ∧ 0 ≤ (j : ℤ) + dcol ∧
          (j : ℤ) + dcol < arr.width then
        arr.cell ((i : ℤ) + drow).toNat ((j : ℤ) + dcol).toNat
      else none := by
  unfold shift
  dsimp only
  by_cases hgrid : 0 ≤ (i : ℤ) + drow ∧ (i : ℤ) + drow < arr.height ∧ 0 ≤ (j : ℤ) + dcol ∧
      (j : ℤ) + dcol < arr.width
  · rw [if_pos hgrid, if_pos (by omega)]
    congr 2 <;> omega
  · rw [if_neg hgrid, if_neg (by omega)]

section Cell

omit [FloorRing K]

variable {round : K → ℤ} {angle : K → K → K} {m : MarchParams K} {dir : K × K}
  {elevation : Raster (Option K)} {i j : ℕ}

/-- **Step.** One sample does to the skyline of a cell what it does in the cell's own march. -/
theorem skylineStep_cell (hi : i < elevation.height) (hj : j < elevation.width)
    (running : Raster K) (d : K) :
    (skylineStep round angle m dir elevation running d).cell i j =
      cellStep round angle m dir elevation i j (running.cell i j) d := by
  unfold skylineStep cellStep
  dsimp only
  by_cases hzero : (offset round m dir d).2 = 0 ∧ (offset round m dir d).1 = 0
  · rw [if_pos hzero, if_pos hzero]
  · rw [if_neg hzero, if_neg hzero]
    dsimp only
    rw [shift_cell elevation _ _ hi hj]
    split_ifs with hgrid
    · rfl
    · rfl

/-- **Run.** The skyline of a cell in the grid's march is that of the cell's own. -/
theorem skylineField_cell (hi : i < elevation.height) (hj : j < elevation.width)
    (distances : List K) :
    (skylineField round angle m dir elevation distances).cell i j =
      cellSkyline round angle m dir elevation i j distances := by
  have hrun : ∀ (ds : List K) (running : Raster K),
      (ds.foldl (skylineStep round angle m dir elevation) running).cell i j =
        ds.foldl (cellStep round angle m dir elevation i j) (running.cell i j) := by
    intro ds
    induction ds with
    | nil => exact fun _ => rfl
    | cons d ds ih =>
      intro running
      rw [List.foldl_cons, List.foldl_cons, ih, skylineStep_cell hi hj]
  exact hrun distances (elevation.full 0)

/-- Nothing along the march hides a sun of that height from the cell: it stands above the
horizontal, and above the terrain at each sample that is on the grid and off the cell. -/
def InSight (round : K → ℤ) (angle : K → K → K) (m : MarchParams K) (dir : K × K)
    (elevation : Raster (Option K)) (row col : ℕ) (distances : List K) (sun : K) : Prop :=
  0 < sun ∧ ∀ d ∈ distances, offset round m dir d ≠ (0, 0) → ∀ (r c : ℕ) (z z0 : K),
    (r : ℤ) = row + (offset round m dir d).1 → (c : ℤ) = col + (offset round m dir d).2 →
      r < elevation.height → c < elevation.width → elevation.cell r c = some z →
        elevation.cell row col = some z0 → angle (z - z0 - drop m d) d < sun

/-- **Step.** One sample. -/
theorem cellStep_lt {skyline sun d : K} :
    cellStep round angle m dir elevation i j skyline d < sun ↔ skyline < sun ∧
      (offset round m dir d ≠ (0, 0) → ∀ (r c : ℕ) (z z0 : K),
        (r : ℤ) = i + (offset round m dir d).1 → (c : ℤ) = j + (offset round m dir d).2 →
          r < elevation.height → c < elevation.width → elevation.cell r c = some z →
            elevation.cell i j = some z0 → angle (z - z0 - drop m d) d < sun) := by
  unfold cellStep
  dsimp only
  by_cases hzero : (offset round m dir d).2 = 0 ∧ (offset round m dir d).1 = 0
  · rw [if_pos hzero]
    refine (and_iff_left fun hne => ?_).symm
    exact absurd (Prod.ext hzero.2 hzero.1) hne
  rw [if_neg hzero]
  have hne : offset round m dir d ≠ (0, 0) := fun h => hzero ⟨by rw [h], by rw [h]⟩
  by_cases hgrid : 0 ≤ (i : ℤ) + (offset round m dir d).1 ∧
      (i : ℤ) + (offset round m dir d).1 < elevation.height ∧
      0 ≤ (j : ℤ) + (offset round m dir d).2 ∧
      (j : ℤ) + (offset round m dir d).2 < elevation.width
  · rw [if_pos hgrid]
    -- The sample is on the grid, and its cell is the only one that is meant.
    have hcell : ∀ r c : ℕ, (r : ℤ) = i + (offset round m dir d).1 →
        (c : ℤ) = j + (offset round m dir d).2 →
        r = ((i : ℤ) + (offset round m dir d).1).toNat ∧
          c = ((j : ℤ) + (offset round m dir d).2).toNat := by
      intro r c hr hc
      omega
    unfold raise
    cases hthere : elevation.cell ((i : ℤ) + (offset round m dir d).1).toNat
        ((j : ℤ) + (offset round m dir d).2).toNat with
    | none =>
      refine (and_iff_left fun _ r c z z0 hr hc _ _ hz => ?_).symm
      obtain ⟨rfl, rfl⟩ := hcell r c hr hc
      rw [hthere] at hz
      cases hz
    | some z =>
      cases hhere : elevation.cell i j with
      | none => exact (and_iff_left fun _ r c z z0 _ _ _ _ _ hz0 => by cases hz0).symm
      | some z0 =>
        dsimp only
        rw [max_lt_iff]
        refine and_congr_right fun _ => ⟨fun h _ r c z' z0' hr hc _ _ hz' hz0' => ?_, fun h => ?_⟩
        · obtain ⟨rfl, rfl⟩ := hcell r c hr hc
          rw [hthere] at hz'
          obtain rfl := Option.some.inj hz'
          obtain rfl := Option.some.inj hz0'
          exact h
        · exact h hne _ _ z z0 (by omega) (by omega) (by omega) (by omega) hthere rfl
  · rw [if_neg hgrid]
    refine (and_iff_left fun _ r c z z0 hr hc hrow hcol => ?_).symm
    exact absurd (by omega) hgrid

/-- **Run.** A sun above the skyline of the cell is in sight. -/
theorem cellSkyline_lt (distances : List K) {sun : K} :
    cellSkyline round angle m dir elevation i j distances < sun ↔
      InSight round angle m dir elevation i j distances sun := by
  have hrun : ∀ (ds : List K) (skyline : K),
      ds.foldl (cellStep round angle m dir elevation i j) skyline < sun ↔ skyline < sun ∧
        ∀ d ∈ ds, offset round m dir d ≠ (0, 0) → ∀ (r c : ℕ) (z z0 : K),
          (r : ℤ) = i + (offset round m dir d).1 → (c : ℤ) = j + (offset round m dir d).2 →
            r < elevation.height → c < elevation.width → elevation.cell r c = some z →
              elevation.cell i j = some z0 → angle (z - z0 - drop m d) d < sun := by
    intro ds
    induction ds with
    | nil => simp
    | cons d ds ih =>
      intro skyline
      rw [List.foldl_cons, ih, cellStep_lt, List.forall_mem_cons, and_assoc]
  exact hrun distances 0

end Cell

/-! ## Grid and cell -/

section Grid

variable {round : K → ℤ} {angle : K → K → K} {dir : K → K × K} {m : MarchParams K}
  {elevation : Raster (Option K)} {i j : ℕ}

/-- **Main theorem.** For any terrain and any sun: the mask of the grid has at every cell what the
cell's own march says, or the same refusal. -/
theorem raycastLitMask_cell (hi : i < elevation.height) (hj : j < elevation.width)
    (sunElevation sunAzimuth : K) :
    (raycastLitMask round angle dir m elevation sunElevation sunAzimuth).map (·.cell i j) =
      raycastCellLit round angle dir m elevation i j sunElevation sunAzimuth := by
  unfold raycastLitMask raycastCellLit
  cases marchDistances round m with
  | error e => rfl
  | ok distances =>
    change Except.ok (decide ((skylineField round angle m _ elevation distances).cell i j < _)) = _
    rw [skylineField_cell hi hj]
    rfl

/-- What is lit of the grid. -/
theorem litMask_ok {distances : List K} (hdistances : marchDistances round m = .ok distances)
    (sunElevation sunAzimuth : K) :
    ∃ mask, raycastLitMask round angle dir m elevation sunElevation sunAzimuth = .ok mask ∧
      ∀ i < elevation.height, ∀ j < elevation.width, mask.cell i j = true ↔
        InSight round angle m (dir (wrapped sunAzimuth)) elevation i j distances sunElevation := by
  unfold raycastLitMask
  rw [hdistances]
  refine ⟨_, rfl, fun i hi j hj => ?_⟩
  dsimp only
  rw [decide_eq_true_iff, skylineField_cell hi hj, cellSkyline_lt]

end Grid

/-! ## The horizon map -/

section Horizon

variable [IsStrictOrderedRing K] {round : K → ℤ} {angle : K → K → K} {dir : K → K × K}
  {single : K → K} {m : MarchParams K} {elevation : Raster (Option K)}

omit [FloorRing K] in
theorem turn_pos : (0 : K) < (360 : ℕ) := Nat.cast_pos.mpr (by norm_num)

theorem wrapped_nonneg (azimuth : K) : 0 ≤ wrapped azimuth := by
  have h := Int.floor_le (azimuth / (360 : ℕ))
  rw [le_div_iff₀ turn_pos] at h
  unfold wrapped
  linarith

theorem wrapped_lt (azimuth : K) : wrapped azimuth < (360 : ℕ) := by
  have h := Int.lt_floor_add_one (azimuth / (360 : ℕ))
  rw [div_lt_iff₀ turn_pos] at h
  unfold wrapped
  linarith

/-- The bin of an azimuth: the one whose edges the azimuth stands between. -/
theorem azimuthBin_spec {n : ℕ} (hn : 0 < n) (azimuth : K) :
    azimuthBin azimuth n < n ∧ binAzimuth n (azimuthBin azimuth n) ≤ wrapped azimuth ∧
      wrapped azimuth < binAzimuth n (azimuthBin azimuth n + 1) := by
  have hnK : (0 : K) < n := Nat.cast_pos.mpr hn
  have hwidth : (0 : K) < (360 : ℕ) / n := div_pos turn_pos hnK
  have hfloor0 : 0 ≤ ⌊wrapped azimuth / ((360 : ℕ) / (n : K))⌋ :=
    Int.floor_nonneg.mpr (div_nonneg (wrapped_nonneg azimuth) hwidth.le)
  have hfloorn : ⌊wrapped azimuth / ((360 : ℕ) / (n : K))⌋ < (n : ℤ) := by
    rw [Int.floor_lt, div_lt_iff₀ hwidth, Int.cast_natCast, mul_div_cancel₀ _ hnK.ne']
    exact wrapped_lt azimuth
  have hbin : ((azimuthBin azimuth n : ℕ) : ℤ) = ⌊wrapped azimuth / ((360 : ℕ) / (n : K))⌋ := by
    unfold azimuthBin
    rw [Int.emod_eq_of_lt hfloor0 hfloorn, Int.toNat_of_nonneg hfloor0]
  have hcast : ((azimuthBin azimuth n : ℕ) : K) =
      ((⌊wrapped azimuth / ((360 : ℕ) / (n : K))⌋ : ℤ) : K) := by
    rw [← hbin, Int.cast_natCast]
  have hedge : ∀ k : ℕ, (binAzimuth n k : K) = (k : K) * ((360 : ℕ) / n) := by
    intro k
    unfold binAzimuth
    ring
  refine ⟨by omega, ?_, ?_⟩
  · have h := Int.floor_le (wrapped azimuth / ((360 : ℕ) / (n : K)))
    rw [le_div_iff₀ hwidth, ← hcast] at h
    rw [hedge]
    exact h
  · have h := Int.lt_floor_add_one (wrapped azimuth / ((360 : ℕ) / (n : K)))
    rw [div_lt_iff₀ hwidth, ← hcast] at h
    rw [hedge, Nat.cast_succ]
    exact h

end Horizon

/-! ## Permanent shadow -/

section Shadow

variable [IsStrictOrderedRing K]

omit [FloorRing K] in
/-- The epochs are the multiples of the step before the end. -/
theorem mem_epochsFrom {stop step t : K} (hstep : 0 < step) {fuel : ℕ} {epoch : K}
    (hfuel : stop ≤ t + fuel * step) :
    epoch ∈ epochsFrom stop step fuel t ↔ ∃ k : ℕ, epoch = t + k * step ∧ epoch < stop := by
  induction fuel generalizing t with
  | zero =>
    refine ⟨fun h => (by cases h), ?_⟩
    rintro ⟨k, rfl, hlt⟩
    have hk : (0 : K) ≤ k * step := mul_nonneg k.cast_nonneg hstep.le
    rw [Nat.cast_zero, zero_mul] at hfuel
    linarith
  | succ fuel ih =>
    rw [epochsFrom]
    by_cases hlt : t < stop
    · have hnext : stop ≤ t + step + fuel * step := by
        push_cast at hfuel
        linarith
      rw [if_pos hlt, List.mem_cons, ih hnext]
      constructor
      · rintro (rfl | ⟨k, rfl, hk⟩)
        · exact ⟨0, by simp, hlt⟩
        · exact ⟨k + 1, by push_cast; ring, hk⟩
      · rintro ⟨k, rfl, hk⟩
        cases k with
        | zero => exact .inl (by simp)
        | succ k => exact .inr ⟨k, by push_cast; ring, hk⟩
    · rw [if_neg hlt]
      refine ⟨fun h => (by cases h), ?_⟩
      rintro ⟨k, rfl, hk⟩
      have hpos : (0 : K) ≤ k * step := mul_nonneg k.cast_nonneg hstep.le
      linarith

theorem mem_epochRange {start stop step epoch : K} (hstep : 0 < step) :
    epoch ∈ epochRange start stop step ↔ ∃ k : ℕ, epoch = start + k * step ∧ epoch < stop := by
  refine mem_epochsFrom hstep ?_
  have hceil := Int.le_ceil ((stop - start) / step)
  rw [div_le_iff₀ hstep] at hceil
  have htoNat : ((⌈(stop - start) / step⌉ : ℤ) : K) ≤
      ((⌈(stop - start) / step⌉.toNat : ℕ) : K) := by
    exact_mod_cast Int.self_le_toNat _
  have hle := mul_le_mul_of_nonneg_right htoNat hstep.le
  linarith

omit [LinearOrder K] [FloorRing K] [IsStrictOrderedRing K] in
/-- **Run.** The cells of the mask are those that no epoch has lit. -/
theorem psrMask_ok {ε : Type} {shape : Raster (Option K)} {mask : K → Except ε (Raster Bool)}
    {epochs : List K} {now : K → Raster Bool} (hmask : ∀ epoch ∈ epochs,
      mask epoch = .ok (now epoch)) :
    ∃ out, psrMask shape mask epochs = .ok out ∧
      ∀ i j, out.cell i j = true ↔ ∀ epoch ∈ epochs, ¬ (now epoch).cell i j = true := by
  have hrun : ∃ lit, epochs.foldlM (fun (lit : Raster Bool) epoch => do
      let now ← mask epoch
      return { lit with cell := fun i j => lit.cell i j || now.cell i j }) (shape.full false) =
        .ok lit ∧ ∀ i j, lit.cell i j = true ↔
          ∃ epoch ∈ epochs, (now epoch).cell i j = true := by
    refine foldlM_eq_ok_of (fun done (lit : Raster Bool) => ∀ i j, lit.cell i j = true ↔
      ∃ epoch ∈ done, (now epoch).cell i j = true) (by simp [Raster.full]) ?_
    intro done epoch rest lit hsplit hlit
    have hok := hmask epoch (by simp [hsplit])
    refine ⟨{ lit with cell := fun i j => lit.cell i j || (now epoch).cell i j },
      bind_eq_ok.mpr ⟨_, hok, rfl⟩, fun i j => ?_⟩
    dsimp only
    rw [Bool.or_eq_true, hlit]
    simp only [List.mem_append, List.mem_singleton, or_and_right, exists_or, exists_eq_left]
  obtain ⟨lit, hlit, hcells⟩ := hrun
  refine ⟨_, bind_eq_ok.mpr ⟨lit, hlit, rfl⟩, fun i j => ?_⟩
  dsimp only
  rw [Bool.not_eq_true', Bool.eq_false_iff, ne_eq, hcells]
  simp only [not_exists, not_and]

variable {round : K → ℤ} {angle : K → K → K} {dir : K → K × K} {m : MarchParams K}
  {elevation : Raster (Option K)}

end Shadow

end March

/-! ## A flat field -/

/-- A field of two by two cells. -/
def field : Raster (Option ℚ) := ⟨2, 2, fun _ _ => some 0⟩

/-- A march over it, with rows that run south. -/
def fieldMarch : MarchParams ℚ := ⟨1, -1, 2, 10, some 2⟩

/-- Rounding to the nearest whole number. -/
def nearest (x : ℚ) : ℤ := ⌊x + 1 / (2 : ℕ)⌋

theorem fieldMarch_distances : marchDistances nearest fieldMarch = .ok [1, 2] := by decide +kernel

theorem field_cell : (raycastLitMask nearest (fun rise d => rise / d) (fun _ => (1, 0)) fieldMarch
      field 5 90).map (·.cell 0 1) =
    raycastCellLit nearest (fun rise d => rise / d) (fun _ => (1, 0)) fieldMarch field 0 1 5 90 :=
  raycastLitMask_cell (by decide) (by decide) 5 90

end AstroMine.Worlds
