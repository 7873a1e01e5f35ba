import AstroMine.Lib.ArgMin
import AstroMine.Lib.Instances
import AstroMine.Lib.RealVec
import AstroMine.Prospect.Field
import Mathlib.Algebra.Order.Group.Unbundled.Abs
import Mathlib.Algebra.Order.Star.Real
import Mathlib.Data.List.GetD
import Mathlib.Order.Interval.Set.Defs
import Mathlib.Tactic.FieldSimp

/-!
# Field archives (`prospect/publish/_zarr.py`)

A stored field is in one of three encodings. The quantile encoding of a Gaussian prior keeps its
quantiles at a list of levels, and reading it back takes the levels nearest to the quartiles and to
the median. The normal inverse CDF is a parameter, and so is the interquartile constant. An ensemble
has at least one realization.

Results:
* `nearestLevel_min`: the level of `np.argmin` is a nearest one.
* `nearest_le`: the level nearest to 1/4 does not exceed the level nearest to 3/4.
* `roundTrip_eq`: what an accepted encoding is read back as.
* `roundTrip_iff`: when a prior is read back from its quantile encoding as it was.
-/

namespace AstroMine.Prospect

open scoped Numerals

/-! ## Archives -/

/-- `Encoding` (line 77). -/
inductive Encoding
  | parametric
  | ensemble
  | quantile
  deriving DecidableEq

/-- What an archive raises, when it is built or read. -/
inductive ArchiveError
  | noArrays
  | levelCount
  | noLevels
  | levelOrder
  | sameLevels
  | prior (e : PriorError)
  deriving DecidableEq

section Archive

variable {K : Type} [Field K] [LinearOrder K] {grid : FieldGrid K}

/-- `FieldArchive` (lines 112–132). -/
structure FieldArchive (grid : FieldGrid K) where
  encoding : Encoding
  mean : Option (Plane grid)
  variance : Option (Plane grid)
  realizations : Option (Plane grid × List (Plane grid))
  quantiles : Option (List (Plane grid))
  quantileLevels : Option (List K)

/-- `__post_init__` (lines 134–170). -/
def FieldArchive.check (archive : FieldArchive grid) : Except ArchiveError Unit :=
  match archive.encoding with
  | .parametric =>
    refuseIf (archive.mean.isNone = true ∨ archive.variance.isNone = true) .noArrays
  | .ensemble => refuseIf (archive.realizations.isNone = true) .noArrays
  | .quantile =>
    match archive.quantiles, archive.quantileLevels with
    | some quantiles, some levels => do
      refuseIf (quantiles.length ≠ levels.length) .levelCount
      match levels.head?, levels.getLast? with
      | some first, some last =>
        refuseIf (¬ levels.IsChain (· < ·) ∨ first ≤ 0 ∨ 1 ≤ last) .levelOrder
      | _, _ => .error .noLevels
    | _, _ => .error .noArrays

/-- `quantile_encoded` (lines 208–228). -/
def quantileEncoded (quantiles : List (Plane grid)) (levels : List K) :
    Except ArchiveError (FieldArchive grid) := do
  let archive : FieldArchive grid :=
    { encoding := .quantile, mean := none, variance := none, realizations := none
      quantiles := some quantiles, quantileLevels := some levels }
  archive.check
  return archive

/-- `np.argmin(np.abs(levels - target))`: the first index of a nearest level. -/
def nearest (levels : List K) (target : K) : ℕ := argmin (fun l => |l - target|) levels

/-- The moments of a stack along its axis (`mean(axis=0)`, `var(axis=0)`). -/
def momentsOfStack (first : Plane grid) (rest : List (Plane grid)) : Plane grid × Plane grid :=
  let n : K := (rest.length + 1 : ℕ)
  let mean i j := ((first :: rest).map fun r => r i j).sum / n
  (mean, fun i j => ((first :: rest).map fun r => (r i j - mean i j) ^ 2).sum / n)

/-- `as_prior` (lines 231–260). -/
def FieldArchive.asPrior (iqrToSigma : K) (archive : FieldArchive grid) :
    Except ArchiveError (Prior grid) :=
  match archive.encoding with
  | .parametric =>
    match archive.mean, archive.variance with
    | some mean, some variance => (Prior.new mean variance).mapError .prior
    | _, _ => .error .noArrays
  | .ensemble =>
    match archive.realizations with
    | some (first, rest) =>
      (Prior.new (momentsOfStack first rest).1 (momentsOfStack first rest).2).mapError .prior
    | none => .error .noArrays
  | .quantile =>
    match archive.quantiles, archive.quantileLevels with
    | some quantiles, some levels =>
      let lower := nearest levels (1 / 4)
      let upper := nearest levels (3 / 4)
      let median := nearest levels (1 / 2)
      if lower = upper then .error .sameLevels
      else
        match quantiles[lower]?, quantiles[upper]?, quantiles[median]? with
        | some low, some high, some middle =>
          (Prior.new middle fun i j => ((high i j - low i j) / iqrToSigma) ^ 2).mapError .prior
        | _, _, _ => .error .noLevels
    | _, _ => .error .noArrays

/-- `quantile_grids` (lines 379–391), with the inverse CDF of the standard normal distribution. -/
def quantileGrids [HasSqrt K] (invCdf : K → K) (prior : Prior grid) (levels : List K) :
    List (Plane grid) :=
  levels.map fun q => fun i j => prior.mean i j + invCdf q * HasSqrt.sqrt (prior.variance i j)

/-- A prior encoded by its quantiles and read back. -/
def roundTrip [HasSqrt K] (invCdf : K → K) (prior : Prior grid) (levels : List K) :
    Except ArchiveError (Prior grid) := do
  let archive ← quantileEncoded (quantileGrids invCdf prior levels) levels
  archive.asPrior (invCdf (3 / 4) - invCdf (1 / 4))

end Archive

/-! ## The nearest level -/

section Nearest

variable {K : Type} [Field K] [LinearOrder K] {levels : List K}

/-- The level nearest to a target. -/
def nearestLevel (levels : List K) (target : K) : K := levels.getD (nearest levels target) 0

theorem getElem?_nearest (h : levels ≠ []) (target : K) :
    levels[nearest levels target]? = some (nearestLevel levels target) := by
  obtain ⟨hlt, -⟩ := argmin_spec (fun l => |l - target|) h
  rw [nearestLevel, nearest, List.getD_eq_getElem levels 0 hlt, List.getElem?_eq_getElem hlt]

theorem nearestLevel_mem (h : levels ≠ []) (target : K) : nearestLevel levels target ∈ levels :=
  List.mem_of_getElem? (getElem?_nearest h target)

theorem nearestLevel_min (h : levels ≠ []) (target : K) {l : K} (hl : l ∈ levels) :
    |nearestLevel levels target - target| ≤ |l - target| := by
  obtain ⟨hlt, hmin⟩ := argmin_spec (fun l => |l - target|) h
  rw [nearestLevel, nearest, List.getD_eq_getElem levels 0 hlt]
  exact hmin l hl

variable [IsStrictOrderedRing K]

/-- The nearest level is the target when the target is a level. -/
theorem nearestLevel_eq_iff (h : levels ≠ []) (target : K) :
    nearestLevel levels target = target ↔ target ∈ levels := by
  refine ⟨fun heq => heq ▸ nearestLevel_mem h target, fun hmem => ?_⟩
  have hmin := nearestLevel_min h target hmem
  rw [sub_self, abs_zero] at hmin
  exact sub_eq_zero.mp (abs_eq_zero.mp (le_antisymm hmin (abs_nonneg _)))

/-- Of two points, the upper is nearer to a target at most at their midpoint. -/
theorem add_le_of_nearer {a b s : K} (hba : b < a) (hs : |a - s| ≤ |b - s|) : 2 * s ≥ a + b := by
  have hsq := sq_le_sq.mpr hs
  have hnonneg : 0 ≤ (a - b) * (2 * s - (a + b)) := by linarith
  exact sub_nonneg.mp (nonneg_of_mul_nonneg_right hnonneg (sub_pos.mpr hba))

/-- Of two points, the lower is nearer to a target from their midpoint on. -/
theorem le_add_of_nearer {a b t : K} (hba : b < a) (ht : |b - t| ≤ |a - t|) : 2 * t ≤ a + b := by
  have hsq := sq_le_sq.mpr ht
  have hnonneg : 0 ≤ (a - b) * (a + b - 2 * t) := by linarith
  exact sub_nonneg.mp (nonneg_of_mul_nonneg_right hnonneg (sub_pos.mpr hba))

/-- The level nearest to 1/4 does not exceed the level nearest to 3/4. -/
theorem nearest_le (h : levels ≠ []) :
    nearestLevel levels (1 / 4) ≤ nearestLevel levels (3 / 4) := by
  by_contra hlt
  rw [not_le] at hlt
  have hs := add_le_of_nearer hlt (nearestLevel_min h (1 / 4) (nearestLevel_mem h (3 / 4)))
  have ht := le_add_of_nearer hlt (nearestLevel_min h (3 / 4) (nearestLevel_mem h (1 / 4)))
  linarith

end Nearest

/-! ## Accepted levels -/

section Accepted

variable {K : Type} [Field K] [LinearOrder K] {grid : FieldGrid K}

/-- What an accepted quantile archive holds. -/
theorem quantileEncoded_eq_ok {quantiles : List (Plane grid)} {levels : List K}
    {archive : FieldArchive grid} (h : quantileEncoded quantiles levels = .ok archive) :
    archive = { encoding := .quantile, mean := none, variance := none, realizations := none
                quantiles := some quantiles, quantileLevels := some levels } ∧
      levels ≠ [] ∧ levels.Pairwise (· < ·) ∧ ∀ l ∈ levels, 0 < l ∧ l < 1 := by
  rw [quantileEncoded, seq_eq_ok] at h
  obtain ⟨hcheck, harchive⟩ := h
  refine ⟨(Except.ok.inj harchive).symm, ?_⟩
  simp only [FieldArchive.check] at hcheck
  rw [seq_eq_ok] at hcheck
  obtain ⟨-, hlevels⟩ := hcheck
  cases levels with
  | nil => cases hlevels
  | cons l rest =>
    rw [List.head?_cons, List.getLast?_eq_some_getLast (List.cons_ne_nil l rest)] at hlevels
    have hvalid := refuseIf_eq_ok.1 hlevels
    simp only [not_or, not_not, not_le] at hvalid
    obtain ⟨hchain, hfirst, hlast⟩ := hvalid
    have hpairwise := List.isChain_iff_pairwise.mp hchain
    refine ⟨List.cons_ne_nil l rest, hpairwise, fun q hq => ⟨?_, ?_⟩⟩
    · rcases List.mem_cons.mp hq with rfl | hq
      · exact hfirst
      · exact lt_trans hfirst ((List.pairwise_cons.mp hpairwise).1 q hq)
    · exact lt_of_le_of_lt ((hpairwise.imp le_of_lt).rel_getLast hq) hlast

/-- Increasing levels within (0, 1) are accepted. -/
theorem quantileEncoded_of_valid {quantiles : List (Plane grid)} {levels : List K}
    (hlength : quantiles.length = levels.length) (hne : levels ≠ [])
    (hpairwise : levels.Pairwise (· < ·)) (hrange : ∀ l ∈ levels, 0 < l ∧ l < 1) :
    ∃ archive, quantileEncoded quantiles levels = .ok archive := by
  have hcheck : FieldArchive.check
      { encoding := .quantile, mean := none, variance := none, realizations := none
        quantiles := some quantiles, quantileLevels := some levels } = .ok () := by
    simp only [FieldArchive.check]
    rw [seq_eq_ok]
    refine ⟨refuseIf_eq_ok.2 (not_not.mpr hlength), ?_⟩
    rw [List.head?_eq_some_head hne, List.getLast?_eq_some_getLast hne]
    refine refuseIf_eq_ok.2 ?_
    simp only [not_or, not_not, not_le]
    exact ⟨List.isChain_iff_pairwise.mpr hpairwise, (hrange _ (List.head_mem hne)).1,
      (hrange _ (List.getLast_mem hne)).2⟩
  exact ⟨_, seq_eq_ok.2 ⟨hcheck, rfl⟩⟩

end Accepted

/-! ## The round trip -/

section RoundTrip

variable {grid : FieldGrid ℝ} {inv : ℝ → ℝ} {prior : Prior grid} {levels : List ℝ}

/-- The quantile of a prior at a level. -/
noncomputable def levelGrid (inv : ℝ → ℝ) (prior : Prior grid) (q : ℝ) : Plane grid :=
  fun r c => prior.mean r c + inv q * √(prior.variance r c)

theorem getElem?_quantileGrids {i : ℕ} {q : ℝ} (h : levels[i]? = some q) :
    (quantileGrids inv prior levels)[i]? = some (levelGrid inv prior q) := by
  rw [quantileGrids, List.getElem?_map, h]
  rfl

/-- The variance that is read back of a cell. -/
theorem levelGrid_spread (r : Fin grid.nRows) (c : Fin grid.nCols) (u l iqr : ℝ) :
    ((levelGrid inv prior u r c - levelGrid inv prior l r c) / iqr) ^ 2 =
      ((inv u - inv l) / iqr) ^ 2 * prior.variance r c := by
  have hsqrt := Real.sq_sqrt (prior.variance_nonneg r c)
  calc
    _ = ((inv u - inv l) / iqr * √(prior.variance r c)) ^ 2 := by rw [levelGrid, levelGrid]; ring
    _ = _ := by rw [mul_pow, hsqrt]

/-- **Spec.** What an accepted encoding is read back as. -/
theorem roundTrip_eq {archive : FieldArchive grid}
    (haccepted : quantileEncoded (quantileGrids inv prior levels) levels = .ok archive) :
    roundTrip inv prior levels =
      if nearest levels (1 / 4) = nearest levels (3 / 4) then .error .sameLevels
      else .ok ⟨levelGrid inv prior (nearestLevel levels (1 / 2)),
        fun r c => ((levelGrid inv prior (nearestLevel levels (3 / 4)) r c -
          levelGrid inv prior (nearestLevel levels (1 / 4)) r c) /
            (inv (3 / 4) - inv (1 / 4))) ^ 2, fun _ _ => sq_nonneg _⟩ := by
  have hrun : roundTrip inv prior levels = archive.asPrior (inv (3 / 4) - inv (1 / 4)) := by
    rw [roundTrip, haccepted]
    rfl
  obtain ⟨rfl, hne, -, -⟩ := quantileEncoded_eq_ok haccepted
  have hat (target : ℝ) : (quantileGrids inv prior levels)[nearest levels target]? =
      some (levelGrid inv prior (nearestLevel levels target)) :=
    getElem?_quantileGrids (getElem?_nearest hne target)
  rw [hrun]
  simp only [FieldArchive.asPrior, hat]
  rw [Prior.new_of_nonneg fun _ _ => sq_nonneg _]
  rfl

/-- The mean is read back when the level nearest to the median is the median. -/
theorem mean_eq_iff (hmono : StrictMonoOn inv (Set.Ioo 0 1))
    (hodd : ∀ p ∈ Set.Ioo (0 : ℝ) 1, inv (1 - p) = -inv p) {q : ℝ} (hq : q ∈ Set.Ioo (0 : ℝ) 1) :
    levelGrid inv prior q = prior.mean ↔ (∀ r c, prior.variance r c = 0) ∨ q = 1 / 2 := by
  have hhalf : (1 / 2 : ℝ) ∈ Set.Ioo (0 : ℝ) 1 := ⟨by norm_num, by norm_num⟩
  have hzero : inv (1 / 2) = 0 := by
    have := hodd _ hhalf
    norm_num at this
    linarith
  constructor
  · intro hmean
    by_cases hvariance : ∀ r c, prior.variance r c = 0
    · exact Or.inl hvariance
    right
    push Not at hvariance
    obtain ⟨r, c, hrc⟩ := hvariance
    have hcell : inv q * √(prior.variance r c) = 0 :=
      left_eq_add.mp (congrFun (congrFun hmean r) c).symm
    have hsqrt : √(prior.variance r c) ≠ 0 :=
      fun h => hrc ((Real.sqrt_eq_zero (prior.variance_nonneg r c)).mp h)
    have hinv : inv q = 0 := (mul_eq_zero.mp hcell).resolve_right hsqrt
    exact hmono.injOn hq hhalf (hinv.trans hzero.symm)
  · rintro (hvariance | rfl)
    · funext r c
      rw [levelGrid, hvariance r c, Real.sqrt_zero, mul_zero, add_zero]
    · funext r c
      rw [levelGrid, hzero, zero_mul, add_zero]

/-- The variance is read back when the levels taken for the quartiles are as far apart. -/
theorem variance_eq_iff {spread iqr : ℝ} (hspread : 0 ≤ spread) (hiqr : 0 < iqr) :
    ((fun r c => (spread / iqr) ^ 2 * prior.variance r c) = prior.variance) ↔
      (∀ r c, prior.variance r c = 0) ∨ spread = iqr := by
  constructor
  · intro heq
    by_cases hvariance : ∀ r c, prior.variance r c = 0
    · exact Or.inl hvariance
    right
    push Not at hvariance
    obtain ⟨r, c, hrc⟩ := hvariance
    have hone : (spread / iqr) ^ 2 = 1 := mul_right_cancel₀ hrc
      ((congrFun (congrFun heq r) c).trans (one_mul _).symm)
    have hratio : spread / iqr = 1 :=
      (pow_eq_one_iff_of_nonneg (div_nonneg hspread hiqr.le) two_ne_zero).mp hone
    exact (div_eq_one_iff_eq hiqr.ne').mp hratio
  · rintro (hvariance | rfl)
    · funext r c
      rw [hvariance r c, mul_zero]
    · funext r c
      rw [div_self hiqr.ne', one_pow, one_mul]

/-- **Main theorem.** An accepted encoding is read back as the prior it encodes when it is not
read back at all, when the prior is certain everywhere, or when 1/2 is among the levels and the
levels nearest to the quartiles are as far apart as the quartiles. -/
theorem roundTrip_iff (hmono : StrictMonoOn inv (Set.Ioo 0 1))
    (hodd : ∀ p ∈ Set.Ioo (0 : ℝ) 1, inv (1 - p) = -inv p) {archive : FieldArchive grid}
    (haccepted : quantileEncoded (quantileGrids inv prior levels) levels = .ok archive) :
    (∀ decoded, roundTrip inv prior levels = .ok decoded →
        decoded.mean = prior.mean ∧ decoded.variance = prior.variance) ↔
      nearest levels (1 / 4) = nearest levels (3 / 4) ∨ (∀ r c, prior.variance r c = 0) ∨
        1 / 2 ∈ levels ∧
          inv (nearestLevel levels (3 / 4)) - inv (nearestLevel levels (1 / 4)) =
            inv (3 / 4) - inv (1 / 4) := by
  obtain ⟨-, hne, -, hrange⟩ := quantileEncoded_eq_ok haccepted
  have hmem (target : ℝ) : nearestLevel levels target ∈ Set.Ioo (0 : ℝ) 1 :=
    hrange _ (nearestLevel_mem hne target)
  have hspread : 0 ≤ inv (nearestLevel levels (3 / 4)) - inv (nearestLevel levels (1 / 4)) :=
    sub_nonneg.mpr (hmono.monotoneOn (hmem _) (hmem _) (nearest_le hne))
  have hiqr : 0 < inv (3 / 4) - inv (1 / 4) := sub_pos.mpr
    (hmono ⟨by norm_num, by norm_num⟩ ⟨by norm_num, by norm_num⟩ (by norm_num))
  rw [roundTrip_eq haccepted]
  by_cases hsame : nearest levels (1 / 4) = nearest levels (3 / 4)
  · rw [if_pos hsame]
    exact iff_of_true (fun _ h => (by cases h)) (Or.inl hsame)
  rw [if_neg hsame]
  simp only [Except.ok.injEq, forall_eq', hsame, false_or, levelGrid_spread]
  rw [mean_eq_iff hmono hodd (hmem _), variance_eq_iff hspread hiqr, nearestLevel_eq_iff hne]
  exact or_and_left.symm

/-! ## Two lists of levels -/

/-- A grid of one cell. -/
def oneCell : FieldGrid ℝ where
  minX := 0
  minY := 0
  maxX := 1
  maxY := 1
  nRows := 1
  nCols := 1
  rows_pos := one_pos
  cols_pos := one_pos
  extent_x := one_pos
  extent_y := one_pos

/-- The standard normal distribution in one cell. -/
def unitPrior : Prior oneCell := ⟨fun _ _ => 0, fun _ _ => 1, fun _ _ => zero_le_one⟩

/-- `DEFAULT_LEVELS` (line 95). -/
noncomputable def defaultLevels : List ℝ := [1 / 20, 1 / 4, 1 / 2, 3 / 4, 19 / 20]

theorem quantileEncoded_defaultLevels :
    ∃ archive, quantileEncoded (quantileGrids (· - 1 / 2) unitPrior defaultLevels)
      defaultLevels = .ok archive := by
  refine quantileEncoded_of_valid (List.length_map _) (List.cons_ne_nil _ _) ?_ ?_
  · norm_num [defaultLevels]
  · norm_num [defaultLevels]

/-- The default levels are accepted, and read back with a linear inverse CDF. -/
theorem roundTrip_iff_defaultLevels :
    (∃ archive, quantileEncoded (quantileGrids (· - 1 / 2) unitPrior defaultLevels)
      defaultLevels = .ok archive) ∧
    ∀ decoded, roundTrip (· - 1 / 2) unitPrior defaultLevels = .ok decoded →
      decoded.mean = unitPrior.mean ∧ decoded.variance = unitPrior.variance := by
  obtain ⟨archive, haccepted⟩ := quantileEncoded_defaultLevels
  refine ⟨⟨archive, haccepted⟩, ?_⟩
  refine (roundTrip_iff (fun p _ q _ h => sub_lt_sub_right h _) (fun p _ => by ring)
    haccepted).2 (Or.inr (Or.inr ⟨?_, ?_⟩))
  · norm_num [defaultLevels]
  · have hmem (q : ℝ) (hq : q ∈ defaultLevels) : nearestLevel defaultLevels q = q :=
      (nearestLevel_eq_iff (List.cons_ne_nil _ _) q).2 hq
    rw [hmem (3 / 4) (by norm_num [defaultLevels]), hmem (1 / 4) (by norm_num [defaultLevels])]

/-- The median between the outer quintiles. -/
noncomputable def quintiles : List ℝ := [1 / 5, 1 / 2, 4 / 5]

theorem nearestLevel_quintiles :
    nearestLevel quintiles (1 / 4) = 1 / 5 ∧ nearestLevel quintiles (3 / 4) = 4 / 5 := by
  have hne : quintiles ≠ [] := List.cons_ne_nil _ _
  have hlow := nearestLevel_min hne (1 / 4) (l := 1 / 5) (by norm_num [quintiles])
  have hhigh := nearestLevel_min hne (3 / 4) (l := 4 / 5) (by norm_num [quintiles])
  have hmem (target : ℝ) : nearestLevel quintiles target = 1 / 5 ∨
      nearestLevel quintiles target = 1 / 2 ∨ nearestLevel quintiles target = 4 / 5 := by
    simpa only [quintiles, List.mem_cons, List.not_mem_nil, or_false] using
      nearestLevel_mem hne target
  constructor
  · rcases hmem (1 / 4) with h | h | h
    · exact h
    · rw [h] at hlow
      norm_num [abs_le] at hlow
    · rw [h] at hlow
      norm_num [abs_le] at hlow
  · rcases hmem (3 / 4) with h | h | h
    · rw [h] at hhigh
      norm_num [abs_le] at hhigh
    · rw [h] at hhigh
      norm_num [abs_le] at hhigh
    · exact h

/-- **Counterexample.** The quintiles are accepted, and no inverse CDF reads them back: they are
taken for the quartiles. -/
theorem quintiles_spread_wider : ¬ ∃ inv : ℝ → ℝ, StrictMonoOn inv (Set.Ioo 0 1) ∧
    (∀ p ∈ Set.Ioo (0 : ℝ) 1, inv (1 - p) = -inv p) ∧
    ∀ decoded, roundTrip inv unitPrior quintiles = .ok decoded →
      decoded.mean = unitPrior.mean ∧ decoded.variance = unitPrior.variance := by
  rintro ⟨inv, hmono, -, hread⟩
  have haccepted : ∃ archive,
      quantileEncoded (quantileGrids inv unitPrior quintiles) quintiles = .ok archive := by
    refine quantileEncoded_of_valid (List.length_map _) (List.cons_ne_nil _ _) ?_ ?_
    · norm_num [quintiles]
    · norm_num [quintiles]
  obtain ⟨archive, haccepted⟩ := haccepted
  obtain ⟨hlow, hhigh⟩ := nearestLevel_quintiles
  have hdiffer : nearest quintiles (1 / 4) ≠ nearest quintiles (3 / 4) := by
    intro heq
    have := (hlow.symm.trans (congrArg (quintiles.getD · 0) heq)).trans hhigh
    norm_num at this
  have hvariance := (hread _ ((roundTrip_eq haccepted).trans (if_neg hdiffer))).2
  simp only [levelGrid_spread, hlow, hhigh] at hvariance
  have hlower : inv (1 / 5) < inv (1 / 4) :=
    hmono ⟨by norm_num, by norm_num⟩ ⟨by norm_num, by norm_num⟩ (by norm_num)
  have hmiddle : inv (1 / 4) < inv (3 / 4) :=
    hmono ⟨by norm_num, by norm_num⟩ ⟨by norm_num, by norm_num⟩ (by norm_num)
  have hupper : inv (3 / 4) < inv (4 / 5) :=
    hmono ⟨by norm_num, by norm_num⟩ ⟨by norm_num, by norm_num⟩ (by norm_num)
  rcases (variance_eq_iff (by linarith) (by linarith)).1 hvariance with hzero | hspread
  · exact one_ne_zero (hzero ⟨0, one_pos⟩ ⟨0, one_pos⟩)
  · linarith

end RoundTrip

end AstroMine.Prospect
