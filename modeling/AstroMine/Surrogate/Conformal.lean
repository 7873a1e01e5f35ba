import AstroMine.Lib.Instances
import AstroMine.Lib.OrderStat
import Mathlib.Algebra.Order.Floor.Ring
import Mathlib.Analysis.SpecialFunctions.Log.Basic
import Mathlib.Data.Rat.Floor

/-!
# Split-conformal calibration (`surrogate/models/conformal.py`)

Each output channel has a scale floor, the multiple `floor_beta` of its mean residual, and a
multiplier, an order statistic of the normalized residuals. Columns of the arrays are lists over the
held-out predictions; the channels are the indices below `c`. Arithmetic is exact, and `np.quantile`
with the method `higher` is the order statistic with index `⌈level * (m - 1)⌉`.

Results:
* `covered_iff`: a prediction is covered when few others outrank it on the scale of the others.
* `outranks_acyclic`: the relation *outranks*, whose scale changes with the prediction held out,
  still follows a ranking.
* `coverage_iff`: when the leave-one-out coverage meets the nominal one.
-/

namespace AstroMine.Surrogate

open scoped Numerals

/-! ## The calibration -/

section Calibration

variable {K : Type} [Field K] [LinearOrder K] [FloorRing K] {c : ℕ}

/-- `ConformalCalibration` (lines 29–46). -/
structure ConformalCalibration (K : Type) (c : ℕ) where
  quantiles : Fin c → K
  floor : Fin c → K
  nominalCoverage : K

/-- `half_widths` (lines 43–45). -/
def ConformalCalibration.halfWidths (cal : ConformalCalibration K c) (std : Fin c → K) :
    Fin c → K :=
  fun channel => (std channel + cal.floor channel) * cal.quantiles channel

/-- `_EPS` (line 26). -/
def eps : K := 1 / 10 ^ 9

/-- `residuals.mean(axis=0)`, one column. -/
def mean (xs : List K) : K := xs.sum / xs.length

/-- `np.quantile(scores, level, method="higher")`, one column. -/
def quantileHigher (scores : List K) (level : K) : K :=
  (orderStat scores ⌈level * ((scores.length : K) - 1)⌉.toNat).getD 0

/-- `level` (line 68), for `m` predictions. -/
def coverageLevel (m : ℕ) (nominal : K) : K := min (⌈((m : K) + 1) * nominal⌉ / m) 1

/-- `calibrate_conformal` (lines 48–75). -/
def calibrateConformal (residuals std : List (Fin c → K)) (nominal floorBeta : K) :
    ConformalCalibration K c :=
  let floor channel := floorBeta * mean (residuals.map fun r => r channel) + eps
  let scores channel := List.zipWith (fun r s => r channel / (s channel + floor channel))
    residuals std
  { quantiles := fun channel =>
      quantileHigher (scores channel) (coverageLevel (scores channel).length nominal)
    floor := floor
    nominalCoverage := nominal }

/-! ## Holding one out -/

/-- A held-out prediction: its absolute error and its ensemble standard deviation. -/
structure Heldout (K : Type) (c : ℕ) where
  residual : Fin c → K
  std : Fin c → K

/-- The calibration on all predictions but the one with index `j`. -/
def calibrateWithout (pairs : List (Heldout K c)) (j : ℕ) (nominal floorBeta : K) :
    ConformalCalibration K c :=
  calibrateConformal ((pairs.eraseIdx j).map Heldout.residual) ((pairs.eraseIdx j).map Heldout.std)
    nominal floorBeta

/-- The number of ways of holding one prediction out in which its residual is within the half
width. -/
def coverage (pairs : List (Heldout K c)) (nominal floorBeta : K) (channel : Fin c) : ℕ :=
  (List.finRange pairs.length).countP fun j : Fin pairs.length =>
    pairs[j].residual channel ≤
      (calibrateWithout pairs j nominal floorBeta).halfWidths pairs[j].std channel

end Calibration

/-! ## The order statistic -/

/-- The index of the order statistic among `m` scores. -/
noncomputable def quantileIndex (m : ℕ) (nominal : ℝ) : ℕ :=
  ⌈coverageLevel m nominal * ((m : ℝ) - 1)⌉.toNat

/-- The index is one of an element, and it is not below the nominal count or the last index. -/
theorem quantileIndex_spec {m : ℕ} (hm : 1 ≤ m) {nominal : ℝ} (hpos : 0 < nominal) :
    quantileIndex m nominal < m ∧
      (⌈((m : ℝ) + 1) * nominal⌉ ≤ m → ⌈((m : ℝ) + 1) * nominal⌉ ≤ quantileIndex m nominal + 1) ∧
      ((m : ℤ) < ⌈((m : ℝ) + 1) * nominal⌉ → quantileIndex m nominal = m - 1) := by
  set k := ⌈((m : ℝ) + 1) * nominal⌉ with hk
  have hm0 : (0 : ℝ) < m := by exact_mod_cast hm
  have hm1 : (0 : ℝ) ≤ (m : ℝ) - 1 := by
    have : (1 : ℝ) ≤ m := by exact_mod_cast hm
    linarith
  have hk1 : 1 ≤ k := Int.one_le_ceil_iff.mpr (by positivity)
  have hle : coverageLevel m nominal * ((m : ℝ) - 1) ≤ (m : ℝ) - 1 :=
    mul_le_of_le_one_left hm1 (min_le_right _ _)
  have hceil : ⌈coverageLevel m nominal * ((m : ℝ) - 1)⌉ ≤ (m : ℤ) - 1 := by
    rw [Int.ceil_le]
    push_cast
    exact hle
  refine ⟨?_, fun hkm => ?_, fun hmk => ?_⟩
  · rw [quantileIndex]
    omega
  · have hlevel : coverageLevel m nominal = k / m := by
      rw [coverageLevel, ← hk]
      refine min_eq_left ?_
      rw [div_le_one hm0]
      exact_mod_cast hkm
    have hbelow : ((k - 1 : ℤ) : ℝ) ≤ coverageLevel m nominal * ((m : ℝ) - 1) := by
      have hkm' : (k : ℝ) / m ≤ 1 := by
        rw [div_le_one hm0]
        exact_mod_cast hkm
      have hsplit : (k : ℝ) / m * ((m : ℝ) - 1) = k - k / m := by
        field_simp
      rw [hlevel, hsplit]
      push_cast
      linarith
    have hcast : k - 1 ≤ ⌈coverageLevel m nominal * ((m : ℝ) - 1)⌉ := by
      have := hbelow.trans (Int.le_ceil _)
      exact_mod_cast this
    rw [quantileIndex]
    omega
  · have hlevel : coverageLevel m nominal = 1 := by
      rw [coverageLevel, ← hk]
      refine min_eq_right ?_
      rw [le_div_iff₀ hm0, one_mul]
      exact_mod_cast hmk.le
    have hexact : ⌈coverageLevel m nominal * ((m : ℝ) - 1)⌉ = (m : ℤ) - 1 := by
      rw [hlevel, one_mul, Int.ceil_eq_iff]
      push_cast
      constructor
      · linarith
      · exact le_rfl
    rw [quantileIndex, hexact]
    omega

/-! ## Outranking -/

section Outrank

variable {c : ℕ} {pairs : List (Heldout ℝ c)} {nominal beta : ℝ} {channel : Fin c}

/-- The scale floor of the channel when the prediction with index `j` is held out. -/
noncomputable def floorWithout (pairs : List (Heldout ℝ c)) (beta : ℝ) (channel : Fin c)
    (j : ℕ) : ℝ :=
  (calibrateWithout pairs j 0 beta).floor channel

/-- The nonconformity score of a prediction on a scale floor. -/
noncomputable def score (channel : Fin c) (floor : ℝ) (p : Heldout ℝ c) : ℝ :=
  p.residual channel / (p.std channel + floor)

/-- On the scale calibrated without `j`, the score of `j` exceeds the score of `i`. -/
def Outranks (pairs : List (Heldout ℝ c)) (beta : ℝ) (channel : Fin c)
    (j i : Fin pairs.length) : Prop :=
  score channel (floorWithout pairs beta channel j) pairs[i] <
    score channel (floorWithout pairs beta channel j) pairs[j]

noncomputable instance : DecidableRel (Outranks pairs beta channel) := fun _ _ =>
  inferInstanceAs (Decidable (_ < _))

/-- The residuals and deviations of the channel are not negative. -/
def NonNegative (pairs : List (Heldout ℝ c)) (channel : Fin c) : Prop :=
  ∀ p ∈ pairs, 0 ≤ p.residual channel ∧ 0 ≤ p.std channel

/-- The sum of the residuals of the channel. -/
noncomputable def total (pairs : List (Heldout ℝ c)) (channel : Fin c) : ℝ :=
  (pairs.map fun p => p.residual channel).sum

theorem eps_pos : (0 : ℝ) < eps := by
  unfold eps
  positivity

theorem floorWithout_eq (j : Fin pairs.length) :
    floorWithout pairs beta channel j =
      beta * ((total pairs channel - pairs[j].residual channel) / (pairs.length - 1 : ℕ)) + eps := by
  have hperm := List.getElem_cons_eraseIdx_perm j.isLt
  have hsum : pairs[j].residual channel + total (pairs.eraseIdx j) channel = total pairs channel := by
    have := (hperm.map fun p : Heldout ℝ c => p.residual channel).sum_eq
    rwa [List.map_cons, List.sum_cons] at this
  rw [← hsum, add_sub_cancel_left]
  simp only [floorWithout, calibrateWithout, calibrateConformal, mean, List.map_map,
    List.length_map, List.length_eraseIdx_of_lt j.isLt, total]
  rfl

theorem floorWithout_pos (hnonneg : NonNegative pairs channel) (hbeta : 0 ≤ beta) (j : ℕ) :
    0 < floorWithout pairs beta channel j := by
  have hsum : 0 ≤ (((pairs.eraseIdx j).map Heldout.residual).map fun r => r channel).sum := by
    refine List.sum_nonneg fun x hx => ?_
    rw [List.map_map] at hx
    obtain ⟨p, hp, rfl⟩ := List.mem_map.mp hx
    exact (hnonneg p (List.mem_of_mem_eraseIdx hp)).1
  have hmean : 0 ≤ mean (((pairs.eraseIdx j).map Heldout.residual).map fun r => r channel) :=
    div_nonneg hsum (Nat.cast_nonneg _)
  exact add_pos_of_nonneg_of_pos (mul_nonneg hbeta hmean) eps_pos

/-- The multiplier is an order statistic of the scores of the others. -/
theorem quantiles_calibrateWithout (hlength : 2 ≤ pairs.length) (hpos : 0 < nominal)
    (j : Fin pairs.length) :
    orderStat ((pairs.eraseIdx j).map (score channel (floorWithout pairs beta channel j)))
        (quantileIndex (pairs.length - 1) nominal) =
      some ((calibrateWithout pairs j nominal beta).quantiles channel) := by
  set scores := (pairs.eraseIdx j).map (score channel (floorWithout pairs beta channel j))
    with hscores
  have hm : scores.length = pairs.length - 1 := by
    rw [hscores, List.length_map, List.length_eraseIdx_of_lt j.isLt]
  have hindex := (quantileIndex_spec (show 1 ≤ pairs.length - 1 by omega) hpos).1
  rw [← hm] at hindex
  obtain ⟨q, hq⟩ := exists_orderStat hindex
  have hzip : (calibrateWithout pairs j nominal beta).quantiles channel =
      quantileHigher scores (coverageLevel scores.length nominal) := by
    have hmaps : List.zipWith (fun r s : Fin c → ℝ => r channel /
          (s channel + floorWithout pairs beta channel j))
        ((pairs.eraseIdx j).map Heldout.residual) ((pairs.eraseIdx j).map Heldout.std) = scores := by
      rw [List.zipWith_map, List.zipWith_self]
      rfl
    rw [← hmaps]
    rfl
  rw [hm] at hq
  rw [hzip, quantileHigher, hm, ← quantileIndex, hq, Option.getD_some]

/-- **Spec.** A prediction is covered when no more predictions than the index of the order statistic
have smaller scores, on the scale calibrated without it. -/
theorem covered_iff (hlength : 2 ≤ pairs.length) (hnonneg : NonNegative pairs channel)
    (hbeta : 0 ≤ beta) (hpos : 0 < nominal) (j : Fin pairs.length) :
    pairs[j].residual channel ≤
        (calibrateWithout pairs j nominal beta).halfWidths pairs[j].std channel ↔
      (Finset.univ.filter (Outranks pairs beta channel j)).card ≤
        quantileIndex (pairs.length - 1) nominal := by
  have hfloor := floorWithout_pos hnonneg hbeta j
  have hscale : 0 < pairs[j].std channel + floorWithout pairs beta channel j :=
    add_pos_of_nonneg_of_pos (hnonneg _ (List.getElem_mem _)).2 hfloor
  have hperm : (pairs[j] :: pairs.eraseIdx j).Perm pairs :=
    List.getElem_cons_eraseIdx_perm j.isLt
  set below := fun p => score channel (floorWithout pairs beta channel j) p <
    score channel (floorWithout pairs beta channel j) pairs[j] with hbelow
  have hself : ¬ below pairs[j] := lt_irrefl _
  have hcount : ((pairs.eraseIdx j).map (score channel (floorWithout pairs beta channel j))).countP
      (· < score channel (floorWithout pairs beta channel j) pairs[j]) =
        (Finset.univ.filter (Outranks pairs beta channel j)).card := by
    rw [List.countP_map]
    change (pairs.eraseIdx j).countP below = _
    have hdrop : (pairs[j] :: pairs.eraseIdx j).countP below = (pairs.eraseIdx j).countP below :=
      List.countP_cons_of_neg (by simpa using hself)
    rw [← hdrop, hperm.countP_eq]
    exact countP_eq_card pairs below
  rw [← hcount, ← le_orderStat_iff (quantiles_calibrateWithout hlength hpos j), score,
    div_le_iff₀' hscale]
  rfl

/-! ## A ranking -/

/-- The scale floor without a prediction falls with its residual. -/
noncomputable def slope (pairs : List (Heldout ℝ c)) (beta : ℝ) : ℝ :=
  beta / (pairs.length - 1 : ℕ)

/-- The scale floor there would be without a residual held out. -/
noncomputable def intercept (pairs : List (Heldout ℝ c)) (beta : ℝ) (channel : Fin c) : ℝ :=
  slope pairs beta * total pairs channel + eps

theorem floorWithout_eq_sub (j : Fin pairs.length) : floorWithout pairs beta channel j =
    intercept pairs beta channel - slope pairs beta * pairs[j].residual channel := by
  rw [floorWithout_eq, intercept, slope]
  ring

/-- The rank of a prediction: the inverse of its score on the intercept, put right by the logarithm
of its residual. A prediction without a residual ranks last. -/
noncomputable def rank (pairs : List (Heldout ℝ c)) (beta : ℝ) (channel : Fin c)
    (j : Fin pairs.length) : WithBot ℝ :=
  if pairs[j].residual channel = 0 then ⊥
  else (-((pairs[j].std channel + intercept pairs beta channel) / pairs[j].residual channel +
    slope pairs beta * Real.log (pairs[j].residual channel)) : ℝ)

/-- What outranking comes to for residuals `a` and `b` with the scales `s` and `t`: the inverse
scores differ by less than the logarithms of the residuals, on the slope. -/
theorem inverse_score_lt {a b s t u : ℝ} (ha : 0 < a) (hb : 0 < b) (hu : 0 ≤ u)
    (h : a * (t - u * b) < b * (s - u * b)) :
    t / b + u * Real.log b < s / a + u * Real.log a := by
  have hlog : Real.log (b / a) ≤ b / a - 1 := Real.log_le_sub_one_of_pos (div_pos hb ha)
  rw [Real.log_div hb.ne' ha.ne'] at hlog
  have hmul := mul_le_mul_of_nonneg_left hlog hu
  have hdiv : t / b - u < s / a - u * (b / a) := by
    rw [← sub_pos] at h ⊢
    have hpos : 0 < (b * (s - u * b) - a * (t - u * b)) / (a * b) := div_pos h (mul_pos ha hb)
    have heq : (b * (s - u * b) - a * (t - u * b)) / (a * b) =
        s / a - u * (b / a) - (t / b - u) := by
      field_simp
    rwa [heq] at hpos
  linarith

/-- The scale of a prediction changes with the one that is held out, and yet outranking follows a
ranking. -/
theorem outranks_acyclic (hnonneg : NonNegative pairs channel) (hbeta : 0 ≤ beta)
    {j i : Fin pairs.length} (h : Outranks pairs beta channel j i) :
    rank pairs beta channel i < rank pairs beta channel j := by
  have hfloor := floorWithout_pos hnonneg hbeta j
  obtain ⟨hri, hsi⟩ := hnonneg pairs[i] (List.getElem_mem _)
  obtain ⟨hrj, hsj⟩ := hnonneg pairs[j] (List.getElem_mem _)
  have hscale_i : 0 < pairs[i].std channel + floorWithout pairs beta channel j := by linarith
  have hscale_j : 0 < pairs[j].std channel + floorWithout pairs beta channel j := by linarith
  have hcross : pairs[i].residual channel *
        (pairs[j].std channel + floorWithout pairs beta channel j) <
      pairs[j].residual channel * (pairs[i].std channel + floorWithout pairs beta channel j) :=
    (div_lt_div_iff₀ hscale_i hscale_j).1 h
  have hpos : 0 < pairs[j].residual channel :=
    pos_of_mul_pos_left ((mul_nonneg hri hscale_j.le).trans_lt hcross) hscale_i.le
  rw [rank, rank, if_neg hpos.ne']
  split_ifs with hzero
  · exact WithBot.bot_lt_coe _
  · rw [WithBot.coe_lt_coe, neg_lt_neg_iff]
    refine inverse_score_lt (lt_of_le_of_ne hri (Ne.symm hzero)) hpos
      (div_nonneg hbeta (Nat.cast_nonneg _)) ?_
    rw [floorWithout_eq_sub, ← add_sub_assoc, ← add_sub_assoc] at hcross
    exact hcross

/-! ## Coverage -/

/-- The predictions that are not covered. -/
theorem coverage_eq (hlength : 2 ≤ pairs.length) (hnonneg : NonNegative pairs channel)
    (hbeta : 0 ≤ beta) (hpos : 0 < nominal) :
    coverage pairs nominal beta channel + (Finset.univ.filter fun j =>
      quantileIndex (pairs.length - 1) nominal <
        (Finset.univ.filter (Outranks pairs beta channel j)).card).card = pairs.length := by
  have hcoverage : coverage pairs nominal beta channel =
      (Finset.univ.filter fun j => ¬ quantileIndex (pairs.length - 1) nominal <
        (Finset.univ.filter (Outranks pairs beta channel j)).card).card := by
    rw [coverage, countP_finRange]
    congr 1
    ext j
    rw [Finset.mem_filter, Finset.mem_filter, not_lt,
      covered_iff hlength hnonneg hbeta hpos j]
  rw [hcoverage, add_comm, Finset.card_filter_add_card_filter_not, Finset.card_univ,
    Fintype.card_fin]

/-- A prediction that does not outrank all others outranks fewer. -/
theorem card_outranks_lt_iff (j : Fin pairs.length) :
    (Finset.univ.filter (Outranks pairs beta channel j)).card < pairs.length - 1 ↔
      ∃ i, i ≠ j ∧ ¬ Outranks pairs beta channel j i := by
  have hself : ¬ Outranks pairs beta channel j j := lt_irrefl _
  have hsub : Finset.univ.filter (Outranks pairs beta channel j) ⊆ Finset.univ.erase j := by
    intro i hi
    rw [Finset.mem_erase]
    refine ⟨?_, Finset.mem_univ i⟩
    rintro rfl
    exact hself (Finset.mem_filter.mp hi).2
  have hcard : (Finset.univ.erase j).card = pairs.length - 1 := by
    rw [Finset.card_erase_of_mem (Finset.mem_univ j), Finset.card_univ, Fintype.card_fin]
  rw [← hcard]
  constructor
  · intro hlt
    obtain ⟨i, hi, hnot⟩ := Finset.exists_mem_notMem_of_card_lt_card hlt
    refine ⟨i, Finset.ne_of_mem_erase hi, fun h => hnot ?_⟩
    exact Finset.mem_filter.mpr ⟨Finset.mem_univ i, h⟩
  · rintro ⟨i, hne, hnot⟩
    refine Finset.card_lt_card ⟨hsub, fun hsup => hnot ?_⟩
    exact (Finset.mem_filter.mp (hsup (Finset.mem_erase.mpr ⟨hne, Finset.mem_univ i⟩))).2

end Outrank

/-- **Main theorem.** The coverage over the ways of holding one prediction out meets the nominal one
exactly when the nominal count leaves a prediction out, or no prediction has a greater score than
all others on the scale calibrated without it. -/
theorem coverage_iff {c : ℕ} (pairs : List (Heldout ℝ c)) (hlength : 2 ≤ pairs.length)
    {nominal beta : ℝ} (hpos : 0 < nominal) (hlt : nominal < 1) (hbeta : 0 ≤ beta)
    (channel : Fin c) (hnonneg : NonNegative pairs channel) :
    ⌈nominal * pairs.length⌉ ≤ (coverage pairs nominal beta channel : ℤ) ↔
      nominal * pairs.length ≤ pairs.length - 1 ∨
        ∀ j, ∃ i, i ≠ j ∧ ¬ Outranks pairs beta channel j i := by
  have hcount := coverage_eq hlength hnonneg hbeta hpos
  have hfollows : ∀ j i, Outranks pairs beta channel j i →
      rank pairs beta channel i < rank pairs beta channel j :=
    fun _ _ h => outranks_acyclic hnonneg hbeta h
  have hranking := card_outranking_le (rank pairs beta channel) hfollows
    (quantileIndex (pairs.length - 1) nominal)
  rw [Fintype.card_fin] at hranking
  have hcast : ((pairs.length - 1 : ℕ) : ℝ) + 1 = pairs.length := by
    rw [Nat.cast_sub (by omega), Nat.cast_one, sub_add_cancel]
  obtain ⟨hindex, hsmall, hlarge⟩ :=
    quantileIndex_spec (show 1 ≤ pairs.length - 1 by omega) hpos
  rw [hcast, mul_comm] at hsmall hlarge
  by_cases hfits : ⌈nominal * pairs.length⌉ ≤ ((pairs.length - 1 : ℕ) : ℤ)
  · have hle : nominal * pairs.length ≤ pairs.length - 1 := by
      have := Int.ceil_le.mp hfits
      push_cast at this
      linarith
    refine iff_of_true ?_ (.inl hle)
    have := hsmall hfits
    omega
  · have hnot : ¬ nominal * pairs.length ≤ pairs.length - 1 := by
      intro hle
      refine hfits (Int.ceil_le.mpr ?_)
      push_cast
      linarith
    have hall : ⌈nominal * pairs.length⌉ = pairs.length := by
      have hupper : ⌈nominal * pairs.length⌉ ≤ pairs.length := by
        rw [Int.ceil_le]
        push_cast
        exact mul_le_of_le_one_left (Nat.cast_nonneg _) hlt.le
      omega
    rw [hlarge (by omega)] at hcount
    rw [hall, or_iff_right hnot]
    simp only [← card_outranks_lt_iff]
    constructor
    · intro hcovered j
      have hnone : Finset.univ.filter (fun j => pairs.length - 1 - 1 <
          (Finset.univ.filter (Outranks pairs beta channel j)).card) = ∅ := by
        rw [← Finset.card_eq_zero]
        omega
      have hj := (Finset.filter_eq_empty_iff.mp hnone) (Finset.mem_univ j)
      omega
    · intro hbelow
      have hnone : Finset.univ.filter (fun j => pairs.length - 1 - 1 <
          (Finset.univ.filter (Outranks pairs beta channel j)).card) = ∅ := by
        refine Finset.filter_eq_empty_iff.mpr fun j _ => ?_
        have := hbelow j
        omega
      rw [hnone, Finset.card_empty] at hcount
      omega

/-- Two predictions of one channel, with residuals 1 and 2 and no spread. -/
noncomputable def twoPredictions : List (Heldout ℝ 1) :=
  [⟨fun _ => 1, fun _ => 0⟩, ⟨fun _ => 2, fun _ => 0⟩]

theorem nonNegative_twoPredictions : NonNegative twoPredictions 0 := by
  intro p hp
  simp only [twoPredictions, List.mem_cons, List.not_mem_nil, or_false] at hp
  rcases hp with rfl | rfl
  · norm_num
  · norm_num

theorem coverage_iff_twoPredictions :
    ⌈(1 / 2 : ℝ) * twoPredictions.length⌉ ≤ (coverage twoPredictions (1 / 2) 1 0 : ℤ) ↔
      (1 / 2 : ℝ) * twoPredictions.length ≤ twoPredictions.length - 1 ∨
        ∀ j, ∃ i, i ≠ j ∧ ¬ Outranks twoPredictions 1 0 j i :=
  coverage_iff twoPredictions (le_refl 2) (by norm_num) (by norm_num) zero_le_one 0
    nonNegative_twoPredictions

/-- **Counterexample.** At nominal coverage 9/10 both of two predictions should be covered; the one
with the greater residual is not. -/
theorem twoPredictions_undercovered :
    ¬ ⌈(9 / 10 : ℝ) * twoPredictions.length⌉ ≤ (coverage twoPredictions (9 / 10) 1 0 : ℤ) := by
  have hwidth : (calibrateWithout twoPredictions 1 (9 / 10) 1).halfWidths (fun _ => 0) 0 = 1 := by
    have heps : (1 : ℝ) + eps ≠ 0 := (add_pos one_pos eps_pos).ne'
    simp [calibrateWithout, calibrateConformal, ConformalCalibration.halfWidths, twoPredictions,
      quantileHigher, mean, orderStat, sortOn, heps]
  have hceil : ⌈(9 / 10 : ℝ) * twoPredictions.length⌉ = 2 := by
    rw [Int.ceil_eq_iff]
    norm_num [twoPredictions]
  rw [hceil]
  intro hall
  have hcount : (List.finRange twoPredictions.length).countP
      (fun j : Fin twoPredictions.length => twoPredictions[j].residual 0 ≤
        (calibrateWithout twoPredictions j (9 / 10) 1).halfWidths twoPredictions[j].std 0) =
      (List.finRange twoPredictions.length).length := by
    refine le_antisymm List.countP_le_length ?_
    rw [List.length_finRange]
    exact_mod_cast hall
  have hlast := List.countP_eq_length.mp hcount ⟨1, by decide⟩ (List.mem_finRange _)
  rw [decide_eq_true_eq] at hlast
  change (2 : ℝ) ≤ (calibrateWithout twoPredictions 1 (9 / 10) 1).halfWidths (fun _ => 0) 0 at hlast
  rw [hwidth] at hlast
  norm_num at hlast

end AstroMine.Surrogate
