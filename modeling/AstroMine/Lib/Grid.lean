import Mathlib.Algebra.Order.Floor.Ring
import Mathlib.Algebra.Order.Archimedean.Basic
import Mathlib.Data.Finset.Card
import Mathlib.Tactic.FieldSimp
import Mathlib.Tactic.Linarith

/-!
# Rounding to a shifted grid

Rounding down after a shift keeps an inequality between integers that holds up to a small tolerance,
when the shift keeps the values off the top of their unit interval. Finitely many values leave room
for such a shift.

Results:
* `exists_shift`: a shift that keeps finitely many values off the top.
* `le_of_close`, `ge_of_close`: an inequality up to the tolerance, on the grid.
-/

namespace AstroMine.Grid

variable {K : Type*} [Field K] [LinearOrder K] [IsStrictOrderedRing K] [FloorRing K]

/-- The grid point of a value, the grid shifted by `s`. -/
def point (s x : K) : ℤ := ⌊x + s⌋

theorem sub_point (s x : K) : x - point s x = Int.fract (x + s) - s := by
  have h := Int.floor_add_fract (x + s)
  rw [point]
  linarith

/-- Integers stay where they are. -/
theorem point_intCast {s : K} (hs : 0 ≤ s) (hs' : s < 1) (n : ℤ) : point s (n : K) = n := by
  rw [point, Int.floor_eq_iff]
  constructor <;> linarith

/-- The tolerance is smaller than what is left below the next integer. -/
theorem le_of_close {tol a : K} {n m : ℤ} (h : a ≤ m + tol) (hclose : |a - n| < 1 - tol) :
    n ≤ m := by
  have hlow := (abs_lt.mp hclose).1
  have hlt : (n : K) < m + 1 := by linarith
  exact Int.lt_add_one_iff.mp (by exact_mod_cast hlt)

theorem ge_of_close {tol a : K} {n m : ℤ} (h : m - tol ≤ a) (hclose : |a - n| < 1 - tol) :
    m ≤ n := by
  have hhigh := (abs_lt.mp hclose).2
  have hlt : (m : K) < n + 1 := by linarith
  exact Int.lt_add_one_iff.mp (by exact_mod_cast hlt)

/-- The shift that would take a value to the top of its unit interval. -/
def topShift (n : ℕ) (x : K) : ℤ := (n - ⌊(n + 1) * x⌋) % (n + 1)

/-- Every other shift keeps the value off the top. -/
theorem fract_lt_of_ne_topShift {n k : ℕ} (hk : k < n) {x : K} (hne : (k : ℤ) ≠ topShift n x) :
    Int.fract (x + k / (n + 1)) < 1 - 1 / (n + 1) := by
  have hN : (0 : K) < n + 1 := by positivity
  have hNZ : (0 : ℤ) < n + 1 := by omega
  have hmod : (⌊(n + 1) * x⌋ + k) % ((n : ℤ) + 1) ≠ n := by
    intro h
    refine hne ?_
    have hk' : ((k : ℤ)) % (n + 1) = k := Int.emod_eq_of_lt (by omega) (by omega)
    have hdvd : ((n : ℤ) + 1) ∣ k - (n - ⌊(n + 1) * x⌋) := by
      have hself := Int.dvd_self_sub_of_emod_eq h
      rwa [show ⌊(n + 1) * x⌋ + (k : ℤ) - n = k - (n - ⌊(n + 1) * x⌋) by omega] at hself
    rw [topShift, ← hk']
    exact Int.emod_eq_emod_iff_emod_sub_eq_zero.mpr (Int.emod_eq_zero_of_dvd hdvd)
  have hlt := Int.emod_lt_of_pos (⌊(n + 1) * x⌋ + k) hNZ
  have hnonneg := Int.emod_nonneg (⌊(n + 1) * x⌋ + k) hNZ.ne'
  have hsplit := Int.mul_ediv_add_emod (⌊(n + 1) * x⌋ + k) (n + 1)
  generalize (⌊(n + 1) * x⌋ + k) / ((n : ℤ) + 1) = q at hsplit
  generalize (⌊(n + 1) * x⌋ + k) % ((n : ℤ) + 1) = r at hsplit hmod hlt hnonneg
  have hr : (r : K) ≤ n - 1 := by
    have : r ≤ (n : ℤ) - 1 := by omega
    exact_mod_cast this
  have hfloor := Int.lt_floor_add_one ((n + 1) * x)
  have hbelow := Int.floor_le ((n + 1) * x)
  have hz : ((n : K) + 1) * q + r = ⌊(n + 1) * x⌋ + k := by exact_mod_cast hsplit
  have hx : x + k / (n + 1) = ((n + 1) * x + k) / (n + 1) := by field_simp
  -- the quotient is at most the floor, and the remainder is below `n`
  have hq : q ≤ ⌊x + k / (n + 1)⌋ := by
    rw [Int.le_floor, hx, le_div_iff₀ hN]
    have hr0 : (0 : K) ≤ r := by exact_mod_cast hnonneg
    linarith
  have hupper : x + k / (n + 1) < q + n / (n + 1) := by
    have hsum : ((q : K) + n / (n + 1)) * (n + 1) = (n + 1) * q + n := by
      field_simp
    rw [hx, div_lt_iff₀ hN, hsum]
    linarith
  have hqK : (q : K) ≤ ⌊x + k / (n + 1)⌋ := by exact_mod_cast hq
  have hone : (1 : K) - 1 / (n + 1) = n / (n + 1) := by
    field_simp
    ring
  rw [Int.fract, hone]
  linarith

/-- A shift that keeps finitely many values off the top. -/
theorem exists_shift (n : ℕ) {xs : List K} (h : xs.length < n) :
    ∃ s : K, 0 ≤ s ∧ s ≤ 1 - 2 / (n + 1) ∧
      ∀ x ∈ xs, Int.fract (x + s) < 1 - 1 / (n + 1) := by
  have hcard : (xs.map (topShift n)).toFinset.card < ((Finset.range n).image ((↑) : ℕ → ℤ)).card := by
    rw [Finset.card_image_of_injective _ Nat.cast_injective, Finset.card_range]
    exact (List.toFinset_card_le _).trans_lt (by rwa [List.length_map])
  obtain ⟨z, hz, hnot⟩ := Finset.exists_mem_notMem_of_card_lt_card hcard
  obtain ⟨k, hk, rfl⟩ := Finset.mem_image.mp hz
  have hkn : k < n := Finset.mem_range.mp hk
  have hN : (0 : K) < n + 1 := by positivity
  refine ⟨k / (n + 1), by positivity, ?_, fun x hx => fract_lt_of_ne_topShift hkn fun heq => ?_⟩
  · have hle : (k : K) ≤ n - 1 := by
      have : (k : ℤ) ≤ n - 1 := by omega
      exact_mod_cast this
    rw [div_le_iff₀ hN]
    field_simp
    linarith
  · exact hnot (List.mem_toFinset.mpr (List.mem_map.mpr ⟨x, hx, heq.symm⟩))

end AstroMine.Grid
