import Mathlib.Data.Nat.Digits.Defs
import Mathlib.Algebra.Order.Field.Basic
import Mathlib.Tactic.FieldSimp
import Mathlib.Tactic.Linarith
import Mathlib.Tactic.Ring

/-!
# The radical inverse

The radical inverse of a natural number in a base mirrors its digits at the point: the last digit
comes first behind it.

Results:
* `radicalInverse_eq`: the digit behind the point and the rest of the digits.
* `radicalInverse_nonneg`, `radicalInverse_lt_one`: the mirrored number lies in `[0, 1)`.
* `radicalInverse_inj`: different numbers have different radical inverses.
-/

namespace AstroMine

/-- The radical inverse of `n` in base `b`. -/
def radicalInverse (K : Type*) [Field K] (b n : ℕ) : K :=
  (b.digits n).foldr (fun (digit : ℕ) rest => (digit + rest) / b) 0

variable {K : Type*} [Field K] {b : ℕ}

@[simp]
theorem radicalInverse_zero : radicalInverse K b 0 = 0 := by
  rw [radicalInverse, Nat.digits_zero, List.foldr_nil]

/-- The last digit comes first behind the point. -/
theorem radicalInverse_eq (hb : 1 < b) (n : ℕ) :
    radicalInverse K b n = ((n % b : ℕ) + radicalInverse K b (n / b)) / b := by
  rcases Nat.eq_zero_or_pos n with rfl | hn
  · rw [Nat.zero_mod, Nat.zero_div, radicalInverse_zero, Nat.cast_zero, add_zero, zero_div]
  · rw [radicalInverse, Nat.digits_def' hb hn, List.foldr_cons, ← radicalInverse]

variable [LinearOrder K] [IsStrictOrderedRing K]

theorem radicalInverse_mem (hb : 1 < b) (n : ℕ) :
    0 ≤ radicalInverse K b n ∧ radicalInverse K b n < 1 := by
  induction n using Nat.strong_induction_on with
  | _ n ih =>
    rcases Nat.eq_zero_or_pos n with rfl | hn
    · rw [radicalInverse_zero]
      exact ⟨le_rfl, zero_lt_one⟩
    · obtain ⟨hnonneg, hlt⟩ := ih (n / b) (Nat.div_lt_self hn hb)
      have hbase : (0 : K) < b := by exact_mod_cast Nat.zero_lt_of_lt hb
      have hdigit : ((n % b : ℕ) : K) + 1 ≤ b := by
        exact_mod_cast Nat.mod_lt n (Nat.zero_lt_of_lt hb)
      rw [radicalInverse_eq hb]
      refine ⟨by positivity, ?_⟩
      rw [div_lt_one hbase]
      linarith

theorem radicalInverse_nonneg (hb : 1 < b) (n : ℕ) : 0 ≤ radicalInverse K b n :=
  (radicalInverse_mem hb n).1

theorem radicalInverse_lt_one (hb : 1 < b) (n : ℕ) : radicalInverse K b n < 1 :=
  (radicalInverse_mem hb n).2

/-- A number with one digit before the point determines the digit. -/
theorem digit_eq_of_add_eq {a c : ℕ} {x y : K} (hx : 0 ≤ x) (hx1 : x < 1) (hy : 0 ≤ y)
    (hy1 : y < 1) (h : (a : K) + x = c + y) : a = c := by
  have hac : (a : K) < c + 1 := by linarith
  have hca : (c : K) < a + 1 := by linarith
  have hac' : a < c + 1 := by exact_mod_cast hac
  have hca' : c < a + 1 := by exact_mod_cast hca
  omega

/-- Different numbers have different radical inverses. -/
theorem radicalInverse_inj (hb : 1 < b) {m n : ℕ} :
    radicalInverse K b m = radicalInverse K b n ↔ m = n := by
  refine ⟨fun h => ?_, fun h => h ▸ rfl⟩
  induction hk : m + n using Nat.strong_induction_on generalizing m n with
  | _ k ih =>
    have hbase : (b : K) ≠ 0 := by exact_mod_cast (Nat.zero_lt_of_lt hb).ne'
    rw [radicalInverse_eq hb m, radicalInverse_eq hb n, div_left_inj' hbase] at h
    have hdigit : m % b = n % b := digit_eq_of_add_eq (radicalInverse_nonneg hb _)
      (radicalInverse_lt_one hb _) (radicalInverse_nonneg hb _) (radicalInverse_lt_one hb _) h
    rw [hdigit, add_right_inj] at h
    rcases Nat.eq_zero_or_pos k with rfl | hpos
    · omega
    · have hm : m / b ≤ m := Nat.div_le_self m b
      have hn : n / b ≤ n := Nat.div_le_self n b
      have hless : m / b + n / b < k := by
        rcases Nat.eq_zero_or_pos m with rfl | hm'
        · have := Nat.div_lt_self (show 0 < n by omega) hb
          omega
        · have := Nat.div_lt_self hm' hb
          omega
      have hrest : m / b = n / b := ih _ hless h rfl
      rw [← Nat.div_add_mod m b, ← Nat.div_add_mod n b, hrest, hdigit]

end AstroMine
