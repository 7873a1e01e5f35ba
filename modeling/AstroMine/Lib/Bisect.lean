import Mathlib.Algebra.Order.Archimedean.Basic
import Mathlib.Algebra.Order.Field.Basic
import Mathlib.Tactic.Linarith

/-!
# Bisection of a change

`bisect probe before tol` halves a bracket at whose ends a predicate differs until the bracket is no
longer than `tol`, and returns its upper end. The probe may fail, and the loop has fuel.

Results:
* `bisect_spec`: the predicate changes within `tol` below the result.
* `exists_halvings`: so many halvings are enough.
-/

namespace AstroMine

variable {K ε : Type} [Field K] [LinearOrder K]

/-- The upper end of the bracket when it is no longer than `tol`; the predicate is `before` at its
    lower end and not at its upper end. -/
def bisect (probe : K → Except ε Bool) (before : Bool) (tol : K) (outOfFuel : ε) :
    ℕ → K → K → Except ε K
  | 0, _, _ => .error outOfFuel
  | fuel + 1, lo, hi =>
    if hi - lo > tol then
      match probe ((lo + hi) / 2) with
      | .error e => .error e
      | .ok value =>
        if value = before then bisect probe before tol outOfFuel fuel ((lo + hi) / 2) hi
        else bisect probe before tol outOfFuel fuel lo ((lo + hi) / 2)
    else .ok hi

/-- The predicate is `before` within `tol` below `b`, and not at `b`. -/
def ChangesAt (p : K → Bool) (tol : K) (before : Bool) (b : K) : Prop :=
  ∃ a, a < b ∧ b - a ≤ tol ∧ p a = before ∧ p b = !before

variable [IsStrictOrderedRing K]

/-- **Run.** A bracket that `n` halvings make short enough ends in a change of the predicate. -/
theorem bisect_spec {probe : K → Except ε Bool} {p : K → Bool} (hprobe : ∀ t, probe t = .ok (p t))
    {before : Bool} {tol : K} (outOfFuel : ε) {n : ℕ} {lo hi : K} (hlt : lo < hi)
    (hlo : p lo = before) (hhi : p hi = !before) (hwidth : hi - lo ≤ tol * 2 ^ n) :
    ∃ b, (∀ fuel, n < fuel → bisect probe before tol outOfFuel fuel lo hi = .ok b) ∧
      lo < b ∧ b ≤ hi ∧ ChangesAt p tol before b := by
  induction n generalizing lo hi with
  | zero =>
    rw [pow_zero, mul_one] at hwidth
    refine ⟨hi, fun fuel hfuel => ?_, hlt, le_rfl, lo, hlt, hwidth, hlo, hhi⟩
    obtain ⟨fuel, rfl⟩ := Nat.exists_eq_add_of_lt hfuel
    rw [bisect, if_neg (not_lt.mpr hwidth)]
  | succ n ih =>
    by_cases hshort : hi - lo ≤ tol
    · refine ⟨hi, fun fuel hfuel => ?_, hlt, le_rfl, lo, hlt, hshort, hlo, hhi⟩
      obtain ⟨fuel, rfl⟩ := Nat.exists_eq_add_of_lt hfuel
      rw [bisect, if_neg (not_lt.mpr hshort)]
    · have hmid : lo < (lo + hi) / 2 := left_lt_add_div_two.mpr hlt
      have hmid' : (lo + hi) / 2 < hi := add_div_two_lt_right.mpr hlt
      rw [pow_succ] at hwidth
      -- the half in which the predicate still changes
      by_cases hp : p ((lo + hi) / 2) = before
      · obtain ⟨b, hrun, hlb, hbh, hb⟩ := ih hmid' hp hhi (by linarith)
        refine ⟨b, fun fuel hfuel => ?_, hmid.trans hlb, hbh, hb⟩
        obtain ⟨fuel, rfl⟩ : ∃ m, fuel = m + 1 := ⟨fuel - 1, by omega⟩
        rw [bisect, if_pos (not_le.mp hshort), hprobe]
        simp only [hp, if_true]
        exact hrun fuel (by omega)
      · have hp' : p ((lo + hi) / 2) = !before := Bool.eq_not_of_ne hp
        obtain ⟨b, hrun, hlb, hbh, hb⟩ := ih hmid hlo hp' (by linarith)
        refine ⟨b, fun fuel hfuel => ?_, hlb, hbh.trans hmid'.le, hb⟩
        obtain ⟨fuel, rfl⟩ : ∃ m, fuel = m + 1 := ⟨fuel - 1, by omega⟩
        rw [bisect, if_pos (not_le.mp hshort), hprobe]
        simp only [hp, if_false]
        exact hrun fuel (by omega)

/-- Halving a width often enough makes it as short as `tol`. -/
theorem exists_halvings [Archimedean K] {tol : K} (htol : 0 < tol) (width : K) :
    ∃ n : ℕ, width ≤ tol * 2 ^ n := by
  obtain ⟨n, hn⟩ := pow_unbounded_of_one_lt (width / tol) (one_lt_two)
  refine ⟨n, ?_⟩
  rw [div_lt_iff₀ htol] at hn
  rw [mul_comm]
  exact hn.le

end AstroMine
