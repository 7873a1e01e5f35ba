import Mathlib.Data.List.Lex
import Mathlib.Order.Monotone.Defs
import Mathlib.Algebra.Order.Ring.Nat
import Mathlib.Data.String.Basic
import Mathlib.Tactic.NormNum

/-!
# Decimals of a fixed width

The decimal digits of a number, padded with zeros to a width of `w` characters. Below `10 ^ w` all of
them have the same length and text order is the order of the numbers; the first number that outgrows
the width comes back between two smaller ones.

Results:
* `append_lt_append_iff`: text order on equally long beginnings.
* `padded_lt_padded_iff`: text order is number order below `10 ^ w`.
* `strictMonoOn_padded_iff`: and below no larger bound.
-/

namespace AstroMine.FixedWidth

/-! ## Text order -/

section Lex

variable {α : Type*} [LinearOrder α]

/-- Of two texts with equally long beginnings the beginnings decide, then the rests. -/
theorem append_lt_append_iff {xs ys : List α} (h : xs.length = ys.length) (us vs : List α) :
    xs ++ us < ys ++ vs ↔ xs < ys ∨ xs = ys ∧ us < vs := by
  induction xs generalizing ys with
  | nil =>
    obtain rfl := List.length_eq_zero_iff.mp h.symm
    simp
  | cons x xs ih =>
    cases ys with
    | nil => cases h
    | cons y ys =>
      have hlength : xs.length = ys.length := Nat.succ.inj h
      rw [List.cons_append, List.cons_append, List.cons_lt_cons_iff, List.cons_lt_cons_iff,
        ih hlength, List.cons.injEq]
      tauto

/-- A common beginning does not count. -/
theorem append_left_lt_iff (xs us vs : List α) : xs ++ us < xs ++ vs ↔ us < vs := by
  rw [append_lt_append_iff rfl]
  simp

end Lex

/-! ## Digits -/

/-- The digits of a number, padded with zeros to the width `w`. -/
def padded (w n : ℕ) : List Char :=
  List.replicate (w - (Nat.toDigits 10 n).length) '0' ++ Nat.toDigits 10 n

theorem digitChar_lt_iff {a b : ℕ} (ha : a < 10) (hb : b < 10) :
    a.digitChar < b.digitChar ↔ a < b := by
  have hall : ∀ a < 10, ∀ b < 10, (a.digitChar < b.digitChar ↔ a < b) := by decide
  exact hall a ha b hb

/-- A number from `10 ^ k` on has more than `k` digits. -/
theorem lt_length_toDigits {k n : ℕ} (hn : 10 ^ k ≤ n) : k < (Nat.toDigits 10 n).length := by
  rcases Nat.eq_zero_or_pos k with rfl | hk
  · exact Nat.length_toDigits_pos
  · have hlength := Nat.length_toDigits_le_iff (b := 10) (n := n) (by decide) hk
    omega

/-- A number with enough digits is not padded. -/
theorem padded_of_le_length {w n : ℕ} (h : w ≤ (Nat.toDigits 10 n).length) :
    padded w n = Nat.toDigits 10 n := by
  rw [padded, Nat.sub_eq_zero_of_le h, List.replicate_zero, List.nil_append]

theorem length_padded {w n : ℕ} (hw : 0 < w) (hn : n < 10 ^ w) : (padded w n).length = w := by
  have hlength := (Nat.length_toDigits_le_iff (by decide) hw).2 hn
  rw [padded, List.length_append, List.length_replicate]
  omega

/-- The last digit stands behind the number without it, which is one character narrower. -/
theorem padded_succ {w : ℕ} (hw : 0 < w) (n : ℕ) :
    padded (w + 1) n = padded w (n / 10) ++ [(n % 10).digitChar] := by
  by_cases hn : n < 10
  · obtain ⟨k, rfl⟩ := Nat.exists_eq_add_of_lt hw
    rw [padded, padded, Nat.div_eq_of_lt hn, Nat.mod_eq_of_lt hn, Nat.toDigits_of_lt_base hn,
      Nat.toDigits_zero, List.length_singleton, List.length_singleton, Nat.add_sub_cancel,
      Nat.add_sub_cancel, ← List.replicate_succ', Nat.zero_add]
  · have hdigits := Nat.toDigits_of_base_le (b := 10) (by decide) (Nat.le_of_not_lt hn)
    rw [padded, hdigits, padded, List.length_append, List.length_singleton,
      Nat.add_sub_add_right, List.append_assoc]

/-- **Text order is number order** as long as the numbers fit the width. -/
theorem padded_lt_padded_iff {w i j : ℕ} (hw : 0 < w) (hi : i < 10 ^ w) (hj : j < 10 ^ w) :
    padded w i < padded w j ↔ i < j := by
  induction w, hw using Nat.le_induction generalizing i j with
  | base =>
    rw [pow_one] at hi hj
    have hone : ∀ n < 10, padded 1 n = [n.digitChar] := by
      intro n hn
      rw [padded, Nat.toDigits_of_lt_base hn]
      rfl
    rw [hone i hi, hone j hj, List.cons_lt_cons_iff, digitChar_lt_iff hi hj]
    simp
  | succ w hw ih =>
    rw [pow_succ] at hi hj
    have hi' : i / 10 < 10 ^ w := Nat.div_lt_of_lt_mul (by omega)
    have hj' : j / 10 < 10 ^ w := Nat.div_lt_of_lt_mul (by omega)
    have hequal : padded w (i / 10) = padded w (j / 10) ↔ i / 10 = j / 10 := by
      refine ⟨fun h => ?_, fun h => by rw [h]⟩
      have hlt := (ih hi' hj').not.1 h.not_lt
      have hgt := (ih hj' hi').not.1 h.not_gt
      omega
    rw [padded_succ hw, padded_succ hw,
      append_lt_append_iff ((length_padded hw hi').trans (length_padded hw hj').symm), ih hi' hj',
      hequal, List.cons_lt_cons_iff, digitChar_lt_iff (Nat.mod_lt _ (by decide))
        (Nat.mod_lt _ (by decide))]
    simp only [List.lt_irrefl, and_false, or_false]
    omega

/-- The first number that outgrows the width comes before a smaller one. -/
theorem padded_pow_lt (k : ℕ) : padded (k + 1) (10 ^ (k + 1)) < padded (k + 1) (10 ^ k + 1) := by
  have hpos : 0 < 10 ^ k := Nat.pow_pos (by decide)
  have hpow : 10 ^ (k + 1) = 10 ^ k * 10 := pow_succ 10 k
  have hdigits : padded (k + 1) (10 ^ (k + 1)) = padded (k + 1) (10 ^ k) ++ ['0'] := by
    rw [padded_of_le_length (lt_length_toDigits le_rfl).le,
      padded_of_le_length (lt_length_toDigits le_rfl), Nat.toDigits_of_base_le (by decide) (by omega),
      hpow, Nat.mul_div_cancel _ (by decide), Nat.mul_mod_left]
    rfl
  rw [hdigits, ← List.append_nil (padded (k + 1) (10 ^ k + 1)), append_lt_append_iff]
  · left
    rw [padded_lt_padded_iff (Nat.succ_pos k) (by omega) (by omega)]
    omega
  · rw [length_padded (Nat.succ_pos k) (by omega), length_padded (Nat.succ_pos k) (by omega)]

/-- **Text order is number order below `n` exactly when the numbers below `n` fit the width.** -/
theorem strictMonoOn_padded_iff {w : ℕ} (hw : 0 < w) {n : ℕ} :
    StrictMonoOn (padded w) (Set.Iio n) ↔ n ≤ 10 ^ w := by
  constructor
  · intro h
    by_contra hlarge
    obtain ⟨k, rfl⟩ := Nat.exists_eq_add_one_of_ne_zero hw.ne'
    have hpos : 0 < 10 ^ k := Nat.pow_pos (by decide)
    have hpow : 10 ^ (k + 1) = 10 ^ k * 10 := pow_succ 10 k
    have hlt : 10 ^ k + 1 < 10 ^ (k + 1) := by omega
    exact lt_asymm (padded_pow_lt k)
      (h (Set.mem_Iio.2 (by omega)) (Set.mem_Iio.2 (by omega)) hlt)
  · intro hn i hi j hj hij
    exact (padded_lt_padded_iff hw (lt_of_lt_of_le hi hn) (lt_of_lt_of_le hj hn)).2 hij

end AstroMine.FixedWidth
