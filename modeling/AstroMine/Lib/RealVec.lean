import Mathlib.Analysis.Real.Sqrt
import Mathlib.Tactic.Linarith
import Mathlib.Tactic.Ring
import AstroMine.Lib.Flt

/-!
# Real vectors as lists, and their floats

Vectors of exact reals, the Euclidean length and the scalar product on lists, and how the float
operations read them.

Results:
* `euclid_scale`: the length of a scaled vector.
* `euclid_le_euclid`: coordinates that are no larger make a vector that is no longer.
* `scalar_le`: the scalar product is at most the product of the lengths.
* `sqrt_sum_sq`, `sum_zipWith_mul`: the float length and the float product of real vectors.
-/

namespace AstroMine

/-- The exact square root. -/
noncomputable instance : HasSqrt ℝ := ⟨Real.sqrt⟩

/-! ## Real vectors -/

/-- The Euclidean length. -/
noncomputable def euclid (v : List ℝ) : ℝ := √(v.map fun x => x * x).sum

/-- The difference, coordinate by coordinate. -/
def vsub (a b : List ℝ) : List ℝ := List.zipWith (· - ·) a b

/-- The scalar product. -/
def scalar (a b : List ℝ) : ℝ := (List.zipWith (· * ·) a b).sum

theorem sum_sq_nonneg (v : List ℝ) : 0 ≤ (v.map fun x => x * x).sum := by
  apply List.sum_nonneg
  intro y hy
  obtain ⟨x, -, rfl⟩ := List.mem_map.mp hy
  exact mul_self_nonneg x

theorem euclid_nonneg (v : List ℝ) : 0 ≤ euclid v := Real.sqrt_nonneg _

theorem euclid_of_forall_zero {v : List ℝ} (h : ∀ x ∈ v, x = 0) : euclid v = 0 := by
  have hsum : (v.map fun x => x * x).sum = 0 := by
    apply List.sum_eq_zero
    intro y hy
    obtain ⟨x, hx, rfl⟩ := List.mem_map.mp hy
    rw [h x hx, mul_zero]
  rw [euclid, hsum, Real.sqrt_zero]

theorem euclid_scale (v : List ℝ) {s : ℝ} (hs : 0 ≤ s) :
    euclid (v.map (· * s)) = euclid v * s := by
  have hsum : ((v.map (· * s)).map fun x => x * x).sum = (v.map fun x => x * x).sum * (s * s) := by
    rw [List.map_map, ← List.sum_map_mul_right]
    congr 1
    apply List.map_congr_left
    intro x _
    show x * s * (x * s) = x * x * (s * s)
    ring
  rw [euclid, hsum, Real.sqrt_mul (sum_sq_nonneg v), Real.sqrt_mul_self hs, euclid]

theorem euclid_sq (v : List ℝ) : euclid v * euclid v = (v.map fun x => x * x).sum :=
  Real.mul_self_sqrt (sum_sq_nonneg v)

theorem euclid_cons (x : ℝ) (v : List ℝ) : euclid (x :: v) = √(x * x + euclid v * euclid v) := by
  rw [euclid_sq, euclid, List.map_cons, List.sum_cons]

/-- A vector whose coordinates are no larger is no longer. -/
theorem euclid_le_euclid {a b : List ℝ} (h : List.Forall₂ (fun x y => |x| ≤ |y|) a b) :
    euclid a ≤ euclid b := by
  induction h with
  | nil => exact le_rfl
  | cons hxy _ ih =>
    rw [euclid_cons, euclid_cons]
    exact Real.sqrt_le_sqrt
      (add_le_add (abs_le_iff_mul_self_le.mp hxy) (mul_self_le_mul_self (euclid_nonneg _) ih))

theorem euclid_replicate (n : ℕ) (x : ℝ) : euclid (List.replicate n x) = √n * |x| := by
  rw [euclid, List.map_replicate, List.sum_replicate, nsmul_eq_mul, Real.sqrt_mul n.cast_nonneg,
    Real.sqrt_mul_self_eq_abs]

/-- The length of a vector in the box of size `u`. -/
theorem euclid_le_of_box {a : List ℝ} {n : ℕ} {u : ℝ} (hlen : a.length ≤ n) (hu : 0 ≤ u)
    (h : ∀ x ∈ a, |x| ≤ u) : euclid a ≤ √n * u := by
  have hcorner : List.Forall₂ (fun x y => |x| ≤ |y|) a (List.replicate a.length u) := by
    rw [← List.map_const', List.forall₂_map_right_iff, List.forall₂_same, abs_of_nonneg hu]
    exact h
  refine (euclid_le_euclid hcorner).trans ?_
  rw [euclid_replicate, abs_of_nonneg hu]
  exact mul_le_mul_of_nonneg_right (Real.sqrt_le_sqrt (Nat.cast_le.mpr hlen)) hu

theorem scalar_cons (x y : ℝ) (a b : List ℝ) : scalar (x :: a) (y :: b) = x * y + scalar a b := by
  simp [scalar]

theorem scalar_self (v : List ℝ) : scalar v v = euclid v * euclid v := by
  rw [euclid_sq, scalar, List.zipWith_self]

/-- The scalar product is at most the product of the lengths. -/
theorem scalar_le (a b : List ℝ) : scalar a b ≤ euclid a * euclid b := by
  induction a generalizing b with
  | nil => simpa [scalar] using mul_nonneg (euclid_nonneg []) (euclid_nonneg b)
  | cons x a ih =>
    cases b with
    | nil => simpa [scalar] using mul_nonneg (euclid_nonneg (x :: a)) (euclid_nonneg [])
    | cons y b =>
      have hsq : (x * y + euclid a * euclid b) * (x * y + euclid a * euclid b) ≤
          (x * x + euclid a * euclid a) * (y * y + euclid b * euclid b) := by
        nlinarith [mul_self_nonneg (x * euclid b - y * euclid a)]
      have hnonneg : 0 ≤ x * x + euclid a * euclid a :=
        add_nonneg (mul_self_nonneg x) (mul_self_nonneg (euclid a))
      have hle : x * y + euclid a * euclid b ≤ euclid (x :: a) * euclid (y :: b) := by
        rw [euclid_cons, euclid_cons, ← Real.sqrt_mul hnonneg]
        exact Real.le_sqrt_of_sq_le (by rw [pow_two]; exact hsq)
      rw [scalar_cons]
      linarith [ih b]

theorem scalar_vsub {a b c : List ℝ} (hb : b.length = a.length) (hc : c.length = a.length) :
    scalar a (vsub b c) = scalar a b - scalar a c := by
  induction a generalizing b c with
  | nil => simp [scalar]
  | cons x a ih =>
    obtain ⟨y, b, rfl⟩ := List.exists_cons_of_length_eq_add_one hb
    obtain ⟨z, c, rfl⟩ := List.exists_cons_of_length_eq_add_one hc
    have hcons : vsub (y :: b) (z :: c) = (y - z) :: vsub b c := rfl
    rw [hcons, scalar_cons, scalar_cons, scalar_cons, ih (by simpa using hb) (by simpa using hc)]
    ring

/-- The scalar product with a point that moves by `w` for the time `t`. -/
theorem scalar_move {a p w : List ℝ} (hp : p.length = a.length) (hw : w.length = a.length)
    (t : ℝ) : scalar a (List.zipWith (fun x y => x + y * t) p w) =
      scalar a p + scalar a w * t := by
  induction a generalizing p w with
  | nil => simp [scalar]
  | cons x a ih =>
    obtain ⟨y, p, rfl⟩ := List.exists_cons_of_length_eq_add_one hp
    obtain ⟨z, w, rfl⟩ := List.exists_cons_of_length_eq_add_one hw
    rw [List.zipWith_cons_cons, scalar_cons, scalar_cons, scalar_cons,
      ih (by simpa using hp) (by simpa using hw)]
    ring

theorem vsub_self (p : List ℝ) : ∀ x ∈ vsub p p, x = 0 := by
  simp [vsub]

namespace Flt

variable {K : Type}

/-! ## Bounds that are not NaN -/

section Order

variable [LinearOrder K]

theorem fin_le_of_not_lt {a : Flt K} {x : K} (ha : a ≠ nan) (h : ¬ a < fin x) : fin x ≤ a := by
  cases a with
  | nan => exact absurd rfl ha
  | negInf => exact absurd (show negInf < fin x from fun h => by cases h) h
  | fin y => exact not_lt.mp h
  | posInf => exact trivial

theorem le_fin_of_not_lt {a : Flt K} {x : K} (ha : a ≠ nan) (h : ¬ fin x < a) : a ≤ fin x := by
  cases a with
  | nan => exact absurd rfl ha
  | negInf => exact trivial
  | fin y => exact not_lt.mp h
  | posInf => exact absurd trivial h

end Order

/-! ## The floats of real vectors -/

variable [Field K] [LinearOrder K]

/-- The float length of a real vector. -/
theorem sqrt_sum_sq (v : List ℝ) :
    Flt.sqrt (sum ((v.map fin).map fun x => x * x)) = fin (euclid v) := by
  have hmap : (v.map fin).map (fun x : Flt ℝ => x * x) = (v.map fun x => x * x).map fin := by
    rw [List.map_map, List.map_map]
    rfl
  rw [hmap, sum_fin, sqrt_fin (sum_sq_nonneg v)]
  rfl

/-- The float scalar product of real vectors. -/
theorem sum_zipWith_mul (a b : List ℝ) :
    sum (List.zipWith (· * ·) (a.map fin) (b.map fin)) = fin (scalar a b) := by
  rw [List.zipWith_map, scalar, ← sum_fin, List.map_zipWith]
  rfl

/-- The float difference of real vectors. -/
theorem zipWith_sub (a b : List ℝ) :
    List.zipWith (· - ·) (a.map fin) (b.map fin) = (vsub a b).map fin := by
  rw [List.zipWith_map, vsub, List.map_zipWith]
  simp only [fin_sub]

theorem ne_nan_of_nonneg_add {a b : Flt K} (ha : 0 ≤ a) (hb : 0 ≤ b) : a + b ≠ nan := by
  cases a <;> cases b <;> first | exact absurd ha id | exact absurd hb id | (intro h; cases h)

/-- A bound that holds also holds with a tolerance added. -/
theorem le_add_of_le [IsStrictOrderedRing K] {x : K} {a b : Flt K} (h : fin x ≤ a) (hb : 0 ≤ b) :
    fin x ≤ a + b := by
  cases a with
  | nan => exact h
  | negInf => exact absurd h id
  | fin y =>
    cases b with
    | nan => exact hb
    | negInf => exact absurd hb id
    | fin z => exact le_add_of_le_of_nonneg h hb
    | posInf => exact trivial
  | posInf =>
    cases b with
    | nan => exact hb
    | negInf => exact absurd hb id
    | fin z => exact trivial
    | posInf => exact trivial

end Flt

end AstroMine
