import Mathlib.Algebra.Order.Field.Basic
import Mathlib.Order.WithBot
import Mathlib.Algebra.Field.Rat
import Mathlib.Algebra.Order.Ring.Rat
import Mathlib.Data.Rat.Sqrt
import Mathlib.Algebra.Order.BigOperators.Group.List

/-!
# Machine floats with exact finite arithmetic

`Flt K` is the carrier of an IEEE 754 binary format (NaN, the two infinities, finite numbers)
in which arithmetic on finite numbers is exact: rounding and overflow are left out, the special
values are kept. `K` is any ordered field with a square-root operation; a division by zero has
the sign of its numerator, since the two zeros are one number here.

* Comparisons are false on NaN; `Flt.min` and `Flt.max` return the operand that is a number.
* `Ext K` is the linear order of the values that are not NaN, and `Ext.toFlt` embeds it;
  `toFlt_min`, `toFlt_max` and `toFlt_neg` say that the float operations are the lattice
  operations there.
* `exists_map_fin`, `exists_of_sqrt_finite`: floats that are finite, or have a finite length,
  come from numbers.
* The `fin` lemmas are the simp set that carries a computation on finite floats over to `K`.
-/

namespace AstroMine

/-- A square-root operation; its law is stated where a proof needs it. -/
class HasSqrt (K : Type) where
  sqrt : K → K

/-- The rational square root, exact on squares of rationals. -/
instance : HasSqrt ℚ := ⟨Rat.sqrt⟩

/-- A float: NaN, an infinity, or a finite number. -/
inductive Flt (K : Type) where
  | nan
  | negInf
  | fin (x : K)
  | posInf
  deriving DecidableEq, Repr

namespace Flt

variable {K : Type}

/-! ## Order -/

section Order

variable [LinearOrder K]

/-- IEEE `<`: false as soon as an operand is NaN. -/
protected def lt : Flt K → Flt K → Prop
  | nan, _ => False
  | _, nan => False
  | negInf, b => b ≠ negInf
  | posInf, _ => False
  | fin _, negInf => False
  | fin x, fin y => x < y
  | fin _, posInf => True

/-- IEEE `<=`: false as soon as an operand is NaN. -/
protected def le : Flt K → Flt K → Prop
  | nan, _ => False
  | _, nan => False
  | negInf, _ => True
  | posInf, b => b = posInf
  | fin _, negInf => False
  | fin x, fin y => x ≤ y
  | fin _, posInf => True

instance : LT (Flt K) := ⟨Flt.lt⟩
instance : LE (Flt K) := ⟨Flt.le⟩

instance decidableLt (a b : Flt K) : Decidable (a < b) := by
  show Decidable (Flt.lt a b)
  cases a <;> cases b <;> unfold Flt.lt <;> infer_instance

instance decidableLe (a b : Flt K) : Decidable (a ≤ b) := by
  show Decidable (Flt.le a b)
  cases a <;> cases b <;> unfold Flt.le <;> infer_instance

@[simp] theorem fin_lt_fin (x y : K) : (fin x < fin y) ↔ x < y := Iff.rfl
@[simp] theorem fin_le_fin (x y : K) : (fin x ≤ fin y) ↔ x ≤ y := Iff.rfl
@[simp] theorem not_nan_lt (a : Flt K) : ¬ (nan < a) := fun h => h
@[simp] theorem not_nan_le (a : Flt K) : ¬ (nan ≤ a) := fun h => h

/-- `f64::min`: a NaN operand loses against a number. -/
protected def min : Flt K → Flt K → Flt K
  | nan, b => b
  | a, nan => a
  | a, b => if b < a then b else a

/-- `f64::max`: a NaN operand loses against a number. -/
protected def max : Flt K → Flt K → Flt K
  | nan, b => b
  | a, nan => a
  | a, b => if a < b then b else a

/-- `f64::clamp`, for bounds `lo ≤ hi`: NaN stays NaN. -/
def clamp (x lo hi : Flt K) : Flt K :=
  if x < lo then lo else if hi < x then hi else x

@[simp] theorem min_fin (x y : K) : Flt.min (fin x) (fin y) = fin (min x y) := by
  simp only [Flt.min, fin_lt_fin]
  split_ifs with h
  · rw [min_eq_right h.le]
  · rw [min_eq_left (not_lt.mp h)]

@[simp] theorem max_fin (x y : K) : Flt.max (fin x) (fin y) = fin (max x y) := by
  simp only [Flt.max, fin_lt_fin]
  split_ifs with h
  · rw [max_eq_right h.le]
  · rw [max_eq_left (not_lt.mp h)]

theorem clamp_fin {x lo hi : K} (h : lo ≤ hi) :
    clamp (fin x) (fin lo) (fin hi) = fin (max lo (min x hi)) := by
  simp only [clamp, fin_lt_fin]
  split_ifs with h1 h2
  · rw [max_eq_left (min_le_left x hi |>.trans h1.le)]
  · rw [min_eq_right h2.le, max_eq_right h]
  · rw [min_eq_left (not_lt.mp h2), max_eq_right (not_lt.mp h1)]

end Order

/-! ## Finiteness -/

/-- `f64::is_finite`. -/
def isFinite : Flt K → Bool
  | fin _ => true
  | _ => false

@[simp] theorem isFinite_fin (x : K) : (fin x).isFinite = true := rfl

theorem isFinite_iff {a : Flt K} : a.isFinite = true ↔ ∃ x, a = fin x := by
  cases a <;> simp [isFinite]

/-- Finite floats are numbers. -/
theorem exists_map_fin {xs : List (Flt K)} (h : xs.all isFinite = true) :
    ∃ r : List K, xs = r.map fin := by
  induction xs with
  | nil => exact ⟨[], rfl⟩
  | cons x xs ih =>
    rw [List.all_cons, Bool.and_eq_true] at h
    obtain ⟨y, rfl⟩ := isFinite_iff.1 h.1
    obtain ⟨ys, rfl⟩ := ih h.2
    exact ⟨y :: ys, rfl⟩

/-! ## Arithmetic -/

section Arith

variable [Field K]

instance : Zero (Flt K) := ⟨fin 0⟩
instance : One (Flt K) := ⟨fin 1⟩

/-- Sign change. -/
protected def neg : Flt K → Flt K
  | nan => nan
  | negInf => posInf
  | fin x => fin (-x)
  | posInf => negInf

/-- Addition; `∞ + (-∞)` is NaN. -/
protected def add : Flt K → Flt K → Flt K
  | nan, _ => nan
  | _, nan => nan
  | fin x, fin y => fin (x + y)
  | fin _, b => b
  | a, fin _ => a
  | negInf, negInf => negInf
  | posInf, posInf => posInf
  | _, _ => nan

instance : Neg (Flt K) := ⟨Flt.neg⟩
instance : Add (Flt K) := ⟨Flt.add⟩
instance : Sub (Flt K) := ⟨fun a b => a + -b⟩

/-- `iter().sum::<f64>()`. -/
def sum (xs : List (Flt K)) : Flt K := xs.foldl (· + ·) 0

@[simp] theorem fin_add (x y : K) : (fin x + fin y : Flt K) = fin (x + y) := rfl
@[simp] theorem neg_fin (x : K) : (-fin x : Flt K) = fin (-x) := rfl
@[simp] theorem fin_sub (x y : K) : (fin x - fin y : Flt K) = fin (x - y) := by
  show fin (x + -y) = _
  rw [sub_eq_add_neg]
@[simp] theorem zero_def : (0 : Flt K) = fin 0 := rfl
@[simp] theorem one_def : (1 : Flt K) = fin 1 := rfl

theorem foldl_add_fin (xs : List K) (a : K) :
    (xs.map fin).foldl (· + ·) (fin a) = fin (xs.foldl (· + ·) a) := by
  induction xs generalizing a with
  | nil => rfl
  | cons x xs ih => simpa using ih (a + x)

@[simp] theorem sum_fin (xs : List K) : sum (xs.map fin) = fin xs.sum := by
  rw [sum, zero_def, foldl_add_fin, List.sum_eq_foldl]

/-! ### Multiplication, division, absolute value and square root -/

variable [LinearOrder K]

/-- The infinity with the sign of `x`, or NaN for `x = 0`. -/
def infOfSign (x : K) : Flt K :=
  if 0 < x then posInf else if x < 0 then negInf else nan

/-- Multiplication; `0 · ∞` is NaN. -/
protected def mul : Flt K → Flt K → Flt K
  | nan, _ => nan
  | _, nan => nan
  | fin x, fin y => fin (x * y)
  | fin x, posInf => infOfSign x
  | fin x, negInf => infOfSign (-x)
  | posInf, fin y => infOfSign y
  | negInf, fin y => infOfSign (-y)
  | posInf, posInf => posInf
  | negInf, negInf => posInf
  | _, _ => negInf

/-- Division; `x / 0` is the infinity of the sign of `x`, `0 / 0` and `∞ / ∞` are NaN. -/
protected def div : Flt K → Flt K → Flt K
  | nan, _ => nan
  | _, nan => nan
  | fin x, fin y => if y = 0 then infOfSign x else fin (x / y)
  | fin _, _ => fin 0
  | posInf, fin y => if y < 0 then negInf else posInf
  | negInf, fin y => if y < 0 then posInf else negInf
  | _, _ => nan

instance : Mul (Flt K) := ⟨Flt.mul⟩
instance : Div (Flt K) := ⟨Flt.div⟩

/-- `f64::abs`. -/
protected def abs : Flt K → Flt K
  | nan => nan
  | fin x => fin |x|
  | _ => posInf

/-- `f64::sqrt`; NaN on negative numbers. -/
protected def sqrt [HasSqrt K] : Flt K → Flt K
  | fin x => if x < 0 then nan else fin (HasSqrt.sqrt x)
  | posInf => posInf
  | _ => nan

@[simp] theorem fin_mul (x y : K) : (fin x * fin y : Flt K) = fin (x * y) := rfl
theorem fin_div {x y : K} (h : y ≠ 0) : (fin x / fin y : Flt K) = fin (x / y) := if_neg h
@[simp] theorem abs_fin (x : K) : Flt.abs (fin x) = fin |x| := rfl

theorem sqrt_fin [HasSqrt K] {x : K} (h : 0 ≤ x) : Flt.sqrt (fin x) = fin (HasSqrt.sqrt x) :=
  if_neg (not_lt.mpr h)

/-! ### Finite operands -/

omit [LinearOrder K] in
theorem isFinite_add {a b : Flt K} (ha : a.isFinite = true) (hb : b.isFinite = true) :
    (a + b).isFinite = true := by
  obtain ⟨x, rfl⟩ := isFinite_iff.1 ha
  obtain ⟨y, rfl⟩ := isFinite_iff.1 hb
  rfl

omit [LinearOrder K] in
theorem isFinite_neg {a : Flt K} (ha : a.isFinite = true) : (-a).isFinite = true := by
  obtain ⟨x, rfl⟩ := isFinite_iff.1 ha
  rfl

omit [LinearOrder K] in
theorem isFinite_sub {a b : Flt K} (ha : a.isFinite = true) (hb : b.isFinite = true) :
    (a - b).isFinite = true :=
  isFinite_add ha (isFinite_neg hb)

theorem isFinite_mul {a b : Flt K} (ha : a.isFinite = true) (hb : b.isFinite = true) :
    (a * b).isFinite = true := by
  obtain ⟨x, rfl⟩ := isFinite_iff.1 ha
  obtain ⟨y, rfl⟩ := isFinite_iff.1 hb
  rfl

theorem isFinite_div {a b : Flt K} (ha : a.isFinite = true) (hb : b.isFinite = true)
    (hb0 : b ≠ 0) : (a / b).isFinite = true := by
  obtain ⟨x, rfl⟩ := isFinite_iff.1 ha
  obtain ⟨y, rfl⟩ := isFinite_iff.1 hb
  rw [fin_div fun hy => hb0 (congrArg fin hy)]
  rfl

omit [LinearOrder K] in
theorem isFinite_sum {xs : List (Flt K)} (h : ∀ x ∈ xs, x.isFinite = true) :
    (sum xs).isFinite = true := by
  have key : ∀ (xs : List (Flt K)) (acc : Flt K), acc.isFinite = true →
      (∀ x ∈ xs, x.isFinite = true) → (xs.foldl (· + ·) acc).isFinite = true := by
    intro xs
    induction xs with
    | nil => exact fun _ hacc _ => hacc
    | cons x xs ih =>
      intro acc hacc hxs
      exact ih _ (isFinite_add hacc (hxs x (by simp))) fun y hy => hxs y (by simp [hy])
  exact key xs 0 rfl h

/-! ### Operands of a finite result -/

omit [LinearOrder K] in
theorem finite_of_add {a b : Flt K} (h : (a + b).isFinite = true) :
    a.isFinite = true ∧ b.isFinite = true := by
  cases a <;> cases b <;> first | exact ⟨rfl, rfl⟩ | cases h

omit [LinearOrder K] in
theorem finite_of_neg {a : Flt K} (h : (-a).isFinite = true) : a.isFinite = true := by
  cases a <;> first | rfl | cases h

omit [LinearOrder K] in
theorem finite_of_sub {a b : Flt K} (h : (a - b).isFinite = true) :
    a.isFinite = true ∧ b.isFinite = true := by
  obtain ⟨ha, hb⟩ := finite_of_add h
  exact ⟨ha, finite_of_neg hb⟩

omit [LinearOrder K] in
theorem finite_of_foldl_add {xs : List (Flt K)} {acc : Flt K}
    (h : (xs.foldl (· + ·) acc).isFinite = true) :
    acc.isFinite = true ∧ xs.all isFinite = true := by
  induction xs generalizing acc with
  | nil => exact ⟨h, rfl⟩
  | cons x xs ih =>
    obtain ⟨hacc, hxs⟩ := ih h
    obtain ⟨ha, hx⟩ := finite_of_add hacc
    refine ⟨ha, ?_⟩
    rw [List.all_cons, hx, hxs]
    rfl

theorem finite_of_mul_self {a : Flt K} (h : (a * a).isFinite = true) : a.isFinite = true := by
  cases a <;> first | rfl | cases h

theorem finite_of_sqrt [HasSqrt K] {a : Flt K} (h : (Flt.sqrt a).isFinite = true) :
    a.isFinite = true := by
  cases a <;> first | rfl | cases h

/-- Coordinates whose length is a finite number are finite. -/
theorem exists_of_sqrt_finite [HasSqrt K] {xs : List (Flt K)}
    (h : (Flt.sqrt (sum (xs.map fun x => x * x))).isFinite = true) :
    ∃ r : List K, xs = r.map fin := by
  refine exists_map_fin (List.all_eq_true.mpr fun x hx => ?_)
  have hall := (finite_of_foldl_add (finite_of_sqrt h)).2
  rw [List.all_map] at hall
  exact finite_of_mul_self (List.all_eq_true.mp hall x hx)

/-- The length of a vector is finite exactly when its coordinates are. -/
theorem isFinite_sqrt_sum_sq_iff [IsStrictOrderedRing K] [HasSqrt K] {xs : List (Flt K)} :
    (Flt.sqrt (sum (xs.map fun x => x * x))).isFinite = true ↔ ∀ x ∈ xs, x.isFinite = true := by
  constructor
  · intro h x hx
    obtain ⟨r, rfl⟩ := exists_of_sqrt_finite h
    obtain ⟨y, -, rfl⟩ := List.mem_map.mp hx
    rfl
  · intro h
    obtain ⟨r, rfl⟩ := exists_map_fin (List.all_eq_true.mpr h)
    have hmap : (r.map fin).map (fun x : Flt K => x * x) = (r.map fun x => x * x).map fin := by
      rw [List.map_map, List.map_map]
      rfl
    have hnonneg : 0 ≤ (r.map fun x => x * x).sum := by
      apply List.sum_nonneg
      intro z hz
      obtain ⟨x, -, rfl⟩ := List.mem_map.mp hz
      exact mul_self_nonneg x
    rw [hmap, sum_fin, sqrt_fin hnonneg]
    rfl

end Arith

end Flt

/-! ## The values that are not NaN -/

/-- The extended numbers: `K` with a bottom and a top. -/
abbrev Ext (K : Type) := WithBot (WithTop K)

namespace Ext

variable {K : Type}

/-- A finite extended number. -/
def fin (x : K) : Ext K := ((x : WithTop K) : WithBot (WithTop K))

/-- The embedding into the floats. -/
def toFlt : Ext K → Flt K
  | none => .negInf
  | some none => .posInf
  | some (some x) => .fin x

/-- Sign change on the extended numbers. -/
def neg [Neg K] : Ext K → Ext K
  | none => some none
  | some none => none
  | some (some x) => some (some (-x))

@[simp] theorem toFlt_bot : toFlt (⊥ : Ext K) = .negInf := rfl
@[simp] theorem toFlt_top : toFlt (⊤ : Ext K) = .posInf := rfl
@[simp] theorem toFlt_fin (x : K) : toFlt (fin x) = .fin x := rfl

/-- Every extended number is `⊥`, `⊤` or finite. -/
theorem cases (a : Ext K) : a = ⊥ ∨ a = ⊤ ∨ ∃ x, a = fin x := by
  rcases a with _ | _ | x
  · exact .inl rfl
  · exact .inr (.inl rfl)
  · exact .inr (.inr ⟨x, rfl⟩)

section Order

variable [LinearOrder K]

theorem fin_lt_fin {x y : K} : fin x < fin y ↔ x < y := by
  unfold fin
  rw [WithBot.coe_lt_coe, WithTop.coe_lt_coe]

theorem bot_lt_fin (x : K) : ⊥ < fin x := WithBot.bot_lt_coe _

theorem fin_lt_top (x : K) : fin x < ⊤ :=
  WithBot.coe_lt_coe.mpr (WithTop.coe_lt_top x)

/-- The float order is the order of the extended numbers. -/
theorem toFlt_lt_toFlt {a b : Ext K} : toFlt a < toFlt b ↔ a < b := by
  obtain rfl | rfl | ⟨x, rfl⟩ := cases a <;> obtain rfl | rfl | ⟨y, rfl⟩ := cases b
  · exact ⟨fun h => absurd rfl h, fun h => absurd h (lt_irrefl _)⟩
  · exact ⟨fun _ => bot_lt_top, fun _ h => by cases h⟩
  · exact ⟨fun _ => bot_lt_fin y, fun _ h => by cases h⟩
  · exact ⟨fun h => h.elim, fun h => absurd h not_lt_bot⟩
  · exact ⟨fun h => h.elim, fun h => absurd h (lt_irrefl _)⟩
  · exact ⟨fun h => h.elim, fun h => absurd h not_top_lt⟩
  · exact ⟨fun h => h.elim, fun h => absurd h not_lt_bot⟩
  · exact ⟨fun _ => fin_lt_top x, fun _ => trivial⟩
  · rw [fin_lt_fin]
    exact Iff.rfl

theorem toFlt_min (a b : Ext K) : Flt.min (toFlt a) (toFlt b) = toFlt (min a b) := by
  have hmin : Flt.min (toFlt a) (toFlt b) = if toFlt b < toFlt a then toFlt b else toFlt a := by
    rcases a with _ | _ | x <;> rcases b with _ | _ | y <;> rfl
  rw [hmin]
  simp only [toFlt_lt_toFlt]
  split_ifs with h
  · rw [min_eq_right h.le]
  · rw [min_eq_left (not_lt.mp h)]

theorem toFlt_max (a b : Ext K) : Flt.max (toFlt a) (toFlt b) = toFlt (max a b) := by
  have hmax : Flt.max (toFlt a) (toFlt b) = if toFlt a < toFlt b then toFlt b else toFlt a := by
    rcases a with _ | _ | x <;> rcases b with _ | _ | y <;> rfl
  rw [hmax]
  simp only [toFlt_lt_toFlt]
  split_ifs with h
  · rw [max_eq_right h.le]
  · rw [max_eq_left (not_lt.mp h)]

theorem toFlt_le_toFlt {a b : Ext K} : toFlt a ≤ toFlt b ↔ a ≤ b := by
  have hle : toFlt a ≤ toFlt b ↔ ¬ toFlt b < toFlt a := by
    rcases a with _ | _ | x <;> rcases b with _ | _ | y
    · exact ⟨fun _ h => absurd rfl h, fun _ => trivial⟩
    · exact ⟨fun _ h => h, fun _ => trivial⟩
    · exact ⟨fun _ h => h, fun _ => trivial⟩
    · exact ⟨fun h => (by cases h), fun h => absurd (fun h' => (by cases h')) h⟩
    · exact ⟨fun _ h => h, fun _ => rfl⟩
    · exact ⟨fun h => (by cases h), fun h => absurd trivial h⟩
    · exact ⟨fun h => h.elim, fun h => absurd (fun h' => (by cases h')) h⟩
    · exact ⟨fun _ h => h, fun _ => trivial⟩
    · exact not_lt.symm
  rw [hle, toFlt_lt_toFlt, not_lt]

end Order

section Sign

variable [Field K]

theorem toFlt_neg (a : Ext K) : -toFlt a = toFlt (neg a) := by
  rcases a with _ | _ | x <;> rfl

theorem neg_antitone [LinearOrder K] [IsStrictOrderedRing K] :
    Antitone (neg : Ext K → Ext K) := by
  intro a b hab
  obtain rfl | rfl | ⟨x, rfl⟩ := cases a <;> obtain rfl | rfl | ⟨y, rfl⟩ := cases b
  · exact le_rfl
  · exact bot_le
  · exact le_top
  · exact absurd hab (not_le.mpr bot_lt_top)
  · exact le_rfl
  · exact absurd hab (not_le.mpr (fin_lt_top y))
  · exact absurd hab (not_le.mpr (bot_lt_fin x))
  · exact bot_le
  · have hxy : x ≤ y := by
      by_contra h
      exact absurd hab (not_le.mpr (fin_lt_fin.2 (not_le.mp h)))
    exact WithBot.coe_le_coe.mpr (WithTop.coe_le_coe.mpr (neg_le_neg hxy))

end Sign

end Ext

end AstroMine
