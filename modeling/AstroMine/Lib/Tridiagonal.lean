import Mathlib.Algebra.Order.Field.Basic
import Mathlib.Tactic.FieldSimp
import Mathlib.Tactic.Linarith
import Mathlib.Tactic.LinearCombination

/-!
# Tridiagonal systems

A tridiagonal system is a list of rows, each with its entries below, on and above the diagonal and
its right side. Elimination goes down the rows and leaves an unknown as `d - c * y`, where `y` is
the unknown of the next row; substitution comes back up.

Results:
* `solves_iff_thomas`: where the diagonal dominates, the algorithm finds the one solution.
* `le_of_mem_thomas`: a constant below the right sides is below the solution.
* `pos_of_mem_thomas`: positive right sides have a positive solution.
-/

namespace AstroMine.Tridiagonal

variable {K : Type*} [Field K]

/-- A row of the system. -/
structure Row (K : Type*) where
  sub : K
  diag : K
  sup : K
  rhs : K

/-- The unknowns satisfy the rows, where `p` is the unknown above the first. -/
def Solves (p : K) : List (Row K) → List K → Prop
  | [], [] => True
  | r :: rs, x :: xs => r.sub * p + r.diag * x + r.sup * xs.headD 0 = r.rhs ∧ Solves x rs xs
  | _, _ => False

/-- The elimination: of every row the `c` and the `d`, from those of the row above. -/
def eliminate (c d : K) : List (Row K) → List (K × K)
  | [] => []
  | r :: rs =>
    let denom := r.diag - r.sub * c
    let c' := r.sup / denom
    let d' := (r.rhs - r.sub * d) / denom
    (c', d') :: eliminate c' d' rs

/-- The substitution, from the last row up. -/
def substitute : List (K × K) → List K
  | [] => []
  | (c, d) :: rest =>
    match substitute rest with
    | [] => [d]
    | x :: xs => (d - c * x) :: x :: xs

/-- The algorithm. The first row has nothing above it. -/
def thomas : List (Row K) → List K
  | [] => []
  | r :: rs =>
    let c := r.sup / r.diag
    let d := r.rhs / r.diag
    substitute ((c, d) :: eliminate c d rs)

/-- No unknown stands above the first row, which is as one with nothing to eliminate. -/
theorem thomas_eq (rows : List (Row K)) : thomas rows = substitute (eliminate 0 0 rows) := by
  cases rows with
  | nil => rfl
  | cons r rs =>
    unfold thomas
    rw [eliminate]
    simp only [mul_zero, sub_zero]

theorem length_substitute (ps : List (K × K)) : (substitute ps).length = ps.length := by
  induction ps with
  | nil => rfl
  | cons p ps ih =>
    rw [List.length_cons, ← ih, substitute]
    cases substitute ps with
    | nil => rfl
    | cons x xs => rfl

theorem length_eliminate (c d : K) (rows : List (Row K)) :
    (eliminate c d rows).length = rows.length := by
  induction rows generalizing c d with
  | nil => rfl
  | cons r rs ih => exact congrArg (· + 1) (ih _ _)

theorem length_thomas (rows : List (Row K)) : (thomas rows).length = rows.length := by
  rw [thomas_eq, length_substitute, length_eliminate]

/-- The last row has nothing above the diagonal. -/
def Closed (rows : List (Row K)) : Prop := ∀ r ∈ rows.getLast?, r.sup = 0

theorem Closed.tail {r : Row K} {rs : List (Row K)} (h : Closed (r :: rs)) : Closed rs := by
  intro r' hr'
  refine h r' ?_
  cases rs with
  | nil => cases hr'
  | cons s rs => rwa [List.getLast?_cons_cons]

theorem Closed.cons {r : Row K} {rs : List (Row K)} (h : Closed rs) (hne : rs ≠ []) :
    Closed (r :: rs) := by
  obtain ⟨s, rs, rfl⟩ := List.exists_cons_of_ne_nil hne
  intro r' hr'
  rw [List.getLast?_cons_cons] at hr'
  exact h r' hr'

/-- An unknown after the substitution. -/
theorem substitute_cons (c d : K) (ps : List (K × K)) :
    substitute ((c, d) :: ps) = (d - c * (substitute ps).headD 0) :: substitute ps ∨
      ps = [] := by
  cases ps with
  | nil => exact .inr rfl
  | cons p ps =>
    refine .inl ?_
    have hne : substitute (p :: ps) ≠ [] := by
      rw [← List.length_pos_iff, length_substitute]
      exact Nat.succ_pos _
    obtain ⟨x, xs, hx⟩ := List.exists_cons_of_ne_nil hne
    rw [substitute, hx]
    rfl

/-- The unknown of a row, from that of the next row or, in the last row, alone. -/
theorem substitute_eliminate_cons {c d : K} {r : Row K} {rs : List (Row K)}
    (hclosed : Closed (r :: rs)) :
    substitute (eliminate c d (r :: rs)) =
      ((r.rhs - r.sub * d) / (r.diag - r.sub * c) - r.sup / (r.diag - r.sub * c) *
        (substitute (eliminate (r.sup / (r.diag - r.sub * c))
          ((r.rhs - r.sub * d) / (r.diag - r.sub * c)) rs)).headD 0) ::
        substitute (eliminate (r.sup / (r.diag - r.sub * c))
          ((r.rhs - r.sub * d) / (r.diag - r.sub * c)) rs) := by
  cases rs with
  | nil =>
    have hsup : r.sup = 0 := hclosed r rfl
    simp [eliminate, substitute, hsup]
  | cons s rs =>
    rw [eliminate]
    rcases substitute_cons (r.sup / (r.diag - r.sub * c)) ((r.rhs - r.sub * d) /
      (r.diag - r.sub * c)) (eliminate (r.sup / (r.diag - r.sub * c))
        ((r.rhs - r.sub * d) / (r.diag - r.sub * c)) (s :: rs)) with h | h
    · exact h
    · cases h

section Order

variable [LinearOrder K] [IsStrictOrderedRing K]

/-- The entries off the diagonal are not positive, and the diagonal outweighs them. -/
structure Row.Dominant (r : Row K) : Prop where
  sub_nonpos : r.sub ≤ 0
  sup_nonpos : r.sup ≤ 0
  diag : -r.sub - r.sup < r.diag

/-- **Step.** The pivot of a row is positive, and the row leaves a `c` that is again between `-1`
and `0`. -/
theorem Row.Dominant.pivot {r : Row K} (h : r.Dominant) {c : K} (hc : -1 < c) :
    0 < r.diag - r.sub * c ∧ -1 < r.sup / (r.diag - r.sub * c) ∧
      r.sup / (r.diag - r.sub * c) ≤ 0 := by
  obtain ⟨hsub, hsup, hdiag⟩ := h
  have hle : r.sub * c ≤ -r.sub := by nlinarith
  have hpivot : 0 < r.diag - r.sub * c := by linarith
  refine ⟨hpivot, ?_, div_nonpos_of_nonpos_of_nonneg hsup hpivot.le⟩
  rw [lt_div_iff₀ hpivot]
  linarith

/-- What elimination leaves solves the rows from `d - c * x`, where `x` is the first unknown, and
nothing else does. -/
theorem solves_iff_substitute {rows : List (Row K)} (hrows : ∀ r ∈ rows, r.Dominant)
    (hclosed : Closed rows) {c d p : K} (hc : -1 < c) (hc0 : c ≤ 0) {xs : List K}
    (hp : p = d - c * xs.headD 0) :
    Solves p rows xs ↔ xs = substitute (eliminate c d rows) := by
  induction rows generalizing c d p xs with
  | nil =>
    cases xs with
    | nil => exact ⟨fun _ => rfl, fun _ => trivial⟩
    | cons x xs => exact ⟨fun h => h.elim, fun h => by cases h⟩
  | cons r rs ih =>
    obtain ⟨hpivot, hc', hc0'⟩ := (hrows r List.mem_cons_self).pivot hc
    rw [substitute_eliminate_cons hclosed]
    cases xs with
    | nil => exact ⟨fun h => h.elim, fun h => by cases h⟩
    | cons x xs =>
      change r.sub * p + r.diag * x + r.sup * xs.headD 0 = r.rhs ∧ Solves x rs xs ↔ _
      -- The row, with the unknown above it eliminated.
      have hrow : r.sub * p + r.diag * x + r.sup * xs.headD 0 = r.rhs ↔
          x = (r.rhs - r.sub * d) / (r.diag - r.sub * c) -
            r.sup / (r.diag - r.sub * c) * xs.headD 0 := by
        rw [hp, List.headD_cons, div_mul_eq_mul_div, ← sub_div, eq_div_iff hpivot.ne']
        constructor <;> intro h <;> linear_combination h
      have hih : ∀ {y : K}, y = (r.rhs - r.sub * d) / (r.diag - r.sub * c) -
          r.sup / (r.diag - r.sub * c) * xs.headD 0 → (Solves y rs xs ↔ xs = _) := fun hy =>
        ih (fun s hs => hrows s (List.mem_cons_of_mem r hs)) hclosed.tail hc' hc0' hy
      rw [hrow, List.cons.injEq]
      constructor
      · rintro ⟨hx, hsolves⟩
        have htail := (hih hx).mp hsolves
        exact ⟨htail ▸ hx, htail⟩
      · rintro ⟨hx, htail⟩
        rw [← htail] at hx
        exact ⟨hx, (hih hx).mpr htail⟩

/-- **Main theorem.** Where the diagonal dominates, the algorithm finds the one solution. -/
theorem solves_iff_thomas {rows : List (Row K)} (hrows : ∀ r ∈ rows, r.Dominant)
    (hclosed : Closed rows) {xs : List K} : Solves 0 rows xs ↔ xs = thomas rows := by
  rw [thomas_eq]
  exact solves_iff_substitute hrows hclosed (neg_lt_zero.mpr one_pos) le_rfl
    (by rw [zero_mul, sub_zero])

/-! ## Bounds -/

theorem le_of_mem_substitute {m : K} {rows : List (Row K)} (hrows : ∀ r ∈ rows, r.Dominant)
    (hclosed : Closed rows) (hrhs : ∀ r ∈ rows, m * (r.sub + r.diag + r.sup) ≤ r.rhs) {c d : K}
    (hc : -1 < c) (hc0 : c ≤ 0) (hd : m * (1 + c) ≤ d) :
    ∀ x ∈ substitute (eliminate c d rows), m ≤ x := by
  induction rows generalizing c d with
  | nil => simp [eliminate, substitute]
  | cons r rs ih =>
    have hdom := hrows r List.mem_cons_self
    obtain ⟨hpivot, hc', hc0'⟩ := hdom.pivot hc
    have hd' : m * (1 + r.sup / (r.diag - r.sub * c)) ≤
        (r.rhs - r.sub * d) / (r.diag - r.sub * c) := by
      rw [le_div_iff₀ hpivot, mul_assoc, add_mul, div_mul_cancel₀ _ hpivot.ne', one_mul]
      have hrow := hrhs r List.mem_cons_self
      nlinarith [mul_le_mul_of_nonneg_left hd (neg_nonneg.mpr hdom.sub_nonpos)]
    have hrest := ih (fun s hs => hrows s (List.mem_cons_of_mem r hs)) hclosed.tail
      (fun s hs => hrhs s (List.mem_cons_of_mem r hs)) hc' hc0' hd'
    rw [substitute_eliminate_cons hclosed]
    refine List.forall_mem_cons.mpr ⟨?_, hrest⟩
    cases rs with
    | nil =>
      have hsup : r.sup = 0 := hclosed r rfl
      rw [hsup, zero_div, add_zero, mul_one] at hd'
      rwa [hsup, zero_div, zero_mul, sub_zero]
    | cons s rs =>
      have hne : substitute (eliminate (r.sup / (r.diag - r.sub * c))
          ((r.rhs - r.sub * d) / (r.diag - r.sub * c)) (s :: rs)) ≠ [] := by
        rw [← List.length_pos_iff, length_substitute, length_eliminate]
        exact Nat.succ_pos _
      obtain ⟨y, ys, hy⟩ := List.exists_cons_of_ne_nil hne
      have hmy : m ≤ y := hrest y (hy ▸ List.mem_cons_self)
      rw [hy, List.headD_cons]
      nlinarith

/-- A constant that has the rows below their right sides is below all unknowns. -/
theorem le_of_mem_thomas {m : K} {rows : List (Row K)} (hrows : ∀ r ∈ rows, r.Dominant)
    (hclosed : Closed rows) (hfirst : ∀ r ∈ rows.head?, r.sub = 0)
    (hrhs : ∀ r ∈ rows, m * (r.sub + r.diag + r.sup) ≤ r.rhs) : ∀ x ∈ thomas rows, m ≤ x := by
  -- Nothing is eliminated from the first row, so any `d` will do above it.
  have hany : thomas rows = substitute (eliminate 0 m rows) := by
    rw [thomas_eq]
    cases rows with
    | nil => rfl
    | cons r rs =>
      have hsub : r.sub = 0 := hfirst r rfl
      rw [eliminate, eliminate, hsub, zero_mul, zero_mul]
  rw [hany]
  exact le_of_mem_substitute hrows hclosed hrhs (neg_lt_zero.mpr one_pos) le_rfl
    (by rw [add_zero, mul_one])

/-- Positive right sides have a positive solution. -/
theorem pos_of_mem_thomas {rows : List (Row K)} (hrows : ∀ r ∈ rows, r.Dominant)
    (hclosed : Closed rows) (hfirst : ∀ r ∈ rows.head?, r.sub = 0)
    (hrhs : ∀ r ∈ rows, 0 < r.rhs) : ∀ x ∈ thomas rows, 0 < x := by
  have hscale : ∃ m : K, 0 < m ∧ ∀ r ∈ rows, m * (r.sub + r.diag + r.sup) ≤ r.rhs := by
    clear hclosed hfirst
    induction rows with
    | nil => exact ⟨1, one_pos, by simp⟩
    | cons r rs ih =>
      obtain ⟨m, hm, hall⟩ := ih (fun s hs => hrows s (List.mem_cons_of_mem r hs))
        (fun s hs => hrhs s (List.mem_cons_of_mem r hs))
      have hsum : ∀ s ∈ r :: rs, 0 < s.sub + s.diag + s.sup := by
        intro s hs
        have hdiag := (hrows s hs).diag
        linarith
      have hr := hsum r List.mem_cons_self
      refine ⟨min m (r.rhs / (r.sub + r.diag + r.sup)),
        lt_min hm (div_pos (hrhs r List.mem_cons_self) hr), List.forall_mem_cons.mpr ⟨?_, ?_⟩⟩
      · calc min m (r.rhs / (r.sub + r.diag + r.sup)) * (r.sub + r.diag + r.sup)
            ≤ r.rhs / (r.sub + r.diag + r.sup) * (r.sub + r.diag + r.sup) :=
              mul_le_mul_of_nonneg_right (min_le_right _ _) hr.le
          _ = r.rhs := div_mul_cancel₀ _ hr.ne'
      · intro s hs
        refine (mul_le_mul_of_nonneg_right (min_le_left _ _) ?_).trans (hall s hs)
        exact (hsum s (List.mem_cons_of_mem r hs)).le
  obtain ⟨m, hm, hall⟩ := hscale
  intro x hx
  exact hm.trans_le (le_of_mem_thomas hrows hclosed hfirst hall x hx)

end Order

end AstroMine.Tridiagonal
