import AstroMine.Lib.Dict
import AstroMine.Lib.Except
import AstroMine.Lib.RadicalInverse
import Mathlib.Data.String.Basic
import Mathlib.Order.Nat

/-!
# Parameter sweeps (`cloud/submission/sweepspec.py`)

A sweep describes many jobs by one parameter space. Its expansion is a grid, a sample drawn from a
seeded generator, or a Halton sample: coordinate `dim` of point `i` is the radical inverse of
`i + seed` in the `dim`-th prime base, stretched to the range of the parameter.

Arithmetic is exact over an ordered field `K`. The generator, and `str` of a value, are parameters.

Results:
* `radicalInverseLoop_eq`: the loop over the digits is the radical inverse of `Lib.RadicalInverse`.
* `haltonPoint_lookup`: the coordinate of a point in one dimension.
* `haltonDesign_iff`: when a Halton sweep is a proper design.
-/

namespace AstroMine.Cloud

/-! ## The radical inverse -/

/-- A number base. -/
structure Base where
  base : ℕ
  one_lt : 1 < base

/-- The loop of `_radical_inverse` (lines 39–42) on a positive index. -/
def radicalInverseLoop {K : Type} [Field K] (b : Base) (index : ℕ) (result fraction : K) : K :=
  if _h : 0 < index then
    radicalInverseLoop b (index / b.base) (result + (index % b.base : ℕ) * fraction)
      (fraction / b.base)
  else result
termination_by index
decreasing_by exact Nat.div_lt_self _h b.one_lt

/-- `_radical_inverse` (lines 36–43). An index that is not positive has no digit. -/
def radicalInverseOf (K : Type) [Field K] (index : ℤ) (b : Base) : K :=
  radicalInverseLoop b index.toNat 0 (1 / b.base)

/-- `_PRIMES` (line 47). -/
def primes : List Base :=
  [⟨2, by decide⟩, ⟨3, by decide⟩, ⟨5, by decide⟩, ⟨7, by decide⟩, ⟨11, by decide⟩,
    ⟨13, by decide⟩, ⟨17, by decide⟩, ⟨19, by decide⟩, ⟨23, by decide⟩, ⟨29, by decide⟩,
    ⟨31, by decide⟩, ⟨37, by decide⟩, ⟨41, by decide⟩, ⟨43, by decide⟩, ⟨47, by decide⟩,
    ⟨53, by decide⟩, ⟨59, by decide⟩, ⟨61, by decide⟩, ⟨67, by decide⟩, ⟨71, by decide⟩]

/-! ## The sweep -/

/-- `ParamValue` (line 30). -/
inductive ParamValue (K : Type)
  | int (n : ℤ)
  | float (x : K)
  | str (s : String)
  | bool (b : Bool)

/-- The fields of a `JobSpec` that a variant of it replaces. -/
structure JobSpec where
  env : Dict String String
  seed : Option ℤ

/-- The methods of a sweep. -/
inductive SweepMethod
  | grid
  | random
  | halton
  deriving DecidableEq

/-- `SweepSpec` (lines 50–66). -/
structure SweepSpec (K : Type) where
  base : JobSpec
  method : SweepMethod
  grid : Dict String (List (ParamValue K))
  ranges : Dict String (K × K)
  samples : Option ℤ
  seed : ℤ

/-- What `_check_space` raises. -/
inductive SpaceError
  | gridRequired
  | gridOnly
  | noValues (name : String)
  | rangesRequired
  | samplesRequired
  | rangesOnly
  | tooManyDimensions
  | emptyRange (name : String)

/-- `SWEEP_INDEX_ENV` (line 33). -/
def sweepIndexEnv : String := "ASTRO_MINE_SWEEP_INDEX"

namespace SweepSpec

variable {K : Type} [Field K] [LinearOrder K]

/-- `_check_space` (lines 68–90). -/
def checkSpace (spec : SweepSpec K) : Except SpaceError Unit :=
  match spec.method with
  | .grid => do
    refuseIf (spec.grid.entries = []) .gridRequired
    refuseIf (spec.ranges.entries ≠ [] ∨ spec.samples.isSome = true) .gridOnly
    match spec.grid.entries.find? fun p => p.2.isEmpty with
    | some (name, _) => .error (.noValues name)
    | none => .ok ()
  | .random | .halton => do
    refuseIf (spec.ranges.entries = []) .rangesRequired
    refuseIf (∀ n ∈ spec.samples, n ≤ 0) .samplesRequired
    refuseIf (spec.grid.entries ≠ []) .rangesOnly
    refuseIf (primes.length < spec.ranges.entries.length) .tooManyDimensions
    match spec.ranges.entries.find? fun p => ¬ p.2.1 < p.2.2 with
    | some (name, _) => .error (.emptyRange name)
    | none => .ok ()

/-- `size` (lines 92–100). The validator guarantees `samples` off the grid. -/
def size (spec : SweepSpec K) : ℤ :=
  match spec.method with
  | .grid => (spec.grid.entries.map fun p => (p.2.length : ℤ)).prod
  | .random | .halton => spec.samples.getD 0

/-- The swept parameters with their ranges, by name. -/
def dimensions (spec : SweepSpec K) : List (String × K × K) := sortOn Prod.fst spec.ranges.entries

/-- A point of the Halton sample (lines 123–127). -/
def haltonPoint (spec : SweepSpec K) (i : ℤ) : Dict String (ParamValue K) :=
  .ofList ((spec.dimensions.zip primes).map fun p =>
    (p.1.1, .float (p.1.2.1 + (p.1.2.2 - p.1.2.1) * radicalInverseOf K (i + spec.seed) p.2)))

/-- The points of a grid, the last parameter running fastest (`itertools.product`). -/
def gridPoints : List (String × List (ParamValue K)) → List (List (String × ParamValue K))
  | [] => [[]]
  | (name, values) :: rest =>
    values.flatMap fun value => (gridPoints rest).map fun point => (name, value) :: point

/-- `_assignments` (lines 102–128), where `uniform seed k low high` is what the generator seeded
with `seed` returns from call `k` of `uniform(low, high)`. -/
def assignments (uniform : ℤ → ℕ → K → K → K) (spec : SweepSpec K) :
    List (Dict String (ParamValue K)) :=
  match spec.method with
  | .grid => (gridPoints (sortOn Prod.fst spec.grid.entries)).map .ofList
  | .random =>
    (List.range spec.size.toNat).map fun i =>
      .ofList (spec.dimensions.zipIdx.map fun p =>
        (p.1.1, .float (uniform spec.seed (i * spec.dimensions.length + p.2) p.1.2.1 p.1.2.2)))
  | .halton => (List.range spec.size.toNat).map fun i : ℕ => spec.haltonPoint (i + 1)

/-- `_variant` (lines 130–138). -/
def variant (str : ParamValue K → String) (spec : SweepSpec K) (index : ℕ)
    (assignment : Dict String (ParamValue K)) : JobSpec where
  env := (spec.base.env.setAll (assignment.mapValues str).entries).set sweepIndexEnv
    (toString index)
  seed := spec.base.seed.map (· + index)

/-- `expand` (lines 140–142). -/
def expand (uniform : ℤ → ℕ → K → K → K) (str : ParamValue K → String) (spec : SweepSpec K) :
    List JobSpec :=
  (spec.assignments uniform).zipIdx.map fun p => spec.variant str p.2 p.1

end SweepSpec

/-! ## The loop over the digits -/

section Field

variable {K : Type} [Field K]

/-- **Run.** The loop adds the mirrored digits, scaled to where it stands. -/
theorem radicalInverseLoop_eq (b : Base) (index : ℕ) (result fraction : K)
    (hbase : (b.base : K) ≠ 0) :
    radicalInverseLoop b index result fraction =
      result + fraction * b.base * radicalInverse K b.base index := by
  induction index using Nat.strong_induction_on generalizing result fraction with
  | _ index ih =>
    rw [radicalInverseLoop]
    split_ifs with h
    · rw [ih _ (Nat.div_lt_self h b.one_lt), radicalInverse_eq b.one_lt index]
      field_simp
      ring
    · rw [Nat.eq_zero_of_not_pos h, radicalInverse_zero, mul_zero, add_zero]

end Field

variable {K : Type} [Field K] [LinearOrder K] [IsStrictOrderedRing K]

theorem radicalInverseOf_eq (index : ℤ) (b : Base) :
    radicalInverseOf K index b = radicalInverse K b.base index.toNat := by
  have hbase : (b.base : K) ≠ 0 := by exact_mod_cast (Nat.zero_lt_of_lt b.one_lt).ne'
  rw [radicalInverseOf, radicalInverseLoop_eq b _ _ _ hbase, zero_add, one_div,
    inv_mul_cancel₀ hbase, one_mul]

/-! ## The points of a Halton sweep -/

namespace SweepSpec

variable {spec : SweepSpec K}

omit [Field K] [IsStrictOrderedRing K] in
/-- What `_check_space` has found of a Halton sweep. -/
theorem of_checkSpace (hmethod : spec.method = .halton) (h : spec.checkSpace = .ok ()) :
    spec.ranges.entries ≠ [] ∧ (∃ n, spec.samples = some n ∧ 0 < n) ∧
      spec.ranges.entries.length ≤ primes.length ∧
      ∀ p ∈ spec.ranges.entries, p.2.1 < p.2.2 := by
  rw [checkSpace, hmethod] at h
  simp only [seq_eq_ok, refuseIf_eq_ok] at h
  obtain ⟨hranges, hsamples, -, hlength, hfind⟩ := h
  refine ⟨hranges, ?_, Nat.le_of_not_lt hlength, ?_⟩
  · simpa using hsamples
  · cases hf : spec.ranges.entries.find? fun p => ¬ p.2.1 < p.2.2 with
    | none =>
      intro p hp
      simpa using List.find?_eq_none.mp hf p hp
    | some p =>
      rw [hf] at hfind
      cases hfind

/-- The coordinate of the Halton points in one dimension, as a number in its range. -/
def coordinate (low high : K) (b : Base) (index : ℤ) : K :=
  low + (high - low) * radicalInverseOf K index b

theorem coordinate_mem {low high : K} (h : low < high) (b : Base) (index : ℤ) :
    low ≤ coordinate low high b index ∧ coordinate low high b index < high := by
  rw [coordinate, radicalInverseOf_eq]
  have hpos : 0 < high - low := sub_pos.mpr h
  obtain ⟨hnonneg, hlt⟩ := radicalInverse_mem (K := K) b.one_lt index.toNat
  refine ⟨le_add_of_nonneg_right (mul_nonneg hpos.le hnonneg), ?_⟩
  have hmul := mul_lt_mul_of_pos_left hlt hpos
  linarith

theorem coordinate_inj {low high : K} (h : low < high) (b : Base) {i j : ℤ} :
    coordinate low high b i = coordinate low high b j ↔ i.toNat = j.toNat := by
  have hne : high - low ≠ 0 := (sub_pos.mpr h).ne'
  rw [coordinate, coordinate, add_right_inj, mul_right_inj' hne, radicalInverseOf_eq,
    radicalInverseOf_eq, radicalInverse_inj b.one_lt]

omit [LinearOrder K] [IsStrictOrderedRing K] in
/-- Every swept parameter has a base of its own, in which all points have their coordinates. -/
theorem haltonPoint_lookup (hlength : spec.ranges.entries.length ≤ primes.length)
    {name : String} {low high : K} (h : spec.ranges.get? name = some (low, high)) :
    ∃ b, ∀ i, (spec.haltonPoint i).get? name =
      some (.float (coordinate low high b (i + spec.seed))) := by
  have hnodup : (spec.dimensions.map Prod.fst).Nodup :=
    ((sortOn_perm Prod.fst spec.ranges.entries).map Prod.fst).nodup_iff.mpr spec.ranges.keys_nodup
  have hmem : (name, low, high) ∈ spec.dimensions :=
    (mem_sortOn _ _ _).2 ((Dict.get?_eq_some_iff ..).1 h)
  obtain ⟨k, hk, hget⟩ := List.getElem_of_mem hmem
  have hbound : k < primes.length :=
    hk.trans_le ((sortOn_perm Prod.fst spec.ranges.entries).length_eq.trans_le hlength)
  refine ⟨primes[k], fun i => Dict.get?_ofList_of_forall ?_ ?_⟩
  · refine List.mem_map.mpr ⟨((name, low, high), primes[k]), ?_, rfl⟩
    refine List.mem_iff_getElem.mpr ⟨k, ?_, ?_⟩
    · rw [List.length_zip]
      exact lt_min hk hbound
    · rw [List.getElem_zip, hget]
  · rintro _ hp hname
    obtain ⟨⟨dim, b⟩, hzip, rfl⟩ := List.mem_map.mp hp
    obtain ⟨l, hl, hpair⟩ := List.getElem_of_mem hzip
    rw [List.getElem_zip, Prod.mk.injEq] at hpair
    obtain ⟨rfl, rfl⟩ := hpair
    have hl' : l < spec.dimensions.length := by
      rw [List.length_zip] at hl
      exact hl.trans_le (min_le_left _ _)
    have hkl : l = k := by
      have hk' : k < (spec.dimensions.map Prod.fst).length := by simpa using hk
      have hl'' : l < (spec.dimensions.map Prod.fst).length := by simpa using hl'
      have hkeys : (spec.dimensions.map Prod.fst)[l] = (spec.dimensions.map Prod.fst)[k] := by
        rw [List.getElem_map, List.getElem_map, hget]
        exact hname
      exact hnodup.getElem_inj_iff.1 hkeys
    subst hkl
    simp only [hget, coordinate]

/-- Under a seed below -1 the first two points coincide. -/
theorem haltonPoint_collision (hlength : spec.ranges.entries.length ≤ primes.length)
    (hseed : spec.seed < -1) {name : String} (hname : name ∈ spec.ranges.keys) :
    (spec.haltonPoint 1).get? name = (spec.haltonPoint 2).get? name := by
  obtain ⟨⟨low, high⟩, hget⟩ := Option.isSome_iff_exists.mp ((Dict.mem_keys ..).1 hname)
  obtain ⟨b, hb⟩ := haltonPoint_lookup hlength hget
  have hone : (1 + spec.seed).toNat = 0 := Int.toNat_of_nonpos (by omega)
  have htwo : (2 + spec.seed).toNat = 0 := Int.toNat_of_nonpos (by omega)
  rw [hb, hb, coordinate, coordinate, radicalInverseOf_eq, radicalInverseOf_eq, hone, htwo]

/-- A proper design: as many jobs as the size of the sweep, every coordinate in its range, and no
two points with a coordinate in common. -/
structure ProperDesign (uniform : ℤ → ℕ → K → K → K) (str : ParamValue K → String)
    (spec : SweepSpec K) : Prop where
  size : ((spec.expand uniform str).length : ℤ) = spec.size
  inRange : ∀ point ∈ spec.assignments uniform, ∀ name low high,
    spec.ranges.get? name = some (low, high) →
      ∃ x, point.get? name = some (.float x) ∧ low ≤ x ∧ x < high
  distinct : ∀ name ∈ spec.ranges.keys,
    ((spec.assignments uniform).map fun point => point.get? name).Nodup

/-- **Main theorem.** A valid Halton sweep is a proper design exactly when it has one point or no
two of its indices fall below 1. -/
theorem haltonDesign_iff (uniform : ℤ → ℕ → K → K → K) (str : ParamValue K → String)
    (spec : SweepSpec K) (hmethod : spec.method = .halton) (hvalid : spec.checkSpace = .ok ()) :
    ProperDesign uniform str spec ↔ spec.samples = some 1 ∨ -1 ≤ spec.seed := by
  obtain ⟨hranges, ⟨n, hsamples, hpos⟩, hlength, hlt⟩ := of_checkSpace hmethod hvalid
  have hsize : spec.size = n := by rw [size, hmethod, hsamples, Option.getD_some]
  have hassign : spec.assignments uniform =
      (List.range n.toNat).map fun i : ℕ => spec.haltonPoint (i + 1) := by
    rw [assignments, hmethod, hsize]
  have hlow : ∀ {name low high}, spec.ranges.get? name = some (low, high) → low < high :=
    fun h => hlt _ ((Dict.get?_eq_some_iff ..).1 h)
  constructor
  · intro hdesign
    by_contra hseed
    rw [not_or, hsamples] at hseed
    obtain ⟨hone, hseed⟩ := hseed
    have htwo : 1 < n.toNat := by
      have : n ≠ 1 := fun h => hone (congrArg some h)
      omega
    obtain ⟨⟨name, low, high⟩, hentry⟩ := List.exists_mem_of_ne_nil _ hranges
    have hname : name ∈ spec.ranges.keys := List.mem_map_of_mem hentry
    have hdistinct := hdesign.distinct name hname
    rw [hassign, List.map_map, List.nodup_map_iff_inj_on List.nodup_range] at hdistinct
    have hcollide := hdistinct 0 (List.mem_range.2 (by omega)) 1 (List.mem_range.2 htwo)
      (haltonPoint_collision hlength (by omega) hname)
    omega
  · intro hseed
    refine ⟨?_, ?_, ?_⟩
    · rw [expand, List.length_map, List.length_zipIdx, hassign, List.length_map, List.length_range,
        hsize, Int.toNat_of_nonneg hpos.le]
    · intro point hpoint name low high hget
      rw [hassign] at hpoint
      obtain ⟨i, -, rfl⟩ := List.mem_map.mp hpoint
      obtain ⟨b, hb⟩ := haltonPoint_lookup hlength hget
      exact ⟨_, hb _, coordinate_mem (hlow hget) b _⟩
    · intro name hname
      obtain ⟨⟨low, high⟩, hget⟩ := Option.isSome_iff_exists.mp ((Dict.mem_keys ..).1 hname)
      obtain ⟨b, hb⟩ := haltonPoint_lookup hlength hget
      rw [hassign, List.map_map, List.nodup_map_iff_inj_on List.nodup_range]
      intro i hi j hj hij
      rw [List.mem_range] at hi hj
      simp only [Function.comp_apply, hb, Option.some.injEq, ParamValue.float.injEq] at hij
      rw [coordinate_inj (hlow hget)] at hij
      rcases hseed with hone | hseed
      · rw [hsamples, Option.some.injEq] at hone
        omega
      · omega

/-- Two points of one slope, drawn with the given seed. -/
def slopes (seed : ℤ) : SweepSpec ℚ where
  base := ⟨.empty, none⟩
  method := .halton
  grid := .empty
  ranges := Dict.empty.set "slope" (0, 1)
  samples := some 2
  seed := seed

theorem checkSpace_slopes (seed : ℤ) : (slopes seed).checkSpace = .ok () := by
  rfl

theorem haltonDesign_iff_slopes :
    ProperDesign (fun _ _ low _ => low) (fun _ => "") (slopes 7) ↔
      (slopes 7).samples = some 1 ∨ -1 ≤ (slopes 7).seed :=
  haltonDesign_iff (fun _ _ low _ => low) (fun _ => "") (slopes 7) rfl (checkSpace_slopes 7)

/-- **Counterexample.** With seed -2 both points are at the low end. -/
theorem slopes_not_proper : (slopes (-2)).method = .halton ∧ (slopes (-2)).checkSpace = .ok () ∧
    ¬ ProperDesign (fun _ _ low _ => low) (fun _ => "") (slopes (-2)) := by
  refine ⟨rfl, checkSpace_slopes (-2), fun h => ?_⟩
  have hdistinct := h.distinct "slope" (by decide)
  have hcollide : ((slopes (-2)).haltonPoint 1).get? "slope" =
      ((slopes (-2)).haltonPoint 2).get? "slope" :=
    haltonPoint_collision (by decide) (by decide) (by decide)
  exact (List.nodup_cons.mp hdistinct).1 (List.mem_singleton.mpr hcollide)

end SweepSpec

end AstroMine.Cloud
