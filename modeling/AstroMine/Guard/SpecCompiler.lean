import Mathlib.Data.Rat.Floor
import Mathlib.Data.List.Sort
import AstroMine.Guard.MonitorSemantics

/-!
# Compilation of temporal clauses

The path of a reviewed temporal clause to its monitor: the checks of the loader
(`guard/spec/loader.py`), the lowering of the formula tree (`guard/spec/compiler.py`) and the
decoding of the compiled tree. Bounds in seconds become sample counts by `ceil` at both ends.

Results:
* `compileNode_spec`: the monitor of an accepted clause denotes the clause with its windows
  sampled.
* `Lowered.conservative_of_roundsInward`: the monitor is conservative when no `eventually` or `until` in
  positive and no `always` in negative position has an upper bound that is rounded up.
* `Lowered.conservative_iff_roundsInward`: for a clause of one windowed operator that is necessary.
-/

namespace AstroMine.Guard

open PastStl

/-! ## Clauses -/

/-- The vocabulary of `TemporalOp` (`enums.py:64-80`). -/
def TemporalOp.value : TemporalOp → String
  | .predicate => "predicate"
  | .not => "not"
  | .and => "and"
  | .or => "or"
  | .always => "always"
  | .eventually => "eventually"
  | .until => "until"

/-- The vocabulary of `PredicateOp` (`enums.py:49-61`). -/
def PredicateOp.value : PredicateOp → String
  | .lt => "lt"
  | .le => "le"
  | .gt => "gt"
  | .ge => "ge"

section Spec

variable {K : Type} [Field K] [LinearOrder K]

/-- `Interval` (`model.py:110-119`), with the bounds its fields check. -/
structure Interval (K : Type) [Field K] [LinearOrder K] where
  lo : Flt K
  hi : Flt K
  lo_nonneg : 0 ≤ lo
  hi_nonneg : 0 ≤ hi

/-- `STLFormula` (`model.py:171-198`). -/
inductive STLFormula (K : Type) [Field K] [LinearOrder K] where
  | mk (op : TemporalOp) (signal : Option String) (cmp : Option PredicateOp)
    (threshold : Option (Flt K)) (intervalS : Option (Interval K)) (args : List (STLFormula K))

/-- `str.isspace` of one character. -/
def isSpace (c : Char) : Bool := isWhitespace c || (0x1C ≤ c.toNat && c.toNat ≤ 0x1F)

/-- `_check_signal_key` (`loader.py:161-168`). -/
def checkSignalKey (signal : String) (declared : List String) (loc : String) :
    Except String Unit := do
  ensure (signal.toList.all isSpace = false) (loc ++ ": signal key must be a non-empty string")
  ensure (signal ∈ declared) (loc ++ ": signal '" ++ signal ++ "' is not declared in signals[]")

/-- `_check_interval` (`loader.py:219-237`). -/
def checkInterval (op : TemporalOp) (intervalS : Option (Interval K)) (loc : String) :
    Except String Unit := do
  let interval ← okOr intervalS (loc ++ ": a " ++ op.value ++
    " node requires a bounded interval_s (unbounded temporal operators are rejected — fail-safe)")
  ensure (interval.lo.isFinite = true ∧ interval.hi.isFinite = true)
    (loc ++ ": interval_s bounds must be finite")
  ensure (¬ interval.hi < interval.lo) (loc ++ ": interval_s must be well-ordered lo <= hi")

/-- The arity and interval checks of a node that is not a predicate (`loader.py:194-213`). -/
def checkArity (op : TemporalOp) (n : ℕ) (intervalS : Option (Interval K)) (loc : String) :
    Except String Unit :=
  let noInterval := ensure (intervalS.isNone = true)
    (loc ++ ": a " ++ op.value ++ " node takes no interval")
  match op with
  | .predicate => .ok ()
  | .not => do
    ensure (n = 1) (loc ++ ": a not node takes exactly one operand")
    noInterval
  | .and | .or => do
    ensure (2 ≤ n) (loc ++ ": a " ++ op.value ++ " node takes at least two operands")
    noInterval
  | .always | .eventually => do
    ensure (n = 1) (loc ++ ": a " ++ op.value ++ " node takes exactly one operand")
    checkInterval op intervalS loc
  | .until => do
    ensure (n = 2) (loc ++ ": an until node takes exactly two operands")
    checkInterval op intervalS loc

mutual

/-- `_check_formula` (`loader.py:171-216`). -/
def checkFormula (declared : List String) (loc : String) : STLFormula K → Except String Unit
  | .mk op signal cmp threshold intervalS args =>
    if op = .predicate then do
      ensure (args.length = 0) (loc ++ ": a predicate node takes no operands")
      ensure (signal.isSome = true ∧ cmp.isSome = true ∧ threshold.isSome = true)
        (loc ++ ": a predicate node requires signal, cmp, and threshold")
      ensure (intervalS.isNone = true) (loc ++ ": a predicate node takes no interval")
      checkSignalKey (signal.getD "") declared (loc ++ ".predicate")
    else do
      ensure (signal.isNone = true ∧ cmp.isNone = true ∧ threshold.isNone = true)
        (loc ++ ": a " ++ op.value ++
          " node must not set predicate fields (signal/cmp/threshold)")
      checkArity op args.length intervalS loc
      checkArgs declared loc 0 args

/-- The operands, numbered from `i`. -/
def checkArgs (declared : List String) (loc : String) :
    ℕ → List (STLFormula K) → Except String Unit
  | _, [] => .ok ()
  | i, φ :: φs => do
    checkFormula declared (loc ++ ".args[" ++ toString i ++ "]") φ
    checkArgs declared loc (i + 1) φs

end

/-! ## Lowering -/

/-- `_UnresolvedAtom`: a predicate before its signal is resolved. -/
structure UnresolvedAtom (K : Type) where
  cmp : PredicateOp
  signal : String
  threshold : Flt K
  deriving DecidableEq

/-- `_RawAtom`: a predicate after its signal is resolved. -/
structure RawAtom (K : Type) where
  op : PredicateOp
  signalIndex : ℕ
  threshold : Flt K
  deriving DecidableEq

/-- What the lowering can raise. -/
inductive LowerError where
  | compile (msg : String)
  | assertion
  | key
  | overflow
  deriving DecidableEq, Repr

mutual

/-- `_formula_predicate_atoms` (`compiler.py:167-177`). -/
def formulaPredicateAtoms : STLFormula K → Except LowerError (List (UnresolvedAtom K))
  | .mk op signal cmp threshold _ args =>
    if op = .predicate then
      match cmp, signal, threshold with
      | some cmp, some signal, some threshold => .ok [⟨cmp, signal, threshold⟩]
      | _, _, _ => .error .assertion
    else formulasPredicateAtoms args

/-- The atoms of the operands, in order. -/
def formulasPredicateAtoms : List (STLFormula K) → Except LowerError (List (UnresolvedAtom K))
  | [] => .ok []
  | φ :: φs => do
    let here ← formulaPredicateAtoms φ
    let rest ← formulasPredicateAtoms φs
    return here ++ rest

end

/-- `_resolve` (`compiler.py:314-315`) of one atom, against the sorted signal keys. -/
def resolve (signals : List String) (a : UnresolvedAtom K) : Except LowerError (RawAtom K) := do
  let i ← okOr (signals.idxOf? a.signal) .key
  return ⟨a.cmp, i, a.threshold⟩

/-- The order of `ordered_atoms` (`compiler.py:331`). -/
def RawAtom.le (a b : RawAtom K) : Prop :=
  a.signalIndex < b.signalIndex ∨ a.signalIndex = b.signalIndex ∧
    (a.op.value < b.op.value ∨ a.op.value = b.op.value ∧ a.threshold ≤ b.threshold)

instance : DecidableRel (RawAtom.le (K := K)) := fun _ _ => by
  unfold RawAtom.le
  infer_instance

/-- The canonical predicate table (`compiler.py:331-338`). -/
def orderedAtoms (raw : List (RawAtom K)) : List (RawAtom K) := raw.dedup.insertionSort RawAtom.le

/-- `index_of` of a predicate: its place in the table. -/
def indexOf (signals : List String) (table : List (RawAtom K)) (a : UnresolvedAtom K) :
    Except LowerError ℕ := do
  let raw ← resolve signals a
  okOr (table.idxOf? raw) .key

variable [FloorRing K]

/-- `math.ceil(x / sample_period_s)`. -/
def ceilSamples (x : Flt K) (T : K) : Except LowerError ℤ :=
  match x with
  | .fin x => .ok ⌈x / T⌉
  | _ => .error .overflow

/-- The sample counts of a node (`compiler.py:265-273`). -/
def intervalSamples (op : TemporalOp) (intervalS : Option (Interval K)) (T : K) :
    Except LowerError (Option ℤ × Option ℤ) :=
  match op with
  | .always | .eventually | .until => do
    let interval ← okOr intervalS (.compile ("temporal op '" ++ op.value ++
      "' reached the compiler without a bounded interval — fail-safe"))
    let lo ← ceilSamples interval.lo T
    let hi ← ceilSamples interval.hi T
    return (some lo, some hi)
  | .predicate | .not | .and | .or => .ok (none, none)

mutual

/-- `_compile_node` (`compiler.py:237-281`): the node, the node count and the predicate indices. -/
def compileNode (signals : List String) (table : List (RawAtom K)) (T : K) :
    STLFormula K → Except LowerError (Proto.CompiledNode × ℕ × List ℕ)
  | .mk op signal cmp threshold intervalS args =>
    if op = .predicate then
      match cmp, signal, threshold with
      | some cmp, some signal, some threshold => do
        let i ← indexOf signals table ⟨cmp, signal, threshold⟩
        return (.mk op.value (some i) none none [], 1, [i])
      | _, _, _ => .error .assertion
    else do
      let (nodes, count, indices) ← compileNodes signals table T args
      let (lo, hi) ← intervalSamples op intervalS T
      return (.mk op.value none lo hi nodes, count + 1, indices)

/-- The operands, lowered in order. -/
def compileNodes (signals : List String) (table : List (RawAtom K)) (T : K) :
    List (STLFormula K) → Except LowerError (List Proto.CompiledNode × ℕ × List ℕ)
  | [] => .ok ([], 0, [])
  | φ :: φs => do
    let (node, count, indices) ← compileNode signals table T φ
    let (nodes, counts, rest) ← compileNodes signals table T φs
    return (node :: nodes, count + counts, indices ++ rest)

end

mutual

/-- `_history_window` (`compiler.py:284-292`). -/
def historyWindow : Proto.CompiledNode → ℤ
  | .mk _ _ _ hi args => hi.getD 0 + historyWindows args

/-- The history windows of the operands, added up. -/
def historyWindows : List Proto.CompiledNode → ℤ
  | [] => 0
  | n :: ns => historyWindow n + historyWindows ns

end

/-- The temporal constraints of a spec. -/
structure TemporalConstraint (K : Type) [Field K] [LinearOrder K] where
  id : String
  onUncertain : String
  formula : STLFormula K

/-- The monitor of one temporal constraint (`compiler.py:359-377`). -/
def compileMonitor (signals : List String) (table : List (RawAtom K)) (T : K)
    (c : TemporalConstraint K) : Except LowerError Proto.MonitorAutomaton := do
  let (root, nodeCount, preds) ← compileNode signals table T c.formula
  return { constraintId := c.id, onUncertain := c.onUncertain, root := some root
           historyWindowLen := historyWindow root, nodeCount := nodeCount
           predicateIndices := (preds.dedup.insertionSort (· ≤ ·)).map Nat.cast }

/-- What `compile_spec` reads of a document for its monitors: the signal keys, the atoms of the
    scalar constraints and the temporal constraints. -/
structure SpecClauses (K : Type) [Field K] [LinearOrder K] where
  signals : List String
  scalarAtoms : List (UnresolvedAtom K)
  temporal : List (TemporalConstraint K)

/-- The sorted signal keys (`compiler.py:312`). -/
def SpecClauses.signalTable (d : SpecClauses K) : List String := d.signals.insertionSort (· ≤ ·)

/-- `compile_spec` (`compiler.py:295-423`): the predicate table and the monitors. The validation of
    the temporal constraints is that of the loader. -/
def compileSpec (d : SpecClauses K) (T : K) :
    Except LowerError (List (RawAtom K) × List Proto.MonitorAutomaton) := do
  ensure (¬ T ≤ 0) (.compile "sample_period_s must be positive")
  let _ ← d.temporal.mapM fun c =>
    match checkFormula d.signals ("constraint '" ++ c.id ++ "'.formula") c.formula with
    | .ok () => .ok ()
    | .error msg => .error (LowerError.compile msg)
  let atoms ← formulasPredicateAtoms (d.temporal.map TemporalConstraint.formula)
  let raw ← (d.scalarAtoms ++ atoms).mapM (resolve d.signalTable)
  let table := orderedAtoms raw
  let monitors ← d.temporal.mapM (compileMonitor d.signalTable table T)
  return (table, monitors.insertionSort fun a b => a.constraintId ≤ b.constraintId)

/-! ## The meaning of a clause -/

end Spec

section Meaning

variable {K : Type} [Field K] [LinearOrder K]

/-- A finite window in seconds. -/
structure Seconds (K : Type) [Field K] [LinearOrder K] where
  lo : K
  hi : K
  lo_nonneg : 0 ≤ lo
  ordered : lo ≤ hi

namespace Seconds

/-- The window of an interval that passes the loader. -/
def ofInterval : Option (Interval K) → Option (Seconds K)
  | some ⟨.fin lo, .fin hi, h, _⟩ => if hle : lo ≤ hi then some ⟨lo, hi, h, hle⟩ else none
  | _ => none

/-- The sample ages of a window read in seconds: `lo ≤ k·T ≤ hi`. -/
def contains (T : K) (w : Seconds K) (k : ℕ) : Prop := w.lo ≤ k * T ∧ k * T ≤ w.hi

instance (T : K) (w : Seconds K) : DecidablePred (w.contains T) := fun _ =>
  inferInstanceAs (Decidable (_ ∧ _))

/-- The window of the compiled node. -/
def samples [FloorRing K] (T : K) (w : Seconds K) : Window :=
  ⟨⌈w.lo / T⌉.toNat, ⌈w.hi / T⌉.toNat⟩

/-- The upper bound is a whole number of samples, so that `ceil` does not move it. -/
def Whole (T : K) (w : Seconds K) : Prop := ∃ n : ℕ, w.hi = n * T

end Seconds

mutual

/-- The reviewed formula, with its bounds in seconds. -/
def STLFormula.clause : STLFormula K → Option (Formula (UnresolvedAtom K) (Seconds K))
  | .mk op signal cmp threshold intervalS args =>
    match clauses args with
    | none => none
    | some φs =>
      match op, φs with
      | .predicate, [] =>
        match cmp, signal, threshold with
        | some cmp, some signal, some threshold => some (.atom ⟨cmp, signal, threshold⟩)
        | _, _, _ => none
      | .not, [φ] => some (.not φ)
      | .and, φ :: φs => some (.and (φ :: φs))
      | .or, φ :: φs => some (.or (φ :: φs))
      | .always, [φ] => (Seconds.ofInterval intervalS).map (.always · φ)
      | .eventually, [φ] => (Seconds.ofInterval intervalS).map (.eventually · φ)
      | .until, [φ, ψ] => (Seconds.ofInterval intervalS).map (.until · φ ψ)
      | _, _ => none

/-- The reviewed formulas of the operands. -/
def clauses : List (STLFormula K) → Option (List (Formula (UnresolvedAtom K) (Seconds K)))
  | [] => some []
  | φ :: φs =>
    match φ.clause, clauses φs with
    | some ψ, some ψs => some (ψ :: ψs)
    | _, _ => none

end

/-- The place of a predicate in the table, where it has one. -/
def atomIndex (signals : List String) (table : List (RawAtom K)) (a : UnresolvedAtom K) : ℕ :=
  (indexOf signals table a).toOption.getD 0

/-- A predicate whose atom stands in the table. -/
def Listed (signals : List String) (table : List (RawAtom K)) (a : UnresolvedAtom K) : Prop :=
  ∃ i, indexOf signals table a = .ok i

omit [Field K] in
theorem indexOf_eq_ok {signals : List String} {table : List (RawAtom K)} {a : UnresolvedAtom K}
    {i : ℕ} (h : indexOf signals table a = .ok i) :
    atomIndex signals table a = i ∧ ∃ j, signals[j]? = some a.signal ∧
      table[i]? = some ⟨a.cmp, j, a.threshold⟩ := by
  refine ⟨by rw [atomIndex, h]; rfl, ?_⟩
  simp only [indexOf, resolve, bind_eq_ok, okOr_eq_ok] at h
  obtain ⟨raw, ⟨j, hj, hraw⟩, hi⟩ := h
  cases hraw
  obtain ⟨hjlt, hjs, -⟩ := List.idxOf?_eq_some_iff.mp hj
  obtain ⟨hilt, hit, -⟩ := List.idxOf?_eq_some_iff.mp hi
  refine ⟨j, ?_, ?_⟩
  · rw [List.getElem?_eq_getElem hjlt, hjs]
  · rw [List.getElem?_eq_getElem hilt, hit]

omit [Field K] in
/-- Distinct predicates have distinct places. -/
theorem atomIndex_injective {signals : List String} {table : List (RawAtom K)}
    {a b : UnresolvedAtom K} (ha : Listed signals table a) (hb : Listed signals table b)
    (h : atomIndex signals table a = atomIndex signals table b) : a = b := by
  obtain ⟨i, hi⟩ := ha
  obtain ⟨j, hj⟩ := hb
  obtain ⟨hia, m, hm, hti⟩ := indexOf_eq_ok hi
  obtain ⟨hjb, n, hn, htj⟩ := indexOf_eq_ok hj
  rw [hia, hjb] at h
  subst h
  rw [hti] at htj
  cases a
  cases b
  simp only [Option.some.injEq, RawAtom.mk.injEq] at htj
  obtain ⟨rfl, rfl, rfl⟩ := htj
  rw [hm] at hn
  cases hn
  rfl

/-! ## What the loader and the lowering establish -/

theorem checkInterval_ok {op : TemporalOp} {intervalS : Option (Interval K)} {loc : String}
    (h : checkInterval op intervalS loc = .ok ()) :
    ∃ (lo hi : K) (hlo : 0 ≤ Flt.fin lo) (hhi : 0 ≤ Flt.fin hi) (hle : lo ≤ hi),
      intervalS = some ⟨.fin lo, .fin hi, hlo, hhi⟩ ∧
        Seconds.ofInterval intervalS = some ⟨lo, hi, hlo, hle⟩ := by
  simp only [checkInterval, bind_eq_ok, okOr_eq_ok, ensure_eq_ok] at h
  obtain ⟨⟨lo, hi, hlo, hhi⟩, rfl, -, ⟨hflo, hfhi⟩, hle⟩ := h
  obtain ⟨lo, rfl⟩ := Flt.isFinite_iff.1 hflo
  obtain ⟨hi, rfl⟩ := Flt.isFinite_iff.1 hfhi
  have hle : lo ≤ hi := not_lt.mp hle
  exact ⟨lo, hi, hlo, hhi, hle, rfl, dif_pos hle⟩

/-- The operand count of a node that is not a predicate, and the interval of a windowed one. -/
def ArityOk (op : TemporalOp) (n : ℕ) (intervalS : Option (Interval K)) : Prop :=
  match op with
  | .predicate => True
  | .not => n = 1
  | .and | .or => 2 ≤ n
  | .always | .eventually => n = 1 ∧ ∃ loc, checkInterval op intervalS loc = .ok ()
  | .until => n = 2 ∧ ∃ loc, checkInterval op intervalS loc = .ok ()

theorem checkArity_ok {op : TemporalOp} {n : ℕ} {intervalS : Option (Interval K)} {loc : String}
    (h : checkArity op n intervalS loc = .ok ()) : ArityOk op n intervalS := by
  unfold checkArity at h
  cases op with
  | predicate => trivial
  | not =>
    simp only [bind_eq_ok, ensure_eq_ok] at h
    obtain ⟨-, hn, -⟩ := h
    exact hn
  | and =>
    simp only [bind_eq_ok, ensure_eq_ok] at h
    obtain ⟨-, hn, -⟩ := h
    exact hn
  | or =>
    simp only [bind_eq_ok, ensure_eq_ok] at h
    obtain ⟨-, hn, -⟩ := h
    exact hn
  | always =>
    simp only [bind_eq_ok, ensure_eq_ok] at h
    obtain ⟨-, hn, hi⟩ := h
    exact ⟨hn, loc, hi⟩
  | eventually =>
    simp only [bind_eq_ok, ensure_eq_ok] at h
    obtain ⟨-, hn, hi⟩ := h
    exact ⟨hn, loc, hi⟩
  | «until» =>
    simp only [bind_eq_ok, ensure_eq_ok] at h
    obtain ⟨-, hn, hi⟩ := h
    exact ⟨hn, loc, hi⟩

theorem parse_value (op : TemporalOp) : TemporalOp.parse op.value = .ok op := by
  cases op <;> rfl

variable [IsStrictOrderedRing K] [FloorRing K]

theorem ceil_div_nonneg {x T : K} (hT : 0 < T) (hx : 0 ≤ x) : 0 ≤ ⌈x / T⌉ :=
  Int.ceil_nonneg (div_nonneg hx hT.le)

/-- The window in seconds lies within the sampled one: both bounds are rounded up, and no sample
    age lies strictly between a bound and its rounding. -/
theorem Seconds.contains_samples {T : K} (hT : 0 < T) (w : Seconds K) (k : ℕ)
    (h : w.contains T k) : (w.samples T).contains k := by
  obtain ⟨hlo, hhi⟩ := h
  refine ⟨?_, ?_⟩
  · show ⌈w.lo / T⌉.toNat ≤ k
    rw [Int.toNat_le, Int.ceil_le, div_le_iff₀ hT]
    exact_mod_cast hlo
  · show k ≤ ⌈w.hi / T⌉.toNat
    have hk : (k : K) ≤ w.hi / T := (le_div_iff₀ hT).mpr hhi
    have hceil : ((k : ℤ) : K) ≤ (⌈w.hi / T⌉ : K) := by
      push_cast
      exact hk.trans (Int.le_ceil _)
    have hint : (k : ℤ) ≤ ⌈w.hi / T⌉ := by exact_mod_cast hceil
    omega

/-- When the upper bound is whole, the sampled window has no other ages. -/
theorem Seconds.samples_contains {T : K} (hT : 0 < T) (w : Seconds K) (hw : w.Whole T) (k : ℕ)
    (h : (w.samples T).contains k) : w.contains T k := by
  obtain ⟨n, hn⟩ := hw
  obtain ⟨hlo, hhi⟩ := h
  have hceil : ⌈w.hi / T⌉ = n := by
    rw [hn, mul_div_cancel_right₀ _ hT.ne', Int.ceil_natCast]
  refine ⟨?_, ?_⟩
  · have hlo' : ⌈w.lo / T⌉ ≤ (k : ℤ) := Int.toNat_le.mp hlo
    have := Int.ceil_le.mp hlo'
    rw [div_le_iff₀ hT] at this
    exact_mod_cast this
  · have hk : k ≤ n := by
      have hhi' : k ≤ ⌈w.hi / T⌉.toNat := hhi
      rw [hceil] at hhi'
      simpa using hhi'
    rw [hn]
    exact mul_le_mul_of_nonneg_right (by exact_mod_cast hk) hT.le

/-- The lowering of an interval that passed the loader, and its decoding. -/
theorem intervalSamples_window {T : K} (hT : 0 < T) {op : TemporalOp}
    {intervalS : Option (Interval K)} {loc : String}
    (h : checkInterval op intervalS loc = .ok ()) {lo hi : Option ℤ}
    (hlower : (do
      let interval ← okOr intervalS (.compile ("temporal op '" ++ op.value ++
        "' reached the compiler without a bounded interval — fail-safe"))
      let lo ← ceilSamples interval.lo T
      let hi ← ceilSamples interval.hi T
      return (some lo, some hi)) = Except.ok (ε := LowerError) (lo, hi)) :
    ∃ w, Seconds.ofInterval intervalS = some w ∧
      optUsize lo "interval_lo_samples" = .ok (some (w.samples T).lo) ∧
      optUsize hi "interval_hi_samples" = .ok (some (w.samples T).hi) ∧
      Window.ofInterval (some (w.samples T).lo) (some (w.samples T).hi) = some (w.samples T) := by
  obtain ⟨a, b, ha, hb, hle, rfl, hw⟩ := checkInterval_ok h
  cases hlower
  have hla := ceil_div_nonneg hT (show 0 ≤ a from ha)
  have hlb := ceil_div_nonneg hT (show 0 ≤ b from hb)
  refine ⟨_, hw, ?_, ?_, ?_⟩
  · simp only [optUsize, toUsize, if_pos hla]
    rfl
  · simp only [optUsize, toUsize, if_pos hlb]
    rfl
  · have hmono : ⌈a / T⌉ ≤ ⌈b / T⌉ := Int.ceil_le_ceil (div_le_div_of_nonneg_right hle hT.le)
    exact if_pos (Int.toNat_le_toNat hmono)

/-- What a lowered tree stands for: it decodes to a tree that denotes the clause `ψ` with its
    windows sampled, and every predicate of the clause has its place in the table. -/
structure Lowered (signals : List String) (table : List (RawAtom K)) (T : K)
    (ψ : Formula (UnresolvedAtom K) (Seconds K)) (node : Proto.CompiledNode) : Prop where
  decodes : ∃ root, CompiledNode.fromProto node = .ok root ∧
    root.formula = some (ψ.map (atomIndex signals table) (Seconds.samples T))
  listed : AllAtoms (Listed signals table) ψ

/-- `Lowered` for the operands of a node. -/
structure LoweredArgs (signals : List String) (table : List (RawAtom K)) (T : K)
    (ψs : List (Formula (UnresolvedAtom K) (Seconds K))) (nodes : List Proto.CompiledNode) :
    Prop where
  decodes : ∃ roots, CompiledNode.fromProtos nodes = .ok roots ∧ roots.length = ψs.length ∧
    CompiledNode.formulas roots = some (maps (atomIndex signals table) (Seconds.samples T) ψs)
  listed : AllAtomss (Listed signals table) ψs

/-- A node decodes when its operands and its bounds do and it passes the checks. -/
theorem fromProto_node {op : TemporalOp} {lo hi : Option ℤ} {nodes : List Proto.CompiledNode}
    {roots : List CompiledNode} (hroots : CompiledNode.fromProtos nodes = .ok roots)
    {l h : Option ℕ} (hl : optUsize lo "interval_lo_samples" = .ok l)
    (hh : optUsize hi "interval_hi_samples" = .ok h)
    (hv : (CompiledNode.mk op none l h roots).validate = .ok ()) :
    CompiledNode.fromProto (.mk op.value none lo hi nodes) = .ok (.mk op none l h roots) := by
  unfold CompiledNode.fromProto
  simp only [parse_value, optUsize] at hl hh ⊢
  rw [hroots]
  show (optUsize lo _ >>= fun lo => optUsize hi _ >>= fun hi => _) = _
  rw [show optUsize lo "interval_lo_samples" = .ok l from hl]
  show (optUsize hi _ >>= fun hi => _) = _
  rw [show optUsize hi "interval_hi_samples" = .ok h from hh]
  show (CompiledNode.validate _ >>= _) = _
  rw [hv]
  rfl

/-- A node that is not a predicate, from its operands. -/
theorem lowered_node {signals : List String} {table : List (RawAtom K)} {T : K} (hT : 0 < T)
    {op : TemporalOp} (hop : op ≠ .predicate) {signal : Option String} {cmp : Option PredicateOp}
    {threshold : Option (Flt K)} {intervalS : Option (Interval K)} {args : List (STLFormula K)}
    {ψs : List (Formula (UnresolvedAtom K) (Seconds K))} (hψs : clauses args = some ψs)
    (hlen : ψs.length = args.length) (harity : ArityOk op args.length intervalS)
    {nodes : List Proto.CompiledNode} (hnodes : LoweredArgs signals table T ψs nodes)
    {lo hi : Option ℤ} (hlower : intervalSamples op intervalS T = .ok (lo, hi)) :
    ∃ ψ, (STLFormula.mk op signal cmp threshold intervalS args).clause = some ψ ∧
      Lowered signals table T ψ (.mk op.value none lo hi nodes) := by
  obtain ⟨⟨roots, hroots, hrlen, hforms⟩, hlisted⟩ := hnodes
  have hplain : ∀ {φ : Formula (UnresolvedAtom K) (Seconds K)}, lo = none → hi = none →
      (STLFormula.mk op signal cmp threshold intervalS args).clause = some φ →
      (CompiledNode.mk op none none none roots).validate = .ok () →
      (CompiledNode.mk op none none none roots).formula =
        some (φ.map (atomIndex signals table) (Seconds.samples T)) →
      AllAtoms (Listed signals table) φ →
      ∃ ψ, (STLFormula.mk op signal cmp threshold intervalS args).clause = some ψ ∧
        Lowered signals table T ψ (.mk op.value none lo hi nodes) := by
    intro φ hlo hhi hclause hv hform hatoms
    subst hlo hhi
    exact ⟨φ, hclause, ⟨_, fromProto_node hroots rfl rfl hv, hform⟩, hatoms⟩
  cases op with
  | predicate => exact absurd rfl hop
  | not =>
    obtain ⟨ψ, rfl⟩ := List.length_eq_one_iff.mp (hlen.trans harity)
    cases hlower
    refine hplain (φ := .not ψ) rfl rfl ?_ ?_ ?_ hlisted.1
    · simp only [STLFormula.clause, hψs]
    · exact ensure_eq_ok.2 hrlen
    · simp only [CompiledNode.formula, hforms, maps, Formula.map]
  | and =>
    obtain ⟨ψ, rest, rfl⟩ := List.exists_cons_of_length_pos (l := ψs) (by
      have : 2 ≤ args.length := harity
      omega)
    cases hlower
    refine hplain (φ := .and (ψ :: rest)) rfl rfl ?_ ?_ ?_ hlisted
    · simp only [STLFormula.clause, hψs]
    · exact ensure_eq_ok.2 (by simp [CompiledNode.args, hrlen])
    · simp only [CompiledNode.formula, hforms, maps, Formula.map]
  | or =>
    obtain ⟨ψ, rest, rfl⟩ := List.exists_cons_of_length_pos (l := ψs) (by
      have : 2 ≤ args.length := harity
      omega)
    cases hlower
    refine hplain (φ := .or (ψ :: rest)) rfl rfl ?_ ?_ ?_ hlisted
    · simp only [STLFormula.clause, hψs]
    · exact ensure_eq_ok.2 (by simp [CompiledNode.args, hrlen])
    · simp only [CompiledNode.formula, hforms, maps, Formula.map]
  | always =>
    obtain ⟨hone, loc, hint⟩ := harity
    obtain ⟨ψ, rfl⟩ := List.length_eq_one_iff.mp (hlen.trans hone)
    obtain ⟨w, hw, hl, hh, hwin⟩ := intervalSamples_window hT hint hlower
    refine ⟨.always w ψ, ?_, ⟨_, fromProto_node hroots hl hh ?_, ?_⟩, hlisted.1⟩
    · simp only [STLFormula.clause, hψs, hw, Option.map_some]
    · simp only [CompiledNode.validate, CompiledNode.op, bind_eq_ok, ensure_eq_ok]
      exact ⟨(), hrlen, CompiledNode.requireInterval_eq_ok.2 (by rw [hwin]; rfl)⟩
    · simp only [CompiledNode.formula, hforms, maps, Formula.map, hwin, Option.map_some]
  | eventually =>
    obtain ⟨hone, loc, hint⟩ := harity
    obtain ⟨ψ, rfl⟩ := List.length_eq_one_iff.mp (hlen.trans hone)
    obtain ⟨w, hw, hl, hh, hwin⟩ := intervalSamples_window hT hint hlower
    refine ⟨.eventually w ψ, ?_, ⟨_, fromProto_node hroots hl hh ?_, ?_⟩, hlisted.1⟩
    · simp only [STLFormula.clause, hψs, hw, Option.map_some]
    · simp only [CompiledNode.validate, CompiledNode.op, bind_eq_ok, ensure_eq_ok]
      exact ⟨(), hrlen, CompiledNode.requireInterval_eq_ok.2 (by rw [hwin]; rfl)⟩
    · simp only [CompiledNode.formula, hforms, maps, Formula.map, hwin, Option.map_some]
  | «until» =>
    obtain ⟨htwo, loc, hint⟩ := harity
    obtain ⟨φ, ψ, rfl⟩ := List.length_eq_two.mp (hlen.trans htwo)
    obtain ⟨w, hw, hl, hh, hwin⟩ := intervalSamples_window hT hint hlower
    refine ⟨.until w φ ψ, ?_, ⟨_, fromProto_node hroots hl hh ?_, ?_⟩, hlisted.1, hlisted.2.1⟩
    · simp only [STLFormula.clause, hψs, hw, Option.map_some]
    · simp only [CompiledNode.validate, CompiledNode.op, bind_eq_ok, ensure_eq_ok]
      exact ⟨(), hrlen, CompiledNode.requireInterval_eq_ok.2 (by rw [hwin]; rfl)⟩
    · simp only [CompiledNode.formula, hforms, maps, Formula.map, hwin, Option.map_some]

set_option linter.unusedSectionVars false in
mutual

/-- The lowering of a tree that passes the loader. -/
theorem compileNode_spec {signals declared : List String} {table : List (RawAtom K)} {T : K}
    (hT : 0 < T) : ∀ (φ : STLFormula K) (loc : String), checkFormula declared loc φ = .ok () →
      ∀ node count indices, compileNode signals table T φ = .ok (node, count, indices) →
        ∃ ψ, φ.clause = some ψ ∧ Lowered signals table T ψ node
  | .mk op signal cmp threshold intervalS args, loc, hcheck, node, count, indices, hcompile => by
    unfold checkFormula at hcheck
    unfold compileNode at hcompile
    by_cases hop : op = .predicate
    · subst hop
      rw [if_pos rfl] at hcheck hcompile
      simp only [bind_eq_ok, ensure_eq_ok] at hcheck
      obtain ⟨-, hargs, -⟩ := hcheck
      obtain rfl := List.length_eq_zero_iff.mp hargs
      cases cmp with
      | none => cases hcompile
      | some cmp =>
        cases signal with
        | none => cases hcompile
        | some signal =>
          cases threshold with
          | none => cases hcompile
          | some threshold =>
            simp only [bind_eq_ok] at hcompile
            obtain ⟨i, hi, hcompile⟩ := hcompile
            cases hcompile
            refine ⟨.atom ⟨cmp, signal, threshold⟩, rfl, ⟨.mk .predicate (some i) none none [],
              ?_, ?_⟩, i, hi⟩
            · simp only [CompiledNode.fromProto, parse_value, CompiledNode.fromProtos, optUsize,
                toUsize, Int.natCast_nonneg, if_true, Int.toNat_natCast]
              rfl
            · rw [Formula.map, (indexOf_eq_ok hi).1]
              rfl
    · rw [if_neg hop] at hcheck hcompile
      simp only [bind_eq_ok, ensure_eq_ok] at hcheck
      obtain ⟨-, -, u, harity, hcheckArgs⟩ := hcheck
      simp only [bind_eq_ok] at hcompile
      obtain ⟨⟨nodes, cnt, ids⟩, hnodes, ⟨lo, hi⟩, hlower, hcompile⟩ := hcompile
      cases hcompile
      obtain ⟨ψs, hψs, hlen, hlow⟩ := compileNodes_spec hT args loc 0 hcheckArgs nodes cnt ids
        hnodes
      exact lowered_node hT hop hψs hlen (checkArity_ok harity) hlow hlower

theorem compileNodes_spec {signals declared : List String} {table : List (RawAtom K)} {T : K}
    (hT : 0 < T) : ∀ (φs : List (STLFormula K)) (loc : String) (i : ℕ),
      checkArgs declared loc i φs = .ok () →
      ∀ nodes count indices, compileNodes signals table T φs = .ok (nodes, count, indices) →
        ∃ ψs, clauses φs = some ψs ∧ ψs.length = φs.length ∧
          LoweredArgs signals table T ψs nodes
  | [], loc, i, _, nodes, count, indices, hcompile => by
    unfold compileNodes at hcompile
    cases hcompile
    exact ⟨[], rfl, rfl, ⟨[], rfl, rfl, rfl⟩, trivial⟩
  | φ :: φs, loc, i, hcheck, nodes, count, indices, hcompile => by
    unfold checkArgs at hcheck
    obtain ⟨u, hφ, hφs⟩ := bind_eq_ok.1 hcheck
    unfold compileNodes at hcompile
    simp only [bind_eq_ok] at hcompile
    obtain ⟨⟨node, cnt, ids⟩, hnode, ⟨rest, cnts, idss⟩, hrest, hcompile⟩ := hcompile
    cases hcompile
    obtain ⟨ψ, hψ, ⟨root, hroot, hform⟩, hatoms⟩ := compileNode_spec hT φ _ hφ _ _ _ hnode
    obtain ⟨ψs, hψs, hlen, ⟨roots, hroots, hrlen, hforms⟩, hatomss⟩ :=
      compileNodes_spec hT φs loc (i + 1) hφs _ _ _ hrest
    refine ⟨ψ :: ψs, ?_, by simp [hlen], ⟨root :: roots, ?_, by simp [hrlen], ?_⟩, hatoms,
      hatomss⟩
    · simp only [clauses, hψ, hψs]
    · unfold CompiledNode.fromProtos
      rw [hroot]
      show (CompiledNode.fromProtos rest >>= _) = _
      rw [hroots]
      rfl
    · simp only [CompiledNode.formulas, hform, hforms, maps]

end

/-! ## Conservative monitors -/

/-- The margins of the reviewed predicates in a stream of predicate vectors. -/
def clauseTrace (signals : List String) (table : List (RawAtom K)) (stream : List (List (Ext K)))
    (t : ℕ) (a : UnresolvedAtom K) : Ext K :=
  traceOf stream t (atomIndex signals table a)

/-- The monitor of the tree `node` never reports the clause `ψ` satisfied at a tick where the
    clause, read in seconds at the sample period `T`, is violated. -/
def Conservative (signals : List String) (table : List (RawAtom K)) (T : K)
    (node : Proto.CompiledNode) (ψ : Formula (UnresolvedAtom K) (Seconds K)) : Prop :=
  ∃ root, CompiledNode.fromProto node = .ok root ∧
    ∀ spec : MonitorAutomaton, spec.root = root →
      ∀ (horizon : ℕ) (stream : List (List (Ext K))), (∀ v ∈ stream, v.length = table.length) →
        ∃ verdicts,
          (Monitor.new spec : Monitor K).run horizon (stream.map (List.map Ext.toFlt)) =
            .ok verdicts ∧
          verdicts.length = stream.length ∧
          ∀ (t : ℕ) (v : MonitorVerdict K), verdicts[t]? = some v → 0 ≤ v.robustness →
            Ext.fin 0 ≤ sem Ext.neg (Seconds.contains T) (clauseTrace signals table stream) ψ t

/-- Every window whose upper bound would be rounded outwards is a whole number of samples: those
    of `eventually` and `until` in positive and of `always` in negative position. -/
def RoundsInward (T : K) (ψ : Formula (UnresolvedAtom K) (Seconds K)) : Prop :=
  Polar (fun _ => True) (Seconds.Whole T) true ψ

/-- The margins of the clause with its windows sampled. -/
def sampledSem (T : K) (s : ℕ → UnresolvedAtom K → Ext K)
    (ψ : Formula (UnresolvedAtom K) (Seconds K)) (t : ℕ) : Ext K :=
  sem Ext.neg (fun w : Seconds K => (w.samples T).contains) s ψ t

omit [IsStrictOrderedRing K] in
mutual

theorem allAtoms_lt {signals : List String} {table : List (RawAtom K)} {T : K} :
    ∀ ψ : Formula (UnresolvedAtom K) (Seconds K), AllAtoms (Listed signals table) ψ →
      AllAtoms (· < table.length) (ψ.map (atomIndex signals table) (Seconds.samples T))
  | .atom a, ⟨i, hi⟩ => by
    obtain ⟨hai, j, -, hget⟩ := indexOf_eq_ok hi
    show atomIndex signals table a < table.length
    rw [hai]
    exact (List.getElem?_eq_some_iff.mp hget).1
  | .not φ, h => allAtoms_lt φ h
  | .and φs, h => allAtomss_lt φs h
  | .or φs, h => allAtomss_lt φs h
  | .always _ φ, h => allAtoms_lt φ h
  | .eventually _ φ, h => allAtoms_lt φ h
  | .until _ φ ψ, ⟨hφ, hψ⟩ => ⟨allAtoms_lt φ hφ, allAtoms_lt ψ hψ⟩

theorem allAtomss_lt {signals : List String} {table : List (RawAtom K)} {T : K} :
    ∀ ψs : List (Formula (UnresolvedAtom K) (Seconds K)), AllAtomss (Listed signals table) ψs →
      AllAtomss (· < table.length) (maps (atomIndex signals table) (Seconds.samples T) ψs)
  | [], _ => trivial
  | φ :: φs, ⟨hφ, hφs⟩ => ⟨allAtoms_lt φ hφ, allAtomss_lt φs hφs⟩

end

omit [IsStrictOrderedRing K] in
/-- The monitor of a lowered tree reports the sampled clause. -/
theorem Lowered.reports {signals : List String} {table : List (RawAtom K)} {T : K}
    {ψ : Formula (UnresolvedAtom K) (Seconds K)} {node : Proto.CompiledNode}
    (h : Lowered signals table T ψ node) :
    ∃ root, CompiledNode.fromProto node = .ok root ∧
      ∀ spec : MonitorAutomaton, spec.root = root →
        ∀ (horizon : ℕ) (stream : List (List (Ext K))), (∀ v ∈ stream, v.length = table.length) →
          ∃ verdicts,
            (Monitor.new spec : Monitor K).run horizon (stream.map (List.map Ext.toFlt)) =
              .ok verdicts ∧
            verdicts.map MonitorVerdict.robustness = (List.range stream.length).map fun t =>
              (sampledSem T (clauseTrace signals table stream) ψ t).toFlt := by
  obtain ⟨root, hroot, hform⟩ := h.decodes
  refine ⟨root, hroot, ?_⟩
  rintro spec rfl horizon stream hlen
  obtain ⟨verdicts, hrun, hrobs⟩ := (Monitor.new_tracks hform (allAtoms_lt ψ h.listed)
    (traceOf stream)).run horizon stream hlen (by
      intro t v hv i
      simp [traceOf, hv])
  refine ⟨verdicts, hrun, hrobs.trans (List.map_congr_left fun t _ => ?_)⟩
  unfold robustnessAt sampledSem clauseTrace
  rw [Nat.zero_add, sem_map]

omit [IsStrictOrderedRing K] in
/-- A monitor is conservative exactly when the sampled clause implies the clause in seconds on every
    stream of margins. -/
theorem Lowered.conservative_iff {signals : List String} {table : List (RawAtom K)} {T : K}
    {ψ : Formula (UnresolvedAtom K) (Seconds K)} {node : Proto.CompiledNode}
    (h : Lowered signals table T ψ node) :
    Conservative signals table T node ψ ↔
      ∀ stream : List (List (Ext K)), (∀ v ∈ stream, v.length = table.length) →
        ∀ t, t < stream.length → Ext.fin 0 ≤ sampledSem T (clauseTrace signals table stream) ψ t →
          Ext.fin 0 ≤ sem Ext.neg (Seconds.contains T) (clauseTrace signals table stream) ψ t := by
  obtain ⟨root, hroot, hreports⟩ := h.reports
  constructor
  · rintro ⟨root', hroot', hcons⟩ stream hlen t ht hsampled
    rw [hroot] at hroot'
    cases hroot'
    let spec : MonitorAutomaton :=
      { constraintId := "", onUncertain := .fallback, root := root, historyWindowLen := 0
        nodeCount := 0, predicateIndices := [] }
    obtain ⟨verdicts, hrun, hrobs⟩ := hreports spec rfl 0 stream hlen
    obtain ⟨verdicts', hrun', hvlen, hat⟩ := hcons spec rfl 0 stream hlen
    rw [hrun] at hrun'
    cases hrun'
    have htv : t < verdicts.length := hvlen ▸ ht
    refine hat t verdicts[t] (List.getElem?_eq_getElem htv) ?_
    have hget := congrArg (fun l => l[t]?) hrobs
    simp only [List.getElem?_map, List.getElem?_eq_getElem htv, List.getElem?_range ht,
      Option.map_some, Option.some.injEq] at hget
    rw [hget]
    exact Ext.toFlt_le_toFlt.2 hsampled
  · intro hall
    refine ⟨root, hroot, fun spec hspec horizon stream hlen => ?_⟩
    obtain ⟨verdicts, hrun, hrobs⟩ := hreports spec hspec horizon stream hlen
    have hvlen : verdicts.length = stream.length := by simpa using congrArg List.length hrobs
    refine ⟨verdicts, hrun, hvlen, fun t v hv hrob => ?_⟩
    have htv : t < verdicts.length := (List.getElem?_eq_some_iff.mp hv).1
    have ht : t < stream.length := hvlen ▸ htv
    have hget := congrArg (fun l => l[t]?) hrobs
    simp only [List.getElem?_map, hv, List.getElem?_range ht, Option.map_some,
      Option.some.injEq] at hget
    rw [hget] at hrob
    exact hall stream hlen t ht (Ext.toFlt_le_toFlt.1 hrob)

/-- Windows that are rounded inwards only lower the robustness. -/
theorem sampledSem_le {T : K} (hT : 0 < T) {ψ : Formula (UnresolvedAtom K) (Seconds K)}
    (h : RoundsInward T ψ) (s : ℕ → UnresolvedAtom K → Ext K) (t : ℕ) :
    sampledSem T s ψ t ≤ sem Ext.neg (Seconds.contains T) s ψ t :=
  sem_le_sem Ext.neg (fun w : Seconds K => (w.samples T).contains) Ext.neg_antitone s
    (Polar.mono (fun w _ k hk => w.contains_samples hT k hk)
      (fun w hw k hk => w.samples_contains hT hw k hk) true ψ h) t

theorem Lowered.conservative_of_roundsInward {signals : List String} {table : List (RawAtom K)}
    {T : K} (hT : 0 < T) {ψ : Formula (UnresolvedAtom K) (Seconds K)} {node : Proto.CompiledNode}
    (h : Lowered signals table T ψ node) (hround : RoundsInward T ψ) :
    Conservative signals table T node ψ :=
  h.conservative_iff.2 fun _ _ t _ hs => hs.trans (sampledSem_le hT hround _ t)

/-! ## Where rounding outwards shows -/

/-- The stream of the first `n` ticks of `s` on `N` atoms. -/
def tabulate (s : ℕ → ℕ → Ext K) (n N : ℕ) : List (List (Ext K)) :=
  (List.range n).map fun t => (List.range N).map (s t)

omit [Field K] [LinearOrder K] [IsStrictOrderedRing K] [FloorRing K] in
theorem traceOf_tabulate {s : ℕ → ℕ → Ext K} {n N t i : ℕ} (ht : t < n) (hi : i < N) :
    traceOf (tabulate s n N) t i = s t i := by
  simp [traceOf, tabulate, ht, hi]

/-- The last sample age of a window that its upper bound has been rounded up to. -/
theorem Seconds.last_age {T : K} (hT : 0 < T) {w : Seconds K} (hw : ¬ w.Whole T) :
    ∃ n, (w.samples T).contains n ∧ ∀ k, w.contains T k → k < n := by
  refine ⟨⌈w.hi / T⌉.toNat, ⟨?_, le_rfl⟩, fun k hk => ?_⟩
  · exact Int.toNat_le_toNat (Int.ceil_le_ceil (div_le_div_of_nonneg_right w.ordered hT.le))
  · refine lt_of_le_of_ne (w.contains_samples hT k hk).2 fun heq => hw ⟨k, le_antisymm ?_ hk.2⟩
    have hnonneg := ceil_div_nonneg hT (w.lo_nonneg.trans w.ordered)
    have hint : ⌈w.hi / T⌉ = (k : ℤ) := by
      rw [heq]
      exact (Int.toNat_of_nonneg hnonneg).symm
    have hle := Int.ceil_le.mp hint.le
    rw [div_le_iff₀ hT] at hle
    exact_mod_cast hle

/-- A clause of one windowed operator, in a position where rounding its upper bound up raises the
    robustness. -/
inductive OneOperator (w : Seconds K) : Formula (UnresolvedAtom K) (Seconds K) → Prop
  | eventually (p : UnresolvedAtom K) : OneOperator w (.eventually w (.atom p))
  | until (p q : UnresolvedAtom K) (hpq : p ≠ q) : OneOperator w (.until w (.atom p) (.atom q))
  | notAlways (p : UnresolvedAtom K) : OneOperator w (.not (.always w (.atom p)))

/-- A clause of one windowed operator whose upper bound is rounded up is not conservative: a margin
    that differs at the first tick only separates the two readings at the last sampled age. -/
theorem Lowered.not_conservative {signals : List String} {table : List (RawAtom K)} {T : K}
    (hT : 0 < T) {w : Seconds K} {ψ : Formula (UnresolvedAtom K) (Seconds K)}
    {node : Proto.CompiledNode} (h : Lowered signals table T ψ node) (hψ : OneOperator w ψ)
    (hw : ¬ w.Whole T) : ¬ Conservative signals table T node ψ := by
  obtain ⟨n, hn, hlast⟩ := w.last_age hT hw
  have hone : Ext.fin (0 : K) ≤ Ext.fin 1 := (Ext.fin_lt_fin.2 zero_lt_one).le
  have hneg : ¬ Ext.fin (0 : K) ≤ Ext.fin (-1) :=
    not_le.mpr (Ext.fin_lt_fin.2 (neg_lt_zero.mpr zero_lt_one))
  have hnmem : n ∈ ages (w.samples T).contains n := mem_ages.2 ⟨le_rfl, hn⟩
  have hyoung : ∀ k ∈ ages (w.contains T) n, n - k ≠ 0 := by
    intro k hk
    have := hlast k (mem_ages.1 hk).2
    omega
  -- the stream shows the predicate `i` to be `x` at the first tick and `y` later
  have hstream : ∀ (p : UnresolvedAtom K), Listed signals table p → ∀ x y : Ext K, ∃ stream,
      (∀ v ∈ stream, v.length = table.length) ∧ n < stream.length ∧
      (∀ u, u ≤ n → clauseTrace signals table stream u p = if u = 0 then x else y) ∧
      ∀ q, Listed signals table q → q ≠ p → ∀ u, u ≤ n →
        clauseTrace signals table stream u q = Ext.fin 1 := by
    intro p hp x y
    have hlt : ∀ q, Listed signals table q → atomIndex signals table q < table.length := by
      rintro q ⟨i, hi⟩
      obtain ⟨hai, j, -, hget⟩ := indexOf_eq_ok hi
      rw [hai]
      exact (List.getElem?_eq_some_iff.mp hget).1
    refine ⟨tabulate (fun u i => if i = atomIndex signals table p then if u = 0 then x else y
      else Ext.fin 1) (n + 1) table.length, ?_, by simp [tabulate], ?_, ?_⟩
    · intro v hv
      obtain ⟨u, -, rfl⟩ := List.mem_map.mp hv
      simp
    · intro u hu
      unfold clauseTrace
      rw [traceOf_tabulate (Nat.lt_succ_of_le hu) (hlt p hp), if_pos rfl]
    · intro q hq hqp u hu
      unfold clauseTrace
      rw [traceOf_tabulate (Nat.lt_succ_of_le hu) (hlt q hq),
        if_neg fun heq => hqp (atomIndex_injective hq hp heq)]
  rw [h.conservative_iff]
  intro hcons
  cases hψ with
  | eventually p =>
    obtain ⟨stream, hlen, hnlt, hp, -⟩ := hstream p h.listed (.fin 1) (.fin (-1))
    refine hneg ((hcons stream hlen n hnlt (hone.trans ?_)).trans ?_)
    · refine le_trans (le_of_eq ?_) (le_eventuallyWithin hnmem)
      simp only [sem, Nat.sub_self, hp 0 (Nat.zero_le n), if_true]
    · refine eventuallyWithin_le fun k hk => le_of_eq ?_
      simp only [sem, hp (n - k) (Nat.sub_le n k), hyoung k hk, if_false]
  | «until» p q hpq =>
    obtain ⟨hlp, hlq⟩ := h.listed
    obtain ⟨stream, hlen, hnlt, hq, hothers⟩ := hstream q hlq (.fin 1) (.fin (-1))
    refine hneg ((hcons stream hlen n hnlt (hone.trans ?_)).trans ?_)
    · refine le_untilWithin hnmem (le_of_eq ?_) fun j _ => le_of_eq ?_
      · simp only [sem, Nat.sub_self, hq 0 (Nat.zero_le n), if_true]
      · simp only [sem, hothers p hlp hpq (n - j) (Nat.sub_le n j)]
    · refine untilWithin_le fun k hk => le_of_eq ?_
      simp only [sem, hq (n - k) (Nat.sub_le n k), hyoung k hk, if_false]
  | notAlways p =>
    obtain ⟨stream, hlen, hnlt, hp, -⟩ := hstream p h.listed (.fin (-1)) (.fin 1)
    refine hneg ((hcons stream hlen n hnlt (hone.trans ?_)).trans ?_)
    · have hinf : sampledSem T (clauseTrace signals table stream) (.always w (.atom p)) n ≤
          Ext.fin (-1) := by
        refine (alwaysWithin_le hnmem).trans (le_of_eq ?_)
        simp only [sem, Nat.sub_self, hp 0 (Nat.zero_le n), if_true]
      refine le_trans (le_of_eq ?_) (Ext.neg_antitone hinf)
      show Ext.fin 1 = Ext.fin (- -1)
      rw [neg_neg]
    · have hinf : Ext.fin 1 ≤ sem Ext.neg (Seconds.contains T) (clauseTrace signals table stream)
          (.always w (.atom p)) n := by
        refine le_alwaysWithin fun k hk => le_of_eq ?_
        simp only [sem, hp (n - k) (Nat.sub_le n k), hyoung k hk, if_false]
      exact Ext.neg_antitone hinf

/-- For a clause of one windowed operator, rounding inwards is necessary. -/
theorem Lowered.conservative_iff_roundsInward {signals : List String} {table : List (RawAtom K)}
    {T : K} (hT : 0 < T) {w : Seconds K} {ψ : Formula (UnresolvedAtom K) (Seconds K)}
    {node : Proto.CompiledNode} (h : Lowered signals table T ψ node) (hψ : OneOperator w ψ) :
    Conservative signals table T node ψ ↔ RoundsInward T ψ := by
  refine ⟨fun hcons => ?_, h.conservative_of_roundsInward hT⟩
  have hw : w.Whole T := by
    by_contra hw
    exact h.not_conservative hT hψ hw hcons
  cases hψ with
  | eventually p => exact ⟨hw, trivial⟩
  | «until» p q hpq => exact ⟨hw, trivial, trivial⟩
  | notAlways p => exact ⟨hw, trivial⟩

/-! ## Compiled specs -/

/-- What a successful compilation produces for each temporal constraint. -/
theorem compileSpec_lowered {d : SpecClauses K} {T : K} {table : List (RawAtom K)}
    {monitors : List Proto.MonitorAutomaton} (h : compileSpec d T = .ok (table, monitors)) :
    0 < T ∧ ∀ c ∈ d.temporal, ∃ m ∈ monitors, ∃ ψ node, m.constraintId = c.id ∧
      m.root = some node ∧ c.formula.clause = some ψ ∧ Lowered d.signalTable table T ψ node := by
  simp only [compileSpec, bind_eq_ok, ensure_eq_ok] at h
  obtain ⟨-, hT, checked, hchecked, atoms, -, raw, -, ms, hms, h⟩ := h
  cases h
  have hT : 0 < T := not_le.mp hT
  refine ⟨hT, fun c hc => ?_⟩
  have hcheck : ∃ loc, checkFormula d.signals loc c.formula = .ok () := by
    obtain ⟨i, hi, rfl⟩ := List.getElem_of_mem hc
    have hlen := (mapM_eq_ok.1 hchecked).length_eq
    have hat := List.Forall₂.get (mapM_eq_ok.1 hchecked) hi (hlen ▸ hi)
    simp only [List.get_eq_getElem] at hat
    split at hat
    · rename_i hok
      exact ⟨_, hok⟩
    · cases hat
  obtain ⟨m, hm, hmon⟩ : ∃ m ∈ ms, compileMonitor d.signalTable (orderedAtoms raw) T c = .ok m := by
    obtain ⟨i, hi, rfl⟩ := List.getElem_of_mem hc
    have hlen := (mapM_eq_ok.1 hms).length_eq
    refine ⟨ms[i], List.getElem_mem _, ?_⟩
    have hat := List.Forall₂.get (mapM_eq_ok.1 hms) hi (hlen ▸ hi)
    simpa only [List.get_eq_getElem] using hat
  simp only [compileMonitor, bind_eq_ok] at hmon
  obtain ⟨⟨node, count, preds⟩, hnode, hmon⟩ := hmon
  cases hmon
  obtain ⟨loc, hloc⟩ := hcheck
  obtain ⟨ψ, hψ, hlow⟩ := compileNode_spec hT c.formula loc hloc node count preds hnode
  exact ⟨_, (List.mem_insertionSort _).mpr hm, ψ, node, rfl, rfl, hψ, hlow⟩

/-- **Main theorem.** The monitor of a temporal constraint is conservative when no window is rounded
    outwards; for a constraint of one windowed operator that is necessary. -/
theorem compileSpec_conservative {d : SpecClauses K} {T : K} {table : List (RawAtom K)}
    {monitors : List Proto.MonitorAutomaton} (h : compileSpec d T = .ok (table, monitors)) :
    ∀ c ∈ d.temporal, ∃ m ∈ monitors, ∃ ψ node, m.constraintId = c.id ∧ m.root = some node ∧
      c.formula.clause = some ψ ∧
      (RoundsInward T ψ → Conservative d.signalTable table T node ψ) ∧
      ∀ w, OneOperator w ψ → (Conservative d.signalTable table T node ψ ↔ RoundsInward T ψ) := by
  obtain ⟨hT, hall⟩ := compileSpec_lowered h
  intro c hc
  obtain ⟨m, hm, ψ, node, hid, hroot, hψ, hlow⟩ := hall c hc
  exact ⟨m, hm, ψ, node, hid, hroot, hψ, hlow.conservative_of_roundsInward hT,
    fun w hone => hlow.conservative_iff_roundsInward hT hone⟩

end Meaning

/-- A spec of one clause: the charge has been at least 20 at some time in the last `hi` seconds. -/
def chargeSpec (hi : ℚ) (h : 0 ≤ hi) : SpecClauses ℚ where
  signals := ["soc"]
  scalarAtoms := []
  temporal := [
    { id := "c", onUncertain := "hold"
      formula := .mk .eventually none none none (some ⟨.fin 0, .fin hi, le_refl (0 : ℚ), h⟩)
        [.mk .predicate (some "soc") (some .ge) (some (.fin 20)) none []] }]

/-- The compiled form of `chargeSpec`, with `hi` rounded up to one sample. -/
def chargeMonitor : Proto.MonitorAutomaton where
  constraintId := "c"
  onUncertain := "hold"
  root := some (.mk "eventually" none (some 0) (some 1) [.mk "predicate" (some 0) none none []])
  historyWindowLen := 1
  nodeCount := 2
  predicateIndices := [0]

/-- The reviewed clause of `chargeSpec`. -/
def chargeClause (hi : ℚ) (h : 0 ≤ hi) : Formula (UnresolvedAtom ℚ) (Seconds ℚ) :=
  .eventually ⟨0, hi, le_rfl, h⟩ (.atom ⟨.ge, "soc", .fin 20⟩)

theorem clause_chargeSpec {hi : ℚ} (h : 0 ≤ hi) :
    (STLFormula.mk .eventually none none none (some ⟨.fin 0, .fin hi, le_refl (0 : ℚ), h⟩)
      [.mk .predicate (some "soc") (some .ge) (some (.fin 20)) none []]).clause =
        some (chargeClause hi h) := by
  have hw : Seconds.ofInterval (some (⟨.fin 0, .fin hi, le_refl (0 : ℚ), h⟩ : Interval ℚ)) =
      some ⟨0, hi, le_rfl, h⟩ := dif_pos h
  simp only [STLFormula.clause, clauses, hw]
  rfl

theorem compileSpec_chargeSpec {hi : ℚ} (h : 0 ≤ hi) (hceil : ⌈hi⌉ = 1) :
    compileSpec (chargeSpec hi h) 1 = .ok ([⟨.ge, 0, .fin 20⟩], [chargeMonitor]) := by
  have hceilLo : ceilSamples (.fin (0 : ℚ)) 1 = .ok 0 := by simp [ceilSamples]
  have hceilHi : ceilSamples (.fin hi) 1 = .ok 1 := by simp [ceilSamples, hceil]
  have hsamples : intervalSamples .eventually
      (some (⟨.fin 0, .fin hi, le_refl (0 : ℚ), h⟩ : Interval ℚ)) 1 = .ok (some 0, some 1) :=
    bind_eq_ok.2 ⟨_, rfl, bind_eq_ok.2 ⟨0, hceilLo, bind_eq_ok.2 ⟨1, hceilHi, rfl⟩⟩⟩
  have hint : checkInterval .eventually
      (some (⟨.fin 0, .fin hi, le_refl (0 : ℚ), h⟩ : Interval ℚ)) "constraint 'c'.formula" =
        .ok () :=
    bind_eq_ok.2 ⟨_, rfl, bind_eq_ok.2 ⟨(), rfl, ensure_eq_ok.2 (not_lt.mpr h : ¬ hi < 0)⟩⟩
  have hcheck : checkFormula ["soc"] "constraint 'c'.formula"
      ((STLFormula.mk .eventually none none none (some ⟨.fin 0, .fin hi, le_refl (0 : ℚ), h⟩)
        [.mk .predicate (some "soc") (some .ge) (some (.fin 20)) none []])) = .ok () := by
    unfold checkFormula
    rw [if_neg (by decide)]
    refine bind_eq_ok.2 ⟨(), rfl, bind_eq_ok.2 ⟨(), ?_, rfl⟩⟩
    exact bind_eq_ok.2 ⟨(), rfl, hint⟩
  have hnode : compileNode ["soc"] ([⟨.ge, 0, .fin 20⟩] : List (RawAtom ℚ)) 1
      (.mk .eventually none none none (some ⟨.fin 0, .fin hi, le_refl (0 : ℚ), h⟩)
        [.mk .predicate (some "soc") (some .ge) (some (.fin 20)) none []]) =
      .ok (.mk "eventually" none (some 0) (some 1) [.mk "predicate" (some 0) none none []], 2,
        [0]) := by
    unfold compileNode
    rw [if_neg (by decide)]
    exact bind_eq_ok.2 ⟨_, rfl, bind_eq_ok.2 ⟨_, hsamples, rfl⟩⟩
  have hmon : compileMonitor ["soc"] ([⟨.ge, 0, .fin 20⟩] : List (RawAtom ℚ)) 1
    { id := "c", onUncertain := "hold"
      formula := .mk .eventually none none none (some ⟨.fin 0, .fin hi, le_refl (0 : ℚ), h⟩)
        [.mk .predicate (some "soc") (some .ge) (some (.fin 20)) none []] } = .ok chargeMonitor :=
    bind_eq_ok.2 ⟨_, hnode, rfl⟩
  refine bind_eq_ok.2 ⟨(), ensure_eq_ok.2 (by norm_num), ?_⟩
  refine bind_eq_ok.2 ⟨[()], mapM_eq_ok.2 (.cons ?_ .nil), ?_⟩
  · show (match checkFormula ["soc"] "constraint 'c'.formula" _ with
      | .ok () => _
      | .error msg => _) = _
    rw [hcheck]
  · refine bind_eq_ok.2 ⟨_, rfl, bind_eq_ok.2 ⟨_, rfl, ?_⟩⟩
    exact bind_eq_ok.2 ⟨[chargeMonitor], mapM_eq_ok.2 (.cons hmon .nil), rfl⟩
theorem compileSpec_conservative_charge :
    ∃ node, chargeMonitor.root = some node ∧
      Conservative ["soc"] [⟨.ge, 0, .fin 20⟩] 1 node (chargeClause 1 zero_le_one) := by
  obtain ⟨m, hm, ψ, node, -, hroot, hψ, hcons, -⟩ :=
    compileSpec_conservative (compileSpec_chargeSpec zero_le_one Int.ceil_one) _
      (List.mem_singleton.mpr rfl)
  cases List.mem_singleton.mp hm
  rw [clause_chargeSpec] at hψ
  cases hψ
  exact ⟨node, hroot, hcons ⟨⟨1, by norm_num⟩, trivial⟩⟩

/-- With half a second of window and one second between samples, the monitor accepts a charge that
    was sufficient one second ago. -/
theorem compileSpec_not_conservative :
    ¬ ∀ (d : SpecClauses ℚ) (T : ℚ) (table : List (RawAtom ℚ))
      (monitors : List Proto.MonitorAutomaton), compileSpec d T = .ok (table, monitors) →
      ∀ c ∈ d.temporal, ∃ m ∈ monitors, ∃ ψ node, m.constraintId = c.id ∧ m.root = some node ∧
        c.formula.clause = some ψ ∧ Conservative d.signalTable table T node ψ := by
  intro hclaim
  have hhalf : (0 : ℚ) ≤ 1 / 2 := by norm_num
  have hok := compileSpec_chargeSpec hhalf (by norm_num [Int.ceil_eq_iff])
  obtain ⟨m, hm, ψ, node, -, hroot, hψ, hcons⟩ :=
    hclaim _ _ _ _ hok _ (List.mem_singleton.mpr rfl)
  obtain ⟨hT, hlowered⟩ := compileSpec_lowered hok
  obtain ⟨m', hm', ψ', node', -, hroot', hψ', hlow⟩ := hlowered _ (List.mem_singleton.mpr rfl)
  cases List.mem_singleton.mp hm
  cases List.mem_singleton.mp hm'
  rw [hroot] at hroot'
  cases hroot'
  rw [clause_chargeSpec] at hψ hψ'
  cases hψ
  cases hψ'
  refine hlow.not_conservative hT (.eventually _) ?_ hcons
  rintro ⟨n, hn⟩
  have hn : (1 / 2 : ℚ) = n * 1 := hn
  have htwo : (1 : ℚ) = ((2 * n : ℕ) : ℚ) := by
    push_cast
    linarith
  have hone : 1 = 2 * n := by exact_mod_cast htwo
  omega

end AstroMine.Guard
