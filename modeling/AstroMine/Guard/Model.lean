import AstroMine.Lib.Except
import AstroMine.Lib.Flt

/-!
# The compiled safety model

The wire form of a compiled safety model (`proto`, the messages of
`compiled_safety_model.proto`) and its fail-closed decoding into the structures the safety core
evaluates each tick (`rust/src/model.rs`). Every check of the decoder is kept, with its error; the
texts leave out the value of a rejected float. The protobuf decoding of bytes is third-party code:
`fromWire` takes it as a parameter.

Results:
* `CompiledNode.fromProto_valid`: every node of a decoded monitor tree passes `validate`.
* `CompiledSafetyModel.fromProto_valid`: what an accepted model guarantees about its indices,
  trees, dimensions and limits.
-/

namespace AstroMine.Guard

/-! ## Errors and panics -/

/-- `CoreError` (`model.rs:255-266`). -/
inductive CoreError where
  | decode (m : String)
  | vocabulary (field value : String)
  | structure (m : String)
  | resourceExceeded (m : String)
  deriving DecidableEq, Repr

/-- The ways a tick can panic: a slice index out of range, `expect` on `None`, `clamp` with
    bounds that are not ordered. -/
inductive Panic where
  | index
  | expect
  | clamp
  deriving DecidableEq, Repr

/-- `xs[i]`. -/
def index {α : Type} (xs : List α) (i : ℕ) : Except Panic α :=
  match xs[i]? with
  | some x => .ok x
  | none => .error .index

/-- `o.expect(_)`. -/
def expect {α : Type} : Option α → Except Panic α
  | some x => .ok x
  | none => .error .expect

theorem index_eq_ok {α : Type} {xs : List α} {i : ℕ} {x : α} :
    index xs i = .ok x ↔ xs[i]? = some x := by
  unfold index
  cases xs[i]? <;> simp

/-- A check: `Err(e)` unless `p`. -/
def ensure {ε : Type} (p : Prop) [Decidable p] (e : ε) : Except ε Unit :=
  if p then .ok () else .error e

theorem ensure_eq_ok {ε : Type} {p : Prop} [Decidable p] {e : ε} {u : Unit} :
    ensure p e = .ok u ↔ p := by
  unfold ensure
  split_ifs with h
  · exact ⟨fun _ => h, fun _ => rfl⟩
  · exact ⟨fun h' => (by cases h'), fun h' => absurd h' h⟩

/-- `o.ok_or(e)`. -/
def okOr {ε α : Type} (o : Option α) (e : ε) : Except ε α :=
  match o with
  | some x => .ok x
  | none => .error e

theorem okOr_eq_ok {ε α : Type} {o : Option α} {e : ε} {x : α} :
    okOr o e = .ok x ↔ o = some x := by
  cases o with
  | none =>
    constructor
    · rintro ⟨⟩
    · rintro ⟨⟩
  | some y =>
    constructor
    · rintro ⟨⟩
      rfl
    · rintro ⟨⟩
      rfl

/-! ## Closed vocabularies -/

/-- `PredicateOp` (`model.rs:17-22`). -/
inductive PredicateOp where
  | lt | le | gt | ge
  deriving DecidableEq, Repr

/-- `PredicateOp::parse`. -/
def PredicateOp.parse (s : String) : Except CoreError PredicateOp :=
  if s = "lt" then .ok .lt
  else if s = "le" then .ok .le
  else if s = "gt" then .ok .gt
  else if s = "ge" then .ok .ge
  else .error (.vocabulary "PredicateOp" s)

/-- `PredicateOp::robustness` (`model.rs:40-45`): the signed margin of `value <op> threshold`. -/
def PredicateOp.robustness {K : Type} [Field K] (op : PredicateOp) (value threshold : Flt K) :
    Flt K :=
  match op with
  | .ge | .gt => value - threshold
  | .le | .lt => threshold - value

/-- `OnUncertain` (`model.rs:52-56`). -/
inductive OnUncertain where
  | fallback | hold | safeState
  deriving DecidableEq, Repr

/-- `OnUncertain::parse`. -/
def OnUncertain.parse (s : String) : Except CoreError OnUncertain :=
  if s = "fallback" then .ok .fallback
  else if s = "hold" then .ok .hold
  else if s = "safe_state" then .ok .safeState
  else .error (.vocabulary "OnUncertain" s)

/-- `Shape` (`model.rs:71-75`). -/
inductive Shape where
  | box | sphere | halfSpace
  deriving DecidableEq, Repr

/-- `Shape::parse`. -/
def Shape.parse (s : String) : Except CoreError Shape :=
  if s = "box" then .ok .box
  else if s = "sphere" then .ok .sphere
  else if s = "half_space" then .ok .halfSpace
  else .error (.vocabulary "GeometryKind" s)

/-- `TemporalOp` (`model.rs:90-98`). -/
inductive TemporalOp where
  | predicate | not | and | or | always | eventually | until
  deriving DecidableEq, Repr

/-- `TemporalOp::parse`. -/
def TemporalOp.parse (s : String) : Except CoreError TemporalOp :=
  if s = "predicate" then .ok .predicate
  else if s = "not" then .ok .not
  else if s = "and" then .ok .and
  else if s = "or" then .ok .or
  else if s = "always" then .ok .always
  else if s = "eventually" then .ok .eventually
  else if s = "until" then .ok .until
  else .error (.vocabulary "TemporalOp" s)

/-! ## The wire form -/

namespace Proto

/-- `ReferenceFrame` of the units schema. -/
structure ReferenceFrame where
  name : String
  frameClass : String
  center : Option String
  deriving DecidableEq

/-- `PredicateAtom`. -/
structure PredicateAtom (K : Type) where
  op : String
  signalIndex : ℤ
  threshold : Flt K

/-- `PredicateTable`. -/
structure PredicateTable (K : Type) where
  signals : List String
  atoms : List (PredicateAtom K)

/-- `ScalarBound`. -/
structure ScalarBound where
  constraintId : String
  onUncertain : String
  atomIndex : ℤ

/-- `KeepOutTerm`. -/
structure KeepOutTerm (K : Type) where
  constraintId : String
  onUncertain : String
  shape : String
  marginM : Flt K
  center : List (Flt K)
  halfExtents : List (Flt K)
  radius : Option (Flt K)
  normal : List (Flt K)
  offset : Option (Flt K)
  frameRef : Option ReferenceFrame

/-- `CompiledNode`. -/
inductive CompiledNode where
  | mk (op : String) (predicateIndex intervalLoSamples intervalHiSamples : Option ℤ)
      (args : List CompiledNode)

/-- `MonitorAutomaton`. -/
structure MonitorAutomaton where
  constraintId : String
  onUncertain : String
  root : Option CompiledNode
  historyWindowLen : ℤ
  nodeCount : ℤ
  predicateIndices : List ℤ

/-- `CompiledSafePose`. -/
structure CompiledSafePose (K : Type) where
  position : List (Flt K)
  frameRef : Option ReferenceFrame

/-- `ActionLimits`. -/
structure ActionLimits (K : Type) where
  maxVelocityMps : Option (Flt K)
  maxAccelMps2 : Option (Flt K)

/-- `CompiledAdmissibleDirectives`. -/
structure CompiledAdmissibleDirectives where
  modes : List String
  tasks : List String

/-- `ResourceBounds`; the default of a message is all zero. -/
structure ResourceBounds where
  predicateSlotCount : ℤ := 0
  scalarBoundCount : ℤ := 0
  keepOutTermCount : ℤ := 0
  monitorCount : ℤ := 0
  maxHistoryLen : ℤ := 0
  worstCaseTermCount : ℤ := 0

/-- `CompiledSafetyModel`. -/
structure CompiledSafetyModel (K : Type) where
  compiledVersion : String
  specId : String
  specContentHash : String
  samplePeriodS : Flt K
  predicateTable : Option (PredicateTable K)
  scalarBounds : List ScalarBound
  keepOutTerms : List (KeepOutTerm K)
  monitors : List MonitorAutomaton
  resourceBounds : Option ResourceBounds
  safePose : Option (CompiledSafePose K)
  actionLimits : Option (ActionLimits K)
  admissibleDirectives : Option CompiledAdmissibleDirectives

end Proto

/-! ## The decoded form -/

/-- `PredicateAtom` (`model.rs:117-121`). -/
structure PredicateAtom (K : Type) where
  op : PredicateOp
  signalIndex : ℕ
  threshold : Flt K

/-- `ScalarBound` (`model.rs:125-129`). -/
structure ScalarBound where
  constraintId : String
  onUncertain : OnUncertain
  atomIndex : ℕ

/-- `KeepOutTerm` (`model.rs:135-145`). -/
structure KeepOutTerm (K : Type) where
  constraintId : String
  onUncertain : OnUncertain
  shape : Shape
  marginM : Flt K
  center : List (Flt K)
  halfExtents : List (Flt K)
  radius : Option (Flt K)
  normal : List (Flt K)
  offset : Option (Flt K)

/-- `CompiledNode` (`model.rs:149-155`). -/
inductive CompiledNode where
  | mk (op : TemporalOp) (predicateIndex intervalLoSamples intervalHiSamples : Option ℕ)
      (args : List CompiledNode)

/-- `MonitorAutomaton` (`model.rs:159-166`). -/
structure MonitorAutomaton where
  constraintId : String
  onUncertain : OnUncertain
  root : CompiledNode
  historyWindowLen : ℕ
  nodeCount : ℕ
  predicateIndices : List ℕ

/-- `ActionLimits` (`model.rs:177-183`). -/
structure ActionLimits (K : Type) where
  maxVelocityMps : Option (Flt K) := none
  maxAccelMps2 : Option (Flt K) := none

/-- `AdmissibleDirectives` (`model.rs:202-207`). -/
structure AdmissibleDirectives where
  modes : List String
  tasks : List String
  deriving DecidableEq

/-- `ResourceBounds` (`model.rs:211-218`). -/
structure ResourceBounds where
  predicateSlotCount : ℕ
  scalarBoundCount : ℕ
  keepOutTermCount : ℕ
  monitorCount : ℕ
  maxHistoryLen : ℕ
  worstCaseTermCount : ℕ

/-- `CompiledSafetyModel` (`model.rs:222-250`). -/
structure CompiledSafetyModel (K : Type) where
  compiledVersion : String
  specId : String
  specContentHash : String
  samplePeriodS : Flt K
  signals : List String
  atoms : List (PredicateAtom K)
  scalarBounds : List ScalarBound
  keepOutTerms : List (KeepOutTerm K)
  monitors : List MonitorAutomaton
  resourceBounds : ResourceBounds
  actionLimits : ActionLimits K
  spatialDim : Option ℕ
  safePose : Option (List (Flt K))
  admissibleDirectives : Option AdmissibleDirectives

/-! ## Decoding -/

/-- `to_usize`. -/
def toUsize (v : ℤ) (what : String) : Except CoreError ℕ :=
  if 0 ≤ v then .ok v.toNat
  else .error (.structure (what ++ " must be >= 0, got " ++ toString v))

/-- `opt_usize`. -/
def optUsize (v : Option ℤ) (what : String) : Except CoreError (Option ℕ) :=
  match v with
  | none => .ok none
  | some x => (toUsize x what).map some

namespace CompiledNode

def op : CompiledNode → TemporalOp | mk op _ _ _ _ => op
def predicateIndex : CompiledNode → Option ℕ | mk _ pi _ _ _ => pi
def intervalLoSamples : CompiledNode → Option ℕ | mk _ _ lo _ _ => lo
def intervalHiSamples : CompiledNode → Option ℕ | mk _ _ _ hi _ => hi
def args : CompiledNode → List CompiledNode | mk _ _ _ _ args => args

/-- `CompiledNode::require_interval` (`model.rs:346-353`). -/
def requireInterval (n : CompiledNode) : Except CoreError Unit :=
  let bad := CoreError.structure
    "temporal operator needs a finite [lo, hi] interval with lo <= hi"
  match n.intervalLoSamples, n.intervalHiSamples with
  | some lo, some hi => ensure (lo ≤ hi) bad
  | _, _ => .error bad

/-- `CompiledNode::validate` (`model.rs:308-344`). -/
def validate (n : CompiledNode) : Except CoreError Unit :=
  match n.op with
  | .predicate => do
    ensure (n.predicateIndex.isSome = true) (.structure "predicate node needs an index")
    ensure (n.args.length = 0) (.structure "predicate node takes no args")
  | .not => ensure (n.args.length = 1) (.structure "not takes exactly one arg")
  | .and | .or => ensure (n.args.length ≠ 0) (.structure "and/or need >= 1 arg")
  | .always | .eventually => do
    ensure (n.args.length = 1) (.structure "always/eventually take one arg")
    n.requireInterval
  | .until => do
    ensure (n.args.length = 2) (.structure "until takes two args")
    n.requireInterval

mutual

/-- `CompiledNode::from_proto` (`model.rs:290-305`). -/
def fromProto : Proto.CompiledNode → Except CoreError CompiledNode
  | .mk op pi lo hi args => do
    let op ← TemporalOp.parse op
    let pi ← optUsize pi "predicate_index"
    let lo ← optUsize lo "interval_lo_samples"
    let hi ← optUsize hi "interval_hi_samples"
    let args ← fromProtos args
    let node := mk op pi lo hi args
    node.validate
    return node

/-- The `args` of a node, decoded in order. -/
def fromProtos : List Proto.CompiledNode → Except CoreError (List CompiledNode)
  | [] => .ok []
  | p :: ps => do
    let n ← fromProto p
    let ns ← fromProtos ps
    return n :: ns

end

end CompiledNode

/-- `char::is_whitespace`: the Unicode `White_Space` characters. -/
def isWhitespace (c : Char) : Bool :=
  let n := c.toNat
  (0x09 ≤ n ∧ n ≤ 0x0D) ∨ n = 0x20 ∨ n = 0x85 ∨ n = 0xA0 ∨ n = 0x1680 ∨
    (0x2000 ≤ n ∧ n ≤ 0x200A) ∨ n = 0x2028 ∨ n = 0x2029 ∨ n = 0x202F ∨ n = 0x205F ∨ n = 0x3000

/-- `is_token` (`units.rs:75-77`): not empty and free of whitespace. -/
def isToken (s : String) : Bool :=
  s ≠ "" && !s.toList.any isWhitespace

/-- `FRAME_CLASSES`. -/
def frameClasses : List String := ["body_fixed", "inertial", "topocentric"]

/-- `require_frame` (`units.rs:93-116`). -/
def requireFrame (name frameClass : String) (center : Option String) : Except String Unit := do
  ensure (isToken name = true)
    ("frame name must be a non-empty, whitespace-free token, got " ++ name.quote)
  ensure (frameClass ∈ frameClasses) ("frame_class " ++ frameClass.quote ++
    " is not a FrameClass member ([\"body_fixed\", \"inertial\", \"topocentric\"])")
  match center with
  | none => .ok ()
  | some c =>
    ensure (isToken c = true)
      ("frame center must be a non-empty, whitespace-free token, got " ++ c.quote)

/-- `validate_frame_ref` (`model.rs:377-386`). -/
def validateFrameRef (frameRef : Option Proto.ReferenceFrame) (what : String) :
    Except CoreError Unit :=
  match frameRef with
  | none => .ok ()
  | some rf =>
    match requireFrame rf.name rf.frameClass rf.center with
    | .ok () => .ok ()
    | .error e =>
      .error (.structure (what ++ " frame_ref invalid: units validation error: " ++ e))

section Decode

variable {K : Type}

/-- The arity check of `geometry_dim`, by shape. -/
def geometryArity (t : KeepOutTerm K) : Except CoreError ℕ :=
  match t.shape with
  | .sphere => do
    ensure (t.radius.isSome = true)
      (.structure ("sphere keep-out " ++ t.constraintId ++ " needs a radius"))
    return t.center.length
  | .box => do
    ensure (t.center.length = t.halfExtents.length)
      (.structure ("box keep-out " ++ t.constraintId ++ " center/half_extents arity mismatch"))
    return t.center.length
  | .halfSpace => do
    ensure (t.offset.isSome = true)
      (.structure ("half_space keep-out " ++ t.constraintId ++ " needs an offset"))
    return t.normal.length

/-- `geometry_dim` (`model.rs:388-425`). -/
def geometryDim (t : KeepOutTerm K) : Except CoreError ℕ := do
  let d ← geometryArity t
  ensure (d ≠ 0) (.structure ("keep-out " ++ t.constraintId ++ " has zero spatial dimension"))
  return d

/-- The decoding of one predicate atom (`model.rs:453-472`). -/
def decodeAtom (signalCount : ℕ) (a : Proto.PredicateAtom K) :
    Except CoreError (PredicateAtom K) := do
  let signalIndex ← toUsize a.signalIndex "signal_index"
  ensure (signalIndex < signalCount) (.structure ("atom signal_index " ++ toString signalIndex ++
    " out of range (" ++ toString signalCount ++ " signals)"))
  ensure (a.threshold.isFinite = true) (.structure "atom threshold must be finite")
  let op ← PredicateOp.parse a.op
  return { op := op, signalIndex := signalIndex, threshold := a.threshold }

/-- The closure `check_atom` (`model.rs:474-483`). -/
def checkAtom (atomCount i : ℕ) : Except CoreError ℕ := do
  ensure (i < atomCount) (.structure ("atom_index " ++ toString i ++ " out of range (" ++
    toString atomCount ++ " atoms)"))
  return i

/-- The decoding of one scalar bound (`model.rs:485-495`). -/
def decodeScalarBound (atomCount : ℕ) (b : Proto.ScalarBound) : Except CoreError ScalarBound := do
  let onUncertain ← OnUncertain.parse b.onUncertain
  let i ← toUsize b.atomIndex "atom_index"
  let atomIndex ← checkAtom atomCount i
  return { constraintId := b.constraintId, onUncertain := onUncertain, atomIndex := atomIndex }

/-- The decoding of one keep-out term (`model.rs:497-516`). -/
def decodeKeepOut (t : Proto.KeepOutTerm K) : Except CoreError (KeepOutTerm K) := do
  validateFrameRef t.frameRef ("keep-out " ++ t.constraintId)
  let onUncertain ← OnUncertain.parse t.onUncertain
  let shape ← Shape.parse t.shape
  let term : KeepOutTerm K :=
    { constraintId := t.constraintId, onUncertain := onUncertain, shape := shape
      marginM := t.marginM, center := t.center, halfExtents := t.halfExtents
      radius := t.radius, normal := t.normal, offset := t.offset }
  let _ ← geometryDim term
  return term

/-- The spatial dimension the keep-out terms agree on (`model.rs:520-532`). -/
def spatialDimOf : List (KeepOutTerm K) → Option ℕ → Except CoreError (Option ℕ)
  | [], dim => .ok dim
  | t :: ts, dim => do
    let d ← geometryDim t
    match dim with
    | none => spatialDimOf ts (some d)
    | some prev => do
      ensure (prev = d) (.structure ("keep-out terms disagree on spatial dimension (" ++
        toString prev ++ " vs " ++ toString d ++ ")"))
      spatialDimOf ts dim

/-- The decoding of one monitor (`model.rs:534-563`). -/
def decodeMonitor (atomCount maxHistoryCap : ℕ) (m : Proto.MonitorAutomaton) :
    Except CoreError MonitorAutomaton := do
  let root ← okOr m.root (.structure "monitor missing root")
  let root ← CompiledNode.fromProto root
  let historyWindowLen ← toUsize m.historyWindowLen "history_window_len"
  ensure (historyWindowLen ≤ maxHistoryCap) (.resourceExceeded ("monitor " ++ m.constraintId ++
    " needs history " ++ toString historyWindowLen ++ " > cap " ++ toString maxHistoryCap))
  let onUncertain ← OnUncertain.parse m.onUncertain
  let nodeCount ← toUsize m.nodeCount "node_count"
  let predicateIndices ← m.predicateIndices.mapM fun i => do
    let i ← toUsize i "predicate_index"
    checkAtom atomCount i
  return { constraintId := m.constraintId, onUncertain := onUncertain, root := root
           historyWindowLen := historyWindowLen, nodeCount := nodeCount
           predicateIndices := predicateIndices }

/-- The decoding of the safe pose (`model.rs:569-588`). -/
def decodeSafePose (spatialDim : Option ℕ) :
    Option (Proto.CompiledSafePose K) → Except CoreError (Option (List (Flt K)))
  | none => .ok none
  | some sp => do
    validateFrameRef sp.frameRef "safe_pose"
    ensure (sp.position.all Flt.isFinite = true) (.structure "safe_pose position must be finite")
    match spatialDim with
    | none => return some sp.position
    | some d =>
      ensure (d ≤ sp.position.length) (.structure ("safe_pose has " ++
        toString sp.position.length ++ " coordinates but the keep-out frame is " ++
        toString d ++ "-dimensional"))
      return some sp.position

/-- The decoding of the directive allowlist (`model.rs:608-623`). -/
def decodeDirectives : Option Proto.CompiledAdmissibleDirectives →
    Except CoreError (Option AdmissibleDirectives)
  | none => .ok none
  | some ad => do
    ensure ("" ∉ ad.modes ++ ad.tasks)
      (.structure "admissible_directives carries an empty directive name")
    return some { modes := ad.modes, tasks := ad.tasks }

/-- The decoding of the resource bounds (`model.rs:625-633`). -/
def decodeResourceBounds (rb : Proto.ResourceBounds) : Except CoreError ResourceBounds := do
  let predicateSlotCount ← toUsize rb.predicateSlotCount "predicate_slot_count"
  let scalarBoundCount ← toUsize rb.scalarBoundCount "scalar_bound_count"
  let keepOutTermCount ← toUsize rb.keepOutTermCount "keep_out_term_count"
  let monitorCount ← toUsize rb.monitorCount "monitor_count"
  let maxHistoryLen ← toUsize rb.maxHistoryLen "max_history_len"
  let worstCaseTermCount ← toUsize rb.worstCaseTermCount "worst_case_term_count"
  return { predicateSlotCount := predicateSlotCount, scalarBoundCount := scalarBoundCount
           keepOutTermCount := keepOutTermCount, monitorCount := monitorCount
           maxHistoryLen := maxHistoryLen, worstCaseTermCount := worstCaseTermCount }

variable [Field K] [LinearOrder K]

/-- `check_limit` (`model.rs:656-664`). -/
def checkLimit (v : Option (Flt K)) (what : String) : Except CoreError (Option (Flt K)) :=
  match v with
  | none => .ok none
  | some x => do
    ensure (x.isFinite = true ∧ 0 < x) (.structure (what ++ " must be finite and positive"))
    return some x

/-- The decoding of the kinematic envelope (`model.rs:593-599`). -/
def decodeLimits : Option (Proto.ActionLimits K) → Except CoreError (ActionLimits K)
  | none => .ok {}
  | some al => do
    let maxVelocityMps ← checkLimit al.maxVelocityMps "max_velocity_mps"
    let maxAccelMps2 ← checkLimit al.maxAccelMps2 "max_accel_mps2"
    return { maxVelocityMps := maxVelocityMps, maxAccelMps2 := maxAccelMps2 }

namespace CompiledSafetyModel

/-- `CompiledSafetyModel::from_proto` (`model.rs:437-651`). -/
def fromProto (p : Proto.CompiledSafetyModel K) (maxHistoryCap : ℕ) :
    Except CoreError (CompiledSafetyModel K) := do
  ensure (p.samplePeriodS.isFinite = true ∧ 0 < p.samplePeriodS)
    (.structure "sample_period_s must be finite and positive")
  let table ← okOr p.predicateTable (.structure "missing predicate_table")
  let atoms ← table.atoms.mapM (decodeAtom table.signals.length)
  let scalarBounds ← p.scalarBounds.mapM (decodeScalarBound atoms.length)
  let keepOutTerms ← p.keepOutTerms.mapM decodeKeepOut
  let spatialDim ← spatialDimOf keepOutTerms none
  let monitors ← p.monitors.mapM (decodeMonitor atoms.length maxHistoryCap)
  let safePose ← decodeSafePose spatialDim p.safePose
  let actionLimits ← decodeLimits p.actionLimits
  let admissibleDirectives ← decodeDirectives p.admissibleDirectives
  let resourceBounds ← decodeResourceBounds (p.resourceBounds.getD {})
  return { compiledVersion := p.compiledVersion, specId := p.specId
           specContentHash := p.specContentHash, samplePeriodS := p.samplePeriodS
           signals := table.signals, atoms := atoms, scalarBounds := scalarBounds
           keepOutTerms := keepOutTerms, monitors := monitors
           resourceBounds := resourceBounds, actionLimits := actionLimits
           spatialDim := spatialDim, safePose := safePose
           admissibleDirectives := admissibleDirectives }

/-- `CompiledSafetyModel::from_wire` (`model.rs:430-435`); `decode` is the protobuf decoder. -/
def fromWire (decode : List UInt8 → Except String (Proto.CompiledSafetyModel K))
    (bytes : List UInt8) (maxHistoryCap : ℕ) : Except CoreError (CompiledSafetyModel K) :=
  match decode bytes with
  | .error e => .error (.decode e)
  | .ok p => fromProto p maxHistoryCap

end CompiledSafetyModel

end Decode

/-! ## What decoding establishes -/

namespace CompiledNode

mutual

/-- Every node of the tree passes `validate`. -/
def Checked : CompiledNode → Prop
  | mk op pi lo hi args => (mk op pi lo hi args).validate = .ok () ∧ CheckedAll args

/-- Every tree of the list is checked. -/
def CheckedAll : List CompiledNode → Prop
  | [] => True
  | n :: ns => Checked n ∧ CheckedAll ns

end

mutual

/-- A tree the decoder builds is checked at every node. -/
theorem fromProto_checked : ∀ {p : Proto.CompiledNode} {n : CompiledNode},
    fromProto p = .ok n → n.Checked
  | .mk op pi lo hi args, n, h => by
    simp only [fromProto, bind_eq_ok] at h
    obtain ⟨op, -, pi, -, lo, -, hi, -, args, hargs, ⟨⟩, hvalid, hn⟩ := h
    cases hn
    exact ⟨hvalid, fromProtos_checked hargs⟩

theorem fromProtos_checked : ∀ {ps : List Proto.CompiledNode} {ns : List CompiledNode},
    fromProtos ps = .ok ns → CheckedAll ns
  | [], ns, h => by
    cases h
    trivial
  | p :: ps, ns, h => by
    simp only [fromProtos, bind_eq_ok] at h
    obtain ⟨n, hn, ns, hns, h⟩ := h
    cases h
    exact ⟨fromProto_checked hn, fromProtos_checked hns⟩

end

end CompiledNode

section Terms

variable {K : Type}

theorem geometryDim_pos {t : KeepOutTerm K} {d : ℕ} (h : geometryDim t = .ok d) : 0 < d := by
  simp only [geometryDim, bind_eq_ok, ensure_eq_ok] at h
  obtain ⟨d', -, -, hd, h⟩ := h
  cases h
  exact Nat.pos_of_ne_zero hd

theorem decodeAtom_ok {n : ℕ} {a : Proto.PredicateAtom K} {b : PredicateAtom K}
    (h : decodeAtom n a = .ok b) : b.signalIndex < n ∧ b.threshold.isFinite = true := by
  simp only [decodeAtom, bind_eq_ok, ensure_eq_ok] at h
  obtain ⟨i, -, -, hi, -, hf, op, -, h⟩ := h
  cases h
  exact ⟨hi, hf⟩

theorem decodeScalarBound_ok {n : ℕ} {b : Proto.ScalarBound} {b' : ScalarBound}
    (h : decodeScalarBound n b = .ok b') : b'.atomIndex < n := by
  simp only [decodeScalarBound, checkAtom, bind_eq_ok, ensure_eq_ok] at h
  obtain ⟨u, -, i, -, j, ⟨-, hi, hj⟩, h⟩ := h
  cases h
  cases hj
  exact hi

theorem decodeMonitor_ok {n cap : ℕ} {p : Proto.MonitorAutomaton} {m : MonitorAutomaton}
    (h : decodeMonitor n cap p = .ok m) : m.root.Checked := by
  simp only [decodeMonitor, bind_eq_ok] at h
  obtain ⟨r, -, root, hroot, len, -, -, -, u, -, count, -, indices, -, h⟩ := h
  cases h
  exact CompiledNode.fromProto_checked hroot

/-- The agreed dimension is the dimension of every term. -/
theorem spatialDimOf_ok {ts : List (KeepOutTerm K)} {dim dim' : Option ℕ}
    (h : spatialDimOf ts dim = .ok dim') :
    (∀ t ∈ ts, ∃ d, geometryDim t = .ok d ∧ dim' = some d) ∧
      ((ts = [] ∨ dim ≠ none) → dim' = dim) := by
  induction ts generalizing dim with
  | nil =>
    cases h
    exact ⟨by simp, fun _ => rfl⟩
  | cons t ts ih =>
    simp only [spatialDimOf, bind_eq_ok] at h
    obtain ⟨d, hd, h⟩ := h
    cases dim with
    | none =>
      obtain ⟨hall, hdim⟩ := ih h
      have hdim := hdim (.inr (by simp))
      refine ⟨?_, by simp⟩
      intro t' ht'
      obtain rfl | ht' := List.mem_cons.mp ht'
      · exact ⟨d, hd, hdim⟩
      · exact hall t' ht'
    | some prev =>
      simp only [bind_eq_ok, ensure_eq_ok] at h
      obtain ⟨-, rfl, h⟩ := h
      obtain ⟨hall, hdim⟩ := ih h
      have hdim := hdim (.inr (by simp))
      refine ⟨?_, fun _ => hdim⟩
      intro t' ht'
      obtain rfl | ht' := List.mem_cons.mp ht'
      · exact ⟨prev, hd, hdim⟩
      · exact hall t' ht'

theorem decodeSafePose_ok {dim : Option ℕ} {sp : Option (Proto.CompiledSafePose K)}
    {r : Option (List (Flt K))} (h : decodeSafePose dim sp = .ok r) (p : List (Flt K))
    (hp : r = some p) : (∀ x ∈ p, x.isFinite = true) ∧ ∀ d, dim = some d → d ≤ p.length := by
  subst hp
  cases sp with
  | none => cases h
  | some sp =>
    simp only [decodeSafePose, bind_eq_ok, ensure_eq_ok] at h
    obtain ⟨-, -, -, hfin, h⟩ := h
    cases dim with
    | none =>
      cases h
      exact ⟨List.all_eq_true.mp hfin, by simp⟩
    | some d =>
      simp only [bind_eq_ok, ensure_eq_ok] at h
      obtain ⟨-, hd, h⟩ := h
      cases h
      refine ⟨List.all_eq_true.mp hfin, ?_⟩
      rintro _ ⟨⟩
      exact hd

theorem decodeDirectives_ok {ad : Option Proto.CompiledAdmissibleDirectives}
    {r : Option AdmissibleDirectives} (h : decodeDirectives ad = .ok r)
    (a : AdmissibleDirectives) (ha : r = some a) : ∀ name ∈ a.modes ++ a.tasks, name ≠ "" := by
  subst ha
  cases ad with
  | none => cases h
  | some ad =>
    simp only [decodeDirectives, bind_eq_ok, ensure_eq_ok] at h
    obtain ⟨-, hne, h⟩ := h
    cases h
    intro name hname heq
    exact hne (heq ▸ hname)

end Terms

section Numbers

variable {K : Type} [Field K] [LinearOrder K]

/-- What every decoded model satisfies. -/
structure CompiledSafetyModel.Valid (m : CompiledSafetyModel K) : Prop where
  samplePeriodS : ∃ T : K, 0 < T ∧ m.samplePeriodS = .fin T
  atoms : ∀ a ∈ m.atoms, a.signalIndex < m.signals.length ∧ a.threshold.isFinite = true
  scalarBounds : ∀ b ∈ m.scalarBounds, b.atomIndex < m.atoms.length
  keepOutTerms : ∀ t ∈ m.keepOutTerms, ∃ d, geometryDim t = .ok d ∧ m.spatialDim = some d
  spatialDim : ∀ d, m.spatialDim = some d → 0 < d ∧ m.keepOutTerms ≠ []
  monitors : ∀ a ∈ m.monitors, a.root.Checked
  safePose : ∀ p, m.safePose = some p → (∀ x ∈ p, x.isFinite = true) ∧
    ∀ d, m.spatialDim = some d → d ≤ p.length
  limits : ∀ x, m.actionLimits.maxVelocityMps = some x ∨ m.actionLimits.maxAccelMps2 = some x →
    ∃ y : K, 0 < y ∧ x = .fin y
  directives : ∀ a, m.admissibleDirectives = some a → ∀ name ∈ a.modes ++ a.tasks, name ≠ ""

theorem isFinite_pos {x : Flt K} (h : x.isFinite = true ∧ 0 < x) :
    ∃ y : K, 0 < y ∧ x = .fin y := by
  obtain ⟨y, rfl⟩ := Flt.isFinite_iff.1 h.1
  exact ⟨y, h.2, rfl⟩

theorem checkLimit_ok {v r : Option (Flt K)} {what : String} (h : checkLimit v what = .ok r)
    (x : Flt K) (hx : r = some x) : ∃ y : K, 0 < y ∧ x = .fin y := by
  subst hx
  cases v with
  | none => cases h
  | some v =>
    simp only [checkLimit, bind_eq_ok, ensure_eq_ok] at h
    obtain ⟨-, hv, h⟩ := h
    cases h
    exact isFinite_pos hv

theorem decodeLimits_ok {al : Option (Proto.ActionLimits K)} {r : ActionLimits K}
    (h : decodeLimits al = .ok r) (x : Flt K)
    (hx : r.maxVelocityMps = some x ∨ r.maxAccelMps2 = some x) : ∃ y : K, 0 < y ∧ x = .fin y := by
  cases al with
  | none =>
    cases h
    simp at hx
  | some al =>
    simp only [decodeLimits, bind_eq_ok] at h
    obtain ⟨v, hv, a, ha, h⟩ := h
    cases h
    obtain hx | hx := hx
    · exact checkLimit_ok hv x hx
    · exact checkLimit_ok ha x hx

/-- **Main theorem.** Every model the decoder accepts is valid. -/
theorem CompiledSafetyModel.fromProto_valid {p : Proto.CompiledSafetyModel K} {cap : ℕ}
    {m : CompiledSafetyModel K} (h : fromProto p cap = .ok m) : m.Valid := by
  simp only [fromProto, bind_eq_ok, ensure_eq_ok, okOr_eq_ok] at h
  obtain ⟨-, hT, table, -, atoms, hatoms, bounds, hbounds, terms, hterms, dim, hdim, monitors,
    hmonitors, pose, hpose, limits, hlimits, directives, hdirectives, rb, -, h⟩ := h
  cases h
  obtain ⟨hall, hnone⟩ := spatialDimOf_ok hdim
  exact
    { samplePeriodS := isFinite_pos hT
      atoms := forall_of_mapM hatoms fun _ _ => decodeAtom_ok
      scalarBounds := forall_of_mapM hbounds fun _ _ => decodeScalarBound_ok
      keepOutTerms := hall
      spatialDim := by
        intro d hd
        cases terms with
        | nil =>
          have := hnone (.inl rfl)
          simp_all
        | cons t ts =>
          obtain ⟨d', ht, hd'⟩ := hall t (by simp)
          cases hd.symm.trans hd'
          exact ⟨geometryDim_pos ht, by simp⟩
      monitors := forall_of_mapM hmonitors fun _ _ => decodeMonitor_ok
      safePose := decodeSafePose_ok hpose
      limits := decodeLimits_ok hlimits
      directives := decodeDirectives_ok hdirectives }

end Numbers

end AstroMine.Guard
