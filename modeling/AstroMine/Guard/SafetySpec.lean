import AstroMine.Lib.Instances
import AstroMine.Core.Messages
import AstroMine.Guard.SpecCompiler

/-!
# Safety specs

The authored safety contract (`guard/spec/model.py`), the semantic checks of its loader
(`guard/spec/loader.py`) and its lowering to the wire form of a compiled model
(`guard/spec/compiler.py`). The bounds the fields check are kept as fields. The content hash of a
document is an argument of the lowering.

Results:
* `checkSemantics_ok`: what an accepted spec guarantees about its ids and payloads.
* `compileDocument_ok`: the predicate table and the scalar bounds of a compiled spec.
-/

namespace AstroMine.Guard

open scoped Numerals

/-! ## The document -/

/-- `SignalRef` (`model.py:87-102`). -/
structure SignalRef where
  key : String
  unit : String
  deriving DecidableEq

/-- `ConstraintKind` (`enums.py:36-46`). -/
inductive ConstraintKind where
  | keepOut | powerFloor | energyFloor | thermalCeiling | thermalFloor | torqueCeiling
  | kinematicLimit | temporal
  deriving DecidableEq, Repr

/-- The vocabulary of `ConstraintKind`, and the payload fields `_KIND_FIELD` (`loader.py:56-66`). -/
def ConstraintKind.value : ConstraintKind → String
  | .keepOut => "keep_out"
  | .powerFloor => "power_floor"
  | .energyFloor => "energy_floor"
  | .thermalCeiling => "thermal_ceiling"
  | .thermalFloor => "thermal_floor"
  | .torqueCeiling => "torque_ceiling"
  | .kinematicLimit => "kinematic_limit"
  | .temporal => "temporal"

/-- The vocabulary of `OnUncertain` (`enums.py:84-97`). -/
def OnUncertain.value : OnUncertain → String
  | .fallback => "fallback"
  | .hold => "hold"
  | .safeState => "safe_state"

/-- The vocabulary of `GeometryKind`, and the payload fields `_SHAPE_FIELD` (`loader.py:69-73`). -/
def Shape.value : Shape → String
  | .box => "box"
  | .sphere => "sphere"
  | .halfSpace => "half_space"

/-- The vocabulary of `FrameClass`. -/
def frameClassValue : Core.FrameClass → String
  | .bodyFixed => "body_fixed"
  | .inertial => "inertial"
  | .topocentric => "topocentric"

/-- A typed frame in its wire form. -/
def frameToProto (r : Core.ReferenceFrame) : Proto.ReferenceFrame :=
  { name := r.name, frameClass := frameClassValue r.frameClass, center := r.center }

section Document

variable (K : Type) [Field K] [LinearOrder K]

/-- `KeepOutSphere` (`model.py:124-137`). -/
structure KeepOutSphere where
  frame : String
  centerM : Core.Vec3 K
  radiusM : Flt K
  frameRef : Option Core.ReferenceFrame := none
  radius_pos : ¬ radiusM ≤ 0

/-- `KeepOutHalfSpace` (`model.py:140-152`). -/
structure KeepOutHalfSpace where
  frame : String
  normal : Core.Vec3 K
  offsetM : Flt K
  frameRef : Option Core.ReferenceFrame := none

/-- `KeepOutVolume` (`model.py:155-165`). -/
structure KeepOutVolume where
  shape : Shape
  box : Option (Core.Volume K) := none
  sphere : Option (KeepOutSphere K) := none
  halfSpace : Option (KeepOutHalfSpace K) := none

/-- `KeepOutConstraint` (`model.py:204-210`). -/
structure KeepOutConstraint where
  volume : KeepOutVolume K
  marginM : Flt K
  margin_nonneg : ¬ marginM < 0

/-- `PowerFloorConstraint` (`model.py:213-218`). -/
structure PowerFloorConstraint where
  signal : String
  floorW : Flt K

/-- `EnergyFloorConstraint` (`model.py:221-226`). -/
structure EnergyFloorConstraint where
  signal : String
  floorJ : Flt K

/-- `ThermalCeilingConstraint` (`model.py:229-234`). -/
structure ThermalCeilingConstraint where
  signal : String
  limitK : Flt K

/-- `ThermalFloorConstraint` (`model.py:237-242`). -/
structure ThermalFloorConstraint where
  signal : String
  limitK : Flt K

/-- `TorqueCeilingConstraint` (`model.py:245-250`). -/
structure TorqueCeilingConstraint where
  signal : String
  maxNm : Flt K
  max_pos : ¬ maxNm ≤ 0

/-- `KinematicLimitConstraint` (`model.py:253-260`). -/
structure KinematicLimitConstraint where
  signal : String
  maxVelocityMps : Option (Flt K) := none
  maxAccelMps2 : Option (Flt K) := none
  velocity_nonneg : ∀ v ∈ maxVelocityMps, ¬ v < 0
  accel_nonneg : ∀ a ∈ maxAccelMps2, ¬ a < 0

/-- `Constraint` (`model.py:271-291`). -/
structure Constraint where
  kind : ConstraintKind
  id : String
  onUncertain : OnUncertain := .fallback
  keepOut : Option (KeepOutConstraint K) := none
  powerFloor : Option (PowerFloorConstraint K) := none
  energyFloor : Option (EnergyFloorConstraint K) := none
  thermalCeiling : Option (ThermalCeilingConstraint K) := none
  thermalFloor : Option (ThermalFloorConstraint K) := none
  torqueCeiling : Option (TorqueCeilingConstraint K) := none
  kinematicLimit : Option (KinematicLimitConstraint K) := none
  temporal : Option (STLFormula K) := none

/-- `SafePose` (`model.py:308-325`). -/
structure SafePose where
  frame : String
  positionM : Core.Vec3 K
  frameRef : Option Core.ReferenceFrame := none

/-- `SafetySpec` (`model.py:359-382`). -/
structure SafetySpec where
  id : String
  signals : List SignalRef := []
  constraints : List (Constraint K)
  safePose : Option (SafePose K) := none
  admissibleDirectives : Option AdmissibleDirectives := none
  constraints_ne_nil : constraints ≠ []

end Document

/-! ## The loader -/

/-- The items a list holds more than once, sorted. -/
def duplicates (xs : List String) : List String :=
  (xs.filter fun x => 1 < xs.count x).dedup.insertionSort (· ≤ ·)

/-- `_check_union_exactly_one` (`loader.py:139-158`); `present` are the fields that are set. -/
def checkUnionExactlyOne (present : List String) (expected what : String) :
    Except String Unit := do
  ensure (expected ∈ present) (what ++ " declares kind '" ++ expected ++ "' but its '" ++ expected ++
    "' payload is not set")
  ensure (present = [expected]) (what ++ " declares kind '" ++ expected ++ "' but also sets " ++
    toString (present.filter (· ≠ expected)) ++ "; exactly one payload field may be set")

section Loader

variable {K : Type} [Field K] [LinearOrder K]

/-- `_check_frame_ref` (`loader.py:325-344`), on a typed frame. -/
def checkFrameRef (frame : String) (frameRef : Option Core.ReferenceFrame) (loc : String) :
    Except String Unit :=
  match frameRef with
  | none => .ok ()
  | some r => ensure (r.name = frame) (loc ++ ": frame_ref name '" ++ r.name ++
      "' does not match frame '" ++ frame ++
      "' — the typed frame and the frame token must name one frame")

/-- The names of the fields that are set, in the order of `fields`. -/
def presentFields (fields : List (String × Bool)) : List String :=
  (fields.filter Prod.snd).map Prod.fst

/-- The geometry fields that are set (`_SHAPE_UNION_FIELDS`). -/
def KeepOutVolume.present (v : KeepOutVolume K) : List String :=
  presentFields [(Shape.box.value, v.box.isSome), (Shape.sphere.value, v.sphere.isSome),
    (Shape.halfSpace.value, v.halfSpace.isSome)]

/-- The payload fields that are set (`_UNION_FIELDS`). -/
def Constraint.present (c : Constraint K) : List String :=
  presentFields [(ConstraintKind.keepOut.value, c.keepOut.isSome),
    (ConstraintKind.powerFloor.value, c.powerFloor.isSome),
    (ConstraintKind.energyFloor.value, c.energyFloor.isSome),
    (ConstraintKind.thermalCeiling.value, c.thermalCeiling.isSome),
    (ConstraintKind.thermalFloor.value, c.thermalFloor.isSome),
    (ConstraintKind.torqueCeiling.value, c.torqueCeiling.isSome),
    (ConstraintKind.kinematicLimit.value, c.kinematicLimit.isSome),
    (ConstraintKind.temporal.value, c.temporal.isSome)]

/-- `_keep_out_frame_and_ref` (`loader.py:313-322`); `none` where it asserts. -/
def KeepOutVolume.frameAndRef (v : KeepOutVolume K) :
    Option (String × Option Core.ReferenceFrame) :=
  match v.box, v.sphere, v.halfSpace with
  | some box, _, _ => some (box.frame, box.frameRef)
  | none, some sphere, _ => some (sphere.frame, sphere.frameRef)
  | none, none, some hs => some (hs.frame, hs.frameRef)
  | none, none, none => none

/-- The squared length of a normal (`loader.py:374`). -/
def normSq (v : Core.Vec3 K) : Flt K := v.x * v.x + v.y * v.y + v.z * v.z

/-- The keep-out branch of `_check_constraint` (`loader.py:364-380`). -/
def checkKeepOut (ko : KeepOutConstraint K) (loc : String) : Except String Unit := do
  checkUnionExactlyOne ko.volume.present ko.volume.shape.value (loc ++ ".keep_out.volume")
  ensure (ko.volume.shape = .halfSpace → ∀ hs ∈ ko.volume.halfSpace, normSq hs.normal ≠ 0)
    (loc ++ ".keep_out.volume: a half-space normal must be non-zero")
  let (frame, frameRef) ← okOr ko.volume.frameAndRef "AssertionError"
  checkFrameRef frame frameRef (loc ++ ".keep_out.volume")

/-- The signal a scalar constraint reads. -/
def Constraint.signal? (c : Constraint K) : Option String :=
  match c.kind with
  | .powerFloor => c.powerFloor.map PowerFloorConstraint.signal
  | .energyFloor => c.energyFloor.map EnergyFloorConstraint.signal
  | .thermalCeiling => c.thermalCeiling.map ThermalCeilingConstraint.signal
  | .thermalFloor => c.thermalFloor.map ThermalFloorConstraint.signal
  | .torqueCeiling => c.torqueCeiling.map TorqueCeilingConstraint.signal
  | .kinematicLimit => c.kinematicLimit.map KinematicLimitConstraint.signal
  | .keepOut | .temporal => none

/-- `_check_constraint` (`loader.py:347-383`). -/
def checkConstraint (declared : List String) (c : Constraint K) : Except String Unit := do
  let loc := "constraint '" ++ c.id ++ "'"
  checkUnionExactlyOne c.present c.kind.value loc
  match c.kind with
  | .keepOut => do
    let ko ← okOr c.keepOut "AssertionError"
    checkKeepOut ko loc
  | .temporal => do
    let formula ← okOr c.temporal "AssertionError"
    checkFormula declared (loc ++ ".formula") formula
  | .powerFloor | .energyFloor | .thermalCeiling | .thermalFloor | .torqueCeiling
  | .kinematicLimit => do
    let signal ← okOr c.signal? "AssertionError"
    checkSignalKey signal declared loc
    ensure (c.kind = .kinematicLimit → c.kinematicLimit.any
        (fun km => km.maxVelocityMps.isSome || km.maxAccelMps2.isSome) = true)
      (loc ++ ": a kinematic_limit must set at least one of max_velocity_mps / max_accel_mps2")

/-- The frames of the keep-out constraints. -/
def SafetySpec.keepOutFrames (spec : SafetySpec K) : List String :=
  spec.constraints.filterMap fun c =>
    if c.kind = .keepOut then (c.keepOut.bind fun ko => ko.volume.frameAndRef).map Prod.fst else none

/-- The checks of the safe pose (`loader.py:289-304`). -/
def checkSafePose (spec : SafetySpec K) (pose : SafePose K) : Except String Unit := do
  ensure (pose.frame.toList.all isSpace = false)
    "safe_pose: frame must be an explicit, non-empty name"
  checkFrameRef pose.frame pose.frameRef "safe_pose"
  let mismatched := spec.keepOutFrames.filter (· ≠ pose.frame)
  ensure (mismatched = []) ("safe_pose frame '" ++ pose.frame ++
    "' does not match the keep-out geometry frame(s) " ++
    toString (mismatched.dedup.insertionSort (· ≤ ·)) ++
    " — the retreat target and the safe set must share a frame")

/-- `_check_semantics` (`loader.py:240-304`). -/
def checkSemantics (spec : SafetySpec K) : Except String Unit := do
  let keys := spec.signals.map SignalRef.key
  ensure keys.Nodup ("duplicate signal key(s): " ++ ", ".intercalate (duplicates keys) ++
    " — signal keys must be unique")
  let _ ← spec.signals.mapM fun s => do
    ensure (s.key.toList.all isSpace = false) "signal key must be a non-empty string"
    ensure (s.unit.toList.all isSpace = false)
      ("signal '" ++ s.key ++ "': unit must be an explicit, non-empty SI unit")
  let ids := spec.constraints.map Constraint.id
  ensure ids.Nodup ("duplicate constraint id(s): " ++ ", ".intercalate (duplicates ids) ++
    " — constraint ids must be unique")
  let _ ← spec.constraints.mapM (checkConstraint keys)
  match spec.safePose with
  | none => .ok ()
  | some pose => checkSafePose spec pose

/-! ## The lowering -/

/-- The bounds of a kinematic limit that are set. -/
def KinematicLimitConstraint.bounds (km : KinematicLimitConstraint K) : List (Flt K) :=
  km.maxVelocityMps.toList ++ km.maxAccelMps2.toList

/-- `_scalar_atoms` (`compiler.py:65-95`), of any constraint. -/
def scalarAtoms (c : Constraint K) : Except LowerError (List (UnresolvedAtom K)) :=
  match c.kind with
  | .powerFloor => do
    let p ← okOr c.powerFloor .assertion
    return [⟨.ge, p.signal, p.floorW⟩]
  | .energyFloor => do
    let p ← okOr c.energyFloor .assertion
    return [⟨.ge, p.signal, p.floorJ⟩]
  | .thermalCeiling => do
    let p ← okOr c.thermalCeiling .assertion
    return [⟨.le, p.signal, p.limitK⟩]
  | .thermalFloor => do
    let p ← okOr c.thermalFloor .assertion
    return [⟨.ge, p.signal, p.limitK⟩]
  | .torqueCeiling => do
    let p ← okOr c.torqueCeiling .assertion
    return [⟨.le, p.signal, p.maxNm⟩]
  | .kinematicLimit => do
    let km ← okOr c.kinematicLimit .assertion
    return km.bounds.map fun b => ⟨.le, km.signal, b⟩
  | .keepOut | .temporal => .ok []

/-- The temporal constraints of a spec, with their formulas. -/
def temporalConstraints (cs : List (Constraint K)) :
    Except LowerError (List (TemporalConstraint K)) :=
  (cs.filter fun c => c.kind = .temporal).mapM fun c => do
    let formula ← okOr c.temporal .assertion
    return { id := c.id, onUncertain := c.onUncertain.value, formula := formula }

/-- The clauses the predicate table and the monitors are compiled from (`compiler.py:311-328`). -/
def SafetySpec.clauses (spec : SafetySpec K) : Except LowerError (SpecClauses K) := do
  let scalars ← spec.constraints.mapM scalarAtoms
  let temporal ← temporalConstraints spec.constraints
  return { signals := spec.signals.map SignalRef.key, scalarAtoms := scalars.flatten
           temporal := temporal }

/-- The scalar bounds of one constraint (`compiler.py:341-350`). -/
def scalarBounds (signals : List String) (table : List (RawAtom K)) (c : Constraint K) :
    Except LowerError (List Proto.ScalarBound) := do
  let atoms ← scalarAtoms c
  atoms.mapM fun a => do
    let i ← indexOf signals table a
    return { constraintId := c.id, onUncertain := c.onUncertain.value, atomIndex := i }

/-- `_keep_out_term` (`compiler.py:180-234`). -/
def keepOutTerm [HasSqrt K] (c : Constraint K) : Except LowerError (Proto.KeepOutTerm K) := do
  let ko ← okOr c.keepOut .assertion
  let term : Proto.KeepOutTerm K :=
    { constraintId := c.id, onUncertain := c.onUncertain.value, shape := ko.volume.shape.value
      marginM := ko.marginM, center := [], halfExtents := [], radius := none, normal := []
      offset := none, frameRef := none }
  match ko.volume.shape with
  | .box => do
    let box ← okOr ko.volume.box .assertion
    return { term with
      frameRef := box.frameRef.map frameToProto
      center := [box.centerM.x, box.centerM.y, box.centerM.z]
      halfExtents := [box.dimensionsM.x / .fin 2, box.dimensionsM.y / .fin 2,
        box.dimensionsM.z / .fin 2] }
  | .sphere => do
    let sphere ← okOr ko.volume.sphere .assertion
    return { term with
      frameRef := sphere.frameRef.map frameToProto
      center := [sphere.centerM.x, sphere.centerM.y, sphere.centerM.z]
      radius := some sphere.radiusM }
  | .halfSpace => do
    let hs ← okOr ko.volume.halfSpace .assertion
    let norm := Flt.sqrt (normSq hs.normal)
    ensure (norm ≠ 0) (.compile ("constraint '" ++ c.id ++ "': half-space normal must be non-zero"))
    return { term with
      frameRef := hs.frameRef.map frameToProto
      normal := [hs.normal.x / norm, hs.normal.y / norm, hs.normal.z / norm]
      offset := some (hs.offsetM / norm) }

/-- `min(values) if values else None` of the bounds that are positive. -/
def tightest (values : List (Flt K)) : Option (Flt K) :=
  match values.filter (0 < ·) with
  | [] => none
  | v :: vs => some (vs.foldl (fun m x => if x < m then x else m) v)

/-- `_action_limits` (`compiler.py:98-136`). -/
def actionLimits (spec : SafetySpec K) : Proto.ActionLimits K :=
  let limits := spec.constraints.filterMap fun c =>
    if c.kind = .kinematicLimit then c.kinematicLimit else none
  { maxVelocityMps := tightest (limits.filterMap KinematicLimitConstraint.maxVelocityMps)
    maxAccelMps2 := tightest (limits.filterMap KinematicLimitConstraint.maxAccelMps2) }

/-- `_admissible_directives` (`compiler.py:139-164`). -/
def admissibleDirectives (spec : SafetySpec K) : Option Proto.CompiledAdmissibleDirectives :=
  spec.admissibleDirectives.map fun grant =>
    { modes := grant.modes.dedup.insertionSort (· ≤ ·)
      tasks := grant.tasks.dedup.insertionSort (· ≤ ·) }

/-- The order of the scalar bounds (`compiler.py:350`). -/
def boundLe (a b : Proto.ScalarBound) : Prop :=
  a.constraintId < b.constraintId ∨ a.constraintId = b.constraintId ∧ a.atomIndex ≤ b.atomIndex

instance : DecidableRel boundLe := fun _ _ => inferInstanceAs (Decidable (_ ∨ _))

/-- The atom of the predicate table in its wire form (`compiler.py:333-338`). -/
def RawAtom.toProto (a : RawAtom K) : Proto.PredicateAtom K :=
  { op := a.op.value, signalIndex := a.signalIndex, threshold := a.threshold }

/-- The static resource bounds (`compiler.py:381-390`). -/
def resourceBounds (atoms bounds keepOuts : ℕ) (monitors : List Proto.MonitorAutomaton) :
    Proto.ResourceBounds :=
  { predicateSlotCount := atoms, scalarBoundCount := bounds, keepOutTermCount := keepOuts
    monitorCount := monitors.length
    maxHistoryLen := (monitors.map Proto.MonitorAutomaton.historyWindowLen).foldl max 0
    worstCaseTermCount := atoms + keepOuts + (monitors.map Proto.MonitorAutomaton.nodeCount).sum }

/-- `validate_safety_spec` of a document, as the first step of the lowering. -/
def validateSafetySpec (spec : SafetySpec K) : Except LowerError Unit :=
  match checkSemantics spec with
  | .error msg => .error (.compile msg)
  | .ok () => .ok ()

/-- `compile_spec` (`compiler.py:295-423`), of a document with the given content hash. -/
def compileDocument [FloorRing K] [HasSqrt K] (spec : SafetySpec K) (contentHash : String) (T : K) :
    Except LowerError (Proto.CompiledSafetyModel K) := do
  ensure (¬ T ≤ 0) (.compile "sample_period_s must be positive")
  validateSafetySpec spec
  let d ← spec.clauses
  let (table, monitors) ← compileSpec d T
  let bounds ← spec.constraints.mapM (scalarBounds d.signalTable table)
  let keepOuts ← (spec.constraints.filter fun c => c.kind = .keepOut).mapM keepOutTerm
  .ok
    { compiledVersion := "0.1", specId := spec.id, specContentHash := contentHash
      samplePeriodS := .fin T
      predicateTable := some { signals := d.signalTable, atoms := table.map RawAtom.toProto }
      scalarBounds := bounds.flatten.insertionSort boundLe
      keepOutTerms := keepOuts.insertionSort fun a b => a.constraintId ≤ b.constraintId
      monitors := monitors
      resourceBounds := some
        (resourceBounds table.length bounds.flatten.length keepOuts.length monitors)
      safePose := spec.safePose.map fun pose =>
        { position := [pose.positionM.x, pose.positionM.y, pose.positionM.z]
          frameRef := pose.frameRef.map frameToProto }
      actionLimits := some (actionLimits spec)
      admissibleDirectives := admissibleDirectives spec }

/-! ## What the loader and the lowering establish -/

theorem checkSemantics_ok {spec : SafetySpec K} (h : checkSemantics spec = .ok ()) :
    (spec.constraints.map Constraint.id).Nodup ∧
      ∀ c ∈ spec.constraints, checkConstraint (spec.signals.map SignalRef.key) c = .ok () := by
  simp only [checkSemantics, bind_eq_ok, ensure_eq_ok] at h
  obtain ⟨-, -, us, -, -, hids, vs, hvs, -⟩ := h
  refine ⟨hids, fun c hc => ?_⟩
  obtain ⟨u, -, hok⟩ := exists_of_mapM hvs hc
  exact hok

/-- The predicate table and the scalar bounds of a compiled spec. -/
theorem compileDocument_ok [FloorRing K] [HasSqrt K] {spec : SafetySpec K} {hash : String} {T : K}
    {p : Proto.CompiledSafetyModel K} (h : compileDocument spec hash T = .ok p) :
    checkSemantics spec = .ok () ∧ ∃ signals table,
      p.predicateTable = some { signals := signals, atoms := table.map RawAtom.toProto } ∧
      (∀ c ∈ spec.constraints, ∃ atoms, scalarAtoms c = .ok atoms ∧
        ∀ a ∈ atoms, ∃ i, indexOf signals table a = .ok i) ∧
      ∀ b, b ∈ p.scalarBounds ↔ ∃ c ∈ spec.constraints, ∃ atoms, scalarAtoms c = .ok atoms ∧
        ∃ a ∈ atoms, ∃ i, indexOf signals table a = .ok i ∧
          b = { constraintId := c.id, onUncertain := c.onUncertain.value, atomIndex := i } := by
  simp only [compileDocument, bind_eq_ok] at h
  obtain ⟨-, -, u, hvalid, d, -, ⟨table, monitors⟩, -, bounds, hbounds, keepOuts, -, h⟩ := h
  obtain rfl := Except.ok.inj h
  have hsem : checkSemantics spec = .ok () := by
    unfold validateSafetySpec at hvalid
    cases hc : checkSemantics spec with
    | error msg => rw [hc] at hvalid; cases hvalid
    | ok u => rfl
  refine ⟨hsem, d.signalTable, table, rfl, fun c hc => ?_, fun b => ?_⟩
  · obtain ⟨bs, -, hbs⟩ := exists_of_mapM hbounds hc
    simp only [scalarBounds, bind_eq_ok] at hbs
    obtain ⟨atoms, hatoms, hbs⟩ := hbs
    refine ⟨atoms, hatoms, fun a ha => ?_⟩
    obtain ⟨b, -, hb⟩ := exists_of_mapM hbs ha
    obtain ⟨k, hk, -⟩ := bind_eq_ok.1 hb
    exact ⟨k, hk⟩
  · rw [List.mem_insertionSort, List.mem_flatten]
    constructor
    · rintro ⟨bs, hbs, hb⟩
      obtain ⟨c, hc, hbs⟩ := (mem_of_mapM hbounds bs).mp hbs
      obtain ⟨atoms, hatoms, hbs⟩ := bind_eq_ok.1 hbs
      obtain ⟨a, ha, hab⟩ := (mem_of_mapM hbs b).mp hb
      obtain ⟨i, hi, hab⟩ := bind_eq_ok.1 hab
      exact ⟨c, hc, atoms, hatoms, a, ha, i, hi, (Except.ok.inj hab).symm⟩
    · rintro ⟨c, hc, atoms, hatoms, a, ha, i, hi, rfl⟩
      obtain ⟨bs, hmem, hbs⟩ := exists_of_mapM hbounds hc
      refine ⟨bs, hmem, ?_⟩
      obtain ⟨atoms', hatoms', hbs⟩ := bind_eq_ok.1 hbs
      obtain rfl := Except.ok.inj (hatoms.symm.trans hatoms')
      exact (mem_of_mapM hbs _).mpr ⟨a, ha, bind_eq_ok.2 ⟨i, hi, rfl⟩⟩

end Loader

end AstroMine.Guard
