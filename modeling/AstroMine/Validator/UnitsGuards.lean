import AstroMine.Core.Units
import AstroMine.Guard.SpecCompiler
import AstroMine.Lib.Json
import AstroMine.Lib.Lines

/-!
# The two units guards

The guards of the Rust validator (`validator/rust/src/units.rs`) and the reference ones
(`core/units/validate.py`, over the models of `core/units/model.py`). A guard gets a parsed JSON
document and returns the value it reads from it, or `none` where it fails; the texts of the errors
are diagnostic and left out. A float of a document is finite unless its literal is out of range.
What an integer literal is as a float (`ofInt`, `none` out of range), how pydantic reads a float
from a boolean or a text, and Python's case mappings are parameters.
-/

namespace AstroMine.Validator

open AstroMine.Core

/-! ## Vocabularies -/

/-- `TimeScale::from_wire` (`units.rs`, lines 90–96); the values of the `StrEnum`. -/
def timeScaleFromWire : String → Option TimeScale
  | "tdb" => some .tdb
  | "et" => some .et
  | _ => none

/-- `FrameClass::from_wire` (lines 120–127); the values of the `StrEnum`. -/
def frameClassFromWire : String → Option FrameClass
  | "body_fixed" => some .bodyFixed
  | "inertial" => some .inertial
  | "topocentric" => some .topocentric
  | _ => none

/-- `SI_UNITS` (lines 63–66; `core/units/enums.py`, lines 67–92). -/
def siUnits : List String :=
  ["m", "kg", "s", "A", "K", "mol", "cd", "rad", "sr", "Hz", "N", "Pa", "J", "W", "V", "C"]

/-- `DIMENSIONLESS_UNITS`. -/
def dimensionlessUnits : List String := ["dimensionless", "mass_fraction", "volume_fraction"]

/-- `EARTH`. -/
def earth : String := "EARTH"

/-- `EARTH_CRS_MARKERS`. -/
def earthCrsMarkers : List String := ["wgs84", "epsg:4326", "urn:ogc:def:crs:ogc"]

/-- `PlanetaryCRS`. -/
structure PlanetaryCRS (R : Type) where
  body : String
  bodyFixedFrame : String
  referenceRadiusM : R
  projection : Option String
  datum : Option String

/-- The fields of an object. -/
abbrev Fields (K : Type) := List (String × Json (Flt K))

variable {K : Type}

/-- No field has another name: `deny_unknown` (lines 432–441), and `extra="forbid"` of the
models. -/
def denyUnknown (obj : Fields K) (allowed : List String) : Option Unit :=
  if ∀ p ∈ obj, p.1 ∈ allowed then some () else none

theorem denyUnknown_eq_some (obj : Fields K) (allowed : List String) :
    denyUnknown obj allowed = some () ↔ ∀ p ∈ obj, p.1 ∈ allowed := by
  rw [denyUnknown]
  split_ifs with h
  · exact iff_of_true rfl h
  · exact iff_of_false nofun h

/-- A name that may be absent, checked when it is there: `center.map(check).transpose()` (lines
159–161), and `_check_center` (`model.py`, lines 73–76). -/
def checkCenter (check : String → Option String) : Option String → Option (Option String)
  | none => some none
  | some c => (check c).map some

/-! ## The Rust guards -/

namespace Rust

/-- `require_object` (lines 416–429). -/
def requireObject : Json (Flt K) → Option (Fields K)
  | .obj fields => some fields
  | _ => none

/-- `required_str` (lines 443–454). -/
def requiredStr (obj : Fields K) (key : String) : Option String :=
  match obj.lookup key with
  | some (.str s) => some s
  | _ => none

/-- `optional_str` (lines 457–470). -/
def optionalStr (obj : Fields K) (key : String) : Option (Option String) :=
  match obj.lookup key with
  | none => some none
  | some .null => some none
  | some (.str s) => some (some s)
  | some _ => none

/-- `required_number` (lines 472–486): the parser makes no number of a literal out of range. -/
def requiredNumber (ofInt : ℤ → Option K) (obj : Fields K) (key : String) : Option K :=
  match obj.lookup key with
  | some (.int n) => ofInt n
  | some (.float (.fin x)) => some x
  | _ => none

/-- `check_token` (lines 407–414). -/
def checkToken (value : String) : Option String :=
  if value = "" ∨ value.toList.any Guard.isWhitespace = true then none else some value

/-- `ReferenceFrame::new` (lines 153–168). -/
def newReferenceFrame (name : String) (frameClass : FrameClass) (center : Option String) :
    Option ReferenceFrame := do
  let name ← checkToken name
  let center ← checkCenter checkToken center
  some ⟨name, frameClass, center⟩

/-- `require_frame` (lines 313–331). -/
def requireFrame (value : Json (Flt K)) : Option ReferenceFrame := do
  let obj ← requireObject value
  denyUnknown obj ["name", "frame_class", "center"]
  let name ← requiredStr obj "name"
  let frameClass ← requiredStr obj "frame_class"
  let frameClass ← frameClassFromWire frameClass
  let center ← optionalStr obj "center"
  newReferenceFrame name frameClass center

/-- `require_epoch` (lines 337–353). -/
def requireEpoch (ofInt : ℤ → Option K) (value : Json (Flt K)) : Option (Epoch K) := do
  let obj ← requireObject value
  denyUnknown obj ["tdb_seconds", "scale"]
  let tdbSeconds ← requiredNumber ofInt obj "tdb_seconds"
  let scale ← requiredStr obj "scale"
  let scale ← timeScaleFromWire scale
  some ⟨tdbSeconds, scale⟩

section Order

variable [LinearOrder K]

/-- `EpochWindow::new` (lines 198–206). -/
def newEpochWindow (start stop : Epoch K) : Option (EpochWindow K) :=
  if h : stop.tdbSeconds ≤ start.tdbSeconds then none else some ⟨start, stop, not_le.mp h⟩

/-- `require_epoch_window` (lines 356–366). -/
def requireEpochWindow (ofInt : ℤ → Option K) (value : Json (Flt K)) : Option (EpochWindow K) := do
  let obj ← requireObject value
  denyUnknown obj ["start", "end"]
  let start ← requireEpoch ofInt ((obj.lookup "start").getD .null)
  let stop ← requireEpoch ofInt ((obj.lookup "end").getD .null)
  newEpochWindow start stop

end Order

/-- `eq_ignore_ascii_case`. -/
def eqIgnoreAsciiCase (s t : String) : Bool := s.toList.map Char.toLower = t.toList.map Char.toLower

/-- `has_earth_marker` (lines 264–273). -/
def hasEarthMarker (projection datum : Option String) : Bool :=
  [projection, datum].reduceOption.any fun field =>
    earthCrsMarkers.any fun m => decide (m.toList <:+: field.toList.map Char.toLower)

section Crs

variable [Zero K] [LinearOrder K]

/-- `PlanetaryCRS::new` (lines 228–261); a number of `K` is finite. -/
def newPlanetaryCRS (body bodyFixedFrame : String) (referenceRadiusM : K)
    (projection datum : Option String) : Option (PlanetaryCRS K) := do
  let body ← checkToken body
  let bodyFixedFrame ← checkToken bodyFixedFrame
  if referenceRadiusM ≤ 0 then none
  else if !eqIgnoreAsciiCase body earth && hasEarthMarker projection datum then none
  else some ⟨body, bodyFixedFrame, referenceRadiusM, projection, datum⟩

/-- `require_crs` (lines 372–402). -/
def requireCrs (ofInt : ℤ → Option K) (value : Json (Flt K)) : Option (PlanetaryCRS K) := do
  let obj ← requireObject value
  denyUnknown obj ["body", "body_fixed_frame", "reference_radius_m", "projection", "datum"]
  let body ← requiredStr obj "body"
  let bodyFixedFrame ← requiredStr obj "body_fixed_frame"
  let referenceRadiusM ← requiredNumber ofInt obj "reference_radius_m"
  let projection ← optionalStr obj "projection"
  let datum ← optionalStr obj "datum"
  newPlanetaryCRS body bodyFixedFrame referenceRadiusM projection datum

end Crs

/-- `is_si_unit` (lines 292–294). -/
def isSiUnit (unit : String) : Bool := siUnits.contains unit || dimensionlessUnits.contains unit

/-- `require_si_unit` (lines 301–308), on a document as the conformance run calls it (lines
520–522). -/
def requireSiUnit : Json (Flt K) → Option String
  | .str unit => if isSiUnit unit then some unit else none
  | _ => none

end Rust

/-! ## The reference guards -/

/-- What pydantic's lax mode and `str` do: a boolean and a text read as a float, the case mappings
of a text. -/
structure Lax (K : Type) where
  ofBool : Bool → Option (Flt K)
  ofText : String → Option (Flt K)
  lower : String → String
  upper : String → String

namespace Python

/-- A field of type `float`. -/
def laxFloat (P : Lax K) (ofInt : ℤ → Option K) : Json (Flt K) → Option (Flt K)
  | .float x => some x
  | .int n => (ofInt n).map .fin
  | .bool b => P.ofBool b
  | .str s => P.ofText s
  | _ => none

/-- A required field of type `str`. -/
def requiredStr (obj : Fields K) (key : String) : Option String := (obj.lookup key).bind Json.asStr

/-- A field of type `str | None` that is `None` by default. -/
def optionalStr (obj : Fields K) (key : String) : Option (Option String) :=
  match obj.lookup key with
  | none => some none
  | some .null => some none
  | some v => v.asStr.map some

/-- A required field of type `float`. -/
def requiredFloat (P : Lax K) (ofInt : ℤ → Option K) (obj : Fields K) (key : String) :
    Option (Flt K) :=
  (obj.lookup key).bind (laxFloat P ofInt)

/-- `_validate_token` (`model.py`, lines 44–52). -/
def validateToken (value : String) : Option String :=
  if value = "" ∨ value.toList ≠ strip Guard.isSpace value.toList ∨
    value.toList.any Guard.isSpace = true then none
  else some value

/-- `ReferenceFrame` (lines 55–76). -/
def referenceFrame (obj : Fields K) : Option ReferenceFrame := do
  denyUnknown obj ["name", "frame_class", "center"]
  let name ← requiredStr obj "name"
  let name ← validateToken name
  let frameClass ← requiredStr obj "frame_class"
  let frameClass ← frameClassFromWire frameClass
  let center ← optionalStr obj "center"
  let center ← checkCenter validateToken center
  some ⟨name, frameClass, center⟩

/-- `Epoch` (lines 104–113). -/
def epoch (P : Lax K) (ofInt : ℤ → Option K) (obj : Fields K) : Option (Epoch (Flt K)) := do
  denyUnknown obj ["tdb_seconds", "scale"]
  let tdbSeconds ← requiredFloat P ofInt obj "tdb_seconds"
  let scale ← requiredStr obj "scale"
  let scale ← timeScaleFromWire scale
  some ⟨tdbSeconds, scale⟩

/-- `require_frame` (`validate.py`, lines 105–124). -/
def requireFrame : Json (Flt K) → Option ReferenceFrame
  | .obj fields => referenceFrame fields
  | _ => none

/-- `require_epoch` (lines 126–142). -/
def requireEpoch (P : Lax K) (ofInt : ℤ → Option K) : Json (Flt K) → Option (Epoch (Flt K))
  | .obj fields => epoch P ofInt fields
  | _ => none

section Order

variable [LinearOrder K]

/-- `EpochWindow` (`model.py`, lines 116–134); a field that is a model is read from an object. -/
def epochWindow (P : Lax K) (ofInt : ℤ → Option K) (obj : Fields K) :
    Option (Epoch (Flt K) × Epoch (Flt K)) := do
  denyUnknown obj ["start", "end"]
  let start ← (obj.lookup "start").bind (requireEpoch P ofInt)
  let stop ← (obj.lookup "end").bind (requireEpoch P ofInt)
  if stop.tdbSeconds ≤ start.tdbSeconds then none else some (start, stop)

/-- `require_epoch_window` (`validate.py`, lines 145–160). -/
def requireEpochWindow (P : Lax K) (ofInt : ℤ → Option K) :
    Json (Flt K) → Option (Epoch (Flt K) × Epoch (Flt K))
  | .obj fields => epochWindow P ofInt fields
  | _ => none

end Order

/-- `_has_earth_marker` (lines 163–168). -/
def hasEarthMarker (P : Lax K) (crs : PlanetaryCRS (Flt K)) : Bool :=
  [crs.projection, crs.datum].any fun field =>
    match field with
    | none => false
    | some text => earthCrsMarkers.any fun m => decide (m.toList <:+: (P.lower text).toList)

section Crs

variable [Zero K] [LinearOrder K]

/-- `PlanetaryCRS` (lines 79–101), with the bound `gt=0.0`. -/
def planetaryCRS (P : Lax K) (ofInt : ℤ → Option K) (obj : Fields K) :
    Option (PlanetaryCRS (Flt K)) := do
  denyUnknown obj ["body", "body_fixed_frame", "reference_radius_m", "projection", "datum"]
  let body ← requiredStr obj "body"
  let body ← validateToken body
  let bodyFixedFrame ← requiredStr obj "body_fixed_frame"
  let bodyFixedFrame ← validateToken bodyFixedFrame
  let referenceRadiusM ← requiredFloat P ofInt obj "reference_radius_m"
  let projection ← optionalStr obj "projection"
  let datum ← optionalStr obj "datum"
  if Flt.fin 0 < referenceRadiusM then
    some ⟨body, bodyFixedFrame, referenceRadiusM, projection, datum⟩
  else none

/-- `require_crs` (lines 171–210). -/
def requireCrs (P : Lax K) (ofInt : ℤ → Option K) :
    Json (Flt K) → Option (PlanetaryCRS (Flt K))
  | .obj fields => do
    let crs ← planetaryCRS P ofInt fields
    if !crs.referenceRadiusM.isFinite then none
    else if P.upper crs.body ≠ earth ∧ hasEarthMarker P crs = true then none
    else some crs
  | _ => none

end Crs

/-- `require_si_unit` (lines 67–90). A value that is no text is not in the set, or not hashable. -/
def requireSiUnit : Json (Flt K) → Option String
  | .str unit => if (siUnits ++ dimensionlessUnits).contains unit then some unit else none
  | _ => none

end Python

end AstroMine.Validator
