import Mathlib.Data.List.ReduceOption
import AstroMine.Lib.CaseMap
import AstroMine.Validator.UnitsGuards

/-!
# When the two units guards agree

Both guards accept the documents of one form, up to what they take for a number and for a token
(`Rules`). The lenient rules take the numbers of the one and the tokens of the other. The case
mappings of Python find the same body and the same Earth markers as those of ASCII.

Results:
* `rustVerdict_iff`, `pythonVerdict_iff`: what the two guards accept.
* `Narrows.accepts_iff`: how that depends on the numbers and the tokens.
* `verdict_eq_iff`: when the verdicts are the same.
* `verdicts_differ`: a time that is a text, and a name with a file separator.
-/

namespace AstroMine.Validator

open AstroMine.Core

variable {K : Type}

/-! ## The form of a document -/

/-- A field of a document. -/
def fieldOf (v : Json (Flt K)) (key : String) : Option (Json (Flt K)) :=
  match v with
  | .obj fields => fields.lookup key
  | _ => none

/-- A field that is a text. -/
def textOf (v : Json (Flt K)) (key : String) : Option String := (fieldOf v key).bind Json.asStr

/-- A field that is read as a number. -/
def numberOf (number : Json (Flt K) → Option (Flt K)) (v : Json (Flt K)) (key : String) :
    Option (Flt K) :=
  (fieldOf v key).bind number

/-- An object whose fields are among those named. -/
def Shape (v : Json (Flt K)) (allowed : List String) : Prop :=
  ∃ fields, v = .obj fields ∧ ∀ p ∈ fields, p.1 ∈ allowed

/-- A field that is a text with a property, if there is one. -/
def OptText (v : Json (Flt K)) (key : String) (P : String → Prop) : Prop :=
  fieldOf v key = none ∨ fieldOf v key = some .null ∨ ∃ s ∈ textOf v key, P s

/-- A text without the name of an Earth CRS. -/
def Unmarked (s : String) : Prop :=
  ∀ m ∈ earthCrsMarkers, ¬ m.toList <:+: s.toList.map Char.toLower

/-- What a guard takes for a number and for a token. -/
structure Rules (K : Type) where
  number : Json (Flt K) → Option (Flt K)
  token : String → Bool

namespace Rules

variable (R : Rules K)

/-- A reference frame (rules 1 and 2). -/
def Frame (v : Json (Flt K)) : Prop :=
  Shape v ["name", "frame_class", "center"] ∧ (∃ name ∈ textOf v "name", R.token name = true) ∧
    (∃ c ∈ textOf v "frame_class", (frameClassFromWire c).isSome = true) ∧
    OptText v "center" (R.token · = true)

/-- An epoch at a time (rule 2). -/
def EpochAt (v : Json (Flt K)) (x : Flt K) : Prop :=
  Shape v ["tdb_seconds", "scale"] ∧ numberOf R.number v "tdb_seconds" = some x ∧
    ∃ c ∈ textOf v "scale", (timeScaleFromWire c).isSome = true

/-- An epoch window (rule 5). -/
def Window [LinearOrder K] (v : Json (Flt K)) : Prop :=
  Shape v ["start", "end"] ∧ ∃ start ∈ fieldOf v "start", ∃ stop ∈ fieldOf v "end",
    ∃ x y, R.EpochAt start x ∧ R.EpochAt stop y ∧ ¬ y ≤ x

/-- A planetary CRS (rules 4 and 6). -/
def Crs [Zero K] [LinearOrder K] (v : Json (Flt K)) : Prop :=
  Shape v ["body", "body_fixed_frame", "reference_radius_m", "projection", "datum"] ∧
    (∃ body ∈ textOf v "body", R.token body = true ∧
      (Rust.eqIgnoreAsciiCase body earth = true ∨
        (∀ s ∈ textOf v "projection", Unmarked s) ∧ ∀ s ∈ textOf v "datum", Unmarked s)) ∧
    (∃ name ∈ textOf v "body_fixed_frame", R.token name = true) ∧
    (∃ x, numberOf R.number v "reference_radius_m" = some (.fin x) ∧ 0 < x) ∧
    OptText v "projection" (fun _ => True) ∧ OptText v "datum" fun _ => True

end Rules

/-- The families of guards. -/
inductive Kind
  | referenceFrame
  | epoch
  | epochWindow
  | planetaryCrs
  | siUnit
  deriving DecidableEq

/-- The documents of the form a guard checks. -/
def Rules.Accepts [Zero K] [LinearOrder K] (R : Rules K) : Kind → Json (Flt K) → Prop
  | .referenceFrame, v => R.Frame v
  | .epoch, v => ∃ x, R.EpochAt v x
  | .epochWindow, v => R.Window v
  | .planetaryCrs, v => R.Crs v
  | .siUnit, v => ∃ s, v = .str s ∧ s ∈ siUnits ++ dimensionlessUnits

/-! ## Fields -/

section Fields

variable {obj : Fields K} {key : String}

theorem shape_obj (allowed : List String) :
    Shape (.obj obj) allowed ↔ denyUnknown obj allowed = some () := by
  rw [denyUnknown_eq_some, Shape]
  simp

theorem Rust.requiredStr_eq : Rust.requiredStr obj key = textOf (.obj obj) key := by
  rw [Rust.requiredStr, textOf, fieldOf]
  cases obj.lookup key with
  | none => rfl
  | some v => cases v <;> rfl

theorem Python.requiredStr_eq : Python.requiredStr obj key = textOf (.obj obj) key := rfl

theorem Rust.optionalStr_eq_some (o : Option String) :
    Rust.optionalStr obj key = some o ↔
      OptText (.obj obj) key (fun _ => True) ∧ o = textOf (.obj obj) key := by
  rw [Rust.optionalStr, OptText, textOf, fieldOf]
  cases obj.lookup key with
  | none => simp [eq_comm]
  | some v => cases v <;> simp [Json.asStr, eq_comm]

theorem Python.optionalStr_eq : Python.optionalStr obj key = Rust.optionalStr obj key := by
  rw [Rust.optionalStr, Python.optionalStr]
  cases obj.lookup key with
  | none => rfl
  | some v => cases v <;> rfl

/-- A name that may be absent is there as a text that passes, or not there. -/
theorem optText_iff {v : Json (Flt K)} {P : String → Prop} :
    OptText v key P ↔ OptText v key (fun _ => True) ∧ ∀ s ∈ textOf v key, P s := by
  rw [OptText, OptText, textOf]
  cases fieldOf v key with
  | none => simp
  | some j => cases j <;> simp [Json.asStr]

theorem checkCenter_eq_some {check : String → Option String} {token : String → Bool}
    (h : ∀ s t, check s = some t ↔ token s = true ∧ s = t) (o o' : Option String) :
    checkCenter check o = some o' ↔ (∀ s ∈ o, token s = true) ∧ o = o' := by
  cases o with
  | none => simp [checkCenter]
  | some s =>
    rw [checkCenter, Option.map_eq_some_iff]
    simp only [h, Option.mem_some_iff, forall_eq']
    constructor
    · rintro ⟨t, ⟨hs, rfl⟩, rfl⟩
      exact ⟨hs, rfl⟩
    · rintro ⟨hs, rfl⟩
      exact ⟨s, ⟨hs, rfl⟩, rfl⟩

end Fields

/-! ## The rules of the two guards -/

/-- The numbers of the Rust guard: literals in range. -/
def rustNumber (ofInt : ℤ → Option K) : Json (Flt K) → Option (Flt K)
  | .int n => (ofInt n).map .fin
  | .float (.fin x) => some (.fin x)
  | _ => none

/-- A text that is not empty and without white space of Python's. -/
def isPythonToken (s : String) : Bool := s ≠ "" && !s.toList.any Guard.isSpace

/-- The rules of the Rust guard. -/
def rustRules (ofInt : ℤ → Option K) : Rules K := ⟨rustNumber ofInt, Guard.isToken⟩

/-- The rules of the reference guard. -/
def pythonRules (P : Lax K) (ofInt : ℤ → Option K) : Rules K :=
  ⟨Python.laxFloat P ofInt, isPythonToken⟩

theorem Rust.checkToken_eq_some (s t : String) :
    Rust.checkToken s = some t ↔ Guard.isToken s = true ∧ s = t := by
  rw [Rust.checkToken, Guard.isToken]
  by_cases hs : s = "" ∨ s.toList.any Guard.isWhitespace = true
  · rw [if_pos hs]
    rcases hs with rfl | hs
    · simp
    · simp [hs]
  · rw [if_neg hs]
    push Not at hs
    simp [hs.1, hs.2]

/-- Taking the white space off the ends is no further check. -/
theorem Python.validateToken_eq_some (s t : String) :
    Python.validateToken s = some t ↔ isPythonToken s = true ∧ s = t := by
  rw [Python.validateToken, isPythonToken]
  by_cases hs : s = "" ∨ s.toList.any Guard.isSpace = true
  · rw [if_pos (hs.imp_right Or.inr)]
    rcases hs with rfl | hs
    · simp
    · simp [hs]
  · push Not at hs
    have hspace : ∀ x ∈ s.toList, Guard.isSpace x = false := by simpa using hs.2
    have hstrip : strip Guard.isSpace s.toList = s.toList := by
      refine strip_eq_self ⟨fun x hx => ?_, fun x hx => ?_⟩
      · exact hspace x (List.mem_of_head? hx)
      · exact hspace x (List.mem_of_getLast? hx)
    rw [if_neg (by simp [hs.1, hs.2, hstrip])]
    simp [hs.1, hs.2]

theorem Rust.requiredNumber_eq_some {ofInt : ℤ → Option K} {obj : Fields K} {key : String} (x : K) :
    Rust.requiredNumber ofInt obj key = some x ↔
      numberOf (rustNumber ofInt) (.obj obj) key = some (.fin x) := by
  rw [Rust.requiredNumber, numberOf, fieldOf]
  cases obj.lookup key with
  | none => simp
  | some v =>
    cases v with
    | float y => cases y <;> simp [rustNumber]
    | _ => simp [rustNumber]

theorem Python.requiredFloat_eq {P : Lax K} {ofInt : ℤ → Option K} {obj : Fields K} {key : String} :
    Python.requiredFloat P ofInt obj key = numberOf (Python.laxFloat P ofInt) (.obj obj) key := rfl

theorem exists_fin_of_rustNumber {ofInt : ℤ → Option K} {j : Json (Flt K)} {y : Flt K}
    (h : rustNumber ofInt j = some y) : ∃ x, y = .fin x := by
  cases j with
  | int n =>
    obtain ⟨x, -, rfl⟩ := Option.map_eq_some_iff.mp h
    exact ⟨x, rfl⟩
  | float z =>
    cases z with
    | fin x => exact ⟨x, (Option.some.inj h).symm⟩
    | _ => cases h
  | _ => cases h

/-! ## What the guards accept -/

section Verdicts

variable (P : Lax K) (ofInt : ℤ → Option K)

theorem Rust.requireFrame_isSome (v : Json (Flt K)) :
    (Rust.requireFrame v).isSome = true ↔ (rustRules ofInt).Frame v := by
  cases v with
  | obj fields =>
    rw [Rules.Frame, shape_obj, optText_iff, Option.isSome_iff_exists]
    simp only [Rust.requireFrame, Rust.requireObject, Rust.newReferenceFrame, Option.bind_eq_bind,
      Option.bind_some, Option.bind_eq_some_iff, Rust.requiredStr_eq, Rust.optionalStr_eq_some,
      Rust.checkToken_eq_some, checkCenter_eq_some Rust.checkToken_eq_some]
    constructor
    · rintro ⟨_, _, hshape, name, hname, c, hc, cls, hcls, center, ⟨hopt, rfl⟩, _, ⟨htoken, rfl⟩, _,
        ⟨hcenter, rfl⟩, _⟩
      exact ⟨hshape, ⟨name, hname, htoken⟩, ⟨c, hc, Option.isSome_of_eq_some hcls⟩, hopt, hcenter⟩
    · rintro ⟨hshape, ⟨name, hname, htoken⟩, ⟨c, hc, hcls⟩, hopt, hcenter⟩
      obtain ⟨cls, hcls⟩ := Option.isSome_iff_exists.mp hcls
      exact ⟨_, (), hshape, name, hname, c, hc, cls, hcls, _, ⟨hopt, rfl⟩, name, ⟨htoken, rfl⟩, _,
        ⟨hcenter, rfl⟩, rfl⟩
  | _ => simp [Rules.Frame, Shape, Rust.requireFrame, Rust.requireObject]

theorem Python.requireFrame_isSome (v : Json (Flt K)) :
    (Python.requireFrame v).isSome = true ↔ (pythonRules P ofInt).Frame v := by
  cases v with
  | obj fields =>
    rw [Rules.Frame, shape_obj, optText_iff, Option.isSome_iff_exists]
    simp only [Python.requireFrame, Python.referenceFrame, Option.bind_eq_bind,
      Option.bind_eq_some_iff, Python.requiredStr_eq, Python.optionalStr_eq,
      Rust.optionalStr_eq_some, Python.validateToken_eq_some,
      checkCenter_eq_some Python.validateToken_eq_some]
    constructor
    · rintro ⟨_, _, hshape, name, hname, _, ⟨htoken, rfl⟩, c, hc, cls, hcls, center, ⟨hopt, rfl⟩, _,
        ⟨hcenter, rfl⟩, _⟩
      exact ⟨hshape, ⟨name, hname, htoken⟩, ⟨c, hc, Option.isSome_of_eq_some hcls⟩, hopt, hcenter⟩
    · rintro ⟨hshape, ⟨name, hname, htoken⟩, ⟨c, hc, hcls⟩, hopt, hcenter⟩
      obtain ⟨cls, hcls⟩ := Option.isSome_iff_exists.mp hcls
      exact ⟨_, (), hshape, name, hname, name, ⟨htoken, rfl⟩, c, hc, cls, hcls, _, ⟨hopt, rfl⟩, _,
        ⟨hcenter, rfl⟩, rfl⟩
  | _ => simp [Rules.Frame, Shape, Python.requireFrame]

/-- The epochs of the Rust guard, with their times. -/
theorem Rust.requireEpoch_iff (v : Json (Flt K)) (x : K) :
    (∃ e, Rust.requireEpoch ofInt v = some e ∧ e.tdbSeconds = x) ↔
      (rustRules ofInt).EpochAt v (.fin x) := by
  cases v with
  | obj fields =>
    rw [Rules.EpochAt, shape_obj]
    simp only [Rust.requireEpoch, Rust.requireObject, Option.bind_eq_bind, Option.bind_some,
      Option.bind_eq_some_iff, Rust.requiredStr_eq, Rust.requiredNumber_eq_some,
      Option.some.injEq]
    constructor
    · rintro ⟨_, ⟨_, hshape, t, ht, c, hc, scale, hscale, rfl⟩, rfl⟩
      exact ⟨hshape, ht, c, hc, Option.isSome_of_eq_some hscale⟩
    · rintro ⟨hshape, hx, c, hc, hscale⟩
      obtain ⟨scale, hscale⟩ := Option.isSome_iff_exists.mp hscale
      exact ⟨_, ⟨(), hshape, x, hx, c, hc, scale, hscale, rfl⟩, rfl⟩
  | _ => simp [Rules.EpochAt, Shape, Rust.requireEpoch, Rust.requireObject]

theorem Python.requireEpoch_iff (v : Json (Flt K)) (x : Flt K) :
    (∃ e, Python.requireEpoch P ofInt v = some e ∧ e.tdbSeconds = x) ↔
      (pythonRules P ofInt).EpochAt v x := by
  cases v with
  | obj fields =>
    rw [Rules.EpochAt, shape_obj]
    simp only [Python.requireEpoch, Python.epoch, Option.bind_eq_bind, Option.bind_eq_some_iff,
      Python.requiredStr_eq, Python.requiredFloat_eq, Option.some.injEq]
    constructor
    · rintro ⟨_, ⟨_, hshape, t, ht, c, hc, scale, hscale, rfl⟩, rfl⟩
      exact ⟨hshape, ht, c, hc, Option.isSome_of_eq_some hscale⟩
    · rintro ⟨hshape, hx, c, hc, hscale⟩
      obtain ⟨scale, hscale⟩ := Option.isSome_iff_exists.mp hscale
      exact ⟨_, ⟨(), hshape, x, hx, c, hc, scale, hscale, rfl⟩, rfl⟩
  | _ => simp [Rules.EpochAt, Shape, Python.requireEpoch]

/-- A missing epoch is none. -/
theorem Rust.requireEpoch_getD {o : Option (Json (Flt K))} {e : Epoch K} :
    Rust.requireEpoch ofInt (o.getD .null) = some e ↔
      ∃ v, o = some v ∧ Rust.requireEpoch ofInt v = some e := by
  cases o with
  | none => simp [Rust.requireEpoch, Rust.requireObject]
  | some v => simp

theorem exists_fin_of_epochAt {v : Json (Flt K)} {y : Flt K}
    (h : (rustRules ofInt).EpochAt v y) : ∃ x, y = .fin x := by
  obtain ⟨j, -, hj⟩ := Option.bind_eq_some_iff.mp h.2.1
  exact exists_fin_of_rustNumber hj

section Order

variable [LinearOrder K]

theorem Rust.requireEpochWindow_isSome (v : Json (Flt K)) :
    (Rust.requireEpochWindow ofInt v).isSome = true ↔ (rustRules ofInt).Window v := by
  cases v with
  | obj fields =>
    rw [Rules.Window, shape_obj, Option.isSome_iff_exists]
    simp only [Rust.requireEpochWindow, Rust.requireObject, Option.bind_eq_bind, Option.bind_some,
      Option.bind_eq_some_iff, Rust.requireEpoch_getD]
    constructor
    · rintro ⟨w, _, hshape, e, ⟨start, hstart, he⟩, e', ⟨stop, hstop, he'⟩, hw⟩
      refine ⟨hshape, start, hstart, stop, hstop, _, _, (Rust.requireEpoch_iff ofInt start _).1
        ⟨e, he, rfl⟩, (Rust.requireEpoch_iff ofInt stop _).1 ⟨e', he', rfl⟩, ?_⟩
      intro hle
      rw [Flt.fin_le_fin] at hle
      rw [Rust.newEpochWindow, dif_pos hle] at hw
      cases hw
    · rintro ⟨hshape, start, hstart, stop, hstop, x, y, hx, hy, hle⟩
      obtain ⟨x, rfl⟩ := exists_fin_of_epochAt ofInt hx
      obtain ⟨y, rfl⟩ := exists_fin_of_epochAt ofInt hy
      obtain ⟨e, he, rfl⟩ := (Rust.requireEpoch_iff ofInt start x).2 hx
      obtain ⟨e', he', rfl⟩ := (Rust.requireEpoch_iff ofInt stop y).2 hy
      exact ⟨_, (), hshape, e, ⟨start, hstart, he⟩, e', ⟨stop, hstop, he'⟩, dif_neg hle⟩
  | _ => simp [Rules.Window, Shape, Rust.requireEpochWindow, Rust.requireObject]

theorem Python.requireEpochWindow_isSome (v : Json (Flt K)) :
    (Python.requireEpochWindow P ofInt v).isSome = true ↔ (pythonRules P ofInt).Window v := by
  cases v with
  | obj fields =>
    rw [Rules.Window, shape_obj, Option.isSome_iff_exists]
    simp only [Python.requireEpochWindow, Python.epochWindow, Option.bind_eq_bind,
      Option.bind_eq_some_iff]
    constructor
    · rintro ⟨w, _, hshape, e, ⟨start, hstart, he⟩, e', ⟨stop, hstop, he'⟩, hw⟩
      refine ⟨hshape, start, hstart, stop, hstop, _, _, (Python.requireEpoch_iff P ofInt start _).1
        ⟨e, he, rfl⟩, (Python.requireEpoch_iff P ofInt stop _).1 ⟨e', he', rfl⟩, ?_⟩
      intro hle
      rw [if_pos hle] at hw
      cases hw
    · rintro ⟨hshape, start, hstart, stop, hstop, x, y, hx, hy, hle⟩
      obtain ⟨e, he, rfl⟩ := (Python.requireEpoch_iff P ofInt start x).2 hx
      obtain ⟨e', he', rfl⟩ := (Python.requireEpoch_iff P ofInt stop y).2 hy
      exact ⟨_, (), hshape, e, ⟨start, hstart, he⟩, e', ⟨stop, hstop, he'⟩, if_neg hle⟩
  | _ => simp [Rules.Window, Shape, Python.requireEpochWindow]

end Order

end Verdicts

/-! ## Earth markers -/

theorem Rust.hasEarthMarker_eq_false (projection datum : Option String) :
    Rust.hasEarthMarker projection datum = false ↔
      (∀ s ∈ projection, Unmarked s) ∧ ∀ s ∈ datum, Unmarked s := by
  have hone (s : String) : (earthCrsMarkers.any fun m =>
      decide (m.toList <:+: s.toList.map Char.toLower)) = false ↔ Unmarked s := by
    simp [Unmarked]
  cases projection <;> cases datum <;>
    simp [Rust.hasEarthMarker, List.reduceOption, hone]

/-- A letter of a marker. -/
def MarkerLetter (c : Char) : Prop := ∃ m ∈ earthCrsMarkers, c ∈ m.toList

/-- What the case mappings do to the letters that matter: `str.lower` takes each letter to its ASCII
lower case or to letters of no marker, `str.upper` takes each letter to its ASCII upper case or to
something that is not made of the letters of `EARTH`. -/
structure Lax.CaseLaws (P : Lax K) : Prop where
  lower : ∀ s : String,
    CaseMap.MapsBy (CaseMap.Foreign Char.toLower MarkerLetter) s.toList (P.lower s).toList
  upper : ∀ s : String,
    CaseMap.MapsBy (CaseMap.Strange Char.toUpper (· ∈ earth.toList)) s.toList (P.upper s).toList

variable {P : Lax K}

theorem Lax.CaseLaws.unmarked_iff (hcase : P.CaseLaws) (s : String) :
    (earthCrsMarkers.any fun m => decide (m.toList <:+: (P.lower s).toList)) = false ↔
      Unmarked s := by
  have hmarker : ∀ m ∈ earthCrsMarkers, m.toList <:+: (P.lower s).toList ↔
      m.toList <:+: s.toList.map Char.toLower := by
    intro m hm
    refine CaseMap.infix_iff_of_mapsBy (hcase.lower s) ?_ fun c hc => ⟨m, hm, hc⟩
    revert m
    decide
  rw [List.any_eq_false]
  refine forall₂_congr fun m hm => ?_
  rw [decide_eq_true_eq, hmarker m hm]

theorem Lax.CaseLaws.isEarth_iff (hcase : P.CaseLaws) (s : String) :
    P.upper s = earth ↔ Rust.eqIgnoreAsciiCase s earth = true := by
  have hearth : ∀ u ∈ earth.toList, 65 ≤ u.toNat ∧ u.toNat ≤ 90 := by simp [earth]
  rw [Rust.eqIgnoreAsciiCase, decide_eq_true_eq, CaseMap.map_toLower_eq_iff hearth,
    ← CaseMap.eq_iff_of_mapsBy (hcase.upper s) fun c hc => hc, String.toList_inj]

theorem Lax.CaseLaws.hasEarthMarker_eq_false (hcase : P.CaseLaws) (crs : PlanetaryCRS (Flt K)) :
    Python.hasEarthMarker P crs = false ↔
      (∀ s ∈ crs.projection, Unmarked s) ∧ ∀ s ∈ crs.datum, Unmarked s := by
  rw [Python.hasEarthMarker]
  cases crs.projection <;> cases crs.datum <;> simp [hcase.unmarked_iff]

/-- Rule 6 of the reference guard. -/
theorem Lax.CaseLaws.earthCheck_iff (hcase : P.CaseLaws) (crs : PlanetaryCRS (Flt K)) :
    ¬ (P.upper crs.body ≠ earth ∧ Python.hasEarthMarker P crs = true) ↔
      Rust.eqIgnoreAsciiCase crs.body earth = true ∨
        (∀ s ∈ crs.projection, Unmarked s) ∧ ∀ s ∈ crs.datum, Unmarked s := by
  rw [← hcase.hasEarthMarker_eq_false, ← hcase.isEarth_iff, not_and, or_iff_not_imp_left,
    Bool.not_eq_true]

section Crs

variable [Zero K] [LinearOrder K] (ofInt : ℤ → Option K)

theorem Rust.requireCrs_isSome (v : Json (Flt K)) :
    (Rust.requireCrs ofInt v).isSome = true ↔ (rustRules ofInt).Crs v := by
  cases v with
  | obj fields =>
    rw [Rules.Crs, shape_obj, Option.isSome_iff_exists]
    simp only [Rust.requireCrs, Rust.requireObject, Rust.newPlanetaryCRS, Option.bind_eq_bind,
      Option.bind_some, Option.bind_eq_some_iff, Rust.requiredStr_eq, Rust.optionalStr_eq_some,
      Rust.checkToken_eq_some, Rust.requiredNumber_eq_some]
    constructor
    · rintro ⟨_, _, hshape, body, hbody, name, hname, x, hx, _, ⟨hproj, rfl⟩, _, ⟨hdatum, rfl⟩, _,
        ⟨htoken, rfl⟩, _, ⟨htoken', rfl⟩, hcrs⟩
      split_ifs at hcrs with hle hearth
      refine ⟨hshape, ⟨body, hbody, htoken, ?_⟩, ⟨name, hname, htoken'⟩, ⟨x, hx, not_le.mp hle⟩,
        hproj, hdatum⟩
      rw [← Rust.hasEarthMarker_eq_false]
      simpa [or_iff_not_imp_left] using hearth
    · rintro ⟨hshape, ⟨body, hbody, htoken, hearth⟩, ⟨name, hname, htoken'⟩, ⟨x, hx, hpos⟩, hproj,
        hdatum⟩
      refine ⟨⟨body, name, x, textOf (.obj fields) "projection", textOf (.obj fields) "datum"⟩, (),
        hshape, body, hbody, name, hname, x, hx, _, ⟨hproj, rfl⟩, _, ⟨hdatum, rfl⟩, body,
        ⟨htoken, rfl⟩, name, ⟨htoken', rfl⟩, ?_⟩
      rw [if_neg (not_le.mpr hpos), if_neg]
      rw [← Rust.hasEarthMarker_eq_false] at hearth
      simpa [or_iff_not_imp_left] using hearth
  | _ => simp [Rules.Crs, Shape, Rust.requireCrs, Rust.requireObject]

theorem Python.requireCrs_isSome (hcase : P.CaseLaws) (v : Json (Flt K)) :
    (Python.requireCrs P ofInt v).isSome = true ↔ (pythonRules P ofInt).Crs v := by
  cases v with
  | obj fields =>
    rw [Rules.Crs, shape_obj, Option.isSome_iff_exists]
    simp only [Python.requireCrs, Python.planetaryCRS, Option.bind_eq_bind,
      Option.bind_eq_some_iff, Python.requiredStr_eq, Python.optionalStr_eq,
      Rust.optionalStr_eq_some, Python.validateToken_eq_some, Python.requiredFloat_eq]
    constructor
    · rintro ⟨_, crs, ⟨_, hshape, body, hbody, _, ⟨htoken, rfl⟩, name, hname, _, ⟨htoken', rfl⟩, x,
        hx, _, ⟨hproj, rfl⟩, _, ⟨hdatum, rfl⟩, hcrs⟩, hguard⟩
      split_ifs at hcrs with hpos
      obtain rfl := Option.some.inj hcrs
      split_ifs at hguard with hfin hearth
      obtain ⟨x, rfl⟩ := Flt.isFinite_iff.1 (by simpa using hfin)
      exact ⟨hshape, ⟨body, hbody, htoken, (hcase.earthCheck_iff _).1 hearth⟩,
        ⟨name, hname, htoken'⟩, ⟨x, hx, hpos⟩, hproj, hdatum⟩
    · rintro ⟨hshape, ⟨body, hbody, htoken, hearth⟩, ⟨name, hname, htoken'⟩, ⟨x, hx, hpos⟩, hproj,
        hdatum⟩
      refine ⟨⟨body, name, .fin x, textOf (.obj fields) "projection",
        textOf (.obj fields) "datum"⟩, _, ⟨(), hshape, body, hbody, body, ⟨htoken, rfl⟩, name, hname,
        name, ⟨htoken', rfl⟩, .fin x, hx, _, ⟨hproj, rfl⟩, _, ⟨hdatum, rfl⟩, if_pos hpos⟩, ?_⟩
      rw [if_neg (by simp), if_neg ((hcase.earthCheck_iff _).2 hearth)]
  | _ => simp [Rules.Crs, Shape, Python.requireCrs]

end Crs

/-! ## Two rules -/

/-- The fields a guard reads as numbers. -/
def numbers : Kind → Json (Flt K) → List (Json (Flt K))
  | .epoch, v => (fieldOf v "tdb_seconds").toList
  | .epochWindow, v => ((fieldOf v "start").bind (fieldOf · "tdb_seconds")).toList ++
      ((fieldOf v "end").bind (fieldOf · "tdb_seconds")).toList
  | .planetaryCrs, v => (fieldOf v "reference_radius_m").toList
  | _, _ => []

/-- The fields a guard reads as tokens. -/
def tokens : Kind → Json (Flt K) → List String
  | .referenceFrame, v => (textOf v "name").toList ++ (textOf v "center").toList
  | .planetaryCrs, v => (textOf v "body").toList ++ (textOf v "body_fixed_frame").toList
  | _, _ => []

/-- The rules `R'` take of what `R` takes for numbers and tokens those that pass. -/
structure Narrows (lit : Json (Flt K) → Prop) (free : String → Prop) (R R' : Rules K) : Prop where
  number : ∀ j x, R'.number j = some x ↔ R.number j = some x ∧ lit j
  token : ∀ s, R'.token s = true ↔ R.token s = true ∧ free s

namespace Narrows

variable {lit : Json (Flt K) → Prop} {free : String → Prop} {R R' : Rules K}

theorem numberOf_iff (h : Narrows lit free R R') (v : Json (Flt K)) (key : String) (x : Flt K) :
    numberOf R'.number v key = some x ↔
      numberOf R.number v key = some x ∧ ∀ j ∈ fieldOf v key, lit j := by
  rw [numberOf, numberOf]
  cases fieldOf v key with
  | none => simp
  | some j => simp [h.number]

theorem frame_iff (h : Narrows lit free R R') (v : Json (Flt K)) :
    R'.Frame v ↔ R.Frame v ∧ ∀ s ∈ tokens .referenceFrame v, free s := by
  rw [Rules.Frame, Rules.Frame, optText_iff, optText_iff (P := (R.token · = true))]
  simp only [h.token, tokens, List.mem_append, Option.mem_toList, or_imp, forall_and]
  cases textOf v "name" with
  | none => simp
  | some name => simp; tauto

theorem epochAt_iff (h : Narrows lit free R R') (v : Json (Flt K)) (x : Flt K) :
    R'.EpochAt v x ↔ R.EpochAt v x ∧ ∀ j ∈ numbers .epoch v, lit j := by
  rw [Rules.EpochAt, Rules.EpochAt, h.numberOf_iff]
  simp only [numbers, Option.mem_toList]
  tauto

theorem window_iff [LinearOrder K] (h : Narrows lit free R R') (v : Json (Flt K)) :
    R'.Window v ↔ R.Window v ∧ ∀ j ∈ numbers .epochWindow v, lit j := by
  rw [Rules.Window, Rules.Window]
  simp only [h.epochAt_iff, numbers, List.mem_append, Option.mem_toList, or_imp, forall_and]
  cases fieldOf v "start" with
  | none => simp
  | some start =>
    cases fieldOf v "end" with
    | none => simp
    | some stop =>
      simp only [Option.mem_some_iff, exists_eq_left', Option.bind_some]
      constructor
      · rintro ⟨hshape, x, y, ⟨hx, hlitx⟩, ⟨hy, hlity⟩, hle⟩
        exact ⟨⟨hshape, x, y, hx, hy, hle⟩, hlitx, hlity⟩
      · rintro ⟨⟨hshape, x, y, hx, hy, hle⟩, hlitx, hlity⟩
        exact ⟨hshape, x, y, ⟨hx, hlitx⟩, ⟨hy, hlity⟩, hle⟩

theorem crs_iff [Zero K] [LinearOrder K] (h : Narrows lit free R R') (v : Json (Flt K)) :
    R'.Crs v ↔ R.Crs v ∧ (∀ j ∈ numbers .planetaryCrs v, lit j) ∧
      ∀ s ∈ tokens .planetaryCrs v, free s := by
  rw [Rules.Crs, Rules.Crs]
  simp only [h.numberOf_iff, h.token, numbers, tokens, List.mem_append, Option.mem_toList, or_imp,
    forall_and]
  constructor
  · rintro ⟨hshape, ⟨body, hbody, ⟨htoken, hfree⟩, hearth⟩, ⟨name, hname, htoken', hfree'⟩,
      ⟨x, ⟨hx, hlit⟩, hpos⟩, hproj, hdatum⟩
    refine ⟨⟨hshape, ⟨body, hbody, htoken, hearth⟩, ⟨name, hname, htoken'⟩, ⟨x, hx, hpos⟩, hproj,
      hdatum⟩, hlit, fun s hs => ?_, fun s hs => ?_⟩
    · obtain rfl := Option.mem_unique hbody hs
      exact hfree
    · obtain rfl := Option.mem_unique hname hs
      exact hfree'
  · rintro ⟨⟨hshape, ⟨body, hbody, htoken, hearth⟩, ⟨name, hname, htoken'⟩, ⟨x, hx, hpos⟩, hproj,
      hdatum⟩, hlit, hfree, hfree'⟩
    exact ⟨hshape, ⟨body, hbody, ⟨htoken, hfree body hbody⟩, hearth⟩,
      ⟨name, hname, htoken', hfree' name hname⟩, ⟨x, ⟨hx, hlit⟩, hpos⟩, hproj, hdatum⟩

/-- The narrower rules accept the documents the wider ones do whose numbers and tokens all pass. -/
theorem accepts_iff [Zero K] [LinearOrder K] (h : Narrows lit free R R') (kind : Kind)
    (v : Json (Flt K)) : R'.Accepts kind v ↔ R.Accepts kind v ∧ (∀ j ∈ numbers kind v, lit j) ∧
      ∀ s ∈ tokens kind v, free s := by
  cases kind with
  | referenceFrame => simpa [Rules.Accepts, numbers] using h.frame_iff v
  | epoch =>
    simp only [Rules.Accepts, h.epochAt_iff, exists_and_right]
    simp [tokens]
  | epochWindow => simpa [Rules.Accepts, tokens] using h.window_iff v
  | planetaryCrs => exact h.crs_iff v
  | siUnit => simp [Rules.Accepts, numbers, tokens]

end Narrows

/-! ## The verdicts -/

/-- A number literal in range. -/
def IsLiteral (ofInt : ℤ → Option K) (j : Json (Flt K)) : Prop := (rustNumber ofInt j).isSome = true

/-- A text without the characters U+001C to U+001F, which Python takes for white space. -/
def SeparatorFree (s : String) : Prop := ∀ c ∈ s.toList, ¬ (0x1C ≤ c.toNat ∧ c.toNat ≤ 0x1F)

/-- The lenient rules: the numbers of pydantic's lax mode, the tokens of the Rust guard. -/
def lenientRules (P : Lax K) (ofInt : ℤ → Option K) : Rules K :=
  ⟨Python.laxFloat P ofInt, Guard.isToken⟩

theorem narrows_rustRules (P : Lax K) (ofInt : ℤ → Option K) :
    Narrows (IsLiteral ofInt) (fun _ => True) (lenientRules P ofInt) (rustRules ofInt) where
  number j x := by
    cases j with
    | float y => cases y <;> simp [rustRules, lenientRules, IsLiteral, rustNumber, Python.laxFloat]
    | int n =>
      simp only [rustRules, lenientRules, IsLiteral, rustNumber, Python.laxFloat]
      refine ⟨fun h => ⟨h, by rw [h]; rfl⟩, And.left⟩
    | _ => simp [rustRules, lenientRules, IsLiteral, rustNumber]
  token _ := (and_iff_left trivial).symm

theorem narrows_pythonRules (P : Lax K) (ofInt : ℤ → Option K) :
    Narrows (fun _ => True) SeparatorFree (lenientRules P ofInt) (pythonRules P ofInt) where
  number _ _ := (and_iff_left trivial).symm
  token s := by
    have hspace : (∀ c ∈ s.toList, Guard.isSpace c = false) ↔
        (∀ c ∈ s.toList, Guard.isWhitespace c = false) ∧ SeparatorFree s := by
      rw [SeparatorFree, ← forall₂_and]
      refine forall₂_congr fun c _ => ?_
      simp [Guard.isSpace]
    simp only [pythonRules, lenientRules, isPythonToken, Guard.isToken]
    simp [hspace, and_assoc]

section Main

variable [Zero K] [LinearOrder K] (P : Lax K) (ofInt : ℤ → Option K)

/-- The verdict of the Rust guard (`verdict`, lines 512–525). -/
def rustVerdict : Kind → Json (Flt K) → Bool
  | .referenceFrame, v => (Rust.requireFrame v).isSome
  | .epoch, v => (Rust.requireEpoch ofInt v).isSome
  | .epochWindow, v => (Rust.requireEpochWindow ofInt v).isSome
  | .planetaryCrs, v => (Rust.requireCrs ofInt v).isSome
  | .siUnit, v => (Rust.requireSiUnit v).isSome

/-- The verdict of the reference guard (`_GUARDS` of the conformance run). -/
def pythonVerdict : Kind → Json (Flt K) → Bool
  | .referenceFrame, v => (Python.requireFrame v).isSome
  | .epoch, v => (Python.requireEpoch P ofInt v).isSome
  | .epochWindow, v => (Python.requireEpochWindow P ofInt v).isSome
  | .planetaryCrs, v => (Python.requireCrs P ofInt v).isSome
  | .siUnit, v => (Python.requireSiUnit v).isSome

theorem rustVerdict_iff (kind : Kind) (v : Json (Flt K)) :
    rustVerdict ofInt kind v = true ↔ (rustRules ofInt).Accepts kind v := by
  cases kind with
  | referenceFrame => exact Rust.requireFrame_isSome ofInt v
  | epoch =>
    rw [rustVerdict, Option.isSome_iff_exists, Rules.Accepts]
    constructor
    · rintro ⟨e, he⟩
      exact ⟨_, (Rust.requireEpoch_iff ofInt v e.tdbSeconds).1 ⟨e, he, rfl⟩⟩
    · rintro ⟨x, hx⟩
      obtain ⟨x, rfl⟩ := exists_fin_of_epochAt ofInt hx
      obtain ⟨e, he, -⟩ := (Rust.requireEpoch_iff ofInt v x).2 hx
      exact ⟨e, he⟩
  | epochWindow => exact Rust.requireEpochWindow_isSome ofInt v
  | planetaryCrs => exact Rust.requireCrs_isSome ofInt v
  | siUnit => cases v <;> simp [rustVerdict, Rust.requireSiUnit, Rules.Accepts, Rust.isSiUnit]

theorem pythonVerdict_iff {P : Lax K} (hcase : P.CaseLaws) (kind : Kind) (v : Json (Flt K)) :
    pythonVerdict P ofInt kind v = true ↔ (pythonRules P ofInt).Accepts kind v := by
  cases kind with
  | referenceFrame => exact Python.requireFrame_isSome P ofInt v
  | epoch =>
    rw [pythonVerdict, Option.isSome_iff_exists, Rules.Accepts]
    constructor
    · rintro ⟨e, he⟩
      exact ⟨_, (Python.requireEpoch_iff P ofInt v e.tdbSeconds).1 ⟨e, he, rfl⟩⟩
    · rintro ⟨x, hx⟩
      obtain ⟨e, he, -⟩ := (Python.requireEpoch_iff P ofInt v x).2 hx
      exact ⟨e, he⟩
  | epochWindow => exact Python.requireEpochWindow_isSome P ofInt v
  | planetaryCrs => exact Python.requireCrs_isSome ofInt hcase v
  | siUnit => cases v <;> simp [pythonVerdict, Python.requireSiUnit, Rules.Accepts]

/-- **Main theorem.** The guards agree on a document exactly if it is not of the lenient form, or
all its numbers are literals in range and all its tokens free of separators, or neither is so. -/
theorem verdict_eq_iff {P : Lax K} (hcase : P.CaseLaws) (kind : Kind) (v : Json (Flt K)) :
    rustVerdict ofInt kind v = pythonVerdict P ofInt kind v ↔
      ((lenientRules P ofInt).Accepts kind v →
        ((∀ j ∈ numbers kind v, IsLiteral ofInt j) ↔ ∀ s ∈ tokens kind v, SeparatorFree s)) := by
  rw [Bool.eq_iff_iff, rustVerdict_iff, pythonVerdict_iff ofInt hcase,
    (narrows_rustRules P ofInt).accepts_iff, (narrows_pythonRules P ofInt).accepts_iff]
  simp only [implies_true, and_true, true_and]
  exact and_congr_right_iff

end Main

/-! ## Two documents the guards disagree on -/

/-- The case mappings of ASCII, and the numbers of the two documents. -/
def asciiLax : Lax ℚ where
  ofBool b := some (.fin (if b then 1 else 0))
  ofText s := if s = "0.0" then some (.fin 0) else none
  lower := (·.map Char.toLower)
  upper := (·.map Char.toUpper)

theorem asciiLax_caseLaws : asciiLax.CaseLaws where
  lower s := by
    rw [asciiLax, String.toList_map]
    exact CaseMap.mapsBy_map (fun _ => Or.inl rfl) _
  upper s := by
    rw [asciiLax, String.toList_map]
    exact CaseMap.mapsBy_map (fun _ => Or.inl rfl) _

/-- An epoch whose time is a text. -/
def quotedEpoch : Json (Flt ℚ) := .obj [("tdb_seconds", .str "0.0"), ("scale", .str "tdb")]

/-- A frame whose name has a file separator. -/
def separatedFrame : Json (Flt ℚ) :=
  .obj [("name", .str "MOON\u001cME"), ("frame_class", .str "body_fixed")]

/-- The theorem, for the epoch whose time is a text. -/
theorem verdict_eq_iff_quotedEpoch :
    rustVerdict (fun n => some (n : ℚ)) .epoch quotedEpoch =
        pythonVerdict asciiLax (fun n => some (n : ℚ)) .epoch quotedEpoch ↔
      ((lenientRules asciiLax fun n => some (n : ℚ)).Accepts .epoch quotedEpoch →
        ((∀ j ∈ numbers .epoch quotedEpoch, IsLiteral (fun n => some (n : ℚ)) j) ↔
          ∀ s ∈ tokens .epoch quotedEpoch, SeparatorFree s)) :=
  verdict_eq_iff _ asciiLax_caseLaws .epoch quotedEpoch

/-- **Counterexample.** The reference guard takes a time that is a text, the Rust guard takes a name
with a file separator. -/
theorem verdicts_differ :
    rustVerdict (fun n => some (n : ℚ)) .epoch quotedEpoch = false ∧
      pythonVerdict asciiLax (fun n => some (n : ℚ)) .epoch quotedEpoch = true ∧
      rustVerdict (fun n => some (n : ℚ)) .referenceFrame separatedFrame = true ∧
      pythonVerdict asciiLax (fun n => some (n : ℚ)) .referenceFrame separatedFrame = false := by
  decide +kernel

end AstroMine.Validator
