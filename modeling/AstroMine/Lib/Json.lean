import Mathlib.Data.Int.Notation
import Mathlib.Data.List.Basic

/-!
# JSON values

A JSON document as its parsers give it. A number without a fraction or an exponent is an integer of
any size; the type of the other numbers is a parameter. The fields of an object have distinct names.
-/

namespace AstroMine

/-- A JSON value. -/
inductive Json (F : Type)
  | null
  | bool (b : Bool)
  | int (n : ℤ)
  | float (x : F)
  | str (s : String)
  | arr (items : List (Json F))
  | obj (fields : List (String × Json F))

namespace Json

variable {F : Type}

/-- A value that is a text. -/
def asStr : Json F → Option String
  | .str s => some s
  | _ => none

/-- A list of texts. -/
def asStrs (items : List (Json F)) : Option (List String) := items.mapM asStr

/-- Texts are read back from their list. -/
theorem asStrs_map (texts : List String) : asStrs (texts.map (.str : String → Json F)) = some texts := by
  induction texts with
  | nil => rfl
  | cons text texts ih =>
    simp only [asStrs] at ih
    simp only [asStrs, List.map_cons, List.mapM_cons, asStr, ih]
    rfl

end Json

end AstroMine
