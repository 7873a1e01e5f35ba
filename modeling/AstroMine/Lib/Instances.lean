import Mathlib.Data.Nat.Cast.Defs
import Mathlib.Data.String.Basic

/-!
# Named instances

A definition that is computed over a generic number type, or over texts, carries the proofs its
instances ask for: that a numeral is at least two, that equal texts are equal, that texts are
ordered. Those that several models share are named here, and a module that opens `Numerals` or
`Texts` takes them from here.
-/

namespace AstroMine

namespace Numerals

scoped instance two : Nat.AtLeastTwo 2 := ⟨by decide⟩

scoped instance three : Nat.AtLeastTwo 3 := ⟨by decide⟩

scoped instance four : Nat.AtLeastTwo 4 := ⟨by decide⟩

scoped instance five : Nat.AtLeastTwo 5 := ⟨by decide⟩

scoped instance ten : Nat.AtLeastTwo 10 := ⟨by decide⟩

scoped instance twenty : Nat.AtLeastTwo 20 := ⟨by decide⟩

scoped instance sixtyFour : Nat.AtLeastTwo 64 := ⟨by decide⟩

end Numerals

namespace Texts

scoped instance lawfulPair : LawfulBEq (String × String) := inferInstance

scoped instance lawfulChars : LawfulBEq (List Char) := inferInstance

scoped instance antisymm : Std.Antisymm fun a b : String => a ≤ b := inferInstance

scoped instance isTrans : IsTrans String fun a b => a ≤ b := inferInstance

end Texts

end AstroMine
