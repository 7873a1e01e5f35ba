import AstroMine.Lib.Except
import Mathlib.Algebra.Field.Defs
import Mathlib.Data.Fintype.Basic
import Mathlib.Order.Defs.LinearOrder

/-!
# Gridded fields (`prospect/field/metadata.py`, `prospect/priors/recipe.py`)

The spatial domain of a field and a Gaussian prior over it. An array of the shape of the grid is a
function of the row and the column, so the shape checks of the constructors hold by typing.
-/

namespace AstroMine.Prospect

/-- `FieldGrid` (`metadata.py`, lines 30–56), with what its fields and `_check_extent` demand. -/
structure FieldGrid (K : Type) [LT K] where
  minX : K
  minY : K
  maxX : K
  maxY : K
  nRows : ℕ
  nCols : ℕ
  rows_pos : 0 < nRows
  cols_pos : 0 < nCols
  extent_x : minX < maxX
  extent_y : minY < maxY

/-- An array over the cells of a grid. -/
abbrev Plane {K : Type} [LT K] (grid : FieldGrid K) := Fin grid.nRows → Fin grid.nCols → K

/-- What the constructor of a prior raises. -/
inductive PriorError
  | negativeVariance
  deriving DecidableEq

section Prior

variable {K : Type} [Zero K] [LinearOrder K] {grid : FieldGrid K}

/-- `Prior` (`recipe.py`, lines 57–87) over a grid. -/
structure Prior (grid : FieldGrid K) where
  mean : Plane grid
  variance : Plane grid
  variance_nonneg : ∀ i j, 0 ≤ variance i j

/-- `Prior.__init__` (lines 64–90). -/
def Prior.new (mean variance : Plane grid) : Except PriorError (Prior grid) :=
  if h : ∀ i j, 0 ≤ variance i j then .ok ⟨mean, variance, h⟩ else .error .negativeVariance

theorem Prior.new_of_nonneg {mean variance : Plane grid} (h : ∀ i j, 0 ≤ variance i j) :
    Prior.new mean variance = .ok ⟨mean, variance, h⟩ :=
  dif_pos h

end Prior

end AstroMine.Prospect
