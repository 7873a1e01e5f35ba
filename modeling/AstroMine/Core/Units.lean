import Mathlib.Order.Defs.LinearOrder

/-!
# Frames and epochs (`core/units`)

The frame and time vocabulary of the messages. An epoch is an exact number of TDB seconds, and an
epoch window ends after it starts.
-/

namespace AstroMine.Core

/-- `FrameClass` (`core/units/enums.py`, lines 41–51). -/
inductive FrameClass
  | bodyFixed
  | inertial
  | topocentric
  deriving DecidableEq

/-- `ReferenceFrame` (`core/units/model.py`, lines 55–76). -/
structure ReferenceFrame where
  name : String
  frameClass : FrameClass
  center : Option String
  deriving DecidableEq

/-- `TimeScale` (`core/units/enums.py`, lines 28–38). -/
inductive TimeScale
  | tdb
  | et
  deriving DecidableEq

/-- `Epoch` (`core/units/model.py`, lines 104–113). -/
structure Epoch (K : Type) where
  tdbSeconds : K
  scale : TimeScale
  deriving DecidableEq

/-- `EpochWindow` (lines 116–134): the interval `[start, end)`. -/
structure EpochWindow (K : Type) [LT K] where
  start : Epoch K
  stop : Epoch K
  start_lt_stop : start.tdbSeconds < stop.tdbSeconds

end AstroMine.Core
