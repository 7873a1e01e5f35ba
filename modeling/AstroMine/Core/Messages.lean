import AstroMine.Core.Units
import AstroMine.Lib.Flt

/-!
# Observations and actions (`core/messages`)

The part of the message vocabulary that crosses the safety shield: what it reads of an observation,
and the actions of a policy. The payloads of task directives are left out but for their kind.
-/

namespace AstroMine.Core

variable (K : Type)

/-- `Vec3` (`model.py`, lines 81–84). -/
structure Vec3 where
  x : Flt K
  y : Flt K
  z : Flt K
  deriving DecidableEq

/-- `Volume` (lines 109–116). -/
structure Volume where
  frame : String
  centerM : Vec3 K
  dimensionsM : Vec3 K
  frameRef : Option ReferenceFrame := none

/-! ## Observations -/

/-- `StateSample` (lines 122–134): the translation of its pose, its velocity and its scalars. -/
structure StateSample where
  translationM : Vec3 K
  linearVelocityMps : Option (Vec3 K) := none
  batterySocJ : Option (Flt K) := none
  temperatureK : Option (Flt K) := none

/-- `SensorReading` (lines 137–146): the sensor and its values. -/
structure SensorReading where
  sensor : String
  values : List (Flt K) := []

/-- `Observation` (lines 170–186): the own state and the sensor readings. -/
structure Observation where
  selfState : StateSample K
  sensors : List (SensorReading K) := []

/-! ## Actions -/

variable {K}

/-- `ControlMode` (`enums.py`, lines 35–42). -/
inductive ControlMode
  | position
  | velocity
  | effort
  | impedance
  | trajectory
  deriving DecidableEq, Repr

/-- `ActionKind`. -/
inductive ActionKind
  | actuator
  | mode
  | task
  deriving DecidableEq, Repr

/-- `TaskKind` (`enums.py`, lines 45–60). -/
inductive TaskKind
  | goto
  | sample
  | excavate
  | haul
  | dock
  | hop
  | charge
  | prospect
  | deploy
  | standby
  | custom
  deriving DecidableEq, Repr

/-- The values of `TaskKind`. -/
def TaskKind.value : TaskKind → String
  | .goto => "goto"
  | .sample => "sample"
  | .excavate => "excavate"
  | .haul => "haul"
  | .dock => "dock"
  | .hop => "hop"
  | .charge => "charge"
  | .prospect => "prospect"
  | .deploy => "deploy"
  | .standby => "standby"
  | .custom => "custom"

/-- `ActuatorCommand` (lines 192–203). -/
structure ActuatorCommand (K : Type) where
  target : String
  controlMode : ControlMode
  setpoint : List (Flt K) := []
  unit : Option String := none
  stiffness : Option (Flt K) := none
  damping : Option (Flt K) := none
  feedforward : List (Flt K) := []
  trajectoryRef : Option String := none
  deriving DecidableEq

/-- `ModeCommand` (lines 206–210). -/
structure ModeCommand where
  mode : String
  params : List (String × String) := []
  deriving DecidableEq

/-- `TaskDirective` (lines 274–293), without its payloads. -/
structure TaskDirective where
  taskKind : TaskKind
  deriving DecidableEq

/-- `Action` (lines 296–308). -/
structure Action (K : Type) where
  agentId : String
  kind : ActionKind
  simTimeS : Option (Flt K) := none
  actuator : Option (ActuatorCommand K) := none
  mode : Option ModeCommand := none
  task : Option TaskDirective := none
  deriving DecidableEq

end AstroMine.Core
