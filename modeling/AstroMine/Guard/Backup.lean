import AstroMine.Guard.Shield

/-!
# Verified backup controllers

The recover layer (`rust/src/backup.rs`): brake to a stop, station-keep and retreat, each in every
control mode. The guarded moves check their candidate against the keep-out geometry and degrade to
the safe floor of the mode when a guard fails.
-/

namespace AstroMine.Guard

open scoped Numerals

/-- `BackupKind` (`backup.rs:72-79`). -/
inductive BackupKind where
  | brakeToStop | hold | safeState
  deriving DecidableEq, Repr

section Numbers

variable {K : Type} [Field K] [LinearOrder K]

/-- `DIST_TOL`. -/
def distTol : Flt K := .fin (1 / 10 ^ 9)

/-- `SET_TOL`. -/
def setTol : Flt K := .fin (1 / 10 ^ 7)

/-- `Backup` (`backup.rs:83-109`). -/
structure Backup (K : Type) where
  spatialDim : ℕ
  ctrlDim : ℕ
  uMax : Flt K
  vMax : Flt K
  stepMax : Flt K
  kBrake : Flt K
  dt : Flt K
  kP : Flt K
  kD : Flt K
  safePose : Option (List (Flt K))
  barriers : List (Barrier K)

/-- `all_finite` (`backup.rs:111-113`). -/
def allFinite (xs : List (Flt K)) : Bool := xs.all Flt.isFinite

/-- `finite_at` (`backup.rs:118-120`). -/
def finiteAt (xs : List (Flt K)) (i : ℕ) : Flt K :=
  match xs[i]? with
  | some x => if x.isFinite then x else 0
  | none => 0

/-- `brake_axis` (`backup.rs:132-134`). -/
def brakeAxis (v kBrake uMax : Flt K) : Except Panic (Flt K) :=
  clampOrPanic (-kBrake * v) (-uMax) uMax

variable [HasSqrt K]

/-- `Backup::new` (`backup.rs:137-169`). -/
def Backup.new (spatialDim : ℕ) (shieldCfg : ShieldConfig K) (kBrake dt : Flt K)
    (safePose : Option (List (Flt K))) (terms : List (KeepOutTerm K)) (limits : ActionLimits K) :
    Backup K :=
  let dt := soundDt dt
  let vMax := tighten shieldCfg.vMax limits.maxVelocityMps
  { spatialDim := spatialDim, ctrlDim := max spatialDim 1
    uMax := tighten shieldCfg.uMax limits.maxAccelMps2, vMax := vMax, stepMax := vMax * dt
    kBrake := kBrake, dt := dt, kP := kBrake * kBrake / .fin 4, kD := kBrake
    safePose := safePose, barriers := terms.map (Barrier.fromTerm · spatialDim) }

namespace Backup

/-- `brake` (`backup.rs:202-207`). -/
def brake (b : Backup K) (v : List (Flt K)) : Except Panic (List (Flt K)) :=
  (List.range b.ctrlDim).mapM fun i => brakeAxis (finiteAt v i) b.kBrake b.uMax

/-- `stop_velocity` (`backup.rs:211-214`). -/
def stopVelocity (b : Backup K) : List (Flt K) := List.replicate b.ctrlDim 0

/-- `hold_position` (`backup.rs:218-223`). -/
def holdPosition (b : Backup K) (p : List (Flt K)) : List (Flt K) :=
  (List.range b.ctrlDim).map (finiteAt p)

/-- Whether every barrier keeps the pose `coord` in the safe set: the check of `guarded_velocity`
    and `guarded_position`. -/
def inSet (b : Backup K) (coord : ℕ → Flt K) : Bool :=
  b.barriers.all fun bar => decide (-setTol ≤ bar.staticH b.spatialDim coord)

/-- The input check shared by the guarded moves. -/
def badState (b : Backup K) (xs : List (Flt K)) : Bool :=
  decide (xs.length < b.spatialDim) || !allFinite (xs.take b.spatialDim)

/-- `guarded_velocity` (`backup.rs:228-254`). -/
def guardedVelocity (b : Backup K) (g p : List (Flt K)) : List (Flt K) :=
  let dim := b.spatialDim
  if dim = 0 ∨ b.badState p = true ∨ b.badState g = true then b.stopVelocity
  else
    let pull := (List.range dim).map fun i => b.kP * (coordAt g i - coordAt p i)
    let scale := ballScale (norm pull) b.vMax
    let action := pull.map (· * scale)
    if b.inSet (fun i => coordAt p i + coordAt action i * b.dt) && allFinite action then action
    else b.stopVelocity

/-- `guarded_position` (`backup.rs:258-283`). -/
def guardedPosition (b : Backup K) (g p : List (Flt K)) : List (Flt K) :=
  let dim := b.spatialDim
  if dim = 0 ∨ b.badState p = true ∨ b.badState g = true then b.holdPosition p
  else
    let pull := (List.range dim).map fun i => coordAt g i - coordAt p i
    let scale := ballScale (norm pull) b.stepMax
    let action := (List.range dim).map fun i => coordAt p i + coordAt pull i * scale
    if b.inSet (coordAt action) && allFinite action then action
    else b.holdPosition p

/-- Guard (b) of `guarded_move`: no barrier sees the predicted pose outside its safe set. -/
def noneOutside (b : Backup K) (coord : ℕ → Flt K) : Bool :=
  b.barriers.all fun bar => !decide (bar.staticH b.spatialDim coord < -setTol)

/-- Guard (a) of `guarded_move`: the target energy does not grow over the predicted step. -/
def progressOk (b : Backup K) (g p v action : List (Flt K)) : Bool :=
  let dt := b.dt
  let half : Flt K := .fin (1 / 2)
  let halfDt2 := half * dt * dt
  let energy (ps vs : ℕ → Flt K) : Flt K :=
    Flt.sum ((List.range b.spatialDim).map fun i =>
      half * b.kP * (ps i - coordAt g i) * (ps i - coordAt g i) + half * vs i * vs i)
  let vCur := energy (coordAt p) (coordAt v)
  let vNext := energy (fun i => coordAt p i + coordAt v i * dt + halfDt2 * coordAt action i)
    (fun i => coordAt v i + coordAt action i * dt)
  decide (vNext ≤ vCur * (1 + distTol) + distTol)

/-- `guarded_move` (`backup.rs:289-346`). -/
def guardedMove (b : Backup K) (g p v : List (Flt K)) : Except Panic (List (Flt K)) :=
  let dim := b.spatialDim
  if dim = 0 ∨ b.badState p = true ∨ b.badState v = true ∨ b.badState g = true then b.brake v
  else do
    let action ← (List.range dim).mapM fun i =>
      clampOrPanic (b.kP * (coordAt g i - coordAt p i) - b.kD * coordAt v i) (-b.uMax) b.uMax
    let halfDt2 := .fin (1 / 2) * b.dt * b.dt
    let safe := b.noneOutside fun i =>
      coordAt p i + coordAt v i * b.dt + halfDt2 * coordAt action i
    if b.progressOk g p v action && safe && allFinite action then return action
    else b.brake v

/-- `control` (`backup.rs:175-197`). -/
def control (b : Backup K) (kind : BackupKind) (mode : ControlMode) (p v : List (Flt K))
    (holdTarget : Option (List (Flt K))) : Except Panic (List (Flt K)) :=
  let target := match kind with
    | .brakeToStop => none
    | .hold => holdTarget
    | .safeState => b.safePose
  match mode, target with
  | .effort, none => b.brake v
  | .effort, some g => b.guardedMove g p v
  | .velocity, none => .ok b.stopVelocity
  | .velocity, some g => .ok (b.guardedVelocity g p)
  | .position, none => .ok (b.holdPosition p)
  | .position, some g => .ok (b.guardedPosition g p)

end Backup

end Numbers

end AstroMine.Guard
