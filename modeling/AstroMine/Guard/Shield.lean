import AstroMine.Lib.Instances
import AstroMine.Guard.Model

/-!
# CBF-QP shield

The correct layer (`rust/src/shield.rs`): keep-out terms become barriers, each control mode turns
a barrier into one linear row and adds its kinematic set, Dykstra's projection proposes a command
and `certify` checks it. The scratch buffers of the source are rewritten by every call before they
are read, so a call here returns them instead of storing them. Vectors are lists; a coordinate
past the end, which the length checks of the callers exclude, reads as zero.

Results:
* `Shield.solveMode_certify`: a certified command has passed `certify`.
* `Shield.certify_parts`: what it compares there.
-/

namespace AstroMine.Guard

open scoped Numerals

/-- `ControlMode` (`shield.rs:63-71`). -/
inductive ControlMode where
  | effort | velocity | position
  deriving DecidableEq, Repr

section Numbers

variable {K : Type} [Field K] [LinearOrder K]

/-- `ShieldConfig` (`shield.rs:75-90`). -/
structure ShieldConfig (K : Type) where
  k0 : Flt K
  k1 : Flt K
  uMax : Flt K
  vMax : Flt K
  tol : Flt K
  maxIter : ℕ

/-- `ShieldConfig::default` (`shield.rs:93-110`). -/
def ShieldConfig.default : ShieldConfig K where
  k0 := .fin 9
  k1 := .fin 6
  uMax := .fin 20
  vMax := .fin 2
  tol := .fin (1 / 10 ^ 7)
  maxIter := 512

/-- `f64::EPSILON`. -/
def epsilon : Flt K := .fin (1 / 2 ^ 52)

/-- `f64::MIN_POSITIVE`. -/
def minPositive : Flt K := .fin (1 / 2 ^ 1022)

/-! ## Vectors -/

/-- Coordinate `i`. -/
def coordAt (xs : List (Flt K)) (i : ℕ) : Flt K := xs.getD i 0

/-- `dot` (`shield.rs:202-204`). -/
def dot (a b : List (Flt K)) : Flt K := Flt.sum (List.zipWith (· * ·) a b)

/-- `norm` (`shield.rs:198-200`). -/
def norm [HasSqrt K] (v : List (Flt K)) : Flt K := Flt.sqrt (Flt.sum (v.map fun x => x * x))

/-- `x.clamp(lo, hi)`, which panics unless `lo <= hi`. -/
def clampOrPanic (x lo hi : Flt K) : Except Panic (Flt K) :=
  if lo ≤ hi then .ok (Flt.clamp x lo hi) else .error .clamp

/-- `project_box_axis` (`shield.rs:209-211`). -/
def projectBoxAxis (x limit : Flt K) : Except Panic (Flt K) := clampOrPanic x (-limit) limit

/-- `ball_scale_is_sound` (`shield.rs:264-268`). -/
def ballScaleIsSound (len radius scale : Flt K) : Bool :=
  scale.isFinite && decide (0 ≤ scale ∧ scale ≤ 1) &&
    decide (len * scale ≤ radius * (1 + .fin 4 * epsilon))

/-- `ball_scale` (`shield.rs:234-247`). -/
def ballScale (len radius : Flt K) : Flt K :=
  let clampNeeded := len.isFinite && radius.isFinite && decide (radius < len) && decide (0 < len)
  if !clampNeeded then 1
  else
    let candidate := radius / len
    if ballScaleIsSound len radius candidate then candidate else 0

/-- `tighten` (`shield.rs:654-659`). -/
def tighten (configured : Flt K) (authored : Option (Flt K)) : Flt K :=
  match authored with
  | some limit => if limit.isFinite ∧ 0 < limit then Flt.min configured limit else configured
  | none => configured

/-- `narrow` (`shield.rs:680-690`). -/
def narrow (configured : List String) (authored : Option (List String)) : List String :=
  match authored with
  | none => []
  | some grant => configured.filter fun name => grant.any (· = name)

variable [HasSqrt K]

/-! ## Barriers -/

/-- `Barrier` (`shield.rs:119-124`). -/
inductive Barrier (K : Type) where
  | norm (center : List (Flt K)) (radius : Flt K)
  | half (normal : List (Flt K)) (rhs : Flt K)

/-- `unit.resize(dim, 0.0)`. -/
def resize (xs : List (Flt K)) (dim : ℕ) : List (Flt K) :=
  (xs ++ List.replicate (dim - xs.length) 0).take dim

/-- `Barrier::from_term` (`shield.rs:129-147`). -/
def Barrier.fromTerm (t : KeepOutTerm K) (dim : ℕ) : Barrier K :=
  match t.shape with
  | .sphere => .norm t.center (t.radius.getD 0 + t.marginM)
  | .box => .norm t.center (Guard.norm t.halfExtents + t.marginM)
  | .halfSpace =>
    let n := Flt.max (Guard.norm t.normal) minPositive
    let rhs := (t.marginM - t.offset.getD 0) / n
    .half (resize (t.normal.map (· / n)) dim) rhs

/-- The squared distance to `center`, by the loop of `static_h` and `eval_barrier`. -/
def distSq (center : List (Flt K)) (dim : ℕ) (coord : ℕ → Flt K) : Flt K :=
  Flt.sum ((List.range dim).map fun i =>
    (coord i - coordAt center i) * (coord i - coordAt center i))

/-- `Barrier::static_h` (`shield.rs:154-172`). -/
def Barrier.staticH (b : Barrier K) (dim : ℕ) (coord : ℕ → Flt K) : Flt K :=
  match b with
  | .norm center radius => Flt.sqrt (distSq center dim coord) - radius
  | .half normal rhs =>
    Flt.sum ((List.range dim).map fun i => coordAt normal i * coord i) - rhs

/-- The curvature term of the `Effort` row: `(‖v‖² − (n̂·v)²)/d`, zero for a half-space. -/
def curvature (b : Barrier K) (dim : ℕ) (p v : List (Flt K)) (hdot : Flt K) : Flt K :=
  match b with
  | .norm center _ =>
    (dot (v.take dim) (v.take dim) - hdot * hdot) / Flt.sqrt (distSq center dim (coordAt p))
  | .half _ _ => 0

/-- The right-hand side of a barrier row, by mode (`shield.rs:312-337`). -/
def barrierRhs (b : Barrier K) (mode : ControlMode) (dim : ℕ) (k0 k1 dt : Flt K)
    (p v a : List (Flt K)) (h : Flt K) : Flt K :=
  match mode with
  | .effort =>
    -(curvature b dim p v (dot (a.take dim) (v.take dim)) +
      k1 * dot (a.take dim) (v.take dim) + k0 * h)
  | .velocity => -h / dt
  | .position => dot (a.take dim) (p.take dim) - h

/-- A barrier row `a·x ≥ b`, with the barrier value and whether the barrier is regular. -/
structure BarrierRow (K : Type) where
  a : List (Flt K)
  b : Flt K
  h : Flt K
  ok : Bool

/-- `eval_barrier` (`shield.rs:275-339`). -/
def evalBarrier (b : Barrier K) (mode : ControlMode) (dim : ℕ) (k0 k1 dt : Flt K)
    (p v : List (Flt K)) : BarrierRow K :=
  match b with
  | .norm center radius =>
    let r := (List.range dim).map fun i => coordAt p i - coordAt center i
    let d := Flt.sqrt (distSq center dim (coordAt p))
    if d < .fin (1 / 10 ^ 9) then { a := r, b := 0, h := -radius, ok := false }
    else
      let a := r.map (· / d)
      let h := d - radius
      { a := a, b := barrierRhs b mode dim k0 k1 dt p v a h, h := h, ok := true }
  | .half normal rhs =>
    let a := normal.take dim
    let h := dot normal p - rhs
    { a := a, b := barrierRhs b mode dim k0 k1 dt p v a h, h := h, ok := true }

/-! ## The shield -/

/-- `Shield` (`shield.rs:177-196`), without its scratch buffers. -/
structure Shield (K : Type) where
  dim : ℕ
  barriers : List (Barrier K)
  cfg : ShieldConfig K
  dt : Flt K
  uMax : Flt K
  vMax : Flt K
  stepMax : Flt K

/-- `if dt.is_finite() && dt > 0.0 { dt } else { 1.0 }`. -/
def soundDt (dt : Flt K) : Flt K := if dt.isFinite ∧ 0 < dt then dt else 1

/-- `Shield::new` (`shield.rs:348-378`). -/
def Shield.new (terms : List (KeepOutTerm K)) (dim : ℕ) (cfg : ShieldConfig K) (dt : Flt K)
    (limits : ActionLimits K) : Shield K :=
  let dt := soundDt dt
  let vMax := tighten cfg.vMax limits.maxVelocityMps
  { dim := dim, barriers := terms.map (Barrier.fromTerm · dim), cfg := cfg, dt := dt
    uMax := tighten cfg.uMax limits.maxAccelMps2, vMax := vMax, stepMax := vMax * dt }

/-- `project_kinematic` (`shield.rs:623-648`). -/
def Shield.projectKinematic (s : Shield K) (mode : ControlMode) (p y : List (Flt K)) :
    Except Panic (List (Flt K)) :=
  match mode with
  | .effort => y.mapM fun yi => projectBoxAxis yi s.uMax
  | .velocity =>
    let scale := ballScale (norm (y.take s.dim)) s.vMax
    .ok (y.map (· * scale))
  | .position =>
    let d := List.zipWith (· - ·) y p
    let scale := ballScale (norm d) s.stepMax
    .ok (List.zipWith (fun pi di => pi + di * scale) p d)

/-- The projections onto the half-spaces, one cycle: rows, their corrections and the iterate. -/
def sweep : List (BarrierRow K) → List (List (Flt K)) → List (Flt K) →
    List (List (Flt K)) × List (Flt K)
  | [], _, x => ([], x)
  | _ :: _, [], x => ([], x)
  | row :: rows, corr :: corrs, x =>
    let y := List.zipWith (· + ·) x corr
    let ay := dot row.a y
    let nn := dot row.a row.a
    if ay < row.b ∧ 0 < nn then
      let t := (row.b - ay) / nn
      let proj := List.zipWith (fun yi ai => yi + t * ai) y row.a
      let (corrs, x) := sweep rows corrs proj
      (List.zipWith (· - ·) y proj :: corrs, x)
    else
      let (corrs, x) := sweep rows corrs y
      (y.map (fun _ => 0) :: corrs, x)

/-- `rows_feasible` (`shield.rs:612-618`). -/
def Shield.rowsFeasible (s : Shield K) (rows : List (BarrierRow K)) (x : List (Flt K)) : Bool :=
  rows.all fun row => decide (row.b - s.cfg.tol ≤ dot row.a x)

/-- The iterations of `dykstra`, on the kinematic correction, the row corrections and `x`. -/
def Shield.dykstraLoop (s : Shield K) (mode : ControlMode) (p : List (Flt K))
    (rows : List (BarrierRow K)) :
    ℕ → List (Flt K) → List (List (Flt K)) → List (Flt K) → Except Panic (List (Flt K))
  | 0, _, _, x => .ok x
  | n + 1, corr, corrs, xprev => do
    let y := List.zipWith (· + ·) xprev corr
    let x ← s.projectKinematic mode p y
    let corr := List.zipWith (· - ·) y x
    let (corrs, x) := sweep rows corrs x
    let delta := Flt.sum (List.zipWith (fun xi xp => (xi - xp) * (xi - xp)) x xprev)
    if delta < s.cfg.tol * s.cfg.tol ∧ s.rowsFeasible rows x = true then .ok x
    else s.dykstraLoop mode p rows n corr corrs x

/-- `dykstra` (`shield.rs:542-607`). -/
def Shield.dykstra (s : Shield K) (mode : ControlMode) (p x0 : List (Flt K))
    (rows : List (BarrierRow K)) : Except Panic (List (Flt K)) :=
  let zero := List.replicate s.dim 0
  s.dykstraLoop mode (p.take s.dim) rows s.cfg.maxIter zero (rows.map fun _ => zero)
    (x0.take s.dim)

/-- The kinematic-set check of `certify` (`shield.rs:493-518`). -/
def Shield.certifyKinematic (s : Shield K) (mode : ControlMode) (p x : List (Flt K)) : Bool :=
  match mode with
  | .effort => x.all fun xi => xi.isFinite && !decide (s.uMax + s.cfg.tol < Flt.abs xi)
  | .velocity => (norm x).isFinite && !decide (s.vMax + s.cfg.tol < norm x)
  | .position => x.all Flt.isFinite &&
      !decide (s.stepMax + s.cfg.tol < norm (List.zipWith (· - ·) x p))

/-- The pose a kinematic command realises one step later (`shield.rs:523-527`). -/
def Shield.next (s : Shield K) (mode : ControlMode) (p x : List (Flt K)) (i : ℕ) : Flt K :=
  match mode with
  | .velocity => coordAt p i + coordAt x i * s.dt
  | .position => coordAt x i
  | .effort => coordAt p i

/-- `certify` (`shield.rs:481-536`). -/
def Shield.certify (s : Shield K) (mode : ControlMode) (p x : List (Flt K))
    (rows : List (BarrierRow K)) : Bool :=
  rows.all (fun row => !decide (dot row.a x < row.b - s.cfg.tol)) &&
    s.certifyKinematic mode (p.take s.dim) x &&
    (mode = .effort ||
      s.barriers.all fun b => !decide (b.staticH s.dim (s.next mode p x) < -s.cfg.tol))

/-- What `solve_mode` returns and writes: the certificate, the margin and the command. -/
structure ShieldOutcome (K : Type) where
  certified : Bool
  minH : Flt K
  action : List (Flt K)

/-- `solve_mode` (`shield.rs:417-476`). -/
def Shield.solveMode (s : Shield K) (mode : ControlMode) (p v x0 : List (Flt K)) :
    Except Panic (ShieldOutcome K) :=
  if p.length < s.dim ∨ v.length < s.dim ∨ x0.length < s.dim ∨
      (p.take s.dim ++ v.take s.dim ++ x0.take s.dim).any (fun x => !x.isFinite) = true then
    .ok { certified := false, minH := .negInf, action := x0.take s.dim }
  else
    let rows := s.barriers.map fun b => evalBarrier b mode s.dim s.cfg.k0 s.cfg.k1 s.dt p v
    let minH := rows.foldl (fun acc row => Flt.min acc row.h) .posInf
    if rows.any (fun row => !row.ok) then
      .ok { certified := false, minH := minH, action := x0.take s.dim }
    else do
      let x ← s.dykstra mode p x0 rows
      return { certified := s.certify mode p x rows, minH := minH, action := x }

/-! ## What a call certifies -/

/-- The barriers have rows of length `dim`. -/
def Barrier.Sized (dim : ℕ) : Barrier K → Prop
  | .norm _ _ => True
  | .half normal _ => normal.length = dim

theorem Barrier.fromTerm_sized (t : KeepOutTerm K) (dim : ℕ) :
    (Barrier.fromTerm t dim).Sized dim := by
  unfold Barrier.fromTerm
  split
  · trivial
  · trivial
  · simp only [Barrier.Sized, resize, List.length_take, List.length_append, List.length_replicate]
    omega

theorem evalBarrier_length {b : Barrier K} {dim : ℕ} (hb : b.Sized dim) (mode : ControlMode)
    (k0 k1 dt : Flt K) (p v : List (Flt K)) :
    (evalBarrier b mode dim k0 k1 dt p v).a.length = dim := by
  cases b with
  | norm center radius =>
    unfold evalBarrier
    dsimp only
    split <;> simp
  | half normal rhs =>
    unfold evalBarrier
    have hlen : normal.length = dim := hb
    simp [hlen]

omit [HasSqrt K] in
theorem sweep_length {dim : ℕ} {rows : List (BarrierRow K)} (hrows : ∀ r ∈ rows, r.a.length = dim)
    {corrs : List (List (Flt K))} (hcorrs : ∀ c ∈ corrs, c.length = dim) {x : List (Flt K)}
    (hx : x.length = dim) :
    (∀ c ∈ (sweep rows corrs x).1, c.length = dim) ∧ (sweep rows corrs x).2.length = dim := by
  induction rows generalizing corrs x with
  | nil => exact ⟨by simp [sweep], hx⟩
  | cons row rows ih =>
    cases corrs with
    | nil => exact ⟨by simp [sweep], hx⟩
    | cons corr corrs =>
      have hrow : row.a.length = dim := hrows row (by simp)
      have hcorr : corr.length = dim := hcorrs corr (by simp)
      have ih' : ∀ y : List (Flt K), y.length = dim →
          (∀ c ∈ (sweep rows corrs y).1, c.length = dim) ∧ (sweep rows corrs y).2.length = dim :=
        fun y hy => ih (fun r hr => hrows r (by simp [hr])) (fun c hc => hcorrs c (by simp [hc])) hy
      unfold sweep
      dsimp only
      split
      · obtain ⟨h₁, h₂⟩ := ih' (List.zipWith (fun yi ai => yi +
          (row.b - dot row.a (List.zipWith (· + ·) x corr)) / dot row.a row.a * ai)
            (List.zipWith (· + ·) x corr) row.a) (by simp [hx, hcorr, hrow])
        refine ⟨fun c hc => ?_, h₂⟩
        obtain rfl | hc := List.mem_cons.mp hc
        · simp [hx, hcorr, hrow]
        · exact h₁ c hc
      · obtain ⟨h₁, h₂⟩ := ih' (List.zipWith (· + ·) x corr) (by simp [hx, hcorr])
        refine ⟨fun c hc => ?_, h₂⟩
        obtain rfl | hc := List.mem_cons.mp hc
        · simp [hx, hcorr]
        · exact h₁ c hc

namespace Shield

variable {s : Shield K} {mode : ControlMode}

theorem projectKinematic_length {p y x : List (Flt K)} (hp : p.length = s.dim)
    (hy : y.length = s.dim) (h : s.projectKinematic mode p y = .ok x) : x.length = s.dim := by
  unfold projectKinematic at h
  cases mode with
  | effort =>
    rw [← hy]
    exact (mapM_eq_ok.1 h).length_eq.symm
  | velocity =>
    cases h
    simp [hy]
  | position =>
    cases h
    simp [hy, hp]

theorem dykstraLoop_length {rows : List (BarrierRow K)} (hrows : ∀ r ∈ rows, r.a.length = s.dim)
    {p : List (Flt K)} (hp : p.length = s.dim) {n : ℕ} {corr x y : List (Flt K)}
    {corrs : List (List (Flt K))} (hcorr : corr.length = s.dim)
    (hcorrs : ∀ c ∈ corrs, c.length = s.dim) (hx : x.length = s.dim)
    (h : s.dykstraLoop mode p rows n corr corrs x = .ok y) : y.length = s.dim := by
  induction n generalizing corr corrs x with
  | zero =>
    cases h
    exact hx
  | succ n ih =>
    obtain ⟨x', hproj, h⟩ := bind_eq_ok.1 h
    have hx' : x'.length = s.dim := projectKinematic_length hp (by simp [hx, hcorr]) hproj
    obtain ⟨h₁, h₂⟩ := sweep_length hrows hcorrs hx'
    generalize sweep rows corrs x' = swept at h h₁ h₂
    obtain ⟨corrs', z⟩ := swept
    dsimp only at h h₁ h₂
    split_ifs at h
    · cases h
      exact h₂
    · exact ih (by simp [hx, hx', hcorr]) h₁ h₂ h

/-- A certified command has the length of the space and has passed `certify`. -/
theorem solveMode_certify (hsized : ∀ b ∈ s.barriers, b.Sized s.dim) {p v x0 : List (Flt K)}
    {out : ShieldOutcome K} (h : s.solveMode mode p v x0 = .ok out) (hc : out.certified = true) :
    out.action.length = s.dim ∧ ∃ rows, s.certify mode p out.action rows = true := by
  unfold solveMode at h
  split at h
  · cases h
    cases hc
  · rename_i hin
    rw [not_or, not_or, not_or] at hin
    dsimp only at h
    split at h
    · cases h
      cases hc
    · obtain ⟨x, hx, h⟩ := bind_eq_ok.1 h
      cases h
      refine ⟨?_, _, hc⟩
      refine dykstraLoop_length ?_ ?_ ?_ ?_ ?_ hx
      · intro r hr
        obtain ⟨b, hb, rfl⟩ := List.mem_map.mp hr
        exact evalBarrier_length (hsized b hb) _ _ _ _ _ _
      · simp only [List.length_take]
        omega
      · simp
      · intro c hc
        obtain ⟨r, -, rfl⟩ := List.mem_map.mp hc
        simp
      · simp only [List.length_take]
        omega

theorem certify_parts {p x : List (Flt K)} {rows : List (BarrierRow K)}
    (h : s.certify mode p x rows = true) :
    s.certifyKinematic mode (p.take s.dim) x = true ∧
      (mode ≠ .effort → ∀ b ∈ s.barriers, ¬ b.staticH s.dim (s.next mode p x) < -s.cfg.tol) := by
  unfold certify at h
  rw [Bool.and_eq_true, Bool.and_eq_true, Bool.or_eq_true] at h
  obtain ⟨⟨-, hkin⟩, hexact⟩ := h
  refine ⟨hkin, fun hmode b hb => ?_⟩
  obtain hmode' | hall := hexact
  · exact absurd (by simpa using hmode') hmode
  · simpa using List.all_eq_true.mp hall b hb

end Shield

end Numbers

end AstroMine.Guard
