import AstroMine.Guard.Verdicts
import AstroMine.Guard.ActuatorSet
import AstroMine.Guard.Detection

/-!
# The brake on the plant (`rust/src/backup.rs`, lines 120–140 and 200–210)

The brake opposes every velocity component with a saturated gain, and the plant holds the command
for a whole sample period. A gain that is too large for the period reverses the velocity by more
than it was.

Results:
* `clampOrPanic_scales`: saturation multiplies a number by a factor between 0 and 1.
* `brake_slows`: one braked period does not lengthen the velocity when the gain fits the period.
* `run_speed_monotone_iff`: in every run, consecutive brake commands never speed the plant up
  exactly when the gain times the period is between 0 and 2, or the effort ceiling is 0.
-/

namespace AstroMine.Guard

open Flt
open scoped Numerals

/-! ## The plant -/

section Plant

variable {K : Type} [Field K]

/-- A state that moves at the rate `dx` for a time `T`. -/
def drift (T : K) (x dx : List K) : List K := List.zipWith (fun xi di => xi + di * T) x dx

/-- The velocity after a period `T` under the held effort `u`. -/
def nextVelocity (T : K) (v u : List K) : List K := drift T v u

/-- The position after a period `T` under the held effort `u`. -/
def nextPosition (T : K) (p v u : List K) : List K := drift (1 / 2 * T * T) (drift T p v) u

end Plant

/-! ## One axis -/

/-- Saturation multiplies a number by a factor between 0 and 1. -/
theorem clampOrPanic_scales {a : ℝ} {y u : Flt ℝ} (h : clampOrPanic (fin a) (-u) u = .ok y) :
    ∃ s, y = fin (s * a) ∧ 0 ≤ s ∧ s ≤ 1 := by
  unfold clampOrPanic at h
  split_ifs at h with hbox
  cases h
  cases u with
  | nan => exact absurd hbox id
  | negInf => cases hbox
  | posInf => exact ⟨1, by rw [one_mul]; rfl, zero_le_one, le_rfl⟩
  | fin m =>
    have hm : 0 ≤ m := by
      rw [neg_fin, fin_le_fin] at hbox
      linarith
    rw [neg_fin, clamp_fin hbox]
    by_cases hfit : |a| ≤ m
    · obtain ⟨hlo, hhi⟩ := abs_le.mp hfit
      exact ⟨1, by rw [min_eq_left hhi, max_eq_right hlo, one_mul], zero_le_one, le_rfl⟩
    · have hlt : m < |a| := not_le.mp hfit
      have hpos : 0 < |a| := hm.trans_lt hlt
      refine ⟨m / |a|, ?_, div_nonneg hm hpos.le, (div_le_one hpos).mpr hlt.le⟩
      obtain ⟨habs, ha⟩ | ⟨habs, ha⟩ := abs_cases a
      · rw [habs] at hlt ⊢
        rw [min_eq_right hlt.le, max_eq_right (by linarith), div_mul_cancel₀ m (by linarith)]
      · rw [habs] at hlt ⊢
        rw [min_eq_left (by linarith), max_eq_left (by linarith), div_neg, neg_mul,
          div_mul_cancel₀ m (by linarith)]

/-- A braked axis does not gain speed in a period that fits the gain. -/
theorem brakeAxis_slows {x k T : ℝ} {u y : Flt ℝ} (hT : 0 < T) (hk : 0 ≤ k) (hkT : k * T ≤ 2)
    (h : brakeAxis (fin x) (fin k) u = .ok y) : ∃ r, y = fin r ∧ |x + r * T| ≤ |x| := by
  unfold brakeAxis at h
  rw [neg_fin, fin_mul] at h
  obtain ⟨s, rfl, hs, hs1⟩ := clampOrPanic_scales h
  refine ⟨_, rfl, ?_⟩
  have hfac : x + s * (-k * x) * T = (1 - s * (k * T)) * x := by ring
  have hsk : s * (k * T) ≤ 2 := by
    calc s * (k * T) ≤ 1 * (k * T) := mul_le_mul_of_nonneg_right hs1 (mul_nonneg hk hT.le)
      _ ≤ 2 := by linarith
  have hsk0 : 0 ≤ s * (k * T) := mul_nonneg hs (mul_nonneg hk hT.le)
  rw [hfac, abs_mul]
  refine mul_le_of_le_one_left (abs_nonneg x) (abs_le.mpr ⟨?_, ?_⟩) <;> linarith

/-- Without effort the axis keeps its speed. -/
theorem brakeAxis_powerless {x k : ℝ} {y : Flt ℝ} (h : brakeAxis (fin x) (fin k) 0 = .ok y) :
    y = fin 0 := by
  unfold brakeAxis at h
  rw [neg_fin, fin_mul] at h
  obtain ⟨r, rfl, hr⟩ := clampOrPanic_spec h (clampOrPanic_finite h)
  rw [zero_def, fin_le_fin] at hr
  rw [abs_nonpos_iff.mp hr]

/-- A brake that fits the box is proportional to the velocity. -/
theorem brakeAxis_unsaturated {x k : ℝ} {u : Flt ℝ} (h : fin |k * x| ≤ u) :
    brakeAxis (fin x) (fin k) u = .ok (fin (-k * x)) := by
  unfold brakeAxis
  rw [neg_fin, fin_mul]
  refine clampOrPanic_self ?_
  rwa [neg_mul, abs_neg]

theorem clamp_nan (u : Flt ℝ) : clamp nan (-u) u = nan := by
  have hu : ¬ u < nan := by cases u <;> exact id
  rw [clamp, if_neg (not_nan_lt _), if_neg hu]

/-- At rest the command is a number only when the gain is one. -/
theorem finite_of_brakeAxis_rest {k u y : Flt ℝ} (h : brakeAxis (fin 0) k u = .ok y)
    (hfin : y.isFinite = true) : ∃ r, k = fin r := by
  unfold brakeAxis clampOrPanic at h
  split_ifs at h
  cases h
  have hnan (hk : -k * fin 0 = nan) : False := by
    rw [hk, clamp_nan] at hfin
    cases hfin
  have hinf : infOfSign (0 : ℝ) = nan := by simp [infOfSign]
  cases k with
  | fin r => exact ⟨r, rfl⟩
  | nan => exact (hnan rfl).elim
  | negInf => exact (hnan hinf).elim
  | posInf =>
    refine (hnan ?_).elim
    show infOfSign (-0) = nan
    rw [neg_zero, hinf]

/-! ## The brake command -/

theorem forall₂_congr_left {α β : Type} {R S : α → β → Prop} {xs : List α} {ys : List β}
    (h : ∀ x ∈ xs, ∀ y, R x y ↔ S x y) : List.Forall₂ R xs ys ↔ List.Forall₂ S xs ys := by
  constructor
  · intro hR
    exact ((List.forall₂_and_left _ _).mpr ⟨h, hR⟩).imp fun x y hxy => (hxy.1 y).mp hxy.2
  · intro hS
    exact ((List.forall₂_and_left _ _).mpr ⟨h, hS⟩).imp fun x y hxy => (hxy.1 y).mpr hxy.2

namespace Backup

variable {b : Backup ℝ} {vel action : List (Flt ℝ)} {w : List ℝ} {T k : ℝ}

/-- The brake answers a finite velocity axis by axis. -/
theorem brake_eq_ok_iff (hv : vel.take b.ctrlDim = w.map fin) (hw : w.length = b.ctrlDim) :
    b.brake vel = .ok action ↔
      List.Forall₂ (fun x y => brakeAxis (fin x) b.kBrake b.uMax = .ok y) w action := by
  unfold brake
  rw [mapM_eq_ok]
  conv_rhs => rw [← range_map_getD hw, List.forall₂_map_left_iff]
  refine forall₂_congr_left fun i hi y => ?_
  rw [finiteAt_of_take hv hw (List.mem_range.mp hi)]

theorem exists_slower (h : List.Forall₂ (fun x y => ∃ r, y = fin r ∧ |x + r * T| ≤ |x|) w action) :
    ∃ a : List ℝ, action = a.map fin ∧ euclid (nextVelocity T w a) ≤ euclid w := by
  have haxes : ∃ a : List ℝ, action = a.map fin ∧
      List.Forall₂ (fun x' x => |x'| ≤ |x|) (nextVelocity T w a) w := by
    induction h with
    | nil => exact ⟨[], rfl, .nil⟩
    | cons hxy _ ih =>
      obtain ⟨r, rfl, hr⟩ := hxy
      obtain ⟨a, rfl, ha⟩ := ih
      exact ⟨r :: a, rfl, .cons hr ha⟩
  obtain ⟨a, haction, ha⟩ := haxes
  exact ⟨a, haction, euclid_le_euclid ha⟩

/-- **Step.** A braked period does not lengthen the velocity when the gain fits the period. -/
theorem brake_slows (hT : 0 < T) (hk : b.kBrake = fin k)
    (hfit : b.uMax = 0 ∨ 0 ≤ k ∧ k * T ≤ 2) (hv : vel.take b.ctrlDim = w.map fin)
    (hw : w.length = b.ctrlDim) (h : b.brake vel = .ok action) :
    ∃ a : List ℝ, action = a.map fin ∧ euclid (nextVelocity T w a) ≤ euclid w := by
  rw [brake_eq_ok_iff hv hw, hk] at h
  refine exists_slower (h.imp fun x y hxy => ?_)
  obtain hu | ⟨hk0, hkT⟩ := hfit
  · rw [hu] at hxy
    exact ⟨0, brakeAxis_powerless hxy, by rw [zero_mul, add_zero]⟩
  · exact brakeAxis_slows hT hk0 hkT hxy

/-- Equal velocities that fit the box are braked in proportion. -/
theorem brake_replicate {x : ℝ} (hk : b.kBrake = fin k) (hfit : fin |k * x| ≤ b.uMax)
    (hv : vel.take b.ctrlDim = (List.replicate b.ctrlDim x).map fin) :
    b.brake vel = .ok ((List.replicate b.ctrlDim (-k * x)).map fin) := by
  rw [brake_eq_ok_iff hv List.length_replicate, hk, List.forall₂_map_right_iff]
  have hx := brakeAxis_unsaturated hfit
  induction b.ctrlDim with
  | zero => exact .nil
  | succ n ih => exact .cons hx ih

/-- A brake that answers rest with a number has a finite gain. -/
theorem finite_of_brake_rest (hdim : 0 < b.ctrlDim)
    (hv : vel.take b.ctrlDim = (List.replicate b.ctrlDim 0).map fin) (h : b.brake vel = .ok action)
    (hfin : action.all isFinite = true) : ∃ k, b.kBrake = fin k := by
  rw [brake_eq_ok_iff hv List.length_replicate] at h
  obtain ⟨n, hn⟩ : ∃ n, b.ctrlDim = n + 1 := ⟨b.ctrlDim - 1, by omega⟩
  rw [hn, List.replicate_succ] at h
  cases h with
  | cons hy _ =>
    rw [List.all_cons, Bool.and_eq_true_iff] at hfin
    exact finite_of_brakeAxis_rest hy hfin.1

end Backup

/-! ## Runs -/

namespace SafetyCore

/-- The verdict is the brake of the effort channel. -/
def Brakes (v : SafetyVerdict ℝ) : Prop :=
  v.backupKind = some .brakeToStop ∧ v.certifiedMode = .effort

/-- The velocities `w` of a plant with `d` axes that obeys the brakes of a run: a braked tick reads
the velocity of the plant, and the plant holds the command for a period. -/
structure Obeys (d : ℕ) (T : ℝ) (ticks : List (Tick ℝ)) (vs : List (SafetyVerdict ℝ))
    (w : ℕ → List ℝ) : Prop where
  sensed : ∀ i t v, ticks[i]? = some t → vs[i]? = some v → Brakes v →
    t.1.velocity.take d = (w i).map fin ∧ (w i).length = d
  moved : ∀ i v a, vs[i]? = some v → Brakes v → v.certifiedAction = a.map fin →
    w (i + 1) = nextVelocity T (w i) a

/-- The control dimension of the backup of a model. -/
def ctrlDimOf (model : CompiledSafetyModel ℝ) : ℕ := max (model.spatialDim.getD 0) 1

/-- In every run, the speed after consecutive braked ticks is at most the speed before them, and
their commands are numbers. -/
def SpeedNeverGrows (model : CompiledSafetyModel ℝ) (cfg : CoreConfig ℝ) (T : ℝ) : Prop :=
  ∀ (ticks : List (Tick ℝ)) (core : SafetyCore ℝ) (vs : List (SafetyVerdict ℝ)) (w : ℕ → List ℝ),
    (fromModel model cfg).run ticks = .ok (core, vs) → Obeys (ctrlDimOf model) T ticks vs w →
    ∀ i j, i ≤ j → (∀ k, i ≤ k → k < j → ∃ v, vs[k]? = some v ∧ Brakes v) →
      (∀ k v, i ≤ k → k < j → vs[k]? = some v → v.certifiedAction.all isFinite = true) ∧
        euclid (w j) ≤ euclid (w i)

/-- The gain fits the period: it takes at most twice the velocity away, or there is no effort. -/
def GainFits (model : CompiledSafetyModel ℝ) (cfg : CoreConfig ℝ) (T : ℝ) : Prop :=
  ∃ k, cfg.kBrake = fin k ∧ (accelCeiling model cfg = 0 ∨ 0 ≤ k ∧ k * T ≤ 2)

section Run

variable {model : CompiledSafetyModel ℝ} {cfg : CoreConfig ℝ} {T : ℝ}

theorem tick_brakes {core core' : SafetyCore ℝ} {t : Tick ℝ} {v : SafetyVerdict ℝ}
    (h : core.tick t = .ok (core', v)) (hv : Brakes v) :
    core.backup.brake t.1.velocity = .ok v.certifiedAction := by
  obtain ⟨hkind, hmode⟩ := hv
  obtain ⟨kind, hrec, -⟩ | ⟨-, -, -, hnone, -⟩ := tick_verdict h
  · obtain rfl : kind = .brakeToStop := Option.some.inj (hrec.backupKind.symm.trans hkind)
    have hcommand := hrec.command
    rw [hmode] at hcommand
    exact hcommand
  · rw [hkind] at hnone
    cases hnone

/-- A tick on which the watchdog forces a brake of the velocity `w`. -/
def forcedTick (w : List ℝ) : Tick ℝ :=
  ({ signals := [], position := [], velocity := w.map fin, proposed := .effort [] }, .forced)

/-- A forced brake is a run of its own, and the plant obeys it. -/
theorem run_forced {w : List ℝ} {a : List (Flt ℝ)}
    (h : (fromModel model cfg).backup.brake (w.map fin) = .ok a) :
    ∃ core v, (fromModel model cfg).run [forcedTick w] = .ok (core, [v]) ∧ Brakes v ∧
      v.certifiedAction = a := by
  have hcontrol : (fromModel model cfg).backup.control .brakeToStop .effort [] (w.map fin) none =
      .ok a := h
  have htick : ∃ core v, (fromModel model cfg).tick (forcedTick w) = .ok (core, v) ∧ Brakes v ∧
      v.certifiedAction = a := by
    refine ⟨_, _, bind_eq_ok.2 ⟨a, hcontrol, rfl⟩, ⟨rfl, rfl⟩, rfl⟩
  obtain ⟨core, v, htick, hv, ha⟩ := htick
  exact ⟨core, v, bind_eq_ok.2 ⟨_, htick, bind_eq_ok.2 ⟨_, rfl, rfl⟩⟩, hv, ha⟩

theorem neg_le_self_iff {u : Flt ℝ} : -u ≤ u ↔ 0 ≤ u := by
  cases u with
  | nan => exact Iff.rfl
  | negInf => exact iff_of_false (by rintro ⟨⟩) id
  | posInf => exact iff_of_true trivial trivial
  | fin r =>
    rw [neg_fin, zero_def, fin_le_fin, fin_le_fin]
    constructor <;> intro h <;> linarith

theorem backup_eq {core : SafetyCore ℝ} (h : SameStatic (fromModel model cfg) core) :
    core.backup.ctrlDim = ctrlDimOf model ∧ core.backup.uMax = accelCeiling model cfg ∧
      core.backup.kBrake = cfg.kBrake := by
  rw [h.backup]
  exact ⟨rfl, rfl, rfl⟩

/-- The brake answers when the effort ceiling is usable. -/
theorem brake_ok (h : 0 ≤ accelCeiling model cfg) (w : List ℝ) :
    ∃ a, (fromModel model cfg).backup.brake (w.map fin) = .ok a := by
  obtain hok | ⟨-, hbad⟩ := Backup.failsIf_brake (fromModel model cfg).backup (w.map fin)
  · exact hok
  · exact absurd (neg_le_self_iff.2 h) hbad

/-- A brake that answers has a usable effort ceiling. -/
theorem nonneg_of_brake {b : Backup ℝ} (hdim : 0 < b.ctrlDim) {vel action : List (Flt ℝ)}
    (h : b.brake vel = .ok action) : 0 ≤ b.uMax := by
  have hfirst := mapM_eq_ok.1 h
  obtain ⟨n, hn⟩ : ∃ n, b.ctrlDim = n + 1 := ⟨b.ctrlDim - 1, by omega⟩
  rw [hn, List.range_succ_eq_map] at hfirst
  cases hfirst with
  | cons hy _ =>
    unfold brakeAxis clampOrPanic at hy
    split_ifs at hy with hbox
    exact neg_le_self_iff.1 hbox

/-- **Step.** A braked tick of a run does not speed the plant up when the gain fits. -/
theorem run_brakes_slow (hT : 0 < T) (hfit : 0 ≤ accelCeiling model cfg → GainFits model cfg T)
    {ticks : List (Tick ℝ)} {core : SafetyCore ℝ} {vs : List (SafetyVerdict ℝ)} {w : ℕ → List ℝ}
    (hrun : (fromModel model cfg).run ticks = .ok (core, vs))
    (hobeys : Obeys (ctrlDimOf model) T ticks vs w) {i : ℕ} {v : SafetyVerdict ℝ}
    (hv : vs[i]? = some v) (hbrakes : Brakes v) :
    v.certifiedAction.all isFinite = true ∧ euclid (w (i + 1)) ≤ euclid (w i) := by
  obtain ⟨t, before, after, ht, hbefore, htick, -⟩ := run_at hrun hv
  obtain ⟨hctrl, hu, hk⟩ := backup_eq (run_static hbefore)
  have hbrake := tick_brakes htick hbrakes
  have hdim : 0 < before.backup.ctrlDim := by
    rw [hctrl, ctrlDimOf]
    omega
  have hu0 := nonneg_of_brake hdim hbrake
  rw [hu] at hu0
  obtain ⟨k, hkB, hfits⟩ := hfit hu0
  obtain ⟨hvel, hlen⟩ := hobeys.sensed i t v ht hv hbrakes
  rw [← hctrl] at hvel hlen
  rw [← hu] at hfits
  obtain ⟨a, ha, hle⟩ := Backup.brake_slows hT (hk.trans hkB) hfits hvel hlen hbrake
  rw [hobeys.moved i v a hv hbrakes ha]
  refine ⟨?_, hle⟩
  rw [ha, List.all_map, List.all_eq_true]
  intro x _
  rfl

/-- **Run.** Consecutive braked ticks do not speed the plant up when the gain fits. -/
theorem speedNeverGrows_of_fits (hT : 0 < T)
    (hfit : 0 ≤ accelCeiling model cfg → GainFits model cfg T) :
    SpeedNeverGrows model cfg T := by
  intro ticks core vs w hrun hobeys i j hij hbrakes
  constructor
  · intro k v hik hkj hv
    obtain ⟨v', hv', hb⟩ := hbrakes k hik hkj
    obtain rfl : v' = v := Option.some.inj (hv'.symm.trans hv)
    exact (run_brakes_slow hT hfit hrun hobeys hv hb).1
  · induction j, hij using Nat.le_induction with
    | base => exact le_rfl
    | succ j hij ih =>
      obtain ⟨v, hv, hb⟩ := hbrakes j hij (Nat.lt_succ_self j)
      refine (run_brakes_slow hT hfit hrun hobeys hv hb).2.trans (ih fun k hik hkj => ?_)
      exact hbrakes k hik (Nat.lt_succ_of_lt hkj)

/-- The number of a finite float. -/
def ofFlt : Flt ℝ → ℝ
  | fin x => x
  | _ => 0

theorem map_ofFlt (r : List ℝ) : (r.map fin).map ofFlt = r := by
  rw [List.map_map]
  exact List.map_id r

/-- A plant that moves at `w` and then obeys one command. -/
noncomputable def forcedPlant (T : ℝ) (w : List ℝ) (a : List (Flt ℝ)) : ℕ → List ℝ
  | 0 => w
  | _ + 1 => nextVelocity T w (a.map ofFlt)

theorem obeys_forced {d : ℕ} {w : List ℝ} (hw : w.length = d) (v : SafetyVerdict ℝ) :
    Obeys d T [forcedTick w] [v] (forcedPlant T w v.certifiedAction) := by
  constructor
  · intro i t u ht _ _
    obtain ⟨rfl, rfl⟩ : i = 0 ∧ forcedTick w = t := by
      cases i <;> simp_all
    refine ⟨?_, hw⟩
    show (w.map fin).take d = w.map fin
    rw [List.take_of_length_le (by rw [List.length_map, hw])]
  · intro i u a hu _ ha
    obtain ⟨rfl, rfl⟩ : i = 0 ∧ v = u := by
      cases i <;> simp_all
    show nextVelocity T w (v.certifiedAction.map ofFlt) = nextVelocity T w a
    rw [ha, map_ofFlt]

/-- One forced brake of a plant that moves at `x` on every axis. -/
theorem forced_slows (hlaw : SpeedNeverGrows model cfg T) (hu : 0 ≤ accelCeiling model cfg)
    {w : List ℝ} (hw : w.length = ctrlDimOf model) :
    ∃ a, (fromModel model cfg).backup.brake (w.map fin) = .ok a ∧ a.all isFinite = true ∧
      euclid (nextVelocity T w (a.map ofFlt)) ≤ euclid w := by
  obtain ⟨a, ha⟩ := brake_ok hu w
  obtain ⟨core, v, hrun, hv, rfl⟩ := run_forced ha
  obtain ⟨hfin, hle⟩ := hlaw _ _ _ _ hrun (obeys_forced hw v) 0 1 zero_le_one fun k _ hk =>
    ⟨v, by rw [Nat.lt_one_iff.mp hk]; rfl, hv⟩
  exact ⟨_, ha, hfin 0 v le_rfl zero_lt_one rfl, hle⟩

theorem nextVelocity_replicate (n : ℕ) (x u : ℝ) :
    nextVelocity T (List.replicate n x) (List.replicate n u) = List.replicate n (x + u * T) := by
  unfold nextVelocity drift
  rw [List.zipWith_replicate, min_self]

/-- A speed that the brake does not saturate. -/
theorem exists_unsaturated {u : Flt ℝ} (h0 : 0 ≤ u) (hu : u ≠ 0) (k : ℝ) :
    ∃ x : ℝ, 0 < x ∧ fin |k * x| ≤ u := by
  cases u with
  | nan => exact h0.elim
  | negInf => exact h0.elim
  | posInf => exact ⟨1, one_pos, trivial⟩
  | fin m =>
    have hm : 0 < m := lt_of_le_of_ne h0 fun h => hu (by rw [← h]; rfl)
    have hk : 0 < |k| + 1 := by positivity
    refine ⟨m / (|k| + 1), div_pos hm hk, ?_⟩
    rw [fin_le_fin, abs_mul, abs_of_pos (div_pos hm hk), ← mul_div_assoc, div_le_iff₀ hk]
    nlinarith [abs_nonneg k]

/-- A gain that never speeds the plant up fits the period. -/
theorem fits_of_speedNeverGrows (hT : 0 < T) (hlaw : SpeedNeverGrows model cfg T)
    (hu : 0 ≤ accelCeiling model cfg) : GainFits model cfg T := by
  have hdim : 0 < ctrlDimOf model := by
    unfold ctrlDimOf
    omega
  have htake (x : ℝ) : ((List.replicate (ctrlDimOf model) x).map fin).take (ctrlDimOf model) =
      (List.replicate (ctrlDimOf model) x).map fin :=
    List.take_of_length_le (by rw [List.length_map, List.length_replicate])
  obtain ⟨a, ha, hfin, -⟩ := forced_slows hlaw hu (List.length_replicate (a := (0 : ℝ)))
  obtain ⟨k, hk⟩ := Backup.finite_of_brake_rest (b := (fromModel model cfg).backup) hdim (htake 0)
    ha hfin
  refine ⟨k, hk, ?_⟩
  by_cases hzero : accelCeiling model cfg = 0
  · exact .inl hzero
  · obtain ⟨x, hx, hfit⟩ := exists_unsaturated hu hzero k
    obtain ⟨a, ha, -, hle⟩ := forced_slows hlaw hu (List.length_replicate (a := x))
    rw [Backup.brake_replicate (b := (fromModel model cfg).backup) hk hfit (htake x)] at ha
    cases ha
    rw [map_ofFlt] at hle
    have hstep := nextVelocity_replicate (T := T) (ctrlDimOf model) x (-k * x)
    rw [show (fromModel model cfg).backup.ctrlDim = ctrlDimOf model from rfl, hstep,
      euclid_replicate, euclid_replicate] at hle
    have habs : |x + -k * x * T| ≤ |x| :=
      le_of_mul_le_mul_left hle (Real.sqrt_pos.mpr (Nat.cast_pos.mpr hdim))
    have hfac : x + -k * x * T = (1 - k * T) * x := by ring
    rw [hfac, abs_mul, mul_le_iff_le_one_left (abs_pos.mpr hx.ne')] at habs
    obtain ⟨hlo, hhi⟩ := abs_le.mp habs
    exact .inr ⟨nonneg_of_mul_nonneg_left (by linarith) hT, by linarith⟩

end Run

/-- **Main theorem.** For an accepted model, no run of consecutive braked ticks speeds the plant up
exactly when, if the effort ceiling is usable, the gain is a number that fits the period: it is at
least 0 and at most 2 over the period, or there is no effort. -/
theorem run_speed_monotone_iff {p : Proto.CompiledSafetyModel ℝ} {cfg : CoreConfig ℝ}
    {model : CompiledSafetyModel ℝ}
    (hmodel : CompiledSafetyModel.fromProto p cfg.maxHistoryCap = .ok model) :
    ∃ T, model.samplePeriodS = fin T ∧ 0 < T ∧
      (SpeedNeverGrows model cfg T ↔ (0 ≤ accelCeiling model cfg → GainFits model cfg T)) := by
  obtain ⟨T, hT, hperiod⟩ := (CompiledSafetyModel.fromProto_valid hmodel).samplePeriodS
  exact ⟨T, hperiod, hT, fits_of_speedNeverGrows hT, speedNeverGrows_of_fits hT⟩

/-- The default configuration with a gain of 1. -/
noncomputable def gentleConfig : CoreConfig ℝ := { CoreConfig.default with kBrake := fin 1 }

theorem run_speed_monotone_iff_gentle : SpeedNeverGrows halfLineModel gentleConfig 1 := by
  obtain ⟨T, hperiod, -, hiff⟩ :=
    run_speed_monotone_iff (halfLine_fromProto gentleConfig.maxHistoryCap)
  obtain rfl : 1 = T := by injection hperiod
  exact hiff.mpr fun _ => ⟨1, rfl, .inr ⟨zero_le_one, by norm_num⟩⟩

/-- **Counterexample.** At a period of one second the default gain of 4 turns the velocity 1 into
-3. -/
theorem speed_not_always_monotone :
    ¬ ∀ (p : Proto.CompiledSafetyModel ℝ) (cfg : CoreConfig ℝ) (model : CompiledSafetyModel ℝ)
      (T : ℝ), CompiledSafetyModel.fromProto p cfg.maxHistoryCap = .ok model →
      model.samplePeriodS = fin T → SpeedNeverGrows model cfg T := by
  intro hclaim
  have hlaw := hclaim halfLineProto .default halfLineModel 1 (halfLine_fromProto _) rfl
  have hceiling : accelCeiling halfLineModel CoreConfig.default = fin 20 := rfl
  have hu : 0 ≤ accelCeiling halfLineModel CoreConfig.default := by
    rw [hceiling, zero_def, fin_le_fin]
    norm_num
  obtain ⟨k, hk, hfits⟩ := fits_of_speedNeverGrows one_pos hlaw hu
  obtain rfl : 4 = k := by injection hk
  obtain hzero | ⟨-, hle⟩ := hfits
  · rw [hceiling, zero_def] at hzero
    injection hzero with hzero
    norm_num at hzero
  · norm_num at hle

end SafetyCore

end AstroMine.Guard
