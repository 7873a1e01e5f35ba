import AstroMine.Lib.RealVec
import AstroMine.Guard.Arbiter

/-!
# The actuator set

What a control mode lets a command be, in exact real arithmetic: an acceleration box, a speed
ball, or a step ball about the pose. Every command the core emits lies in the set of its mode,
whichever layer emitted it, and a command that the shield certified in a kinematic mode moves to a
pose outside every keep-out volume.

Results:
* `Backup.control_inActuatorSet`: every backup command is in the set, without a tolerance.
* `Shield.solveMode_certified`: a certified command is in the set and keeps every barrier.
* `SafetyCore.run_tick_emitted`: the same for every tick of every run.
-/

namespace AstroMine.Guard

open Flt
open scoped Numerals

/-! ## Commands and keep-out volumes over the reals -/

/-- The commands within the ceilings of a mode, for a pose `p`. -/
def InActuatorSet (uMax vMax stepMax : Flt ℝ) (mode : ControlMode) (p a : List ℝ) : Prop :=
  match mode with
  | .effort => ∀ x ∈ a, fin |x| ≤ uMax
  | .velocity => fin (euclid a) ≤ vMax
  | .position => fin (euclid (vsub a p)) ≤ stepMax

/-- The pose a kinematic command realises one step later. -/
def nextPose (mode : ControlMode) (dt : ℝ) (p a : List ℝ) : List ℝ :=
  match mode with
  | .effort => p
  | .velocity => List.zipWith (fun x w => x + w * dt) p a
  | .position => a

/-- A keep-out volume with its safety margin. -/
inductive KeepOut where
  | sphere (center : List ℝ) (radius margin : ℝ)
  | box (center halfExtents : List ℝ) (margin : ℝ)
  | halfSpace (normal : List ℝ) (offset margin : ℝ)

namespace KeepOut

/-- The exact barrier value at a pose: nonnegative outside the volume by the margin. A box counts
    as its enclosing sphere, and a half-space is measured along its normal, whose length the
    source bounds below by the least positive normal number. -/
noncomputable def barrier (q : List ℝ) : KeepOut → ℝ
  | sphere center radius margin => euclid (vsub q center) - (radius + margin)
  | box center halfExtents margin => euclid (vsub q center) - (euclid halfExtents + margin)
  | halfSpace normal offset margin =>
    (scalar normal q + offset - margin) / max (euclid normal) (1 / 2 ^ 1022)

/-- The dimension of the space a volume lies in. -/
def dim : KeepOut → ℕ
  | sphere center _ _ => center.length
  | box center _ _ => center.length
  | halfSpace normal _ _ => normal.length

/-- The volume that a decoded term with real coefficients describes. -/
def Describes (t : KeepOutTerm ℝ) : KeepOut → Prop
  | sphere center radius margin =>
    t.shape = .sphere ∧ t.center = center.map fin ∧ t.radius = some (fin radius) ∧
      t.marginM = fin margin
  | box center halfExtents margin =>
    t.shape = .box ∧ t.center = center.map fin ∧ t.halfExtents = halfExtents.map fin ∧
      t.marginM = fin margin
  | halfSpace normal offset margin =>
    t.shape = .halfSpace ∧ t.normal = normal.map fin ∧ t.offset = some (fin offset) ∧
      t.marginM = fin margin

end KeepOut

/-! ## Coordinates -/

theorem coordAt_map_fin (r : List ℝ) (i : ℕ) : coordAt (r.map fin) i = fin (r.getD i 0) := by
  unfold coordAt
  rw [List.getD_eq_getElem?_getD, List.getD_eq_getElem?_getD, List.getElem?_map]
  cases r[i]? <;> rfl

theorem coordAt_take {xs : List (Flt ℝ)} {n i : ℕ} (hi : i < n) :
    coordAt (xs.take n) i = coordAt xs i := by
  unfold coordAt
  rw [List.getD_eq_getElem?_getD, List.getD_eq_getElem?_getD, List.getElem?_take_of_lt hi]

theorem range_map_getD {r : List ℝ} {n : ℕ} (hr : r.length = n) :
    (List.range n).map (fun i => r.getD i 0) = r := by
  subst hr
  apply List.ext_getElem
  · simp
  · intro i h₁ h₂
    simp [h₂]

/-- The coordinates of a pose or velocity whose first `n` entries are real. -/
theorem coordAt_of_take {xs : List (Flt ℝ)} {r : List ℝ} {n i : ℕ} (h : xs.take n = r.map fin)
    (hi : i < n) : coordAt xs i = fin (r.getD i 0) := by
  rw [← coordAt_take hi, h, coordAt_map_fin]

/-! ## The projections onto a ball and a box -/

theorem ballScale_spec {len : ℝ} {radius : Flt ℝ} (hlen : 0 ≤ len) (hradius : 0 ≤ radius) :
    ∃ s, ballScale (fin len) radius = fin s ∧ 0 ≤ s ∧ fin (len * s) ≤ radius := by
  cases radius with
  | nan => exact absurd hradius id
  | negInf => exact absurd hradius id
  | posInf => exact ⟨1, rfl, zero_le_one, trivial⟩
  | fin r =>
    have hr : 0 ≤ r := hradius
    by_cases hlt : r < len
    · have hpos : 0 < len := hr.trans_lt hlt
      have hne : len ≠ 0 := hpos.ne'
      have hmul : len * (r / len) = r := by field_simp
      have hscale : 0 ≤ r / len := div_nonneg hr hlen
      have hone : r / len ≤ 1 := (div_le_one hpos).mpr hlt.le
      have hslack : len * (r / len) ≤ r * (1 + 4 * (1 / 2 ^ 52)) := by
        rw [hmul]
        nlinarith
      refine ⟨r / len, ?_, hscale, hmul.le⟩
      have hcand : (fin r / fin len : Flt ℝ) = fin (r / len) := fin_div hne
      have hsound : ballScaleIsSound (fin len) (fin r) (fin (r / len)) = true := by
        simp only [ballScaleIsSound, isFinite_fin, epsilon, zero_def, one_def, fin_mul, fin_add,
          fin_le_fin, hscale, hone, hslack, and_self, decide_true, Bool.and_self]
      unfold ballScale
      simp only [isFinite_fin, zero_def, fin_lt_fin, hlt, hpos, decide_true, Bool.and_self,
        Bool.not_true, Bool.false_eq_true, if_false, hcand, hsound, if_true]
    · refine ⟨1, ?_, zero_le_one, ?_⟩
      · unfold ballScale
        simp only [isFinite_fin, zero_def, fin_lt_fin, hlt, decide_false, Bool.and_false,
          Bool.false_and, Bool.not_false, if_true, one_def]
      · rw [mul_one]
        exact not_lt.mp hlt

/-- A clamp into a symmetric box that ends in a number ends within the box. -/
theorem clampOrPanic_spec {x y u : Flt ℝ} (h : clampOrPanic x (-u) u = .ok y)
    (hfin : y.isFinite = true) : ∃ r, y = fin r ∧ fin |r| ≤ u := by
  obtain ⟨r, rfl⟩ := isFinite_iff.1 hfin
  refine ⟨r, rfl, ?_⟩
  unfold clampOrPanic at h
  split_ifs at h with hbox
  have hy : clamp x (-u) u = fin r := Except.ok.inj h
  cases u with
  | nan => exact absurd hbox id
  | negInf => cases hbox
  | posInf => trivial
  | fin m =>
    have hm : -m ≤ m := hbox
    show |r| ≤ m
    cases x with
    | nan => cases hy
    | negInf =>
      cases hy
      rw [abs_le]
      exact ⟨le_rfl, hm⟩
    | posInf =>
      cases hy
      rw [abs_le]
      exact ⟨hm, le_rfl⟩
    | fin a =>
      rw [neg_fin, clamp_fin hm] at hy
      cases hy
      rw [abs_le]
      exact ⟨le_max_left _ _, max_le hm (min_le_right _ _)⟩

/-- A clamp of a finite number is finite. -/
theorem clampOrPanic_finite {a : ℝ} {y u : Flt ℝ} (h : clampOrPanic (fin a) (-u) u = .ok y) :
    y.isFinite = true := by
  unfold clampOrPanic at h
  split_ifs at h with hbox
  cases h
  cases u with
  | nan => exact absurd hbox id
  | negInf => cases hbox
  | posInf => rfl
  | fin m => rw [neg_fin, clamp_fin hbox]; rfl

theorem clampOrPanic_self {x : ℝ} {u : Flt ℝ} (h : fin |x| ≤ u) :
    clampOrPanic (fin x) (-u) u = .ok (fin x) := by
  cases u with
  | nan => exact absurd h id
  | negInf => exact absurd h id
  | posInf => rfl
  | fin r =>
    have hx : |x| ≤ r := h
    obtain ⟨hlo, hhi⟩ := abs_le.mp hx
    have hbox : -r ≤ r := hlo.trans hhi
    rw [clampOrPanic, neg_fin, if_pos (show fin (-r) ≤ fin r from hbox), clamp_fin hbox,
      min_eq_left hhi, max_eq_right hlo]

/-! ## Backup commands -/

namespace Backup

variable {b : Backup ℝ} {pos vel g action : List (Flt ℝ)} {p : List ℝ}

/-- A box-clamped list of axes that ends finite is in the box. -/
theorem clamped_axes {n : ℕ} {f : ℕ → Flt ℝ} {u : Flt ℝ}
    (h : (List.range n).mapM (fun i => clampOrPanic (f i) (-u) u) = .ok action)
    (hfin : action.all isFinite = true) :
    ∃ a : List ℝ, action = a.map fin ∧ a.length = n ∧ ∀ x ∈ a, fin |x| ≤ u := by
  obtain ⟨a, rfl⟩ := exists_map_fin hfin
  have hlen := (mapM_eq_ok.1 h).length_eq
  refine ⟨a, rfl, by simpa using hlen.symm, ?_⟩
  have hbox : ∀ y ∈ a.map fin, y.isFinite = true → ∃ r, y = fin r ∧ fin |r| ≤ u :=
    forall_of_mapM h fun i y hy => clampOrPanic_spec hy
  intro x hx
  obtain ⟨r, hr, hle⟩ := hbox (fin x) (List.mem_map_of_mem hx) rfl
  cases hr
  exact hle

theorem finiteAt_isFinite (xs : List (Flt ℝ)) (i : ℕ) : ∃ r, finiteAt xs i = fin r := by
  unfold finiteAt
  cases xs[i]? with
  | none => exact ⟨0, rfl⟩
  | some x =>
    by_cases hx : x.isFinite = true
    · obtain ⟨r, rfl⟩ := isFinite_iff.1 hx
      exact ⟨r, rfl⟩
    · exact ⟨0, by simp only [hx]; rfl⟩

theorem brake_box (hk : b.kBrake.isFinite = true) (h : b.brake vel = .ok action) :
    ∃ a : List ℝ, action = a.map fin ∧ a.length = b.ctrlDim ∧ ∀ x ∈ a, fin |x| ≤ b.uMax := by
  unfold brake at h
  refine clamped_axes h (List.all_eq_true.mpr (forall_of_mapM h fun i y hy => ?_))
  obtain ⟨k, hkb⟩ := isFinite_iff.1 hk
  obtain ⟨r, hr⟩ := finiteAt_isFinite vel i
  unfold brakeAxis at hy
  rw [hkb, hr] at hy
  exact clampOrPanic_finite hy

theorem guardedMove_box (hk : b.kBrake.isFinite = true) (hctrl : b.ctrlDim = b.spatialDim)
    (h : b.guardedMove g pos vel = .ok action) :
    ∃ a : List ℝ, action = a.map fin ∧ a.length = b.ctrlDim ∧ ∀ x ∈ a, fin |x| ≤ b.uMax := by
  unfold guardedMove at h
  dsimp only at h
  split at h
  · exact brake_box hk h
  · obtain ⟨moved, hmoved, h⟩ := bind_eq_ok.1 h
    split at h
    · rename_i hguards
      cases h
      rw [hctrl]
      exact clamped_axes hmoved (Bool.and_eq_true_iff.mp hguards).2
    · exact brake_box hk h

/-- A proportional pull toward `g` from the pose, capped to a ball of radius `radius`. -/
theorem capped_pull {r : List ℝ} {radius : Flt ℝ} (hradius : 0 ≤ radius) :
    ∃ s, ballScale (norm (r.map fin)) radius = fin s ∧
      fin (euclid (r.map (· * s))) ≤ radius := by
  obtain ⟨s, hs, hs0, hle⟩ := ballScale_spec (euclid_nonneg r) hradius
  refine ⟨s, ?_, ?_⟩
  · unfold norm
    rw [sqrt_sum_sq, hs]
  · rw [euclid_scale r hs0]
    exact hle

theorem stopVelocity_eq : b.stopVelocity = (List.replicate b.ctrlDim (0 : ℝ)).map fin := by
  unfold stopVelocity
  rw [List.map_replicate]
  rfl

theorem stopVelocity_ball (hv : 0 ≤ b.vMax) :
    fin (euclid (List.replicate b.ctrlDim 0)) ≤ b.vMax := by
  rw [euclid_of_forall_zero fun x hx => List.eq_of_mem_replicate hx]
  exact hv

theorem finiteAt_of_take {xs : List (Flt ℝ)} {r : List ℝ} {n i : ℕ} (h : xs.take n = r.map fin)
    (hr : r.length = n) (hi : i < n) : finiteAt xs i = fin (r.getD i 0) := by
  have hget : xs[i]? = some (fin (r.getD i 0)) := by
    rw [← List.getElem?_take_of_lt hi, h, List.getElem?_map, List.getD_eq_getElem?_getD,
      List.getElem?_eq_getElem (hr ▸ hi)]
    rfl
  unfold finiteAt
  rw [hget]
  rfl

theorem holdPosition_eq (hp : pos.take b.ctrlDim = p.map fin) (hlen : p.length = b.ctrlDim) :
    b.holdPosition pos = p.map fin := by
  unfold holdPosition
  conv_rhs => rw [← range_map_getD hlen, List.map_map]
  apply List.map_congr_left
  intro i hi
  exact finiteAt_of_take hp hlen (List.mem_range.mp hi)

/-- What the input check of a guarded move establishes. -/
theorem badState_eq_false (h : ¬ b.badState g = true) :
    ∃ r : List ℝ, g.take b.spatialDim = r.map fin ∧ r.length = b.spatialDim := by
  unfold badState at h
  rw [Bool.or_eq_true, not_or] at h
  obtain ⟨hlen, hfin⟩ := h
  have hlen' : b.spatialDim ≤ g.length := by simpa using hlen
  have hall : allFinite (g.take b.spatialDim) = true := by simpa using hfin
  obtain ⟨r, hr⟩ := exists_map_fin hall
  refine ⟨r, hr, ?_⟩
  have hlengths := congrArg List.length hr
  rw [List.length_take, List.length_map, min_eq_left hlen'] at hlengths
  exact hlengths.symm

theorem guardedVelocity_ball (hctrl : b.ctrlDim = b.spatialDim) (hk : b.kP.isFinite = true)
    (hv : 0 ≤ b.vMax) :
    ∃ a : List ℝ, b.guardedVelocity g pos = a.map fin ∧ a.length = b.ctrlDim ∧
      fin (euclid a) ≤ b.vMax := by
  have hstop : ∃ a : List ℝ, b.stopVelocity = a.map fin ∧ a.length = b.ctrlDim ∧
      fin (euclid a) ≤ b.vMax :=
    ⟨_, stopVelocity_eq, List.length_replicate, stopVelocity_ball hv⟩
  unfold guardedVelocity
  dsimp only
  split
  · exact hstop
  · rename_i hbad
    rw [not_or, not_or] at hbad
    obtain ⟨pr, hpr, -⟩ := badState_eq_false hbad.2.1
    obtain ⟨gr, hgr, -⟩ := badState_eq_false hbad.2.2
    obtain ⟨k, hkP⟩ := isFinite_iff.1 hk
    obtain ⟨r, hr⟩ : ∃ r, r = (List.range b.spatialDim).map fun i =>
      k * (gr.getD i 0 - pr.getD i 0) := ⟨_, rfl⟩
    have hpull : ((List.range b.spatialDim).map fun i =>
        b.kP * (coordAt g i - coordAt pos i)) = r.map fin := by
      rw [hr, List.map_map]
      apply List.map_congr_left
      intro i hi
      have hi := List.mem_range.mp hi
      rw [coordAt_of_take hpr hi, coordAt_of_take hgr hi, hkP, fin_sub, fin_mul]
      rfl
    obtain ⟨s, hs, hle⟩ := capped_pull (r := r) hv
    rw [hpull, hs]
    split
    · refine ⟨r.map (· * s), ?_, by simp [hr, hctrl], hle⟩
      rw [List.map_map, List.map_map]
      rfl
    · exact hstop

theorem guardedPosition_ball (hctrl : b.ctrlDim = b.spatialDim)
    (hp : pos.take b.ctrlDim = p.map fin) (hlen : p.length = b.ctrlDim) (hstep : 0 ≤ b.stepMax) :
    ∃ a : List ℝ, b.guardedPosition g pos = a.map fin ∧ a.length = b.ctrlDim ∧
      fin (euclid (vsub a p)) ≤ b.stepMax := by
  have hhold : ∃ a : List ℝ, b.holdPosition pos = a.map fin ∧ a.length = b.ctrlDim ∧
      fin (euclid (vsub a p)) ≤ b.stepMax := by
    refine ⟨p, holdPosition_eq hp hlen, hlen, ?_⟩
    rw [euclid_of_forall_zero (vsub_self p)]
    exact hstep
  unfold guardedPosition
  dsimp only
  split
  · exact hhold
  · rename_i hbad
    rw [not_or, not_or] at hbad
    obtain ⟨gr, hgr, -⟩ := badState_eq_false hbad.2.2
    rw [hctrl] at hp hlen
    obtain ⟨r, hr⟩ : ∃ r, r = (List.range b.spatialDim).map fun i =>
      gr.getD i 0 - p.getD i 0 := ⟨_, rfl⟩
    have hpull : ((List.range b.spatialDim).map fun i => coordAt g i - coordAt pos i) =
        r.map fin := by
      rw [hr, List.map_map]
      apply List.map_congr_left
      intro i hi
      have hi := List.mem_range.mp hi
      rw [coordAt_of_take hp hi, coordAt_of_take hgr hi, fin_sub]
      rfl
    obtain ⟨s, hs, hle⟩ := capped_pull (r := r) hstep
    obtain ⟨a, ha⟩ : ∃ a, a = (List.range b.spatialDim).map fun i =>
      p.getD i 0 + r.getD i 0 * s := ⟨_, rfl⟩
    have haction : ((List.range b.spatialDim).map fun i =>
        coordAt pos i + coordAt (r.map fin) i * fin s) = a.map fin := by
      rw [ha, List.map_map]
      apply List.map_congr_left
      intro i hi
      rw [coordAt_of_take hp (List.mem_range.mp hi), coordAt_map_fin, fin_mul, fin_add]
      rfl
    have hdiff : vsub a p = r.map (· * s) := by
      apply List.ext_getElem
      · simp [vsub, ha, hr, hlen]
      · intro i h₁ h₂
        have hi : i < b.spatialDim := by simpa [hr] using h₂
        simp [vsub, ha, hr, hi, hlen]
    rw [hpull, hs, haction]
    split
    · refine ⟨a, rfl, by simp [ha, hctrl], ?_⟩
      rw [hdiff]
      exact hle
    · exact hhold

/-- Every backup command lies in the actuator set of its mode. -/
theorem control_inActuatorSet {kind : BackupKind} {mode : ControlMode}
    {holdTarget : Option (List (Flt ℝ))} (hctrl : b.ctrlDim = b.spatialDim)
    (hk : b.kBrake.isFinite = true) (hkP : b.kP.isFinite = true) (hv : 0 ≤ b.vMax)
    (hstep : 0 ≤ b.stepMax) (hp : pos.take b.ctrlDim = p.map fin) (hlen : p.length = b.ctrlDim)
    (h : b.control kind mode pos vel holdTarget = .ok action) :
    ∃ a : List ℝ, action = a.map fin ∧ a.length = b.ctrlDim ∧
      InActuatorSet b.uMax b.vMax b.stepMax mode p a := by
  unfold control at h
  dsimp only at h
  split at h
  · exact brake_box hk h
  · exact guardedMove_box hk hctrl h
  · cases h
    exact ⟨_, stopVelocity_eq, List.length_replicate, stopVelocity_ball hv⟩
  · cases h
    exact guardedVelocity_ball hctrl hkP hv
  · cases h
    refine ⟨p, holdPosition_eq hp hlen, hlen, ?_⟩
    show fin (euclid (vsub p p)) ≤ b.stepMax
    rw [euclid_of_forall_zero (vsub_self p)]
    exact hstep
  · cases h
    exact guardedPosition_ball hctrl hp hlen hstep

end Backup

/-! ## The barrier of a described volume -/

theorem geometryDim_describes {t : KeepOutTerm ℝ} {k : KeepOut} {d : ℕ} (hk : k.Describes t)
    (hd : geometryDim t = .ok d) : k.dim = d := by
  simp only [geometryDim, bind_eq_ok] at hd
  obtain ⟨n, hn, -, -, hd⟩ := hd
  cases hd
  unfold geometryArity at hn
  cases k with
  | sphere center radius margin =>
    obtain ⟨hs, hc, -, -⟩ := hk
    rw [hs] at hn
    obtain ⟨-, -, hn⟩ := bind_eq_ok.1 hn
    cases hn
    rw [hc, List.length_map, KeepOut.dim]
  | box center halfExtents margin =>
    obtain ⟨hs, hc, -, -⟩ := hk
    rw [hs] at hn
    obtain ⟨-, -, hn⟩ := bind_eq_ok.1 hn
    cases hn
    rw [hc, List.length_map, KeepOut.dim]
  | halfSpace normal offset margin =>
    obtain ⟨hs, hc, -, -⟩ := hk
    rw [hs] at hn
    obtain ⟨-, -, hn⟩ := bind_eq_ok.1 hn
    cases hn
    rw [hc, List.length_map, KeepOut.dim]

theorem sqrt_distSq {c q : List ℝ} {dim : ℕ} {coord : ℕ → Flt ℝ} (hc : c.length = dim)
    (hq : q.length = dim) (hcoord : ∀ i, i < dim → coord i = fin (q.getD i 0)) :
    Flt.sqrt (distSq (c.map fin) dim coord) = fin (euclid (vsub q c)) := by
  have hdiff : (List.range dim).map (fun i => coord i - coordAt (c.map fin) i) =
      (vsub q c).map fin := by
    have hvsub : vsub q c = (List.range dim).map fun i => q.getD i 0 - c.getD i 0 := by
      apply List.ext_getElem
      · simp [vsub, hc, hq]
      · intro i h₁ h₂
        have hi : i < dim := by simpa using h₂
        simp [vsub, hi, hc, hq]
    rw [hvsub, List.map_map]
    apply List.map_congr_left
    intro i hi
    rw [hcoord i (List.mem_range.mp hi), coordAt_map_fin, fin_sub]
    rfl
  have hsq : distSq (c.map fin) dim coord = Flt.sum (((vsub q c).map fin).map fun x => x * x) := by
    unfold distSq
    rw [← hdiff, List.map_map]
    rfl
  rw [hsq, sqrt_sum_sq]

theorem scalar_div (a b : List ℝ) (n : ℝ) : scalar (a.map (· / n)) b = scalar a b / n := by
  unfold scalar
  induction a generalizing b with
  | nil => simp
  | cons x xs ih =>
    cases b with
    | nil => simp
    | cons y ys =>
      simp only [List.map_cons, List.zipWith_cons_cons, List.sum_cons, ih ys]
      ring

theorem sum_coords_mul {a q : List ℝ} {dim : ℕ} {coord : ℕ → Flt ℝ} (ha : a.length = dim)
    (hq : q.length = dim) (hcoord : ∀ i, i < dim → coord i = fin (q.getD i 0)) :
    Flt.sum ((List.range dim).map fun i => coordAt (a.map fin) i * coord i) =
      fin (scalar a q) := by
  have hmul : ((List.range dim).map fun i => coordAt (a.map fin) i * coord i) =
      (List.zipWith (· * ·) a q).map fin := by
    have hzip : List.zipWith (· * ·) a q = (List.range dim).map fun i =>
        a.getD i 0 * q.getD i 0 := by
      apply List.ext_getElem
      · simp [ha, hq]
      · intro i h₁ h₂
        have hi : i < dim := by simpa using h₂
        simp [hi, ha, hq]
    rw [hzip, List.map_map]
    apply List.map_congr_left
    intro i hi
    rw [hcoord i (List.mem_range.mp hi), coordAt_map_fin, fin_mul]
    rfl
  rw [hmul, sum_fin, scalar]

theorem resize_self {xs : List (Flt ℝ)} {dim : ℕ} (h : xs.length = dim) : resize xs dim = xs := by
  subst h
  simp [resize]

/-- The barrier that stands for a volume. -/
noncomputable def KeepOut.toBarrier : KeepOut → Barrier ℝ
  | sphere center radius margin => .norm (center.map fin) (fin (radius + margin))
  | box center halfExtents margin => .norm (center.map fin) (fin (euclid halfExtents + margin))
  | halfSpace normal offset margin =>
    let n := max (euclid normal) (1 / 2 ^ 1022)
    .half ((normal.map (· / n)).map fin) (fin ((margin - offset) / n))

/-- The barrier of a term with real coefficients. -/
theorem Barrier.fromTerm_describes {t : KeepOutTerm ℝ} {k : KeepOut} {dim : ℕ}
    (hk : k.Describes t) (hdim : geometryDim t = .ok dim) :
    Barrier.fromTerm t dim = k.toBarrier := by
  have hlen := geometryDim_describes hk hdim
  cases k with
  | sphere center radius margin =>
    obtain ⟨hs, hc, hr, hm⟩ := hk
    simp only [Barrier.fromTerm, hs, hc, hr, hm, Option.getD_some, fin_add, KeepOut.toBarrier]
  | box center halfExtents margin =>
    obtain ⟨hs, hc, he, hm⟩ := hk
    simp only [Barrier.fromTerm, hs, hc, he, hm, Guard.norm, sqrt_sum_sq, fin_add,
      KeepOut.toBarrier]
  | halfSpace normal offset margin =>
    obtain ⟨hs, hn, ho, hm⟩ := hk
    have hlen : normal.length = dim := hlen
    have hmax : Flt.max (Guard.norm t.normal) minPositive =
        fin (max (euclid normal) (1 / 2 ^ 1022)) := by
      rw [hn, Guard.norm, sqrt_sum_sq, minPositive, max_fin]
    obtain ⟨n, hnorm⟩ : ∃ n, n = max (euclid normal) ((1 : ℝ) / 2 ^ 1022) := ⟨_, rfl⟩
    have hpos : 0 < n := by
      rw [hnorm]
      exact lt_max_of_lt_right (by positivity)
    have hunit : (t.normal.map fun x => x / fin n) = (normal.map (· / n)).map fin := by
      rw [hn, List.map_map, List.map_map]
      apply List.map_congr_left
      intro x _
      exact fin_div hpos.ne'
    rw [← hnorm] at hmax
    simp only [Barrier.fromTerm, hs, hmax, hunit, hm, ho, Option.getD_some, KeepOut.toBarrier,
      ← hnorm]
    rw [resize_self (by simpa using hlen), fin_sub, fin_div hpos.ne']

/-- The float barrier of a term with real coefficients computes the exact barrier value. -/
theorem Barrier.staticH_describes {t : KeepOutTerm ℝ} {k : KeepOut} {dim : ℕ} {q : List ℝ}
    {coord : ℕ → Flt ℝ} (hk : k.Describes t) (hdim : geometryDim t = .ok dim)
    (hq : q.length = dim) (hcoord : ∀ i, i < dim → coord i = fin (q.getD i 0)) :
    (Barrier.fromTerm t dim).staticH dim coord = fin (k.barrier q) := by
  rw [Barrier.fromTerm_describes hk hdim]
  have hlen := geometryDim_describes hk hdim
  cases k with
  | sphere center radius margin =>
    simp only [KeepOut.toBarrier, Barrier.staticH, sqrt_distSq hlen hq hcoord, fin_sub,
      KeepOut.barrier]
  | box center halfExtents margin =>
    simp only [KeepOut.toBarrier, Barrier.staticH, sqrt_distSq hlen hq hcoord, fin_sub,
      KeepOut.barrier]
  | halfSpace normal offset margin =>
    have hlen : normal.length = dim := hlen
    simp only [KeepOut.toBarrier, Barrier.staticH]
    rw [sum_coords_mul (by simpa using hlen) hq hcoord, fin_sub, scalar_div, KeepOut.barrier]
    congr 1
    ring

/-! ## Certified commands -/

namespace Shield

variable {s : Shield ℝ} {mode : ControlMode}

/-- The kinematic check of `certify` puts the command in the actuator set with the tolerance. -/
theorem certifyKinematic_inActuatorSet {p x : List (Flt ℝ)} {pr : List ℝ} (hu : 0 ≤ s.uMax)
    (hv : 0 ≤ s.vMax) (hstep : 0 ≤ s.stepMax) (htol : 0 ≤ s.cfg.tol)
    (hp : p.take s.dim = pr.map fin) (h : s.certifyKinematic mode (p.take s.dim) x = true) :
    ∃ a : List ℝ, x = a.map fin ∧ InActuatorSet (s.uMax + s.cfg.tol) (s.vMax + s.cfg.tol)
      (s.stepMax + s.cfg.tol) mode pr a := by
  unfold certifyKinematic at h
  cases mode with
  | effort =>
    simp only [List.all_eq_true, Bool.and_eq_true, Bool.not_eq_true', decide_eq_false_iff_not] at h
    obtain ⟨a, rfl⟩ := exists_map_fin (List.all_eq_true.mpr fun y hy => (h y hy).1)
    refine ⟨a, rfl, fun y hy => ?_⟩
    have hle := (h (fin y) (List.mem_map_of_mem hy)).2
    rw [abs_fin] at hle
    exact fin_le_of_not_lt (ne_nan_of_nonneg_add hu htol) hle
  | velocity =>
    rw [Bool.and_eq_true] at h
    obtain ⟨hfin, hle⟩ := h
    obtain ⟨a, rfl⟩ := exists_of_sqrt_finite hfin
    refine ⟨a, rfl, ?_⟩
    have hle : ¬ s.vMax + s.cfg.tol < Guard.norm (a.map fin) := by simpa using hle
    rw [Guard.norm, sqrt_sum_sq] at hle
    exact fin_le_of_not_lt (ne_nan_of_nonneg_add hv htol) hle
  | position =>
    rw [Bool.and_eq_true] at h
    obtain ⟨hfin, hle⟩ := h
    obtain ⟨a, rfl⟩ := exists_map_fin hfin
    refine ⟨a, rfl, ?_⟩
    rw [hp, zipWith_sub] at hle
    have hle : ¬ s.stepMax + s.cfg.tol < Guard.norm ((vsub a pr).map fin) := by simpa using hle
    rw [Guard.norm, sqrt_sum_sq] at hle
    exact fin_le_of_not_lt (ne_nan_of_nonneg_add hstep htol) hle

/-- The coordinates of the pose a certified command realises. -/
theorem next_eq {p : List (Flt ℝ)} {pr a : List ℝ} {dt : ℝ} (hdt : s.dt = fin dt)
    (hp : p.take s.dim = pr.map fin) (hpl : pr.length = s.dim) (hal : a.length = s.dim) {i : ℕ}
    (hi : i < s.dim) :
    s.next mode p (a.map fin) i = fin ((nextPose mode dt pr a).getD i 0) := by
  unfold next nextPose
  cases mode with
  | effort => exact coordAt_of_take hp hi
  | position => exact coordAt_map_fin a i
  | velocity =>
    dsimp only
    rw [coordAt_of_take hp hi, coordAt_map_fin, hdt, fin_mul, fin_add]
    congr 1
    simp [hpl, hal, hi]

theorem nextPose_length {dt : ℝ} {pr a : List ℝ} {n : ℕ} (hpl : pr.length = n)
    (hal : a.length = n) : (nextPose mode dt pr a).length = n := by
  cases mode <;> simp [nextPose, hpl, hal]

/-- **Main theorem.** A certified command lies in the actuator set of its mode up to the tolerance,
    and in a kinematic mode it moves to a pose outside every keep-out volume up to the tolerance. -/
theorem solveMode_certified {terms : List (KeepOutTerm ℝ)} {d : ℕ} {cfg : ShieldConfig ℝ} {T : ℝ}
    {limits : ActionLimits ℝ} (hs : s = Shield.new terms d cfg (fin T) limits) (hT : 0 < T)
    (hu : 0 ≤ s.uMax) (hv : 0 ≤ s.vMax) (hstep : 0 ≤ s.stepMax) (htol : 0 ≤ cfg.tol)
    {p v x0 : List (Flt ℝ)} {pr : List ℝ} (hp : p.take d = pr.map fin) (hpl : pr.length = d)
    {out : ShieldOutcome ℝ} (h : s.solveMode mode p v x0 = .ok out) (hc : out.certified = true) :
    ∃ a : List ℝ, out.action = a.map fin ∧ a.length = d ∧
      InActuatorSet (s.uMax + cfg.tol) (s.vMax + cfg.tol) (s.stepMax + cfg.tol) mode pr a ∧
      (mode ≠ .effort → ∀ t ∈ terms, geometryDim t = .ok d → ∀ k : KeepOut, k.Describes t →
        -cfg.tol ≤ fin (k.barrier (nextPose mode T pr a))) := by
  have hdim : s.dim = d := by rw [hs]; rfl
  have hcfg : s.cfg = cfg := by rw [hs]; rfl
  have hbarriers : s.barriers = terms.map (Barrier.fromTerm · d) := by rw [hs]; rfl
  have hdt : s.dt = fin T := by
    rw [hs]
    exact if_pos ⟨rfl, hT⟩
  have hsized : ∀ b ∈ s.barriers, b.Sized s.dim := by
    intro b hb
    rw [hbarriers] at hb
    obtain ⟨t, -, rfl⟩ := List.mem_map.mp hb
    rw [hdim]
    exact Barrier.fromTerm_sized t d
  obtain ⟨hlen, rows, hcert⟩ := solveMode_certify hsized h hc
  obtain ⟨hkin, hexact⟩ := certify_parts hcert
  rw [← hdim] at hp hpl
  rw [← hcfg] at htol
  obtain ⟨a, ha, hset⟩ := certifyKinematic_inActuatorSet hu hv hstep htol hp hkin
  have hal : a.length = s.dim := by
    rw [← hlen, ha, List.length_map]
  refine ⟨a, ha, hal.trans hdim, hcfg ▸ hset, fun hmode t ht hgeo k hk => ?_⟩
  have hb := hexact hmode (Barrier.fromTerm t d) (by
    rw [hbarriers]
    exact List.mem_map_of_mem ht)
  have hcoord : ∀ i, i < s.dim → s.next mode p out.action i =
      fin ((nextPose mode T pr a).getD i 0) := by
    intro i hi
    rw [ha]
    exact next_eq hdt hp hpl hal hi
  rw [← hdim] at hgeo hb
  rw [Barrier.staticH_describes hk hgeo (nextPose_length hpl hal) hcoord] at hb
  rw [← hcfg]
  have hneg : -s.cfg.tol ≠ .nan := by
    revert htol
    cases s.cfg.tol with
    | nan => exact fun h => absurd h id
    | negInf => exact fun h => absurd h id
    | fin x => exact fun _ h => by cases h
    | posInf => exact fun _ h => by cases h
  exact le_fin_of_not_lt hneg hb

end Shield

/-! ## Every tick of every run -/

/-- The ceilings and gains of a configuration are physical: not NaN, the ceilings and the tolerance
    not negative. The code does not check its configuration; its verification harnesses assume
    these of the ceilings and the gain (`verify.rs:79-80`), and the defaults meet them. -/
structure CoreConfig.Physical (cfg : CoreConfig ℝ) : Prop where
  uMax : 0 ≤ cfg.shield.uMax
  vMax : 0 ≤ cfg.shield.vMax
  tol : 0 ≤ cfg.shield.tol
  kBrake : cfg.kBrake.isFinite = true

namespace SafetyCore

/-- The acceleration ceiling that is enforced: the configured one, tightened by the authored one. -/
noncomputable def accelCeiling (model : CompiledSafetyModel ℝ) (cfg : CoreConfig ℝ) : Flt ℝ :=
  tighten cfg.shield.uMax model.actionLimits.maxAccelMps2

/-- The speed ceiling that is enforced: the configured one, tightened by the authored one. -/
noncomputable def speedCeiling (model : CompiledSafetyModel ℝ) (cfg : CoreConfig ℝ) : Flt ℝ :=
  tighten cfg.shield.vMax model.actionLimits.maxVelocityMps

/-- The command `a` of a verdict in a space of dimension `d` sampled every `T` seconds, at the pose
    `pose`. -/
structure SafeCommand (model : CompiledSafetyModel ℝ) (cfg : CoreConfig ℝ) (d : ℕ) (T : ℝ)
    (pose : List ℝ) (input : SafetyInput ℝ) (v : SafetyVerdict ℝ) (a : List ℝ) : Prop where
  action : v.certifiedAction = a.map fin
  length : a.length = d ∨ a = [] ∧ input.proposed.controlMode = none
  inSet : InActuatorSet (accelCeiling model cfg + cfg.shield.tol)
    (speedCeiling model cfg + cfg.shield.tol)
    (speedCeiling model cfg * fin T + cfg.shield.tol) v.certifiedMode pose a
  keepsOut : v.layer ≠ .backup → input.proposed.controlMode ≠ none → v.certifiedMode ≠ .effort →
    ∀ t ∈ model.keepOutTerms, ∀ k : KeepOut, k.Describes t →
      -cfg.shield.tol ≤ fin (k.barrier (nextPose v.certifiedMode T pose a))

theorem tighten_nonneg {x : Flt ℝ} (limit : Option (Flt ℝ)) (hx : 0 ≤ x) :
    0 ≤ tighten x limit := by
  unfold tighten
  cases limit with
  | none => exact hx
  | some l =>
    dsimp only
    split
    · rename_i hl
      obtain ⟨y, rfl⟩ := isFinite_iff.1 hl.1
      have hy : 0 < y := hl.2
      cases x with
      | nan => exact absurd hx id
      | negInf => exact absurd hx id
      | posInf => exact hy.le
      | fin z =>
        rw [min_fin]
        exact le_min hx hy.le
    · exact hx

theorem mul_fin_nonneg {x : Flt ℝ} {T : ℝ} (hx : 0 ≤ x) (hT : 0 < T) : 0 ≤ x * fin T := by
  cases x with
  | nan => exact absurd hx id
  | negInf => exact absurd hx id
  | posInf =>
    show 0 ≤ infOfSign T
    rw [infOfSign, if_pos hT]
    trivial
  | fin z => exact mul_nonneg hx hT.le

theorem inActuatorSet_tol {u v s tol : Flt ℝ} {mode : ControlMode} {p a : List ℝ} (htol : 0 ≤ tol)
    (h : InActuatorSet u v s mode p a) : InActuatorSet (u + tol) (v + tol) (s + tol) mode p a := by
  cases mode with
  | effort => exact fun x hx => le_add_of_le (h x hx) htol
  | velocity => exact le_add_of_le h htol
  | position => exact le_add_of_le h htol

/-- A core in a state that a run from the model reaches. -/
structure Deployed (model : CompiledSafetyModel ℝ) (cfg : CoreConfig ℝ) (d : ℕ) (T : ℝ)
    (core : SafetyCore ℝ) : Prop where
  physical : cfg.Physical
  period : model.samplePeriodS = fin T
  period_pos : 0 < T
  spatialDim : model.spatialDim = some d
  dim_pos : 0 < d
  keepOut : ∀ t ∈ model.keepOutTerms, geometryDim t = .ok d
  keepOut_ne : model.keepOutTerms ≠ []
  static : SameStatic (fromModel model cfg) core

section Emitted

variable {model : CompiledSafetyModel ℝ} {cfg : CoreConfig ℝ} {d : ℕ} {T : ℝ} {pose : List ℝ}
  {core core' : SafetyCore ℝ} {input : SafetyInput ℝ} {v : SafetyVerdict ℝ}

theorem Deployed.of_static (h : Deployed model cfg d T core) (hs : SameStatic core core') :
    Deployed model cfg d T core' :=
  { h with static := h.static.trans hs }

theorem Deployed.backup (h : Deployed model cfg d T core) :
    core.backup = Backup.new d cfg.shield cfg.kBrake (fin T) model.safePose model.keepOutTerms
      model.actionLimits := by
  rw [h.static.backup, ← h.period]
  show Backup.new (model.spatialDim.getD 0) _ _ _ _ _ _ = _
  rw [h.spatialDim]
  rfl

theorem Deployed.shield (h : Deployed model cfg d T core) :
    core.shield = some (Shield.new model.keepOutTerms d cfg.shield (fin T) model.actionLimits) := by
  have hne : model.keepOutTerms.length ≠ 0 := by
    rw [Ne, List.length_eq_zero_iff]
    exact h.keepOut_ne
  rw [h.static.shield]
  unfold fromModel
  simp only [h.spatialDim, h.period, Option.getD_some]
  rw [if_pos ⟨h.dim_pos, hne⟩]

theorem Deployed.speedStep_nonneg (h : Deployed model cfg d T core) :
    0 ≤ speedCeiling model cfg * fin T :=
  mul_fin_nonneg (tighten_nonneg _ h.physical.vMax) h.period_pos

/-- A backup command is safe. -/
theorem control_safeCommand (h : Deployed model cfg d T core)
    (hpose : input.position.take d = pose.map fin) (hlen : pose.length = d) {kind : BackupKind}
    {hold : Option (List (Flt ℝ))} (hlayer : v.layer = .backup)
    (hok : core.backup.control kind v.certifiedMode input.position input.velocity hold =
      .ok v.certifiedAction) :
    ∃ a, SafeCommand model cfg d T pose input v a := by
  have hb := h.backup
  have hdt : soundDt (fin T) = fin T := if_pos ⟨rfl, h.period_pos⟩
  have hctrl : core.backup.ctrlDim = d := by
    rw [hb]
    exact max_eq_left h.dim_pos
  have hspatial : core.backup.spatialDim = d := by rw [hb]; rfl
  have hstep : core.backup.stepMax = speedCeiling model cfg * fin T := by
    rw [hb]
    show speedCeiling model cfg * soundDt (fin T) = _
    rw [hdt]
  have hu : core.backup.uMax = accelCeiling model cfg := by rw [hb]; rfl
  have hv : core.backup.vMax = speedCeiling model cfg := by rw [hb]; rfl
  have hk : core.backup.kBrake.isFinite = true := by
    rw [hb]
    exact h.physical.kBrake
  have hkP : core.backup.kP.isFinite = true := by
    obtain ⟨k, hk⟩ := isFinite_iff.1 h.physical.kBrake
    rw [hb]
    show (cfg.kBrake * cfg.kBrake / fin 4).isFinite = true
    rw [hk, fin_mul, fin_div (by norm_num)]
    rfl
  have hv0 : 0 ≤ core.backup.vMax := by
    rw [hv]
    exact tighten_nonneg _ h.physical.vMax
  have hstep0 : 0 ≤ core.backup.stepMax := by
    rw [hstep]
    exact h.speedStep_nonneg
  obtain ⟨a, ha, hal, hset⟩ := Backup.control_inActuatorSet (hctrl.trans hspatial.symm) hk hkP hv0
    hstep0 (by rw [hctrl, hpose]) (by rw [hctrl, hlen]) hok
  rw [hstep, hu, hv] at hset
  exact ⟨a, ha, .inl (hal.trans hctrl), inActuatorSet_tol h.physical.tol hset,
    fun hne => absurd hlayer hne⟩

theorem emitBackup_safeCommand (h : Deployed model cfg d T core)
    (hpose : input.position.take d = pose.map fin) (hlen : pose.length = d) {kind : BackupKind}
    {reason : Reason} {fired : List ℕ} {minH : Flt ℝ}
    (hok : core.emitBackup input kind reason fired minH = .ok (core', v)) :
    ∃ a, SafeCommand model cfg d T pose input v a := by
  simp only [emitBackup, bind_eq_ok] at hok
  obtain ⟨action, hcontrol, hok⟩ := hok
  cases hok
  have hlatch : Deployed model cfg d T (core.latchHold input kind) := by
    obtain ⟨a, b, hl⟩ := latchHold_eq core input kind
    rw [hl]
    exact h.of_static ⟨rfl, rfl, rfl, rfl, rfl, rfl⟩
  exact control_safeCommand hlatch hpose hlen rfl hcontrol

theorem emitWatchdog_safeCommand (h : Deployed model cfg d T core)
    (hpose : input.position.take d = pose.map fin) (hlen : pose.length = d)
    (hok : core.emitWatchdog input = .ok (core', v)) :
    ∃ a, SafeCommand model cfg d T pose input v a := by
  simp only [emitWatchdog, bind_eq_ok] at hok
  obtain ⟨action, hcontrol, hok⟩ := hok
  cases hok
  exact control_safeCommand h hpose hlen rfl hcontrol

/-- The gate and the shield: an admitted directive commands nothing, and the shield certifies what
    it passes on. -/
theorem gateAndShield_safeCommand (h : Deployed model cfg d T core)
    (hpose : input.position.take d = pose.map fin) (hlen : pose.length = d)
    (hok : core.gateAndShield input = .ok (core', v)) :
    ∃ a, SafeCommand model cfg d T pose input v a := by
  unfold gateAndShield at hok
  split at hok
  · rename_i hmode
    split_ifs at hok
    · cases hok
      have hu := le_add_of_le (tighten_nonneg model.actionLimits.maxAccelMps2
        h.physical.uMax) h.physical.tol
      have hv := le_add_of_le (tighten_nonneg model.actionLimits.maxVelocityMps
        h.physical.vMax) h.physical.tol
      have hs := le_add_of_le h.speedStep_nonneg h.physical.tol
      refine ⟨[], rfl, .inr ⟨rfl, hmode⟩, ?_, fun _ hne => absurd hmode hne⟩
      unfold InActuatorSet
      split
      · simp
      · rw [euclid_of_forall_zero (by simp)]
        exact hv
      · rw [euclid_of_forall_zero (by simp [vsub])]
        exact hs
    · exact emitBackup_safeCommand h hpose hlen hok
  · rename_i mode hmode
    rw [h.shield] at hok
    obtain ⟨out, hsolve, hok⟩ := bind_eq_ok.1 hok
    split_ifs at hok with hcert
    · cases hok
      obtain ⟨a, ha, hal, hset, hout⟩ := Shield.solveMode_certified rfl h.period_pos
        (tighten_nonneg _ h.physical.uMax) (tighten_nonneg _ h.physical.vMax) (by
          show 0 ≤ speedCeiling model cfg * soundDt (fin T)
          rw [soundDt, if_pos ⟨rfl, h.period_pos⟩]
          exact h.speedStep_nonneg) h.physical.tol hpose hlen hsolve hcert
      refine ⟨a, ha, .inl hal, ?_, fun _ _ hne t ht k hk => hout hne t ht (h.keepOut t ht) k hk⟩
      have hstep : (Shield.new model.keepOutTerms d cfg.shield (fin T) model.actionLimits).stepMax =
          speedCeiling model cfg * fin T := by
        show speedCeiling model cfg * soundDt (fin T) = _
        rw [soundDt, if_pos ⟨rfl, h.period_pos⟩]
      rw [hstep] at hset
      exact hset
    · exact emitBackup_safeCommand h hpose hlen hok

theorem decide_safeCommand (h : Deployed model cfg d T core)
    (hpose : input.position.take d = pose.map fin) (hlen : pose.length = d) {fw : Bool}
    (hok : core.decide input fw = .ok (core', v)) :
    ∃ a, SafeCommand model cfg d T pose input v a := by
  unfold SafetyCore.decide at hok
  split_ifs at hok
  · exact emitWatchdog_safeCommand h hpose hlen hok
  · exact emitBackup_safeCommand h hpose hlen hok
  · obtain ⟨predRob, -, hok⟩ := bind_eq_ok.1 hok
    obtain ⟨⟨monitors, fired⟩, -, hok⟩ := bind_eq_ok.1 hok
    obtain ⟨hit, -, hok⟩ := bind_eq_ok.1 hok
    have hstepped : Deployed model cfg d T { core with monitors := monitors } :=
      h.of_static ⟨rfl, rfl, rfl, rfl, rfl, rfl⟩
    split at hok
    · exact emitBackup_safeCommand hstepped hpose hlen hok
    · split at hok
      · exact emitBackup_safeCommand hstepped hpose hlen hok
      · exact gateAndShield_safeCommand hstepped hpose hlen hok

theorem tick_safeCommand {t : Tick ℝ} (h : Deployed model cfg d T core)
    (hpose : t.1.position.take d = pose.map fin) (hlen : pose.length = d)
    (hok : core.tick t = .ok (core', v)) :
    ∃ a, SafeCommand model cfg d T pose t.1 v a := by
  obtain ⟨input, w⟩ := t
  cases w with
  | idle => exact decide_safeCommand h hpose hlen hok
  | forced => exact decide_safeCommand h hpose hlen hok
  | expired =>
    obtain ⟨⟨core₁, v₁⟩, hd, hw⟩ := bind_eq_ok.1 hok
    exact emitWatchdog_safeCommand (h.of_static (decide_static hd)) hpose hlen hw

/-- Every state of a run of an accepted model with keep-out terms is deployed. -/
theorem Deployed.of_run (hvalid : model.Valid) (hcfg : cfg.Physical)
    (hterms : model.keepOutTerms ≠ []) (hperiod : model.samplePeriodS = fin T) (hT : 0 < T)
    (hd : model.spatialDim = some d) {ticks : List (Tick ℝ)} {vs : List (SafetyVerdict ℝ)}
    (hrun : (fromModel model cfg).run ticks = .ok (core, vs)) : Deployed model cfg d T core where
  physical := hcfg
  period := hperiod
  period_pos := hT
  spatialDim := hd
  dim_pos := (hvalid.spatialDim d hd).1
  keepOut := by
    intro t ht
    obtain ⟨d', hgeo, hd'⟩ := hvalid.keepOutTerms t ht
    rw [hd] at hd'
    cases hd'
    exact hgeo
  keepOut_ne := hterms
  static := run_static hrun

/-- **Main theorem.** In every run of an accepted model with keep-out terms, whichever layer emits
    it, the command of every tick with a real pose lies in the actuator set of its mode, and a
    certified velocity or position command moves to a pose whose exact barrier value is at least
    `-tol` for every keep-out term. -/
theorem run_tick_emitted {p : Proto.CompiledSafetyModel ℝ}
    (hmodel : CompiledSafetyModel.fromProto p cfg.maxHistoryCap = .ok model)
    (hterms : model.keepOutTerms ≠ []) (hcfg : cfg.Physical) :
    ∃ (d : ℕ) (T : ℝ), model.spatialDim = some d ∧ model.samplePeriodS = fin T ∧ 0 < T ∧
      ∀ (ticks : List (Tick ℝ)) (core : SafetyCore ℝ) (vs : List (SafetyVerdict ℝ)),
        (fromModel model cfg).run ticks = .ok (core, vs) →
        ∀ (t : Tick ℝ) (core' : SafetyCore ℝ) (v : SafetyVerdict ℝ) (pose : List ℝ),
          t.1.position.take d = pose.map fin → pose.length = d →
          core.tick t = .ok (core', v) → ∃ a, SafeCommand model cfg d T pose t.1 v a := by
  have hvalid := CompiledSafetyModel.fromProto_valid hmodel
  obtain ⟨T, hT, hperiod⟩ := hvalid.samplePeriodS
  obtain ⟨t₀, ht₀⟩ := List.exists_mem_of_ne_nil _ hterms
  obtain ⟨d, -, hd⟩ := hvalid.keepOutTerms t₀ ht₀
  refine ⟨d, T, hd, hperiod, hT, ?_⟩
  intro ticks core vs hrun t core' v pose hpose hlen hok
  have hdeployed := Deployed.of_run hvalid hcfg hterms hperiod hT hd hrun
  exact tick_safeCommand hdeployed hpose hlen hok

end Emitted

/-! ## A certified tick -/

/-- One keep-out term: the half-line below zero. -/
noncomputable def halfLineProto : Proto.CompiledSafetyModel ℝ where
  compiledVersion := "0.1"
  specId := "s"
  specContentHash := "sha256:x"
  samplePeriodS := .fin 1
  predicateTable := some { signals := [], atoms := [] }
  scalarBounds := []
  keepOutTerms := [
    { constraintId := "k", onUncertain := "hold", shape := "half_space", marginM := .fin 0
      center := [], halfExtents := [], radius := none, normal := [.fin 1]
      offset := some (.fin 0), frameRef := none }]
  monitors := []
  resourceBounds := none
  safePose := none
  actionLimits := none
  admissibleDirectives := none

/-- The decoded form of `halfLineProto`. -/
noncomputable def halfLineModel : CompiledSafetyModel ℝ where
  compiledVersion := "0.1"
  specId := "s"
  specContentHash := "sha256:x"
  samplePeriodS := .fin 1
  signals := []
  atoms := []
  scalarBounds := []
  keepOutTerms := [
    { constraintId := "k", onUncertain := .hold, shape := .halfSpace, marginM := .fin 0
      center := [], halfExtents := [], radius := none, normal := [.fin 1]
      offset := some (.fin 0) }]
  monitors := []
  resourceBounds := ⟨0, 0, 0, 0, 0, 0⟩
  actionLimits := {}
  spatialDim := some 1
  safePose := none
  admissibleDirectives := none

theorem halfLine_fromProto (cap : ℕ) :
    CompiledSafetyModel.fromProto halfLineProto cap = .ok halfLineModel := by
  have hperiod : halfLineProto.samplePeriodS.isFinite = true ∧ 0 < halfLineProto.samplePeriodS :=
    ⟨rfl, (zero_lt_one : (0 : ℝ) < 1)⟩
  unfold CompiledSafetyModel.fromProto ensure
  rw [if_pos hperiod]
  rfl

/-- A configuration that certifies a proposal without projecting it. -/
noncomputable def certifyOnly : CoreConfig ℝ :=
  { CoreConfig.default with shield := { ShieldConfig.default with maxIter := 0 } }

theorem certifyOnly_physical : certifyOnly.Physical where
  uMax := (by norm_num : (0 : ℝ) ≤ 20)
  vMax := (by norm_num : (0 : ℝ) ≤ 2)
  tol := (by norm_num : (0 : ℝ) ≤ 1 / 10 ^ 7)
  kBrake := rfl

/-- A tick that proposes to stand still at the pose 10. -/
noncomputable def standStill : Tick ℝ :=
  ({ signals := [], position := [.fin 10], velocity := [.fin 0], proposed := .velocity [.fin 0] },
    .idle)

/-- The shield of `halfLineModel`. -/
noncomputable def halfLineShield : Shield ℝ where
  dim := 1
  barriers := [.half [fin 1] (fin 0)]
  cfg := certifyOnly.shield
  dt := fin 1
  uMax := fin 20
  vMax := fin 2
  stepMax := fin 2

theorem halfLine_shield :
    Shield.new halfLineModel.keepOutTerms 1 certifyOnly.shield (fin 1) halfLineModel.actionLimits =
      halfLineShield := by
  have hdt : soundDt (fin 1 : Flt ℝ) = fin 1 := if_pos ⟨rfl, (zero_lt_one : (0 : ℝ) < 1)⟩
  have hnorm : Flt.max (Guard.norm [(fin 1 : Flt ℝ)]) minPositive = fin 1 := by
    have hone : Guard.norm [(fin 1 : Flt ℝ)] = fin 1 := by
      rw [show [(fin 1 : Flt ℝ)] = [(1 : ℝ)].map fin from rfl, Guard.norm, sqrt_sum_sq]
      simp [euclid]
    rw [hone, minPositive, max_fin, max_eq_left]
    rw [div_le_one (by positivity)]
    exact one_le_pow₀ (by norm_num)
  unfold Shield.new
  rw [hdt]
  simp only [halfLineModel, List.map_cons, List.map_nil, Barrier.fromTerm, hnorm, Option.getD_some,
    fin_sub, fin_div one_ne_zero, sub_zero, div_one]
  rw [show certifyOnly.shield.vMax = fin 2 from rfl, show certifyOnly.shield.uMax = fin 20 from rfl]
  simp only [tighten, fin_mul, mul_one]
  rfl

theorem halfLine_solve :
    ∃ minH, halfLineShield.solveMode .velocity [fin 10] [fin 0] [fin 0] =
      .ok { certified := true, minH := minH, action := [fin 0] } := by
  have hrow : evalBarrier (.half [fin 1] (fin 0)) .velocity 1 halfLineShield.cfg.k0
      halfLineShield.cfg.k1 halfLineShield.dt [fin 10] [fin 0] =
        ({ a := [fin 1], b := fin (-10), h := fin 10, ok := true } : BarrierRow ℝ) := by
    simp [evalBarrier, barrierRhs, dot, Flt.sum, fin_div, halfLineShield]
  have hnorm : Guard.norm [(fin 0 : Flt ℝ)] = fin 0 := by
    rw [show [(fin 0 : Flt ℝ)] = [(0 : ℝ)].map fin from rfl, Guard.norm, sqrt_sum_sq]
    simp [euclid]
  have htol : halfLineShield.cfg.tol = fin (1 / 10 ^ 7) := rfl
  have hcert : halfLineShield.certify .velocity [fin 10] [fin 0]
      [{ a := [fin 1], b := fin (-10), h := fin 10, ok := true }] = true := by
    unfold Shield.certify Shield.certifyKinematic
    dsimp only
    rw [hnorm, htol]
    simp [halfLineShield, dot, Flt.sum, Barrier.staticH, Shield.next, coordAt]
    norm_num
  refine ⟨Flt.min .posInf (fin 10), ?_⟩
  unfold Shield.solveMode
  rw [if_neg (by simp [isFinite, halfLineShield])]
  have hb : halfLineShield.barriers = [.half [fin 1] (fin 0)] := rfl
  have hd : halfLineShield.dim = 1 := rfl
  simp only [hb, hd, List.map_cons, List.map_nil, hrow]
  rw [if_neg (by simp)]
  show (Except.ok _ : Except Panic (ShieldOutcome ℝ)) = _
  rw [← hcert]
  rfl

theorem halfLine_tick :
    ∃ core' v, (fromModel halfLineModel certifyOnly).tick standStill = .ok (core', v) ∧
      v.layer ≠ .backup ∧ v.certifiedMode = .velocity := by
  obtain ⟨minH, hsolve⟩ := halfLine_solve
  have hshield : (fromModel halfLineModel certifyOnly).shield = some halfLineShield := by
    rw [← halfLine_shield]
    rfl
  have hgate : (fromModel halfLineModel certifyOnly).tick standStill =
      (fromModel halfLineModel certifyOnly).gateAndShield standStill.1 := rfl
  refine ⟨{ fromModel halfLineModel certifyOnly with
      shield := some halfLineShield, holdActive := false }, certifiedVerdict [fin 0] .velocity
      ((fromModel halfLineModel certifyOnly).isModified [fin 0] [fin 0]) minH, ?_, ?_, rfl⟩
  · rw [hgate]
    unfold gateAndShield
    rw [hshield]
    show (halfLineShield.solveMode .velocity [fin 10] [fin 0] [fin 0] >>= _) = _
    rw [hsolve]
    rfl
  · unfold certifiedVerdict
    dsimp only
    split <;> simp

theorem run_tick_emitted_halfLine :
    ∃ core' v a, (fromModel halfLineModel certifyOnly).tick standStill = .ok (core', v) ∧
      SafeCommand halfLineModel certifyOnly 1 1 [10] standStill.1 v a ∧
      -certifyOnly.shield.tol ≤
        fin ((KeepOut.halfSpace [1] 0 0).barrier (nextPose .velocity 1 [10] a)) := by
  obtain ⟨core', v, htick, hlayer, hmode⟩ := halfLine_tick
  obtain ⟨d, T, hd, hT, -, hall⟩ := run_tick_emitted (halfLine_fromProto certifyOnly.maxHistoryCap)
    (by simp [halfLineModel]) certifyOnly_physical
  cases hd
  cases hT
  obtain ⟨a, ha⟩ := hall [] _ [] rfl standStill core' v [10] rfl rfl htick
  have hkeeps := ha.keepsOut hlayer (by simp [standStill, ProposedAction.controlMode])
    (by simp [hmode]) _ (by simp [halfLineModel]; rfl) (.halfSpace [1] 0 0) ⟨rfl, rfl, rfl, rfl⟩
  rw [hmode] at hkeeps
  exact ⟨core', v, a, htick, ha, hkeeps⟩

end SafetyCore

end AstroMine.Guard
