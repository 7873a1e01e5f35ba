import AstroMine.Guard.Braking

/-!
# The guarded move (`rust/src/backup.rs`, lines 228–346)

A hold or a retreat on the effort channel is a saturated pull toward its target. It is emitted only
where the predicted step keeps the energy around the target and stays in the safe sets; otherwise
the brake is.

Results:
* `guardedMove_step`: what the guards of an accepted pull establish about the predicted step.
* `run_guarded`: every hold and retreat of a run is a brake or such a step, and the energy over
  consecutive accepted steps grows by no more than the tolerances of the guard.
-/

namespace AstroMine.Guard

open Flt
open scoped Numerals

section Energy

variable {K : Type} [Field K]

/-- The energy around the target `g`: `½·k_p·‖p − g‖² + ½·‖v‖²`. -/
def targetEnergy (kP : K) (g p v : List K) : K :=
  1 / 2 * kP * ((List.zipWith (· - ·) p g).map fun e => e * e).sum +
    1 / 2 * (v.map fun x => x * x).sum

end Energy

/-! ## The prediction -/

theorem getD_drift {T : ℝ} {x dx : List ℝ} {i : ℕ} (hx : i < x.length) (hdx : i < dx.length) :
    (drift T x dx).getD i 0 = x.getD i 0 + dx.getD i 0 * T := by
  unfold drift
  simp [List.getD_eq_getElem?_getD, hx, hdx]

theorem drift_length {T : ℝ} {x dx : List ℝ} {n : ℕ} (hx : x.length = n) (hdx : dx.length = n) :
    (drift T x dx).length = n := by
  unfold drift
  rw [List.length_zipWith, hx, hdx, min_self]

theorem nextPosition_length {T : ℝ} {p v u : List ℝ} {n : ℕ} (hp : p.length = n)
    (hv : v.length = n) (hu : u.length = n) : (nextPosition T p v u).length = n :=
  drift_length (drift_length hp hv) hu

theorem getD_nextPosition {T : ℝ} {p v u : List ℝ} {n i : ℕ} (hp : p.length = n)
    (hv : v.length = n) (hu : u.length = n) (hi : i < n) :
    (nextPosition T p v u).getD i 0 =
      p.getD i 0 + v.getD i 0 * T + 1 / 2 * T * T * u.getD i 0 := by
  unfold nextPosition
  rw [getD_drift (by rw [drift_length hp hv]; exact hi) (hu.symm ▸ hi),
    getD_drift (hp.symm ▸ hi) (hv.symm ▸ hi)]
  ring

/-- The energy as the sum over the axes that the guard accumulates. -/
theorem targetEnergy_eq_sum {kP : ℝ} {g p v : List ℝ} {n : ℕ} (hg : g.length = n)
    (hp : p.length = n) (hv : v.length = n) :
    targetEnergy kP g p v = ((List.range n).map fun i =>
      1 / 2 * kP * (p.getD i 0 - g.getD i 0) * (p.getD i 0 - g.getD i 0) +
        1 / 2 * v.getD i 0 * v.getD i 0).sum := by
  have hdiff : List.zipWith (· - ·) p g =
      (List.range n).map fun i => p.getD i 0 - g.getD i 0 := by
    conv_lhs => rw [← range_map_getD hp, ← range_map_getD hg]
    rw [List.zipWith_map, List.zipWith_self]
  unfold targetEnergy
  rw [hdiff, List.map_map]
  conv_lhs => rw [← range_map_getD hv]
  rw [List.map_map, List.sum_map_add]
  congr 1
  · rw [← List.sum_map_mul_left]
    congr 1
    apply List.map_congr_left
    intro i _
    show 1 / 2 * kP * ((p.getD i 0 - g.getD i 0) * (p.getD i 0 - g.getD i 0)) = _
    ring
  · rw [← List.sum_map_mul_left]
    congr 1
    apply List.map_congr_left
    intro i _
    show 1 / 2 * (v.getD i 0 * v.getD i 0) = _
    ring

/-- The step that a guarded command `u` causes from the pose `p` and the velocity `w`: the command
is in the box, the energy around the target grows by no more than the tolerance of the guard, and
the pose leaves no safe set by more than the tolerance of the check. -/
structure GuardedStep (b : Backup ℝ) (T : ℝ) (g p w u : List ℝ) : Prop where
  length : u.length = b.spatialDim
  box : ∀ x ∈ u, fin |x| ≤ b.uMax
  energy : ∀ kP, b.kP = fin kP →
    targetEnergy kP g (nextPosition T p w u) (nextVelocity T w u) ≤
      targetEnergy kP g p w * (1 + 1 / 10 ^ 9) + 1 / 10 ^ 9
  safe : ∀ t : KeepOutTerm ℝ, Barrier.fromTerm t b.spatialDim ∈ b.barriers →
    geometryDim t = .ok b.spatialDim → ∀ k : KeepOut, k.Describes t →
      -(1 / 10 ^ 7) ≤ k.barrier (nextPosition T p w u)

namespace Backup

variable {b : Backup ℝ} {T : ℝ} {g pos vel action : List (Flt ℝ)} {gr p w u : List ℝ}

/-- The axis-wise prediction of the guards, on reals. -/
theorem predicted (hT : b.dt = fin T) (hp : pos.take b.spatialDim = p.map fin)
    (hw : vel.take b.spatialDim = w.map fin) (hpl : p.length = b.spatialDim)
    (hwl : w.length = b.spatialDim) (hul : u.length = b.spatialDim) {i : ℕ}
    (hi : i < b.spatialDim) :
    coordAt pos i + coordAt vel i * b.dt + .fin (1 / 2) * b.dt * b.dt * coordAt (u.map fin) i =
      fin ((nextPosition T p w u).getD i 0) := by
  rw [coordAt_of_take hp hi, coordAt_of_take hw hi, coordAt_map_fin, hT,
    getD_nextPosition hpl hwl hul hi]
  simp only [fin_mul, fin_add]

/-- What guard (a) compares, on reals. -/
theorem progressOk_energy (hT : b.dt = fin T) (hg : g.take b.spatialDim = gr.map fin)
    (hp : pos.take b.spatialDim = p.map fin) (hw : vel.take b.spatialDim = w.map fin)
    (hgl : gr.length = b.spatialDim) (hpl : p.length = b.spatialDim)
    (hwl : w.length = b.spatialDim) (hul : u.length = b.spatialDim) {kP : ℝ}
    (hkP : b.kP = fin kP) (h : b.progressOk g pos vel (u.map fin) = true) :
    targetEnergy kP gr (nextPosition T p w u) (nextVelocity T w u) ≤
      targetEnergy kP gr p w * (1 + 1 / 10 ^ 9) + 1 / 10 ^ 9 := by
  have henergy {q v : List ℝ} (hq : q.length = b.spatialDim) (hv : v.length = b.spatialDim)
      {qs ws : ℕ → Flt ℝ} (hqs : ∀ i, i < b.spatialDim → qs i = fin (q.getD i 0))
      (hws : ∀ i, i < b.spatialDim → ws i = fin (v.getD i 0)) :
      Flt.sum ((List.range b.spatialDim).map fun i =>
        .fin (1 / 2) * b.kP * (qs i - coordAt g i) * (qs i - coordAt g i) +
          .fin (1 / 2) * ws i * ws i) = fin (targetEnergy kP gr q v) := by
    rw [targetEnergy_eq_sum hgl hq hv, ← sum_fin, List.map_map]
    congr 1
    apply List.map_congr_left
    intro i hi
    have hi := List.mem_range.mp hi
    rw [hqs i hi, hws i hi, coordAt_of_take hg hi, hkP]
    simp only [fin_mul, fin_add, fin_sub, Function.comp_apply]
  unfold progressOk at h
  dsimp only at h
  rw [decide_eq_true_eq] at h
  rw [henergy hpl hwl (fun i hi => coordAt_of_take hp hi) (fun i hi => coordAt_of_take hw hi),
    henergy (nextPosition_length hpl hwl hul) (drift_length hwl hul)
      (fun i hi => predicted hT hp hw hpl hwl hul hi) (fun i hi => ?_)] at h
  · simp only [distTol, one_def, fin_add, fin_mul, fin_le_fin] at h
    exact h
  · rw [coordAt_of_take hw hi, coordAt_map_fin, hT, fin_mul, fin_add]
    exact congrArg fin (getD_drift (hwl.symm ▸ hi) (hul.symm ▸ hi)).symm

/-- What guard (b) checks, on reals. -/
theorem noneOutside_safe (hT : b.dt = fin T) (hp : pos.take b.spatialDim = p.map fin)
    (hw : vel.take b.spatialDim = w.map fin) (hpl : p.length = b.spatialDim)
    (hwl : w.length = b.spatialDim) (hul : u.length = b.spatialDim)
    (h : (b.noneOutside fun i => coordAt pos i + coordAt vel i * b.dt +
      .fin (1 / 2) * b.dt * b.dt * coordAt (u.map fin) i) = true)
    {t : KeepOutTerm ℝ} (ht : Barrier.fromTerm t b.spatialDim ∈ b.barriers)
    (hdim : geometryDim t = .ok b.spatialDim) {k : KeepOut} (hk : k.Describes t) :
    -(1 / 10 ^ 7) ≤ k.barrier (nextPosition T p w u) := by
  have hbar := List.all_eq_true.mp h _ ht
  rw [Barrier.staticH_describes hk hdim (nextPosition_length hpl hwl hul)
    (fun i hi => predicted hT hp hw hpl hwl hul hi)] at hbar
  simpa [setTol] using hbar

/-- **Step.** A guarded move is the brake, or its guards hold for the step it causes. -/
theorem guardedMove_step (hT : b.dt = fin T) (h : b.guardedMove g pos vel = .ok action) :
    b.brake vel = .ok action ∨ ∃ gr p w u : List ℝ, g.take b.spatialDim = gr.map fin ∧
      pos.take b.spatialDim = p.map fin ∧ vel.take b.spatialDim = w.map fin ∧
      action = u.map fin ∧ GuardedStep b T gr p w u := by
  unfold guardedMove at h
  dsimp only at h
  split at h
  · exact .inl h
  · rename_i hbad
    simp only [not_or] at hbad
    obtain ⟨-, hbadp, hbadv, hbadg⟩ := hbad
    obtain ⟨moved, hmoved, h⟩ := bind_eq_ok.1 h
    split at h
    · rename_i hguards
      cases h
      simp only [Bool.and_eq_true] at hguards
      obtain ⟨⟨hprogress, hsafe⟩, hfin⟩ := hguards
      obtain ⟨p, hp, hpl⟩ := badState_eq_false hbadp
      obtain ⟨w, hw, hwl⟩ := badState_eq_false hbadv
      obtain ⟨gr, hg, hgl⟩ := badState_eq_false hbadg
      obtain ⟨u, rfl, hul, hbox⟩ := clamped_axes hmoved hfin
      refine .inr ⟨gr, p, w, u, hg, hp, hw, rfl, hul, hbox, fun kP hkP => ?_,
        fun t ht hdim k hk => ?_⟩
      · exact progressOk_energy hT hg hp hw hgl hpl hwl hul hkP hprogress
      · exact noneOutside_safe hT hp hw hpl hwl hul hsafe ht hdim hk
    · exact .inl h

end Backup

/-! ## The target of a tick -/

namespace SafetyCore

/-- The target of the guarded behaviours: the active anchor or the authored pose. -/
def targetOf (core : SafetyCore ℝ) : BackupKind → Option (List (Flt ℝ))
  | .brakeToStop => none
  | .hold => if core.holdActive = true then some core.holdAnchor else none
  | .safeState => core.backup.safePose

section Tick

variable {core core' : SafetyCore ℝ} {t : Tick ℝ} {v : SafetyVerdict ℝ} {kind : BackupKind}

/-- A guarded behaviour on the effort channel is the brake or a guarded move to its target. -/
theorem tick_guards (h : core.tick t = .ok (core', v)) (hkind : v.backupKind = some kind)
    (hmode : v.certifiedMode = .effort) :
    core.backup.brake t.1.velocity = .ok v.certifiedAction ∨
      ∃ g, core'.targetOf kind = some g ∧
        core.backup.guardedMove g t.1.position t.1.velocity = .ok v.certifiedAction := by
  obtain ⟨kind', hrec, -⟩ | ⟨-, -, -, hnone, -⟩ := tick_verdict h
  · obtain rfl : kind' = kind := Option.some.inj (hrec.backupKind.symm.trans hkind)
    have hcommand := hrec.command
    rw [hmode] at hcommand
    cases kind' with
    | brakeToStop => exact .inl hcommand
    | hold =>
      by_cases hactive : core'.holdActive = true
      · rw [if_pos ⟨rfl, hactive⟩] at hcommand
        exact .inr ⟨core'.holdAnchor, if_pos hactive, hcommand⟩
      · rw [if_neg fun hc => hactive hc.2] at hcommand
        exact .inl hcommand
    | safeState =>
      have hs : core'.backup.safePose = core.backup.safePose := by rw [(tick_static h).backup]
      cases hpose : core.backup.safePose with
      | none =>
        simp only [Backup.control, hpose] at hcommand
        exact .inl hcommand
      | some g =>
        simp only [Backup.control, hpose] at hcommand
        exact .inr ⟨g, hs.trans hpose, hcommand⟩
  · rw [hkind] at hnone
    cases hnone

/-- A behaviour that repeats keeps its target. -/
theorem targetOf_kept (h : core.tick t = .ok (core', v)) (hkind : v.backupKind = some kind)
    {g : List (Flt ℝ)} (hg : core.targetOf kind = some g) : core'.targetOf kind = some g := by
  obtain ⟨kind', hrec, -⟩ | ⟨-, -, -, hnone, -⟩ := tick_verdict h
  · obtain rfl : kind' = kind := Option.some.inj (hrec.backupKind.symm.trans hkind)
    cases kind' with
    | brakeToStop => cases hg
    | hold =>
      obtain ⟨hactive, hanchor⟩ := hrec.hold rfl
      unfold targetOf at hg ⊢
      dsimp only at hg ⊢
      split_ifs at hg with hwas
      have hlatch : core.latchHold t.1 .hold = core := by
        rw [latchHold, if_pos rfl, if_neg fun hc => by simp [hwas] at hc]
      rw [hactive, hanchor, hlatch, if_pos hwas]
      exact hg
    | safeState =>
      show core'.backup.safePose = some g
      rw [(tick_static h).backup]
      exact hg
  · rw [hkind] at hnone
    cases hnone

end Tick

/-! ## Runs -/

section Verdict

variable {K : Type} [Field K] [LinearOrder K]

/-- The verdict of a tick is exactly the brake command. -/
def IsBrake [HasSqrt K] (model : CompiledSafetyModel K) (cfg : CoreConfig K) (t : Tick K)
    (v : SafetyVerdict K) : Prop :=
  (fromModel model cfg).backup.brake t.1.velocity = .ok v.certifiedAction

/-- The verdict is a guarded behaviour of the effort channel. -/
structure Guards (kind : BackupKind) (v : SafetyVerdict K) : Prop where
  backupKind : v.backupKind = some kind
  guarded : kind ≠ .brakeToStop
  mode : v.certifiedMode = .effort

end Verdict

/-- The ticks `i` to `j - 1` of a run answer with the guarded behaviour `kind`, none of them with a
brake, and a plant with the poses `p` and the velocities `w` follows their commands. -/
def Follows (model : CompiledSafetyModel ℝ) (cfg : CoreConfig ℝ) (T : ℝ) (kind : BackupKind)
    (ticks : List (Tick ℝ)) (vs : List (SafetyVerdict ℝ)) (p w : ℕ → List ℝ) (i j : ℕ) : Prop :=
  ∀ n, i ≤ n → n < j → ∃ t v u, ticks[n]? = some t ∧ vs[n]? = some v ∧ Guards kind v ∧
    ¬ IsBrake model cfg t v ∧
    t.1.position.take (model.spatialDim.getD 0) = (p n).map fin ∧
    t.1.velocity.take (model.spatialDim.getD 0) = (w n).map fin ∧
    v.certifiedAction = u.map fin ∧
    p (n + 1) = nextPosition T (p n) (w n) u ∧ w (n + 1) = nextVelocity T (w n) u

/-- The step that an accepted command `u` causes, in the terms of the model. -/
structure AcceptedStep (model : CompiledSafetyModel ℝ) (cfg : CoreConfig ℝ) (T : ℝ)
    (g p w u : List ℝ) : Prop where
  box : ∀ x ∈ u, fin |x| ≤ accelCeiling model cfg
  energy : ∀ k, cfg.kBrake = fin k →
    targetEnergy (k * k / 4) g (nextPosition T p w u) (nextVelocity T w u) ≤
      targetEnergy (k * k / 4) g p w * (1 + 1 / 10 ^ 9) + 1 / 10 ^ 9
  safe : ∀ t ∈ model.keepOutTerms, ∀ k : KeepOut, k.Describes t →
    -(1 / 10 ^ 7) ≤ k.barrier (nextPosition T p w u)

/-- What a run says about a guarded tick: its command is the brake, or it steps towards the target
as the guards accept. -/
def AcceptedOrBrake (model : CompiledSafetyModel ℝ) (cfg : CoreConfig ℝ) (T : ℝ)
    (after : SafetyCore ℝ) (kind : BackupKind) (t : Tick ℝ) (v : SafetyVerdict ℝ) : Prop :=
  IsBrake model cfg t v ∨ ∃ target, after.targetOf kind = some target ∧
    ∃ g p w u : List ℝ, target.take (model.spatialDim.getD 0) = g.map fin ∧
      t.1.position.take (model.spatialDim.getD 0) = p.map fin ∧
      t.1.velocity.take (model.spatialDim.getD 0) = w.map fin ∧
      v.certifiedAction = u.map fin ∧ AcceptedStep model cfg T g p w u

section Run

variable {model : CompiledSafetyModel ℝ} {cfg : CoreConfig ℝ} {T : ℝ} {ticks : List (Tick ℝ)}
  {core : SafetyCore ℝ} {vs : List (SafetyVerdict ℝ)} {kind : BackupKind}

theorem acceptedStep_of_guarded (hvalid : model.Valid) {g p w u : List ℝ}
    (h : GuardedStep (fromModel model cfg).backup T g p w u) : AcceptedStep model cfg T g p w u := by
  refine ⟨h.box, fun k hk => h.energy (k * k / 4) ?_, fun t ht k hk => ?_⟩
  · show cfg.kBrake * cfg.kBrake / .fin 4 = fin (k * k / 4)
    rw [hk, fin_mul, fin_div (by norm_num)]
  · obtain ⟨d, hgeo, hd⟩ := hvalid.keepOutTerms t ht
    have hdim : (fromModel model cfg).backup.spatialDim = d := by
      show model.spatialDim.getD 0 = d
      rw [hd]
      rfl
    exact h.safe t (List.mem_map_of_mem ht) (hdim.symm ▸ hgeo) k hk

/-- **Step.** A guarded tick of a run is a brake or a step that the guards accept. -/
theorem run_acceptedOrBrake (hvalid : model.Valid) (hperiod : model.samplePeriodS = fin T)
    (hT : 0 < T) (h : (fromModel model cfg).run ticks = .ok (core, vs)) {i : ℕ}
    {v : SafetyVerdict ℝ} (hv : vs[i]? = some v) (hguards : Guards kind v) :
    ∃ t before after, ticks[i]? = some t ∧
      (fromModel model cfg).run (ticks.take i) = .ok (before, vs.take i) ∧
      before.tick t = .ok (after, v) ∧
      (fromModel model cfg).run (ticks.take (i + 1)) = .ok (after, vs.take (i + 1)) ∧
      AcceptedOrBrake model cfg T after kind t v := by
  obtain ⟨t, before, after, ht, hbefore, htick, hafter⟩ := run_at h hv
  refine ⟨t, before, after, ht, hbefore, htick, hafter, ?_⟩
  have hdt : (fromModel model cfg).backup.dt = fin T := by
    show soundDt model.samplePeriodS = fin T
    rw [hperiod]
    exact if_pos ⟨rfl, hT⟩
  have hcommand := tick_guards htick hguards.backupKind hguards.mode
  rw [(run_static hbefore).backup] at hcommand
  obtain hbrake | ⟨target, htarget, hmove⟩ := hcommand
  · exact .inl hbrake
  · obtain hbrake | ⟨g, p, w, u, hg, hp, hw, hu, hstep⟩ := Backup.guardedMove_step hdt hmove
    · exact .inl hbrake
    · exact .inr ⟨target, htarget, g, p, w, u, hg, hp, hw, hu, acceptedStep_of_guarded hvalid hstep⟩

theorem map_fin_injective : Function.Injective (List.map (fin : ℝ → Flt ℝ)) :=
  List.map_injective_iff.mpr fun _ _ h => by injection h

/-- **Step.** A followed tick steps the plant towards the target of the state that it leaves. -/
theorem Follows.step (hvalid : model.Valid) (hperiod : model.samplePeriodS = fin T) (hT : 0 < T)
    (h : (fromModel model cfg).run ticks = .ok (core, vs)) {p w : ℕ → List ℝ} {i j n : ℕ}
    (hfollows : Follows model cfg T kind ticks vs p w i j) (hin : i ≤ n) (hnj : n < j) :
    ∃ v t before after, vs[n]? = some v ∧ v.backupKind = some kind ∧
      (fromModel model cfg).run (ticks.take n) = .ok (before, vs.take n) ∧
      before.tick t = .ok (after, v) ∧
      (fromModel model cfg).run (ticks.take (n + 1)) = .ok (after, vs.take (n + 1)) ∧
      ∃ target g, after.targetOf kind = some target ∧
        target.take (model.spatialDim.getD 0) = g.map fin ∧
        ∀ k, cfg.kBrake = fin k → targetEnergy (k * k / 4) g (p (n + 1)) (w (n + 1)) + 1 ≤
          (1 + 1 / 10 ^ 9) * (targetEnergy (k * k / 4) g (p n) (w n) + 1) := by
  obtain ⟨t, v, u, ht, hv, hguards, hnot, hp, hw, hu, hp', hw'⟩ := hfollows n hin hnj
  obtain ⟨t', before, after, ht', hbefore, htick, hafter, hstep⟩ :=
    run_acceptedOrBrake hvalid hperiod hT h hv hguards
  obtain rfl : t = t' := Option.some.inj (ht.symm.trans ht')
  obtain hbrake | ⟨target, htarget, g, q, x, u', hg, hq, hx, hu', hacc⟩ := hstep
  · exact absurd hbrake hnot
  · obtain rfl : p n = q := map_fin_injective (hp.symm.trans hq)
    obtain rfl : w n = x := map_fin_injective (hw.symm.trans hx)
    obtain rfl : u = u' := map_fin_injective (hu.symm.trans hu')
    refine ⟨v, t, before, after, hv, hguards.backupKind, hbefore, htick, hafter, target, g, htarget,
      hg, fun k hk => ?_⟩
    rw [hp', hw']
    have henergy := hacc.energy k hk
    linarith

/-- **Run.** Consecutive accepted steps of one behaviour pull towards one target, and the energy
around it grows by no more than the tolerance of the guard at each. -/
theorem run_energy (hvalid : model.Valid) (hperiod : model.samplePeriodS = fin T) (hT : 0 < T)
    (h : (fromModel model cfg).run ticks = .ok (core, vs)) {p w : ℕ → List ℝ} {i : ℕ} (n : ℕ)
    (hfollows : Follows model cfg T kind ticks vs p w i (i + n + 1)) :
    ∃ after target g, (fromModel model cfg).run (ticks.take (i + n + 1)) =
        .ok (after, vs.take (i + n + 1)) ∧ after.targetOf kind = some target ∧
      target.take (model.spatialDim.getD 0) = g.map fin ∧
      ∀ k, cfg.kBrake = fin k →
        targetEnergy (k * k / 4) g (p (i + n + 1)) (w (i + n + 1)) + 1 ≤
          (1 + 1 / 10 ^ 9) ^ (n + 1) * (targetEnergy (k * k / 4) g (p i) (w i) + 1) := by
  induction n with
  | zero =>
    obtain ⟨v, t, before, after, -, -, -, -, hafter, target, g, htarget, hg, henergy⟩ :=
      hfollows.step hvalid hperiod hT h le_rfl (by omega)
    refine ⟨after, target, g, hafter, htarget, hg, fun k hk => ?_⟩
    rw [zero_add, pow_one]
    exact henergy k hk
  | succ n ih =>
    obtain ⟨mid, target, g, hmid, htarget, hg, hprev⟩ :=
      ih fun m hm hlt => hfollows m hm (by omega)
    obtain ⟨v, t, before, after, -, hkind, hbefore, htick, hafter, target', g', htarget', hg',
      henergy⟩ := hfollows.step hvalid hperiod hT h (n := i + n + 1) (by omega) (by omega)
    cases Except.ok.inj (hmid.symm.trans hbefore)
    have hkept := targetOf_kept htick hkind htarget
    obtain rfl : target = target' := Option.some.inj (hkept.symm.trans htarget')
    obtain rfl : g = g' := map_fin_injective (hg.symm.trans hg')
    refine ⟨after, target, g, hafter, hkept, hg, fun k hk => ?_⟩
    calc targetEnergy (k * k / 4) g (p (i + (n + 1) + 1)) (w (i + (n + 1) + 1)) + 1
        ≤ (1 + 1 / 10 ^ 9) *
            (targetEnergy (k * k / 4) g (p (i + n + 1)) (w (i + n + 1)) + 1) := henergy k hk
      _ ≤ (1 + 1 / 10 ^ 9) * ((1 + 1 / 10 ^ 9) ^ (n + 1) *
            (targetEnergy (k * k / 4) g (p i) (w i) + 1)) :=
          mul_le_mul_of_nonneg_left (hprev k hk) (by positivity)
      _ = (1 + 1 / 10 ^ 9) ^ (n + 1 + 1) * (targetEnergy (k * k / 4) g (p i) (w i) + 1) := by ring

end Run

/-- A rover on a line that retreats to the pose 0 while its battery is low. -/
def retreatProto : Proto.CompiledSafetyModel ℚ where
  compiledVersion := "0.1"
  specId := "retreat"
  specContentHash := "sha256:0"
  samplePeriodS := .fin 1
  predicateTable := some
    { signals := ["battery"], atoms := [{ op := "ge", signalIndex := 0, threshold := .fin 50 }] }
  scalarBounds := [{ constraintId := "charge", onUncertain := "safe_state", atomIndex := 0 }]
  keepOutTerms := [
    { constraintId := "edge", onUncertain := "fallback", shape := "half_space", marginM := .fin 0
      center := [], halfExtents := [], radius := none, normal := [.fin 1], offset := some (.fin 10)
      frameRef := none }]
  monitors := []
  resourceBounds := none
  safePose := some { position := [.fin 0], frameRef := none }
  actionLimits := none
  admissibleDirectives := none

/-- A low-battery tick of a rover at rest, a millionth away from the pose 0. -/
def nearTick : Tick ℚ :=
  ({ signals := [.fin 40], position := [.fin (1 / 10 ^ 6)], velocity := [.fin 0]
     proposed := .effort [.fin 0] }, .idle)

end SafetyCore

end AstroMine.Guard
