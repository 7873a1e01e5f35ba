import AstroMine.Guard.Verdicts

/-!
# The hold anchor (`rust/src/arbiter.rs`, lines 293–299 and 596–637)

A hold returns to the pose at which it engaged. The anchor is latched by the first tick of an
episode, kept by its ticks and released by every other outcome of a tick.

Results:
* `tick_hold`: a hold tick keeps an active anchor and latches the pose where there is none.
* `run_holds_first_pose`: over a run, a hold returns to the pose of the first tick of its block of
  hold ticks, and no other tick leaves an anchor active.
-/

namespace AstroMine.Guard

variable {K : Type} [Field K] [LinearOrder K] [HasSqrt K]

/-- The ticks `j` to `i` answered with a hold, and the tick before `j`, if there is one, did not. -/
structure HoldBlock (vs : List (SafetyVerdict K)) (j i : ℕ) : Prop where
  le : j ≤ i
  holds : ∀ k, j ≤ k → k ≤ i → ∃ v, vs[k]? = some v ∧ v.backupKind = some .hold
  first : ∀ k v, j = k + 1 → vs[k]? = some v → v.backupKind ≠ some .hold

omit [Field K] [LinearOrder K] [HasSqrt K] in
theorem HoldBlock.start {vs : List (SafetyVerdict K)} {i : ℕ} {v : SafetyVerdict K}
    (hv : vs[i]? = some v) (hk : v.backupKind = some .hold)
    (hfirst : ∀ k u, i = k + 1 → vs[k]? = some u → u.backupKind ≠ some .hold) :
    HoldBlock vs i i := by
  refine ⟨le_rfl, fun k h₁ h₂ => ?_, hfirst⟩
  obtain rfl := le_antisymm h₂ h₁
  exact ⟨v, hv, hk⟩

omit [Field K] [LinearOrder K] [HasSqrt K] in
theorem HoldBlock.extend {vs : List (SafetyVerdict K)} {j i : ℕ} {v : SafetyVerdict K}
    (h : HoldBlock vs j i) (hv : vs[i + 1]? = some v) (hk : v.backupKind = some .hold) :
    HoldBlock vs j (i + 1) := by
  refine ⟨h.le.trans (Nat.le_succ i), fun k h₁ h₂ => ?_, h.first⟩
  obtain h₂ | rfl := Nat.lt_or_eq_of_le h₂
  · exact h.holds k h₁ (by omega)
  · exact ⟨v, hv, hk⟩

omit [Field K] [LinearOrder K] [HasSqrt K] in
theorem HoldBlock.shorten {vs : List (SafetyVerdict K)} {j i n : ℕ} (h : HoldBlock vs j i)
    (hj : j ≤ n) (hn : n ≤ i) : HoldBlock vs j n :=
  ⟨hj, fun k h₁ h₂ => h.holds k h₁ (h₂.trans hn), h.first⟩

omit [Field K] [LinearOrder K] [HasSqrt K] in
/-- Every hold tick belongs to a block. -/
theorem exists_holdBlock {vs : List (SafetyVerdict K)} {i : ℕ} {v : SafetyVerdict K}
    (hv : vs[i]? = some v) (hk : v.backupKind = some .hold) : ∃ j, HoldBlock vs j i := by
  induction i generalizing v with
  | zero => exact ⟨0, .start hv hk (by omega)⟩
  | succ i ih =>
    have hlt : i < vs.length := by
      have := (List.getElem?_eq_some_iff.mp hv).1
      omega
    have hu : vs[i]? = some vs[i] := List.getElem?_eq_getElem hlt
    by_cases hprev : vs[i].backupKind = some .hold
    · obtain ⟨j, hblock⟩ := ih hu hprev
      exact ⟨j, hblock.extend hv hk⟩
    · refine ⟨i + 1, .start hv hk fun k u hk' hu' => ?_⟩
      obtain rfl : i = k := by omega
      rw [hu] at hu'
      cases hu'
      exact hprev

/-- Without a spatial frame there is nothing to hold: the target plays no part. -/
theorem Backup.control_hold_nonspatial {b : Backup K} (hdim : b.spatialDim = 0)
    (mode : ControlMode) (p v g : List (Flt K)) :
    b.control .hold mode p v (some g) = b.control .hold mode p v none := by
  cases mode with
  | effort =>
    show b.guardedMove g p v = b.brake v
    rw [guardedMove, if_pos (.inl hdim)]
  | velocity =>
    show Except.ok (b.guardedVelocity g p) = .ok b.stopVelocity
    rw [guardedVelocity, if_pos (.inl hdim)]
  | position =>
    show Except.ok (b.guardedPosition g p) = .ok (b.holdPosition p)
    rw [guardedPosition, if_pos (.inl hdim)]

namespace SafetyCore

omit [HasSqrt K] [LinearOrder K] [Field K] in
theorem position_length_of_passes {core : SafetyCore K} {input : SafetyInput K}
    (h : core.passes input false = true) (hdim : 0 < core.dim) :
    core.dim ≤ input.position.length := by
  unfold passes goodState at h
  simp only [Bool.and_eq_true, Bool.or_eq_true, decide_eq_true_eq] at h
  obtain ⟨⟨-, hzero | hstate⟩, -⟩ := h
  · omega
  · exact hstate.1.1.1

/-- **Step.** A hold tick keeps the active anchor, or latches its own pose. -/
theorem tick_hold {core core' : SafetyCore K} {t : Tick K} {v : SafetyVerdict K}
    (h : core.tick t = .ok (core', v)) (hk : v.backupKind = some .hold) (hdim : 0 < core.dim) :
    core'.holdActive = true ∧
      core'.holdAnchor =
        (if core.holdActive = true then core.holdAnchor else t.1.position.take core.dim) ∧
      core.backup.control .hold v.certifiedMode t.1.position t.1.velocity
        (some core'.holdAnchor) = .ok v.certifiedAction := by
  obtain ⟨kind, hrec, hguarded⟩ | ⟨-, -, -, hnone, -⟩ := tick_verdict h
  · obtain rfl : kind = .hold := Option.some.inj (hrec.backupKind.symm.trans hk)
    have hlen := position_length_of_passes (hguarded (by simp)).2 hdim
    obtain ⟨hactive, hanchor⟩ := hrec.hold rfl
    have hcommand := hrec.command
    unfold latchHold at hactive hanchor
    cases hwas : core.holdActive with
    | false =>
      rw [if_pos rfl, if_pos ⟨hwas, hdim, hlen⟩] at hactive hanchor
      rw [if_pos ⟨rfl, hactive⟩] at hcommand
      exact ⟨hactive, by simpa using hanchor, hcommand⟩
    | true =>
      rw [if_pos rfl, if_neg (by simp [hwas])] at hactive hanchor
      rw [if_pos ⟨rfl, hactive.trans hwas⟩] at hcommand
      exact ⟨hactive.trans hwas, by simpa using hanchor, hcommand⟩
  · rw [hnone] at hk
    cases hk

/-- **Step.** A tick that is not a hold leaves no anchor active. -/
theorem tick_released {core core' : SafetyCore K} {t : Tick K} {v : SafetyVerdict K}
    (h : core.tick t = .ok (core', v)) (hk : v.backupKind ≠ some .hold) :
    core'.holdActive = false := by
  obtain ⟨kind, hrec, -⟩ | ⟨-, -, -, -, hrel⟩ := tick_verdict h
  · refine hrec.released fun hkind => hk ?_
    rw [hrec.backupKind, hkind]
  · exact hrel

/-- No anchor is active before the first tick of a block. -/
theorem run_released {ticks : List (Tick K)} {start core before : SafetyCore K}
    {vs : List (SafetyVerdict K)} (hstart : start.holdActive = false)
    (h : start.run ticks = .ok (core, vs)) {j i : ℕ} (hblock : HoldBlock vs j i)
    (hbefore : start.run (ticks.take j) = .ok (before, vs.take j)) : before.holdActive = false := by
  cases j with
  | zero =>
    cases hbefore
    exact hstart
  | succ k =>
    obtain ⟨v, hv, -⟩ := hblock.holds (k + 1) le_rfl hblock.le
    have hlt : k < vs.length := by
      have := (List.getElem?_eq_some_iff.mp hv).1
      omega
    have hu : vs[k]? = some vs[k] := List.getElem?_eq_getElem hlt
    obtain ⟨t, before', after, -, -, htick, hafter⟩ := run_at h hu
    cases Except.ok.inj (hbefore.symm.trans hafter)
    exact tick_released htick (hblock.first k _ rfl hu)

/-- **Run.** The anchor after a tick of a block of holds is the pose of the block's first tick. -/
theorem run_anchor {ticks : List (Tick K)} {start core : SafetyCore K}
    {vs : List (SafetyVerdict K)} (hstart : start.holdActive = false) (hdim : 0 < start.dim)
    (h : start.run ticks = .ok (core, vs)) {j : ℕ} (n : ℕ) (hblock : HoldBlock vs j (j + n)) :
    ∃ first after, ticks[j]? = some first ∧
      start.run (ticks.take (j + n + 1)) = .ok (after, vs.take (j + n + 1)) ∧
      after.holdActive = true ∧ after.holdAnchor = first.1.position.take start.dim := by
  induction n with
  | zero =>
    obtain ⟨v, hv, hk⟩ := hblock.holds j le_rfl le_rfl
    obtain ⟨t, before, after, ht, hbefore, htick, hafter⟩ := run_at h hv
    have hs := run_static hbefore
    obtain ⟨hactive, hanchor, -⟩ := tick_hold htick hk (hs.dim.symm ▸ hdim)
    rw [run_released hstart h hblock hbefore, if_neg (by simp), hs.dim] at hanchor
    exact ⟨t, after, ht, hafter, hactive, hanchor⟩
  | succ n ih =>
    obtain ⟨first, mid, hfirst, hmid, hact, hanc⟩ :=
      ih (hblock.shorten (Nat.le_add_right j n) (by omega))
    obtain ⟨v, hv, hk⟩ := hblock.holds (j + (n + 1)) (Nat.le_add_right j _) le_rfl
    obtain ⟨t, before, after, ht, hbefore, htick, hafter⟩ := run_at h hv
    cases Except.ok.inj (hbefore.symm.trans hmid)
    obtain ⟨hactive, hanchor, -⟩ := tick_hold htick hk ((run_static hbefore).dim.symm ▸ hdim)
    rw [hact, if_pos rfl, hanc] at hanchor
    exact ⟨first, after, hfirst, hafter, hactive, hanchor⟩

/-- **Main theorem.** In every run, a tick that answers with a hold commands the move to the pose
of the first tick of its block of hold ticks, which is the active anchor of a spatial model; every
other tick leaves no anchor active. -/
theorem run_holds_first_pose {model : CompiledSafetyModel K} {cfg : CoreConfig K}
    {ticks : List (Tick K)} {core : SafetyCore K} {vs : List (SafetyVerdict K)}
    (h : (fromModel model cfg).run ticks = .ok (core, vs)) {i : ℕ} {v : SafetyVerdict K}
    (hv : vs[i]? = some v) :
    ∃ t after, ticks[i]? = some t ∧
      (fromModel model cfg).run (ticks.take (i + 1)) = .ok (after, vs.take (i + 1)) ∧
      (v.backupKind = some .hold → ∃ j first, HoldBlock vs j i ∧ ticks[j]? = some first ∧
        (0 < after.dim → after.holdActive = true ∧
          after.holdAnchor = first.1.position.take after.dim) ∧
        after.backup.control .hold v.certifiedMode t.1.position t.1.velocity
          (some (first.1.position.take after.dim)) = .ok v.certifiedAction) ∧
      (v.backupKind ≠ some .hold → after.holdActive = false) := by
  obtain ⟨t, before, after, ht, hbefore, htick, hafter⟩ := run_at h hv
  refine ⟨t, after, ht, hafter, fun hk => ?_, tick_released htick⟩
  have hs := run_static hafter
  have hst := tick_static htick
  have hsb := run_static hbefore
  obtain ⟨j, hblock⟩ := exists_holdBlock hv hk
  by_cases hdim : 0 < (fromModel model cfg).dim
  · obtain ⟨n, rfl⟩ := Nat.exists_eq_add_of_le hblock.le
    obtain ⟨first, after', hfirst, hafter', hactive, hanchor⟩ := run_anchor rfl hdim h n hblock
    cases Except.ok.inj (hafter.symm.trans hafter')
    obtain ⟨-, -, hcommand⟩ := tick_hold htick hk (hsb.dim.symm ▸ hdim)
    rw [hs.dim]
    refine ⟨j, first, hblock, hfirst, fun _ => ⟨hactive, hanchor⟩, ?_⟩
    rw [hst.backup, ← hanchor]
    exact hcommand
  · obtain ⟨u, hu, -⟩ := hblock.holds j le_rfl hblock.le
    obtain ⟨first, -, -, hfirst, -⟩ := run_at h hu
    have hdim' : after.dim = (fromModel model cfg).dim := hs.dim
    refine ⟨j, first, hblock, hfirst, fun hpos => absurd (hdim' ▸ hpos) hdim, ?_⟩
    have hzero : after.backup.spatialDim = 0 := by
      rw [hs.backup]
      exact Nat.eq_zero_of_not_pos hdim
    rw [Backup.control_hold_nonspatial hzero, hst.backup]
    obtain ⟨kind, hrec, -⟩ | ⟨-, -, -, hnone, -⟩ := tick_verdict htick
    · obtain rfl : kind = .hold := Option.some.inj (hrec.backupKind.symm.trans hk)
      have hcommand := hrec.command
      rw [hst.backup] at hzero
      split_ifs at hcommand
      · rwa [Backup.control_hold_nonspatial hzero] at hcommand
      · exact hcommand
    · rw [hnone] at hk
      cases hk

/-- A rover on a line that holds its position while its battery is low. -/
def stationProto : Proto.CompiledSafetyModel ℚ where
  compiledVersion := "0.1"
  specId := "station"
  specContentHash := "sha256:0"
  samplePeriodS := .fin 1
  predicateTable := some
    { signals := ["battery"], atoms := [{ op := "ge", signalIndex := 0, threshold := .fin 50 }] }
  scalarBounds := [{ constraintId := "charge", onUncertain := "hold", atomIndex := 0 }]
  keepOutTerms := [
    { constraintId := "edge", onUncertain := "fallback", shape := "half_space", marginM := .fin 0
      center := [], halfExtents := [], radius := none, normal := [.fin 1], offset := some (.fin 10)
      frameRef := none }]
  monitors := []
  resourceBounds := none
  safePose := none
  actionLimits := none
  admissibleDirectives := none

/-- A tick of the rover at the position `x`, with the charge `battery`. -/
def stationTick (battery x : ℚ) : Tick ℚ :=
  ({ signals := [.fin battery], position := [.fin x], velocity := [.fin 0]
     proposed := .position [.fin x] }, .idle)

/-- The three ticks of a rover whose battery runs low at the second. -/
def stationTicks : List (Tick ℚ) := [stationTick 80 0, stationTick 40 1, stationTick 30 2]

/-- The second of two low-battery ticks returns to the pose of the first. -/
theorem run_holds_first_pose_station :
    ∃ (model : CompiledSafetyModel ℚ) (core after : SafetyCore ℚ) (vs : List (SafetyVerdict ℚ))
      (v : SafetyVerdict ℚ),
      CompiledSafetyModel.fromProto stationProto (2 ^ 20) = .ok model ∧
      (fromModel model .default).run stationTicks = .ok (core, vs) ∧ vs[2]? = some v ∧
      ∃ j first, HoldBlock vs j 2 ∧ stationTicks[j]? = some first ∧
        (0 < after.dim → after.holdActive = true ∧
          after.holdAnchor = first.1.position.take after.dim) := by
  have h : ((CompiledSafetyModel.fromProto stationProto (2 ^ 20)).toOption.any fun model =>
      ((fromModel model .default).run stationTicks).toOption.any fun r =>
          r.2[2]?.any fun v => Decidable.decide (v.backupKind = some .hold)) = true := by
    decide +kernel
  obtain ⟨model, hmodel, h⟩ := exists_ok_of_any h
  obtain ⟨⟨core, vs⟩, hrun, h⟩ := exists_ok_of_any h
  obtain ⟨v, hv, hk⟩ := (Option.any_eq_true _ _).mp h
  obtain ⟨t, after, -, -, hhold, -⟩ := run_holds_first_pose hrun hv
  obtain ⟨j, first, hblock, hfirst, hanchor, -⟩ := hhold (of_decide_eq_true hk)
  exact ⟨model, core, after, vs, v, hmodel, hrun, hv, j, first, hblock, hfirst, hanchor⟩

end SafetyCore

end AstroMine.Guard
