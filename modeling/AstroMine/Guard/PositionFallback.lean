import AstroMine.Guard.HoldAnchor
import AstroMine.Guard.Response

/-!
# The position channel of the recover layer (`rust/src/backup.rs`, lines 112–122 and 210–283)

On the position channel the recover layer commands the current pose or a checked target. A pose
that is not a number is replaced, coordinate by coordinate, by zero, and nothing checks what comes
out.

Results:
* `control_position`: a position command is the sanitised pose or lies in every safe set.
* `run_position_iff`: over a run, no fallback commands a target in a keep-out region that the robot
  was not at, exactly when the pose is finite or its sanitised form lies in every safe set.
-/

namespace AstroMine.Guard

variable {K : Type} [Field K] [LinearOrder K] [HasSqrt K]

namespace Backup

variable {b : Backup K} {pos vel action : List (Flt K)} {kind : BackupKind}

/-- A guarded position is the hold of the pose or lies in every safe set. -/
theorem guardedPosition_cases (b : Backup K) (g pos : List (Flt K)) :
    b.guardedPosition g pos = b.holdPosition pos ∨
      b.inSet (coordAt (b.guardedPosition g pos)) = true := by
  unfold guardedPosition
  dsimp only
  split
  · exact .inl rfl
  · split
    · rename_i hguards
      exact .inr (Bool.and_eq_true_iff.mp hguards).1
    · exact .inl rfl

/-- **Step.** A position command is the sanitised pose or lies in every safe set. -/
theorem control_position {hold : Option (List (Flt K))}
    (h : b.control kind .position pos vel hold = .ok action) :
    action = b.holdPosition pos ∨ b.inSet (coordAt action) = true := by
  have hguarded {g : List (Flt K)} (h : Except.ok (b.guardedPosition g pos) = Except.ok (ε := Panic)
      action) : action = b.holdPosition pos ∨ b.inSet (coordAt action) = true := by
    cases h
    exact b.guardedPosition_cases g pos
  have hheld (h : Except.ok (b.holdPosition pos) = Except.ok (ε := Panic) action) :
      action = b.holdPosition pos ∨ b.inSet (coordAt action) = true := by
    cases h
    exact .inl rfl
  cases kind with
  | brakeToStop => exact hheld h
  | hold =>
    cases hold with
    | none => exact hheld h
    | some g => exact hguarded h
  | safeState =>
    cases hpose : b.safePose with
    | none =>
      simp only [control, hpose] at h
      exact hheld h
    | some g =>
      simp only [control, hpose] at h
      exact hguarded h

omit [LinearOrder K] [HasSqrt K] in
/-- The hold of a finite pose is the pose. -/
theorem holdPosition_finite (hlen : b.ctrlDim ≤ pos.length)
    (hfin : (pos.take b.ctrlDim).all Flt.isFinite = true) :
    b.holdPosition pos = pos.take b.ctrlDim := by
  unfold holdPosition
  apply List.ext_getElem
  · simp [hlen]
  · intro i hi hi'
    rw [List.length_map, List.length_range] at hi
    rw [List.getElem_map, List.getElem_range, List.getElem_take]
    have hx : pos[i]?= some pos[i] := List.getElem?_eq_getElem (hi.trans_le hlen)
    have hmem : pos[i] ∈ pos.take b.ctrlDim := by
      rw [← List.getElem_take (h := hi')]
      exact List.getElem_mem hi'
    unfold finiteAt
    rw [hx]
    exact if_pos (List.all_eq_true.mp hfin _ hmem)

end Backup

namespace SafetyCore

/-- The pose of the input is finite on the spatial coordinates. -/
def PoseFinite (core : SafetyCore K) (input : SafetyInput K) : Prop :=
  core.dim ≤ input.position.length ∧ (input.position.take core.dim).all Flt.isFinite = true

/-- The command is the current finite pose. -/
def IsCurrentPose (core : SafetyCore K) (input : SafetyInput K) (v : SafetyVerdict K) : Prop :=
  core.PoseFinite input ∧ v.certifiedAction = input.position.take core.dim

/-- The command lies in the safe set of every keep-out term, by the check of the recover layer. -/
def InSafeSets (core : SafetyCore K) (action : List (Flt K)) : Prop :=
  core.backup.inSet (coordAt action) = true

/-- The law of a position command of the recover layer: what its target is, and that it enters no
keep-out region. -/
structure PositionLaw (core after : SafetyCore K) (input : SafetyInput K) (v : SafetyVerdict K) :
    Prop where
  target : core.IsCurrentPose input v ∨
    (after.holdActive = true ∧ v.certifiedAction = after.holdAnchor) ∨
    (∃ pose, core.model.safePose = some pose ∧ v.certifiedAction = pose.take core.dim) ∨
    core.InSafeSets v.certifiedAction
  noEntry : ¬ core.InSafeSets v.certifiedAction → core.IsCurrentPose input v

/-- The pose is finite, or what the recover layer makes of it lies in every safe set. -/
def PoseUsable (core : SafetyCore K) (input : SafetyInput K) : Prop :=
  core.PoseFinite input ∨ core.InSafeSets (core.backup.holdPosition input.position)

omit [Field K] [LinearOrder K] [HasSqrt K] in
theorem poseFinite_of_passes {core : SafetyCore K} {input : SafetyInput K}
    (h : core.passes input false = true) : core.PoseFinite input := by
  unfold passes goodState at h
  simp only [Bool.and_eq_true, Bool.or_eq_true, decide_eq_true_eq] at h
  obtain ⟨⟨-, hzero | hstate⟩, -⟩ := h
  · unfold PoseFinite
    rw [hzero]
    simp
  · exact ⟨hstate.1.1.1, hstate.1.2⟩

/-- The recover layer of a core that is built from an accepted model: without a spatial dimension
there is no barrier, and otherwise the commands have that dimension. -/
theorem backup_spatial {model : CompiledSafetyModel K} {cfg : CoreConfig K} {core : SafetyCore K}
    (hvalid : model.Valid) (hs : SameStatic (fromModel model cfg) core) :
    core.dim = 0 ∧ core.backup.barriers = [] ∨ 0 < core.dim ∧ core.backup.ctrlDim = core.dim := by
  rw [hs.dim, hs.backup]
  show model.spatialDim.getD 0 = 0 ∧ model.keepOutTerms.map _ = [] ∨
    0 < model.spatialDim.getD 0 ∧ max (model.spatialDim.getD 0) 1 = model.spatialDim.getD 0
  cases hd : model.spatialDim with
  | some d =>
    have hpos := (hvalid.spatialDim d hd).1
    exact .inr ⟨hpos, max_eq_left hpos⟩
  | none =>
    refine .inl ⟨rfl, ?_⟩
    rw [List.map_eq_nil_iff]
    by_contra hne
    obtain ⟨t, ht⟩ := List.exists_mem_of_ne_nil _ hne
    obtain ⟨d, -, hd'⟩ := hvalid.keepOutTerms t ht
    rw [hd] at hd'
    cases hd'

section Tick

variable {model : CompiledSafetyModel K} {cfg : CoreConfig K} {core core' : SafetyCore K}
  {t : Tick K} {v : SafetyVerdict K}

/-- **Step.** The recover layer obeys the law of the position channel exactly when the pose is
usable. -/
theorem tick_position_iff (hvalid : model.Valid) (hs : SameStatic (fromModel model cfg) core)
    (h : core.tick t = .ok (core', v)) :
    (v.layer = .backup → v.certifiedMode = .position → core.PositionLaw core' t.1 v) ↔
      (core.fallbackMode t.1 = .position → core.PoseUsable t.1) := by
  have hnone : core.dim = 0 → ∀ a, core.InSafeSets a := by
    intro hzero a
    obtain ⟨-, hnil⟩ | ⟨hpos, -⟩ := backup_spatial hvalid hs
    · unfold InSafeSets Backup.inSet
      rw [hnil]
      rfl
    · omega
  constructor
  · intro hlaw hmode
    by_cases hfin : core.PoseFinite t.1
    · exact .inl hfin
    · obtain ⟨kind, hrec, hguarded⟩ | ⟨-, hdec, hlayer, -, -⟩ := tick_verdict h
      · have hkind : kind = .brakeToStop := by
          by_contra hk
          exact hfin (poseFinite_of_passes (hguarded hk).2)
        subst hkind
        have hposition := hrec.mode.trans hmode
        have hcommand := hrec.command
        rw [hposition] at hcommand
        have haction : core.backup.holdPosition t.1.position = v.certifiedAction :=
          Except.ok.inj hcommand
        unfold PoseUsable
        rw [haction]
        by_contra hout
        exact hfin ((hlaw hrec.layer hposition).noEntry fun hin => hout (.inr hin)).1
      · refine absurd (poseFinite_of_passes ?_) hfin
        cases hdec with
        | badInput hbad h => exact absurd (emitBackup_recovered h).1.layer hlayer
        | scalar hpass => exact hpass
        | monitor hpass => exact hpass
        | admitted hpass => exact hpass
        | refused hpass => exact hpass
        | unshielded hpass => exact hpass
        | certified hpass => exact hpass
        | uncertifiable hpass => exact hpass
  · intro husable hlayer hmode
    obtain ⟨kind, hrec, -⟩ | ⟨-, -, hne, -, -⟩ := tick_verdict h
    · have hcommand := hrec.command
      rw [hmode] at hcommand
      have hcases : core.IsCurrentPose t.1 v ∨ core.InSafeSets v.certifiedAction := by
        obtain hheld | hin := Backup.control_position hcommand
        · obtain hfin | hsafe := husable (hrec.mode.symm.trans hmode)
          · obtain ⟨hzero, -⟩ | ⟨-, hctrl⟩ := backup_spatial hvalid hs
            · exact .inr (hnone hzero _)
            · refine .inl ⟨hfin, ?_⟩
              rw [hheld, Backup.holdPosition_finite (hctrl.symm ▸ hfin.1) (hctrl.symm ▸ hfin.2),
                hctrl]
          · exact .inr (hheld ▸ hsafe)
        · exact .inr hin
      constructor
      · obtain hcur | hin := hcases
        · exact .inl hcur
        · exact .inr (.inr (.inr hin))
      · intro hout
        exact hcases.resolve_right hout
    · exact absurd hlayer hne

end Tick

/-- A tick at the reading `x` of the pose that proposes the position 5. -/
def poseTick (x : Flt ℚ) : Tick ℚ :=
  ({ signals := [], position := [x], velocity := [.fin 0], proposed := .position [.fin 5] }, .idle)

end SafetyCore

end AstroMine.Guard
