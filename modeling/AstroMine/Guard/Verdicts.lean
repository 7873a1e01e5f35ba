import AstroMine.Guard.Arbiter

/-!
# What a tick can answer

Every exit of `decide` (`rust/src/arbiter.rs:450-594`) with the checks that lead to it, and the
verdict that each exit writes. The laws about verdicts are derived from these cases.

Results:
* `Decided.of_decide`: the exits of `decide`.
* `tick_verdict`: a tick answers with a recover command in the fallback channel, or it passed every
  check before the gate and released the hold anchor.
* `run_at`: the tick at a position of a run, with the states around it.
-/

namespace AstroMine.Guard

namespace SafetyCore

variable {K : Type} [Field K] [LinearOrder K] [HasSqrt K]

/-! ## The exits of a decision -/

/-- What the detect layers find on a sample: the predicate values, the advanced monitors, the first
    monitor that fires and the first scalar bound that is violated. -/
structure Detected (core : SafetyCore K) (signals predRob : List (Flt K))
    (monitors : List (Monitor K)) (fired hit : Option (ℕ × OnUncertain)) : Prop where
  predicates : core.predicates signals = .ok predRob
  monitors : stepMonitors predRob core.cfg.predictiveHorizonSamples core.monitors 0 =
    .ok (monitors, fired)
  scalars : scalarHit predRob core.model.scalarBounds 0 = .ok hit

/-- The core whose monitors have consumed the sample of the tick. -/
def withMonitors (core : SafetyCore K) (monitors : List (Monitor K)) : SafetyCore K :=
  { core with monitors := monitors }

/-- The core without an active hold. -/
def released (core : SafetyCore K) : SafetyCore K := { core with holdActive := false }

/-- The exits of `decide`, in the order of the layers. -/
inductive Decided (core : SafetyCore K) (input : SafetyInput K) :
    SafetyCore K → SafetyVerdict K → Prop where
  | badInput {core' v} (hbad : core.passes input false = false)
      (h : core.emitBackup input .brakeToStop .badInput [] .posInf = .ok (core', v)) :
      Decided core input core' v
  | scalar {predRob ms fired bi policy core' v} (hpass : core.passes input false = true)
      (hdet : core.Detected input.signals predRob ms fired (some (bi, policy)))
      (h : (core.withMonitors ms).emitBackup input (backupKindOf policy) .scalarViolated [bi]
        .posInf = .ok (core', v)) : Decided core input core' v
  | monitor {predRob ms mi policy core' v} (hpass : core.passes input false = true)
      (hdet : core.Detected input.signals predRob ms (some (mi, policy)) none)
      (h : (core.withMonitors ms).emitBackup input (backupKindOf policy) .monitorFired
        [core.scalarOffset + mi] .posInf = .ok (core', v)) : Decided core input core' v
  | admitted {predRob ms} (hpass : core.passes input false = true)
      (hdet : core.Detected input.signals predRob ms none none)
      (hmode : input.proposed.controlMode = none)
      (hadmits : core.cfg.actionPolicy.admits input.proposed = true) :
      Decided core input (core.withMonitors ms).released
        (certifiedVerdict [] core.cfg.actionPolicy.fallbackMode false .posInf)
  | refused {predRob ms core' v} (hpass : core.passes input false = true)
      (hdet : core.Detected input.signals predRob ms none none)
      (hmode : input.proposed.controlMode = none)
      (hadmits : core.cfg.actionPolicy.admits input.proposed = false)
      (h : (core.withMonitors ms).emitBackup input .brakeToStop .notCertifiable [] .posInf =
        .ok (core', v)) : Decided core input core' v
  | unshielded {predRob ms mode} (hpass : core.passes input false = true)
      (hdet : core.Detected input.signals predRob ms none none)
      (hmode : input.proposed.controlMode = some mode) (hshield : core.shield = none) :
      Decided core input (core.withMonitors ms).released
        (certifiedVerdict input.proposed.setpoint mode false .posInf)
  | certified {predRob ms mode shield out} (hpass : core.passes input false = true)
      (hdet : core.Detected input.signals predRob ms none none)
      (hmode : input.proposed.controlMode = some mode) (hshield : core.shield = some shield)
      (hsolve : shield.solveMode mode input.position input.velocity input.proposed.setpoint =
        .ok out) (hcert : out.certified = true) :
      Decided core input (core.withMonitors ms).released (certifiedVerdict out.action mode
        (core.isModified out.action input.proposed.setpoint) out.minH)
  | uncertifiable {predRob ms mode shield out core' v} (hpass : core.passes input false = true)
      (hdet : core.Detected input.signals predRob ms none none)
      (hmode : input.proposed.controlMode = some mode) (hshield : core.shield = some shield)
      (hsolve : shield.solveMode mode input.position input.velocity input.proposed.setpoint =
        .ok out) (hcert : out.certified = false)
      (h : (core.withMonitors ms).emitBackup input .brakeToStop .qpUncertifiable [] out.minH =
        .ok (core', v)) : Decided core input core' v

omit [Field K] [LinearOrder K] [HasSqrt K] in
theorem passes_false_iff (core : SafetyCore K) (input : SafetyInput K) :
    core.passes input false = false ↔ (!core.goodSignals input || !core.goodState input ||
      !core.goodCommand input) = true := by
  unfold passes
  cases core.goodSignals input <;> cases core.goodState input <;>
    cases core.goodCommand input <;> simp

theorem Decided.of_gateAndShield {core core' : SafetyCore K} {input : SafetyInput K}
    {v : SafetyVerdict K} {predRob : List (Flt K)} {ms : List (Monitor K)}
    (hpass : core.passes input false = true)
    (hdet : core.Detected input.signals predRob ms none none)
    (h : (core.withMonitors ms).gateAndShield input = .ok (core', v)) :
    core.Decided input core' v := by
  unfold gateAndShield at h
  cases hmode : input.proposed.controlMode with
  | none =>
    rw [hmode] at h
    dsimp only at h
    split_ifs at h with hadmits
    · cases h
      exact .admitted hpass hdet hmode hadmits
    · exact .refused hpass hdet hmode (Bool.eq_false_of_not_eq_true hadmits) h
  | some mode =>
    rw [hmode] at h
    dsimp only at h
    split at h
    · rename_i hshield
      cases h
      exact .unshielded hpass hdet hmode hshield
    · rename_i shield hshield
      obtain ⟨out, hsolve, h⟩ := bind_eq_ok.1 h
      split_ifs at h with hcert
      · cases h
        exact .certified hpass hdet hmode hshield hsolve hcert
      · exact .uncertifiable hpass hdet hmode hshield hsolve (Bool.eq_false_of_not_eq_true hcert) h

/-- **Step.** A decision takes one of the exits. -/
theorem Decided.of_decide {core core' : SafetyCore K} {input : SafetyInput K}
    {v : SafetyVerdict K} (h : core.decide input false = .ok (core', v)) :
    core.Decided input core' v := by
  unfold SafetyCore.decide at h
  rw [if_neg (by simp)] at h
  cases hpass : core.passes input false with
  | false =>
    rw [if_pos ((passes_false_iff core input).1 hpass)] at h
    exact .badInput hpass h
  | true =>
    rw [if_neg fun hbad => by simp [(passes_false_iff core input).2 hbad] at hpass] at h
    obtain ⟨predRob, hpred, h⟩ := bind_eq_ok.1 h
    obtain ⟨⟨monitors, fired⟩, hmon, h⟩ := bind_eq_ok.1 h
    unfold arbitrate at h
    obtain ⟨hit, hhit, h⟩ := bind_eq_ok.1 h
    have hdet : core.Detected input.signals predRob monitors fired hit := ⟨hpred, hmon, hhit⟩
    cases hit with
    | some hit => exact .scalar hpass hdet h
    | none =>
      cases fired with
      | some fired => exact .monitor hpass hdet h
      | none => exact .of_gateAndShield hpass hdet h

/-! ## Recover commands -/

/-- A verdict of the recover layer, and the state it leaves: the hold is latched or kept by a hold
    and released by everything else, and the command is the one of the backup law. -/
structure Recovered (core : SafetyCore K) (input : SafetyInput K) (kind : BackupKind)
    (core' : SafetyCore K) (v : SafetyVerdict K) : Prop where
  layer : v.layer = .backup
  intervention : v.intervention = .fallback
  backupKind : v.backupKind = some kind
  mode : v.certifiedMode = core.fallbackMode input
  hold : kind = .hold → core'.holdActive = (core.latchHold input .hold).holdActive ∧
    core'.holdAnchor = (core.latchHold input .hold).holdAnchor
  released : kind ≠ .hold → core'.holdActive = false
  command : core.backup.control kind v.certifiedMode input.position input.velocity
    (if kind = .hold ∧ core'.holdActive = true then some core'.holdAnchor else none) =
      .ok v.certifiedAction

omit [Field K] [LinearOrder K] [HasSqrt K] in
theorem latchHold_released (core : SafetyCore K) (input : SafetyInput K) {kind : BackupKind}
    (hk : kind ≠ .hold) : core.latchHold input kind = core.released := by
  rw [latchHold, if_neg hk]
  rfl

omit [Field K] [LinearOrder K] [HasSqrt K] in
theorem latchHold_static (core : SafetyCore K) (input : SafetyInput K) (kind : BackupKind) :
    (core.latchHold input kind).backup = core.backup ∧
      (core.latchHold input kind).fallbackMode = core.fallbackMode := by
  obtain ⟨a, b, h⟩ := latchHold_eq core input kind
  rw [h]
  exact ⟨rfl, rfl⟩

theorem emitBackup_recovered {core core' : SafetyCore K} {input : SafetyInput K}
    {kind : BackupKind} {reason : Reason} {fired : List ℕ} {minH : Flt K} {v : SafetyVerdict K}
    (h : core.emitBackup input kind reason fired minH = .ok (core', v)) :
    core.Recovered input kind core' v ∧ v.reason = reason := by
  obtain ⟨hbackup, hfallback⟩ := latchHold_static core input kind
  simp only [emitBackup, bind_eq_ok] at h
  obtain ⟨action, hact, h⟩ := h
  cases h
  rw [hbackup] at hact
  exact ⟨{ layer := rfl, intervention := rfl, backupKind := rfl
           mode := congrFun hfallback input, hold := by rintro rfl; exact ⟨rfl, rfl⟩
           released := fun hk => by rw [latchHold_released core input hk]; rfl
           command := hact }, rfl⟩

theorem emitWatchdog_recovered {core core' : SafetyCore K} {input : SafetyInput K}
    {v : SafetyVerdict K} (h : core.emitWatchdog input = .ok (core', v)) :
    core.Recovered input .brakeToStop core' v ∧ v.reason = .watchdogExpired := by
  simp only [emitWatchdog, bind_eq_ok] at h
  obtain ⟨action, hact, h⟩ := h
  cases h
  exact ⟨{ layer := rfl, intervention := rfl, backupKind := rfl
           mode := rfl, hold := by rintro ⟨⟩
           released := fun _ => rfl
           command := hact }, rfl⟩

/-- The monitors play no part in a recover command. -/
theorem Recovered.of_withMonitors {core core' : SafetyCore K} {input : SafetyInput K}
    {kind : BackupKind} {ms : List (Monitor K)} {v : SafetyVerdict K}
    (h : (core.withMonitors ms).Recovered input kind core' v) :
    core.Recovered input kind core' v := by
  refine { layer := h.layer, intervention := h.intervention, backupKind := h.backupKind
           mode := h.mode, hold := fun hk => ?_, released := h.released, command := h.command }
  obtain ⟨hactive, hanchor⟩ := h.hold hk
  rw [hactive, hanchor]
  unfold latchHold withMonitors
  split_ifs <;> exact ⟨rfl, rfl⟩

/-! ## A tick and its place in a run -/

/-- **Step.** A tick answers with a recover command, a guarded one only where the input passes the
checks, or it lets the proposal through to its certificate. -/
theorem tick_verdict {core core' : SafetyCore K} {t : Tick K} {v : SafetyVerdict K}
    (h : core.tick t = .ok (core', v)) :
    (∃ kind, core.Recovered t.1 kind core' v ∧
        (kind ≠ .brakeToStop → t.2 = .idle ∧ core.passes t.1 false = true)) ∨
      (t.2 = .idle ∧ core.Decided t.1 core' v ∧ v.layer ≠ .backup ∧ v.backupKind = none ∧
        core'.holdActive = false) := by
  obtain ⟨input, w⟩ := t
  cases w with
  | forced => exact .inl ⟨_, (emitWatchdog_recovered h).1, fun hk => absurd rfl hk⟩
  | expired =>
    obtain ⟨⟨core₁, v₁⟩, hd, h⟩ := bind_eq_ok.1 h
    have hs := decide_static hd
    have hr := (emitWatchdog_recovered h).1
    refine .inl ⟨.brakeToStop, ?_, fun hk => absurd rfl hk⟩
    refine { layer := hr.layer, intervention := hr.intervention, backupKind := hr.backupKind
             mode := ?_, hold := by rintro ⟨⟩, released := hr.released, command := ?_ }
    · rw [hr.mode]
      unfold fallbackMode
      rw [hs.cfg]
    · rw [← hs.backup]
      exact hr.command
  | idle =>
    have hdec := Decided.of_decide (show core.decide input false = .ok (core', v) from h)
    have hexit := hdec
    cases hexit with
    | badInput hbad h => exact .inl ⟨_, (emitBackup_recovered h).1, fun hk => absurd rfl hk⟩
    | scalar hpass hdet h =>
      exact .inl ⟨_, (emitBackup_recovered h).1.of_withMonitors, fun _ => ⟨rfl, hpass⟩⟩
    | monitor hpass hdet h =>
      exact .inl ⟨_, (emitBackup_recovered h).1.of_withMonitors, fun _ => ⟨rfl, hpass⟩⟩
    | refused hpass hdet hmode hadmits h =>
      exact .inl ⟨_, (emitBackup_recovered h).1.of_withMonitors, fun _ => ⟨rfl, hpass⟩⟩
    | uncertifiable hpass hdet hmode hshield hsolve hcert h =>
      exact .inl ⟨_, (emitBackup_recovered h).1.of_withMonitors, fun _ => ⟨rfl, hpass⟩⟩
    | admitted => exact .inr ⟨rfl, hdec, by simp [certifiedVerdict], rfl, rfl⟩
    | unshielded => exact .inr ⟨rfl, hdec, by simp [certifiedVerdict], rfl, rfl⟩
    | certified =>
      refine .inr ⟨rfl, hdec, ?_, rfl, rfl⟩
      unfold certifiedVerdict
      dsimp only
      split_ifs <;> simp

/-- The tick at a position of a run, between the states before and after it. -/
theorem run_at {ticks : List (Tick K)} {core core' : SafetyCore K} {vs : List (SafetyVerdict K)}
    (h : core.run ticks = .ok (core', vs)) {i : ℕ} {v : SafetyVerdict K} (hv : vs[i]? = some v) :
    ∃ t before after, ticks[i]? = some t ∧ core.run (ticks.take i) = .ok (before, vs.take i) ∧
      before.tick t = .ok (after, v) ∧
      core.run (ticks.take (i + 1)) = .ok (after, vs.take (i + 1)) := by
  induction ticks generalizing core vs i with
  | nil =>
    cases h
    simp at hv
  | cons t ts ih =>
    simp only [run, bind_eq_ok] at h
    obtain ⟨⟨core₁, v₁⟩, hd, ⟨core₂, vs'⟩, hr, h⟩ := h
    cases h
    cases i with
    | zero =>
      obtain rfl : v₁ = v := by simpa using hv
      exact ⟨t, core, core₁, rfl, rfl, hd, bind_eq_ok.2 ⟨_, hd, rfl⟩⟩
    | succ i =>
      obtain ⟨u, before, after, hu, hbefore, htick, hafter⟩ := ih hr (by simpa using hv)
      exact ⟨u, before, after, by simpa using hu, bind_eq_ok.2 ⟨_, hd, bind_eq_ok.2 ⟨_, hbefore, rfl⟩⟩,
        htick, bind_eq_ok.2 ⟨_, hd, bind_eq_ok.2 ⟨_, hafter, rfl⟩⟩⟩

end SafetyCore

end AstroMine.Guard
