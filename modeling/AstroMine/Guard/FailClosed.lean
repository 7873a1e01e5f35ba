import AstroMine.Guard.PolicyShield

/-!
# Missing observations (`guard/wrap/shield.py`, lines 19–25)

What the shield answers when the observation of an agent is absent, or lacks the velocity or a
signal that the model reads. A signal that is missing is handed to the core as a NaN, which the core
refuses; a position or a velocity that is missing is handed over as zeros, which it does not.

Results:
* `defaultResolver_nan`: a signal the observation lacks is resolved to a NaN.
* `not_letThrough_of_missing_signal`: so the default resolver closes on it.
* `certify_failsClosed_iff`, `certify_absent_iff`: one action falls back exactly when the core
  refuses it at the state that was read, the origin if nothing was observed.
* `decide_failsClosed_iff`: so does each action of a batch, in any state a run of the shield reaches.
-/

namespace AstroMine.Guard

variable {K : Type} [Field K]

/-! ## What an observation lacks -/

/-- The observation has a value for a signal key: a reading of the sensor, or the scalar field of the
state. -/
def Observes (o : Core.Observation K) (key : String) : Prop :=
  (Dict.ofList (o.sensors.map fun r => (r.sensor, r.values))).getD key [] ≠ [] ∨
    (key = "battery_soc_j" ∧ o.selfState.batterySocJ ≠ none) ∨
    (key = "temperature_k" ∧ o.selfState.temperatureK ≠ none)

omit [Field K] in
theorem stateScalar_nan {o : Core.Observation K} {key : String} (h : ¬ Observes o key) :
    stateScalar o.selfState key = .nan := by
  simp only [Observes, not_or, not_and, not_not] at h
  obtain ⟨-, hsoc, htemp⟩ := h
  unfold stateScalar
  split_ifs with hs ht
  · rw [hsoc hs]
    rfl
  · rw [htemp ht]
    rfl
  · rfl

omit [Field K] in
theorem resolveKey_nan {o : Core.Observation K} {key : String} (h : ¬ Observes o key) :
    resolveKey o key = .nan := by
  unfold resolveKey
  have hnil : (Dict.ofList (o.sensors.map fun r => (r.sensor, r.values))).getD key [] = [] := by
    by_contra hne
    exact h (.inl hne)
  rw [hnil]
  exact stateScalar_nan h

omit [Field K] in
/-- A signal the observation lacks is resolved to a NaN. -/
theorem defaultResolver_nan {keys : List String} {observation : Option (Core.Observation K)} {i : ℕ}
    {key : String} (hkey : keys[i]? = some key) (h : ∀ o ∈ observation, ¬ Observes o key) :
    (defaultResolver keys observation)[i]? = some .nan := by
  unfold defaultResolver
  rw [List.getElem?_map, hkey]
  cases observation with
  | none => rfl
  | some o =>
    show some (resolveKey o key) = _
    rw [resolveKey_nan (h o rfl)]

omit [Field K] in
@[simp]
theorem length_fitSignals (values : List (Flt K)) (n : ℕ) : (fitSignals values n).length = n := by
  simp only [fitSignals, List.length_append, List.length_take, List.length_replicate]
  omega

omit [Field K] in
/-- The fitted signals are finite when the resolver gives a finite value for each of them. -/
theorem fitSignals_finite_iff (values : List (Flt K)) (n : ℕ) :
    (fitSignals values n).all Flt.isFinite = true ↔
      n ≤ values.length ∧ ∀ x ∈ values.take n, x.isFinite = true := by
  rw [fitSignals, List.all_append, Bool.and_eq_true, List.all_eq_true, and_comm]
  refine and_congr_left fun _ => ?_
  rw [List.all_replicate]
  by_cases h : n ≤ values.length
  · simp [h, Nat.sub_eq_zero_of_le h]
  · have hpos : n - values.length ≠ 0 := by omega
    simp [h, hpos, Flt.isFinite]

@[simp]
theorem length_fit (values : List (Flt K)) (n : ℕ) : (fit values n).length = n := by
  simp [fit]

@[simp]
theorem length_readPosition (observation : Option (Core.Observation K)) (n : ℕ) :
    (readPosition observation n).length = n := by
  cases observation <;> simp [readPosition]

@[simp]
theorem length_readVelocity (observation : Option (Core.Observation K)) (n : ℕ) :
    (readVelocity observation n).length = n := by
  unfold readVelocity
  split <;> simp

namespace PolicyShield

/-- The observation is absent, or lacks the velocity or a signal that the model reads. The pose is
never lacking: a message without one is not an observation. -/
def Lacks (shield : PolicyShield K) (observation : Option (Core.Observation K)) : Prop :=
  observation = none ∨ ∃ o, observation = some o ∧
    (0 < shield.fresh.dim ∧ o.selfState.linearVelocityMps = none ∨
      ∃ key ∈ shield.signalOrder, ¬ Observes o key)

/-- The fallback of the core is what the agent gets. -/
def FailsClosed (shield : PolicyShield K) (action : Core.Action K)
    (o : Core.Action K × SafetyVerdict K) : Prop :=
  o.2.intervention = .fallback ∧
    o.1 = writeSafeAction action o.2.certifiedAction o.2.certifiedMode shield.fallbackTarget

variable [LinearOrder K] [HasSqrt K] {shield shield' : PolicyShield K}

/-- The core refuses nothing at a state: the tick is in time, every signal, coordinate and setpoint
is finite, no bound or monitor fires on the signals, and the gate or the shield admits the
proposal. -/
structure LetThrough (shield : PolicyShield K) (p : Proposal K)
    (resolved position velocity : List (Flt K)) : Prop where
  inTime : shield.watchdog = true → p.late = false
  signals : shield.signalOrder.length ≤ resolved.length ∧
    ∀ x ∈ resolved.take shield.signalOrder.length, x.isFinite = true
  state : ∀ x ∈ position ++ velocity, x.isFinite = true
  command : ∀ x ∈ (classify p.action shield.spatialDim).setpoint, x.isFinite = true
  clear : (shield.coreFor p.action.agentId).Clear (resolved.take shield.signalOrder.length)
  admitted : (shield.coreFor p.action.agentId).Admits
    { signals := resolved.take shield.signalOrder.length, position := position
      velocity := velocity, proposed := classify p.action shield.spatialDim }

omit [Field K] [LinearOrder K] [HasSqrt K] in
theorem setpoint_of_controlMode_none {proposed : ProposedAction K}
    (h : proposed.controlMode = none) : proposed.setpoint = [] := by
  cases proposed with
  | effort x | velocity x | position x => cases h
  | opaqueCommand | mode _ | task _ => rfl

omit [Field K] [LinearOrder K] [HasSqrt K] in
/-- A proposal that the plant can evaluate has its arity. -/
theorem length_classify_setpoint {action : Core.Action K} {n : ℕ}
    (h : (classify action n).controlMode ≠ none) : (classify action n).setpoint.length = n := by
  unfold classify at h ⊢
  split at h <;> try exact absurd rfl h
  split at h <;> try exact absurd rfl h
  split_ifs at h ⊢ with harity
  · exact absurd rfl h
  · rename_i mode _
    cases mode <;> exact not_not.mp (not_or.mp harity).2

omit [Field K] [LinearOrder K] [HasSqrt K] in
theorem fitSignals_take {values : List (Flt K)} {n : ℕ} (h : n ≤ values.length) :
    fitSignals values n = values.take n := by
  rw [fitSignals, Nat.sub_eq_zero_of_le h, List.replicate_zero, List.append_nil]

/-- Everything that `_certify` marshals into the core is finite. -/
structure FiniteInput (shield : PolicyShield K) (observation : Option (Core.Observation K))
    (action : Core.Action K) : Prop where
  signals : shield.signalOrder.length ≤ (shield.resolver shield.signalOrder observation).length ∧
    ∀ x ∈ (shield.resolver shield.signalOrder observation).take shield.signalOrder.length,
      x.isFinite = true
  state : ∀ x ∈ readPosition observation shield.spatialDim ++
    readVelocity observation shield.spatialDim, x.isFinite = true
  command : ∀ x ∈ (classify action shield.spatialDim).setpoint, x.isFinite = true

omit [LinearOrder K] [HasSqrt K] in
/-- The input checks of the core, on what `_certify` marshals into it. -/
theorem passes_iff {core : SafetyCore K} (hsig : core.model.signals = shield.signalOrder)
    (hdim : core.dim = shield.spatialDim) (observation : Option (Core.Observation K))
    (action : Core.Action K) :
    core.passes (shield.safetyInput observation action) false = true ↔
      shield.FiniteInput observation action := by
  have hsignals : core.goodSignals (shield.safetyInput observation action) = true ↔
      shield.signalOrder.length ≤ (shield.resolver shield.signalOrder observation).length ∧
        ∀ x ∈ (shield.resolver shield.signalOrder observation).take shield.signalOrder.length,
          x.isFinite = true := by
    rw [← fitSignals_finite_iff]
    simp [SafetyCore.goodSignals, safetyInput, hsig]
  have hstate : core.goodState (shield.safetyInput observation action) = true ↔
      ∀ x ∈ readPosition observation shield.spatialDim ++
        readVelocity observation shield.spatialDim, x.isFinite = true := by
    have hp := length_readPosition observation shield.spatialDim
    have hv := length_readVelocity observation shield.spatialDim
    simp only [SafetyCore.goodState, safetyInput, hdim, hp, hv, le_refl, Bool.or_eq_true,
      Bool.and_eq_true, decide_eq_true_eq, List.take_of_length_le, List.all_eq_true, true_and,
      List.forall_mem_append]
    refine ⟨fun h => ?_, .inr⟩
    rcases h with hzero | h
    · rw [hzero] at hp hv ⊢
      rw [List.eq_nil_of_length_eq_zero hp, List.eq_nil_of_length_eq_zero hv]
      simp
    · exact h
  have hcommand : core.goodCommand (shield.safetyInput observation action) = true ↔
      ∀ x ∈ (classify action shield.spatialDim).setpoint, x.isFinite = true := by
    simp only [SafetyCore.goodCommand, safetyInput, hdim, Bool.or_eq_true, Bool.and_eq_true,
      decide_eq_true_eq, List.all_eq_true, Option.isNone_iff_eq_none]
    by_cases hmode : (classify action shield.spatialDim).controlMode = none
    · rw [setpoint_of_controlMode_none hmode]
      simp [hmode]
    · rw [length_classify_setpoint hmode]
      simp [hmode]
  have hparts : shield.FiniteInput observation action ↔ _ ∧ _ ∧ _ :=
    ⟨fun hf => ⟨hf.signals, hf.state, hf.command⟩, fun hf => ⟨hf.1, hf.2.1, hf.2.2⟩⟩
  rw [hparts, ← hsignals, ← hstate, ← hcommand]
  simp [SafetyCore.passes, and_assoc]

/-- The default resolver closes on a missing signal, whatever else was read. -/
theorem not_letThrough_of_missing_signal {observation : Option (Core.Observation K)}
    {p : Proposal K} {position velocity : List (Flt K)} {key : String}
    (hkey : key ∈ shield.signalOrder) (h : ∀ o ∈ observation, ¬ Observes o key) :
    ¬ shield.LetThrough p (defaultResolver shield.signalOrder observation) position velocity := by
  intro hlet
  obtain ⟨i, hi, rfl⟩ := List.getElem_of_mem hkey
  have hnan := defaultResolver_nan (List.getElem?_eq_getElem hi) h
  have hmem : Flt.nan ∈ (defaultResolver shield.signalOrder observation).take
      shield.signalOrder.length := by
    apply List.mem_of_getElem?
    rw [List.getElem?_take, if_pos hi]
    exact hnan
  exact absurd (hlet.signals.2 _ hmem) (by simp [Flt.isFinite])

section Deployed

variable {model : CompiledSafetyModel K} {cfg : CoreConfig K}

/-- An action falls back exactly when the core refuses it at the state that was read. -/
theorem certify_failsClosed_iff (hfresh : shield.fresh = SafetyCore.fromModel model cfg)
    (hsig : shield.signalOrder = model.signals) (hc : shield.Consistent)
    {observation : Option (Core.Observation K)} {p : Proposal K}
    {o : Core.Action K × SafetyVerdict K}
    (h : shield.certify observation p = .ok (shield', o)) :
    shield.FailsClosed p.action o ↔
      ¬ shield.LetThrough p (shield.resolver shield.signalOrder observation)
        (readPosition observation shield.spatialDim)
        (readVelocity observation shield.spatialDim) := by
  obtain ⟨core', htick, hemit, -⟩ := certify_ok h
  obtain ⟨hiff, -⟩ := SafetyCore.tick_answers htick
  have hfalls : shield.FailsClosed p.action o ↔ o.2.intervention = .fallback := by
    refine ⟨fun hf => hf.1, fun hfall => ?_⟩
    rcases emitAction_ok hemit with ⟨-, haction⟩ | ⟨hne, -⟩
    · exact ⟨hfall, haction⟩
    · exact absurd hfall hne
  rw [hfalls, hiff]
  refine not_congr ?_
  have hstatic := hc p.action.agentId
  have hsignals : (shield.coreFor p.action.agentId).model.signals = shield.signalOrder := by
    rw [hstatic.model, hfresh, hsig]
    rfl
  have hidle : (shield.tickOf observation p).2 = .idle ↔
      (shield.watchdog = true → p.late = false) := by
    unfold tickOf
    cases shield.watchdog <;> cases p.late <;> simp
  show _ ∧ (shield.coreFor p.action.agentId).passes (shield.safetyInput observation p.action) false
    = true ∧ _ ↔ _
  rw [hidle, passes_iff hsignals hstatic.dim]
  constructor
  · rintro ⟨hintime, ⟨hres, hstate, hcommand⟩, hclear, hadm⟩
    have hfit := fitSignals_take hres.1
    refine ⟨hintime, hres, hstate, hcommand, ?_, ?_⟩
    · rw [← hfit]
      exact hclear
    · rw [← hfit]
      exact hadm
  · rintro ⟨hintime, hres, hstate, hcommand, hclear, hadm⟩
    have hfit := fitSignals_take hres.1
    refine ⟨hintime, ⟨hres, hstate, hcommand⟩, ?_, ?_⟩
    · show SafetyCore.Clear _ (fitSignals _ _)
      rw [hfit]
      exact hclear
    · show SafetyCore.Admits _ (safetyInput _ _ _)
      rw [safetyInput, hfit]
      exact hadm

/-- An agent without an observation is taken to be at rest at the origin. -/
theorem certify_absent_iff (hfresh : shield.fresh = SafetyCore.fromModel model cfg)
    (hsig : shield.signalOrder = model.signals) (hc : shield.Consistent) {p : Proposal K}
    {o : Core.Action K × SafetyVerdict K} (h : shield.certify none p = .ok (shield', o)) :
    shield.FailsClosed p.action o ↔
      ¬ shield.LetThrough p (shield.resolver shield.signalOrder none)
        (List.replicate shield.spatialDim 0) (List.replicate shield.spatialDim 0) :=
  certify_failsClosed_iff hfresh hsig hc h

/-- Every action of a batch is the answer to it by the shield that the actions before it leave. -/
theorem decide_at {observations : Dict String (Core.Observation K)} {ps : List (Proposal K)}
    {out : List (Core.Action K × SafetyVerdict K)}
    (h : shield.decide observations ps = .ok (shield', out)) {i : ℕ} {p : Proposal K}
    (hp : ps[i]? = some p) :
    ∃ before outs after o, shield.decide observations (ps.take i) = .ok (before, outs) ∧
      before.certify (observations.get? p.action.agentId) p = .ok (after, o) ∧
      out[i]? = some o := by
  induction ps generalizing shield out i with
  | nil => cases hp
  | cons q ps ih =>
    simp only [decide, bind_eq_ok] at h
    obtain ⟨⟨shield₁, o₁⟩, hq, ⟨shield₂, os⟩, hps, h⟩ := h
    cases h
    cases i with
    | zero =>
      obtain rfl := Option.some.inj hp
      exact ⟨shield, [], shield₁, o₁, rfl, hq, rfl⟩
    | succ i =>
      obtain ⟨before, outs, after, o, hbefore, hcert, ho⟩ := ih hps hp
      refine ⟨before, o₁ :: outs, after, o, ?_, hcert, ho⟩
      exact bind_eq_ok.2 ⟨_, hq, bind_eq_ok.2 ⟨_, hbefore, rfl⟩⟩

/-- Every action of the batch whose agent has a lacking observation is answered with a fallback. -/
def FailsClosedOn (shield : PolicyShield K) (observations : Dict String (Core.Observation K))
    (ps : List (Proposal K)) (out : List (Core.Action K × SafetyVerdict K)) : Prop :=
  ∀ (i : ℕ) p o, ps[i]? = some p → out[i]? = some o →
    shield.Lacks (observations.get? p.action.agentId) → shield.FailsClosed p.action o

/-- No action of the batch whose agent has a lacking observation is let through at the state that is
read from it: zeros for what is missing. -/
def RefusesMissing (shield : PolicyShield K) (observations : Dict String (Core.Observation K))
    (ps : List (Proposal K)) : Prop :=
  ∀ (i : ℕ) p before outs, ps[i]? = some p →
    shield.decide observations (ps.take i) = .ok (before, outs) →
    shield.Lacks (observations.get? p.action.agentId) →
    ¬ before.LetThrough p
      (shield.resolver shield.signalOrder (observations.get? p.action.agentId))
      (readPosition (observations.get? p.action.agentId) shield.spatialDim)
      (readVelocity (observations.get? p.action.agentId) shield.spatialDim)

/-- **Main theorem.** In every state that a run of the shield reaches, a batch fails closed on
missing observations if and only if the core refuses its actions at the zero pose and velocity that
stand for what is missing. -/
theorem decide_failsClosed_iff {compiled : Proto.CompiledSafetyModel K} {target : String}
    {resolver : SignalResolver K} {watchdog : Bool} {start : PolicyShield K}
    (hmodel : CompiledSafetyModel.fromProto compiled cfg.maxHistoryCap = .ok model)
    (hnew : new compiled cfg target resolver watchdog = .ok start)
    {calls : List (DecideCall K)} {outs : List (List (Core.Action K × SafetyVerdict K))}
    (hrun : start.run calls = .ok (shield, outs))
    {observations : Dict String (Core.Observation K)} {ps : List (Proposal K)}
    {out : List (Core.Action K × SafetyVerdict K)}
    (h : shield.decide observations ps = .ok (shield', out)) :
    shield.FailsClosedOn observations ps out ↔ shield.RefusesMissing observations ps := by
  obtain ⟨hfresh, hc, -, -, -, hsig⟩ := new_ok hmodel hnew
  obtain ⟨⟨cores, rfl⟩, hcons, -⟩ := run_core hrun
  have hc := hcons hc
  have hat : ∀ {i : ℕ} {p : Proposal K}, ps[i]? = some p → ∃ before outs o,
      (start.withCores cores).decide observations (ps.take i) = .ok (before, outs) ∧
      out[i]? = some o ∧ ((start.withCores cores).FailsClosed p.action o ↔
        ¬ before.LetThrough p (start.resolver start.signalOrder (observations.get? p.action.agentId))
          (readPosition (observations.get? p.action.agentId) start.spatialDim)
          (readVelocity (observations.get? p.action.agentId) start.spatialDim)) := by
    intro i p hp
    obtain ⟨before, outs, after, o, hbefore, hcert, ho⟩ := decide_at h hp
    obtain ⟨⟨cores', rfl⟩, hcons'⟩ := decide_static hbefore
    have hfresh' : ((start.withCores cores).withCores cores').fresh = _ := hfresh
    exact ⟨_, outs, o, hbefore, ho, certify_failsClosed_iff hfresh' hsig (hcons' hc) hcert⟩
  constructor
  · intro hclosed i p before outs hp hbefore hlacks
    obtain ⟨before', outs', o, hbefore', ho, hiff⟩ := hat hp
    rw [hbefore] at hbefore'
    cases hbefore'
    exact hiff.mp (hclosed i p o hp ho hlacks)
  · intro hrefuses i p o hp ho hlacks
    obtain ⟨before, outs, o', hbefore, ho', hiff⟩ := hat hp
    rw [ho] at ho'
    cases ho'
    exact hiff.mpr (hrefuses i p before outs hp hbefore hlacks)

end Deployed

/-! ## An agent that nobody has seen -/

/-- A command that is no number falls back although nothing was observed. -/
theorem nanCommand_failsClosed : ∃ model shield shield' out,
    CompiledSafetyModel.fromProto lineProto (2 ^ 20) = .ok model ∧
    new lineProto .default "base" defaultResolver false = .ok shield ∧
    shield.decide .empty [⟨velocityCommand "a" [.nan], false⟩] = .ok (shield', out) ∧
    shield.FailsClosedOn .empty [⟨velocityCommand "a" [.nan], false⟩] out := by
  have h : ((CompiledSafetyModel.fromProto lineProto (2 ^ 20)).toOption.any fun _ =>
      (new lineProto .default "base" defaultResolver false).toOption.any fun shield =>
        (shield.decide .empty [⟨velocityCommand "a" [.nan], false⟩]).toOption.any fun _ =>
          Decidable.decide (shield.spatialDim = 1)) = true := by
    decide +kernel
  obtain ⟨model, hmodel, h⟩ := exists_ok_of_any h
  obtain ⟨shield, hnew, h⟩ := exists_ok_of_any h
  obtain ⟨⟨shield', out⟩, hdecide, hdim⟩ := exists_ok_of_any h
  have hdim := of_decide_eq_true hdim
  have hrun : shield.run [] = .ok (shield, []) := rfl
  refine ⟨model, shield, shield', out, hmodel, hnew, hdecide,
    (decide_failsClosed_iff hmodel hnew hrun hdecide).mpr ?_⟩
  intro i p before outs hp hbefore _ hlet
  obtain rfl : p = ⟨velocityCommand "a" [.nan], false⟩ :=
    List.mem_singleton.mp (List.mem_of_getElem? hp)
  obtain ⟨⟨cores, rfl⟩, -⟩ := decide_static hbefore
  have hnan : Flt.nan ∈ (classify (velocityCommand "a" [(.nan : Flt ℚ)])
      (shield.withCores cores).spatialDim).setpoint := by
    show _ ∈ (classify _ shield.spatialDim).setpoint
    rw [hdim]
    exact List.mem_singleton_self _
  exact absurd (hlet.command _ hnan) (by simp [Flt.isFinite])

/-- A velocity command of an agent without an observation is certified as it was proposed. -/
theorem absentObservation_not_failsClosed : ∃ model shield shield' out,
    CompiledSafetyModel.fromProto lineProto (2 ^ 20) = .ok model ∧
    new lineProto .default "base" defaultResolver false = .ok shield ∧
    shield.decide .empty [⟨velocityCommand "a" [.fin (1 / 2)], false⟩] = .ok (shield', out) ∧
    out.map Prod.fst = [velocityCommand "a" [.fin (1 / 2)]] ∧
    ¬ shield.FailsClosedOn .empty [⟨velocityCommand "a" [.fin (1 / 2)], false⟩] out := by
  have h : ((CompiledSafetyModel.fromProto lineProto (2 ^ 20)).toOption.any fun _ =>
      (new lineProto .default "base" defaultResolver false).toOption.any fun shield =>
        (shield.decide .empty [⟨velocityCommand "a" [.fin (1 / 2)], false⟩]).toOption.any fun r =>
          Decidable.decide (r.2.map Prod.fst = [velocityCommand "a" [.fin (1 / 2)]] ∧
            r.2.map (fun o => o.2.intervention) = [Intervention.none])) = true := by
    decide +kernel
  obtain ⟨model, hmodel, h⟩ := exists_ok_of_any h
  obtain ⟨shield, hnew, h⟩ := exists_ok_of_any h
  obtain ⟨⟨shield', out⟩, hdecide, hout⟩ := exists_ok_of_any h
  obtain ⟨haction, hnone⟩ := of_decide_eq_true hout
  refine ⟨model, shield, shield', out, hmodel, hnew, hdecide, haction, fun hclosed => ?_⟩
  obtain ⟨o, rest, rfl, hnone, -⟩ := List.map_eq_cons_iff.mp hnone
  have hfalls := hclosed 0 _ o rfl rfl (.inl rfl)
  cases hnone.symm.trans hfalls.1

end PolicyShield

end AstroMine.Guard
