import AstroMine.Guard.Detection
import AstroMine.Guard.FailClosed

/-!
# The clock of the monitors (`guard/wrap/shield.py`, lines 496–545)

The monitors of an agent consume a sample when one of its actions is certified, so their clock is
driven by the batches of the wrapped policy and not by the calls of `decide`.

Results:
* `run_consumed`: the monitors after a run are the new ones fed with the samples of the actions.
* `run_tracked`: the shield tracks the agents that the batches name.
* `run_sampleClock_iff`: the clock of the monitors is the clock of the calls exactly when every batch
  has one well-formed action for every agent of the run.
-/

namespace AstroMine.Guard.PolicyShield

variable {K : Type} [Field K] [LinearOrder K] [HasSqrt K] {shield shield' : PolicyShield K}

/-! ## The samples of a run -/

/-- The samples that a call gives the monitors of an agent. -/
def samplesOf (shield : PolicyShield K) (a : String) (call : DecideCall K) : List (List (Flt K)) :=
  SafetyCore.samples shield.fresh.reaches (shield.ticksOf a call)

/-- The samples that the monitors of an agent have consumed after some calls. -/
def consumed (shield : PolicyShield K) (a : String) (calls : List (DecideCall K)) :
    List (List (Flt K)) :=
  calls.flatMap (shield.samplesOf a)

omit [Field K] [LinearOrder K] [HasSqrt K] in
theorem samples_flatMap {β : Type} (p : SafetyCore.Tick K → Bool)
    (f : β → List (SafetyCore.Tick K)) (xs : List β) :
    SafetyCore.samples p (xs.flatMap f) = xs.flatMap fun x => SafetyCore.samples p (f x) := by
  induction xs with
  | nil => rfl
  | cons x xs ih =>
    rw [List.flatMap_cons, List.flatMap_cons, ← ih]
    simp [SafetyCore.samples]

/-- The monitors of an agent after a run of a new shield are the new ones fed with what they have
consumed. -/
theorem run_consumed (hcores : shield.cores = .empty)
    {calls : List (DecideCall K)} {outs : List (List (Core.Action K × SafetyVerdict K))}
    (h : shield.run calls = .ok (shield', outs)) (a : String) :
    shield.fresh.feed (shield.consumed a calls) = .ok (shield'.coreFor a).monitors := by
  obtain ⟨-, -, hrun⟩ := run_core h
  obtain ⟨vs, hvs⟩ := hrun a
  have hfresh : shield.coreFor a = shield.fresh := by
    unfold coreFor
    rw [hcores]
    rfl
  rw [hfresh] at hvs
  have hfeed := SafetyCore.monitors_eq_feed hvs
  rwa [samples_flatMap] at hfeed

/-! ## The agents that are tracked -/

/-- The actions of the run name the agent. -/
def Named (a : String) (calls : List (DecideCall K)) : Prop :=
  ∃ call ∈ calls, ∃ p ∈ call.proposed, p.action.agentId = a

theorem decide_tracked {observations : Dict String (Core.Observation K)} {ps : List (Proposal K)}
    {out : List (Core.Action K × SafetyVerdict K)}
    (h : shield.decide observations ps = .ok (shield', out)) (a : String) :
    (shield'.cores.get? a).isSome ↔
      (shield.cores.get? a).isSome ∨ ∃ p ∈ ps, p.action.agentId = a := by
  induction ps generalizing shield out with
  | nil =>
    cases h
    simp
  | cons p ps ih =>
    simp only [decide, bind_eq_ok] at h
    obtain ⟨⟨shield₁, o⟩, hp, ⟨shield₂, os⟩, hps, h⟩ := h
    cases h
    obtain ⟨core', -, -, rfl⟩ := certify_ok hp
    rw [ih hps, List.exists_mem_cons_iff]
    show ((shield.cores.set p.action.agentId core').get? a).isSome ∨ _ ↔ _
    rw [Dict.get?_set]
    by_cases ha : a = p.action.agentId
    · subst ha
      simp
    · simp [ha, Ne.symm ha]

/-- The shield tracks the agents that the batches name. -/
theorem run_tracked {calls : List (DecideCall K)}
    {outs : List (List (Core.Action K × SafetyVerdict K))}
    (h : shield.run calls = .ok (shield', outs)) (a : String) :
    (shield'.cores.get? a).isSome ↔ (shield.cores.get? a).isSome ∨ Named a calls := by
  induction calls generalizing shield outs with
  | nil =>
    cases h
    simp [Named]
  | cons call calls ih =>
    simp only [run, bind_eq_ok] at h
    obtain ⟨⟨shield₁, o⟩, hcall, ⟨shield₂, os⟩, hcalls, h⟩ := h
    cases h
    rw [ih hcalls, decide_tracked hcall, or_assoc]
    simp [Named]

/-! ## One sample for each call -/

/-- The batch proposes one well-formed action for the agent, and no other. -/
def OneSample (shield : PolicyShield K) (a : String) (call : DecideCall K) : Prop :=
  ∃ before p after, call.proposed = before ++ p :: after ∧ p.action.agentId = a ∧
    shield.FiniteInput (call.observations.get? a) p.action ∧
    ∀ q ∈ before ++ after, q.action.agentId = a →
      ¬ shield.FiniteInput (call.observations.get? a) q.action

omit [LinearOrder K] [HasSqrt K] in
/-- A tick of the shield reaches the monitors when its inputs are finite. -/
theorem reaches_tickOf_iff (hsig : shield.fresh.model.signals = shield.signalOrder)
    (observation : Option (Core.Observation K)) (p : Proposal K) :
    shield.fresh.reaches (shield.tickOf observation p) = true ↔
      shield.FiniteInput observation p.action := by
  rw [← passes_iff hsig rfl]
  unfold SafetyCore.reaches tickOf
  split_ifs <;> exact Iff.rfl

omit [LinearOrder K] [HasSqrt K] in
theorem length_samplesOf_eq_one_iff (hsig : shield.fresh.model.signals = shield.signalOrder)
    (a : String) (call : DecideCall K) :
    (shield.samplesOf a call).length = 1 ↔ shield.OneSample a call := by
  have hfilter : (shield.samplesOf a call).length = (call.proposed.filter fun p =>
      shield.fresh.reaches (shield.tickOf (call.observations.get? a) p) &&
        Decidable.decide (p.action.agentId = a)).length := by
    simp only [samplesOf, SafetyCore.samples, ticksOf, List.length_map, List.filter_map,
      List.filter_filter, Function.comp_def]
  rw [hfilter, List.length_eq_one_iff]
  simp only [List.filter_eq_cons_iff, List.filter_eq_nil_iff, Bool.and_eq_true,
    decide_eq_true_eq, reaches_tickOf_iff hsig]
  constructor
  · rintro ⟨p, before, after, hps, hbefore, ⟨hfinite, hp⟩, hafter⟩
    refine ⟨before, p, after, hps, hp, hfinite, fun q hq hqa hqf => ?_⟩
    rcases List.mem_append.mp hq with hq | hq
    · exact hbefore q hq ⟨hqf, hqa⟩
    · exact hafter q hq ⟨hqf, hqa⟩
  · rintro ⟨before, p, after, hps, hp, hfinite, hothers⟩
    refine ⟨p, before, after, hps, fun q hq hand => ?_, ⟨hfinite, hp⟩, fun q hq hand => ?_⟩
    · exact hothers q (List.mem_append_left _ hq) hand.2 hand.1
    · exact hothers q (List.mem_append_right _ hq) hand.2 hand.1

omit [Field K] [LinearOrder K] [HasSqrt K] in
/-- The elements of a list contribute one item each when every prefix has contributed as many items
as it has elements. -/
theorem length_flatMap_take_iff {α β : Type} (g : α → List β) (xs : List α) :
    (∀ n ≤ xs.length, ((xs.take n).flatMap g).length = n) ↔ ∀ x ∈ xs, (g x).length = 1 := by
  induction xs with
  | nil => simp
  | cons x xs ih =>
    rw [List.forall_mem_cons, ← ih]
    constructor
    · intro h
      have hx : (g x).length = 1 := by simpa using h 1 (by simp)
      refine ⟨hx, fun n hn => ?_⟩
      have hsucc := h (n + 1) (by simpa using hn)
      rw [List.take_succ_cons, List.flatMap_cons, List.length_append] at hsucc
      omega
    · rintro ⟨hx, hxs⟩ n hn
      cases n with
      | zero => rfl
      | succ n =>
        rw [List.take_succ_cons, List.flatMap_cons, List.length_append,
          hxs n (by simpa using hn), hx, Nat.add_comm]

/-- **Main theorem.** In every run of a shield, the monitors of every tracked agent have consumed as
many samples as there were calls, after each call, if and only if every batch has one well-formed
action for every agent of the run. -/
theorem run_sampleClock_iff {compiled : Proto.CompiledSafetyModel K} {cfg : CoreConfig K}
    {target : String} {resolver : SignalResolver K} {watchdog : Bool}
    (hnew : new compiled cfg target resolver watchdog = .ok shield)
    {calls : List (DecideCall K)} {outs : List (List (Core.Action K × SafetyVerdict K))}
    (hrun : shield.run calls = .ok (shield', outs)) :
    (∀ a, shield.fresh.feed (shield.consumed a calls) = .ok (shield'.coreFor a).monitors) ∧
      ((∀ a, (shield'.cores.get? a).isSome → ∀ n ≤ calls.length,
        (shield.consumed a (calls.take n)).length = n) ↔
      ∀ a, Named a calls → ∀ call ∈ calls, shield.OneSample a call) := by
  obtain ⟨model, hmodel⟩ : ∃ model,
      CompiledSafetyModel.fromProto compiled cfg.maxHistoryCap = .ok model := by
    simp only [new, bind_eq_ok] at hnew
    obtain ⟨model, hmodel, -⟩ := hnew
    exact ⟨model, hmodel⟩
  obtain ⟨hfresh, -, hcores, -, -, hsig⟩ := new_ok hmodel hnew
  have hsignals : shield.fresh.model.signals = shield.signalOrder := by
    rw [hfresh, hsig]
    rfl
  refine ⟨run_consumed hcores hrun, forall_congr' fun a => ?_⟩
  have htracked : (shield'.cores.get? a).isSome ↔ Named a calls := by
    rw [run_tracked hrun, hcores, Dict.get?_empty]
    simp
  rw [htracked]
  refine imp_congr_right fun _ => ?_
  unfold consumed
  rw [length_flatMap_take_iff]
  refine forall₂_congr fun call _ => ?_
  exact length_samplesOf_eq_one_iff hsignals a call

/-! ## A policy that repeats an agent -/

/-- A standby directive. -/
def standbyMode (agentId : String) : Core.Action ℚ where
  agentId := agentId
  kind := .mode
  mode := some { mode := "standby" }

/-- A call with one observed agent. -/
def socCall (proposed : List (Proposal ℚ)) : DecideCall ℚ where
  observations := Dict.ofList [("a",
    { selfState := { translationM := ⟨.fin 0, .fin 0, .fin 0⟩ }
      sensors := [{ sensor := "soc", values := [.fin 50] }] })]
  proposed := proposed

/-- A directive for the agent in every call gives its monitors a sample in every call. -/
theorem socRun_sampleClock : ∃ shield shield' outs,
    new (SafetyCore.oneMonitorProto 0) .default "base" defaultResolver false = .ok shield ∧
    shield.run (List.replicate 2 (socCall [⟨standbyMode "a", false⟩])) = .ok (shield', outs) ∧
    (shield.consumed "a" (List.replicate 2 (socCall [⟨standbyMode "a", false⟩]))).length = 2 := by
  have h : ((new (SafetyCore.oneMonitorProto 0) .default "base" defaultResolver
      false).toOption.any fun shield =>
        (shield.run (List.replicate 2 (socCall [⟨standbyMode "a", false⟩]))).toOption.any fun r =>
          Decidable.decide ((r.1.cores.get? "a").isSome ∧ shield.spatialDim = 0 ∧
            shield.signalOrder = ["soc"] ∧
            shield.resolver shield.signalOrder ((socCall []).observations.get? "a") =
              [.fin 50])) = true := by
    decide +kernel
  obtain ⟨shield, hnew, h⟩ := exists_ok_of_any h
  obtain ⟨⟨shield', outs⟩, hrun, h⟩ := exists_ok_of_any h
  obtain ⟨htracked, hdim, horder, hresolved⟩ := of_decide_eq_true h
  obtain ⟨-, hiff⟩ := run_sampleClock_iff hnew hrun
  refine ⟨shield, shield', outs, hnew, hrun, hiff.mpr ?_ "a" htracked 2 le_rfl⟩
  rintro a ⟨call', hcall', p, hp, rfl⟩ call hcall
  obtain rfl := List.eq_of_mem_replicate hcall
  obtain rfl := List.eq_of_mem_replicate hcall'
  obtain rfl := List.mem_singleton.mp hp
  refine ⟨[], _, [], rfl, rfl, ⟨?_, ?_, ?_⟩, by simp⟩
  · show _ ≤ (shield.resolver _ ((socCall []).observations.get? "a")).length ∧
      ∀ x ∈ (shield.resolver _ ((socCall []).observations.get? "a")).take _, _
    rw [hresolved, horder]
    simp [Flt.isFinite]
  · rw [hdim, List.eq_nil_of_length_eq_zero (length_readPosition _ 0),
      List.eq_nil_of_length_eq_zero (length_readVelocity _ 0)]
    simp
  · simp [classify, standbyMode, ProposedAction.setpoint]

/-- Two actions of one agent in a batch give its monitors two samples in one call. -/
theorem repeatedAgent_not_sampleClock : ∃ shield shield' outs,
    new (SafetyCore.oneMonitorProto 0) .default "base" defaultResolver false = .ok shield ∧
    shield.run [socCall [⟨standbyMode "a", false⟩, ⟨standbyMode "a", false⟩]] =
      .ok (shield', outs) ∧
    (shield'.cores.get? "a").isSome ∧
    (shield.consumed "a"
      [socCall [⟨standbyMode "a", false⟩, ⟨standbyMode "a", false⟩]]).length ≠ 1 := by
  have h : ((new (SafetyCore.oneMonitorProto 0) .default "base" defaultResolver
      false).toOption.any fun shield =>
        (shield.run [socCall [⟨standbyMode "a", false⟩, ⟨standbyMode "a", false⟩]]).toOption.any
          fun r => Decidable.decide ((r.1.cores.get? "a").isSome ∧ (shield.consumed "a"
            [socCall [⟨standbyMode "a", false⟩, ⟨standbyMode "a", false⟩]]).length ≠ 1)) = true := by
    decide +kernel
  obtain ⟨shield, hnew, h⟩ := exists_ok_of_any h
  obtain ⟨⟨shield', outs⟩, hrun, h⟩ := exists_ok_of_any h
  obtain ⟨htracked, hlen⟩ := of_decide_eq_true h
  exact ⟨shield, shield', outs, hnew, hrun, htracked, hlen⟩

end AstroMine.Guard.PolicyShield
