import AstroMine.Lib.Agree
import AstroMine.Guard.PolicyShield

/-!
# What a safety core remembers

Between two ticks a core carries the histories of its monitors and, while it holds, the anchor it
holds at. Two cores of one model with the same memory answer every tick alike, and two policy
shields answer a batch alike where the cores of the agents it acts for have the same memory.

Results:
* `SafetyCore.tick_agree`: the memory is all that a tick reads of the past.
* `PolicyShield.decide_agree`: a batch reads the cores of its own agents and no others.
-/

namespace AstroMine.Guard

section Core

variable {K : Type} [Field K] [LinearOrder K] [HasSqrt K]

namespace SafetyCore

/-- The same monitor histories, and the same hold anchor where one is in force. -/
structure SameMemory (core core' : SafetyCore K) : Prop where
  static : SameStatic core core'
  monitors : core'.monitors = core.monitors
  holdActive : core'.holdActive = core.holdActive
  anchor : core.holdActive = true → core'.holdAnchor = core.holdAnchor

omit [Field K] [LinearOrder K] [HasSqrt K] in
theorem SameMemory.refl (core : SafetyCore K) : SameMemory core core :=
  ⟨⟨rfl, rfl, rfl, rfl, rfl, rfl⟩, rfl, rfl, fun _ => rfl⟩

omit [Field K] [LinearOrder K] [HasSqrt K] in
/-- Cores with the same memory are equal, up to the anchor of a hold that is over. -/
theorem SameMemory.cases {core core' : SafetyCore K} (h : SameMemory core core') :
    core' = core ∨ core.holdActive = false ∧ core' = core.withHold core'.holdAnchor false := by
  obtain ⟨⟨hmodel, hcfg, hdim, hshield, hbackup, hoffset⟩, hmonitors, hactive, hanchor⟩ := h
  obtain ⟨model, cfg, dim, monitors, shield, backup, scalarOffset, holdAnchor, holdActive⟩ := core
  obtain ⟨model', cfg', dim', monitors', shield', backup', scalarOffset', holdAnchor',
    holdActive'⟩ := core'
  dsimp only at hmodel hcfg hdim hshield hbackup hoffset hmonitors hactive hanchor
  subst hmodel hcfg hdim hshield hbackup hoffset hmonitors hactive
  cases holdActive' with
  | true =>
    obtain rfl := hanchor rfl
    exact Or.inl rfl
  | false => exact Or.inr ⟨rfl, rfl⟩

omit [Field K] [LinearOrder K] [HasSqrt K] in
/-- A core that does not hold has the same memory as with any other anchor. -/
theorem sameMemory_withHold {core : SafetyCore K} (h : core.holdActive = false)
    (anchor : List (Flt K)) : SameMemory core (core.withHold anchor false) :=
  ⟨⟨rfl, rfl, rfl, rfl, rfl, rfl⟩, rfl, h.symm, fun hactive => by rw [h] at hactive; cases hactive⟩

omit [Field K] [LinearOrder K] [HasSqrt K] in
/-- The hold of the tick leaves the same memory behind. -/
theorem latchHold_sameMemory {core : SafetyCore K} (h : core.holdActive = false)
    (anchor : List (Flt K)) (input : SafetyInput K) (kind : BackupKind) :
    SameMemory (core.latchHold input kind) ((core.withHold anchor false).latchHold input kind) := by
  unfold latchHold
  split_ifs with hkind hlatch hlatch' hlatch'
  · exact .refl _
  · exact absurd ⟨rfl, hlatch.2⟩ hlatch'
  · exact absurd ⟨h, hlatch'.2⟩ hlatch
  · exact sameMemory_withHold h anchor
  · exact ⟨⟨rfl, rfl, rfl, rfl, rfl, rfl⟩, rfl, rfl, fun hactive => nomatch hactive⟩

/-- **Step.** A backup answer reads nothing else of the past. -/
theorem emitBackup_agree {core core' : SafetyCore K} (h : SameMemory core core')
    (input : SafetyInput K) (kind : BackupKind) (reason : Reason) (fired : List ℕ) (minH : Flt K) :
    Agree SameMemory (core.emitBackup input kind reason fired minH)
      (core'.emitBackup input kind reason fired minH) := by
  obtain rfl | ⟨hidle, hcore'⟩ := h.cases
  · exact .refl SameMemory.refl _
  · rw [hcore']
    have hlatch := latchHold_sameMemory hidle core'.holdAnchor input kind
    unfold emitBackup
    obtain heq | ⟨hreleased, heq⟩ := hlatch.cases
    · rw [heq]
      exact .refl SameMemory.refl _
    · have htarget : (if kind = .hold ∧ (core.latchHold input kind).holdActive = true then
          some (core.latchHold input kind).holdAnchor else none) = none := by
        rw [hreleased]
        exact if_neg fun hand => nomatch hand.2
      rw [heq]
      simp only [htarget]
      rw [if_neg (fun hand => nomatch hand.2)]
      exact Agree.bind_same fun action => .ok _ (sameMemory_withHold hreleased _)

/-- **Step.** A watchdog answer drops the hold. -/
theorem emitWatchdog_agree {core core' : SafetyCore K} (h : SameMemory core core')
    (input : SafetyInput K) :
    Agree SameMemory (core.emitWatchdog input) (core'.emitWatchdog input) := by
  obtain rfl | ⟨hidle, hcore'⟩ := h.cases
  · exact .refl SameMemory.refl _
  · rw [hcore']
    exact Agree.bind_same fun action => .ok _ (sameMemory_withHold rfl core'.holdAnchor)

/-- **Step.** So do the action gate and the shield. -/
theorem gateAndShield_agree {core core' : SafetyCore K} (h : SameMemory core core')
    (input : SafetyInput K) :
    Agree SameMemory (core.gateAndShield input) (core'.gateAndShield input) := by
  have hreleased :
      SameMemory { core with holdActive := false } { core' with holdActive := false } :=
    ⟨⟨h.static.model, h.static.cfg, h.static.dim, h.static.shield, h.static.backup,
      h.static.scalarOffset⟩, h.monitors, rfl, fun hactive => nomatch hactive⟩
  have hmodified : core'.isModified = core.isModified := by
    unfold isModified
    rw [h.static.cfg, h.static.dim]
  unfold gateAndShield
  rw [h.static.cfg, h.static.shield] at hreleased ⊢
  rw [hmodified]
  split
  · split_ifs
    · exact .ok _ hreleased
    · exact emitBackup_agree h _ _ _ _ _
  · split
    · exact .ok _ hreleased
    · refine Agree.bind_same fun out => ?_
      split_ifs
      · exact .ok _ hreleased
      · exact emitBackup_agree h _ _ _ _ _

/-- **Step.** So does the arbitration. -/
theorem arbitrate_agree {core core' : SafetyCore K} (h : SameMemory core core')
    (input : SafetyInput K) (predRob : List (Flt K)) (fired : Option (ℕ × OnUncertain)) :
    Agree SameMemory (core.arbitrate input predRob fired)
      (core'.arbitrate input predRob fired) := by
  unfold arbitrate
  rw [h.static.model, h.static.scalarOffset]
  refine Agree.bind_same fun hit => ?_
  split
  · exact emitBackup_agree h _ _ _ _ _
  · split
    · exact emitBackup_agree h _ _ _ _ _
    · exact gateAndShield_agree h _

/-- **Step.** A decision reads the memory and nothing else of the past. -/
theorem decide_agree {core core' : SafetyCore K} (h : SameMemory core core')
    (input : SafetyInput K) (forceWatchdog : Bool) :
    Agree SameMemory (core.decide input forceWatchdog) (core'.decide input forceWatchdog) := by
  have hsignals : core'.goodSignals input = core.goodSignals input := by
    unfold goodSignals
    rw [h.static.model]
  have hstate : core'.goodState input = core.goodState input := by
    unfold goodState
    rw [h.static.dim]
  have hcommand : core'.goodCommand input = core.goodCommand input := by
    unfold goodCommand
    rw [h.static.dim]
  have hpredicates : core'.predicates input.signals = core.predicates input.signals := by
    unfold predicates
    rw [h.static.model]
  unfold SafetyCore.decide
  rw [hsignals, hstate, hcommand, hpredicates, h.monitors, h.static.cfg]
  split_ifs
  · exact emitWatchdog_agree h input
  · exact emitBackup_agree h _ _ _ _ _
  · refine Agree.bind_same fun predRob => Agree.bind_same fun r => arbitrate_agree ?_ _ _ _
    exact ⟨⟨h.static.model, rfl, h.static.dim, h.static.shield, h.static.backup,
      h.static.scalarOffset⟩, rfl, h.holdActive, h.anchor⟩

/-- **Tick.** Cores with the same memory answer a tick alike and have the same memory after it. -/
theorem tick_agree {core core' : SafetyCore K} (h : SameMemory core core') (t : Tick K) :
    Agree SameMemory (core.tick t) (core'.tick t) := by
  unfold tick
  split
  · exact decide_agree h _ _
  · exact decide_agree h _ _
  · exact (decide_agree h _ _).bind fun s s' _ hs => emitWatchdog_agree hs _

end SafetyCore

end Core

/-! ## The policy shield -/

namespace PolicyShield

variable {K : Type} [Field K] [LinearOrder K] [HasSqrt K]

/-- Two states of one shield whose cores have the same memory for the agents in `A`. -/
def SameMemoryFor (A : Set String) (shield shield' : PolicyShield K) : Prop :=
  (∃ cores, shield' = shield.withCores cores) ∧
    ∀ a ∈ A, SafetyCore.SameMemory (shield.coreFor a) (shield'.coreFor a)

/-- **Action.** An action is certified by the core of its own agent. -/
theorem certify_agree {A : Set String} {shield shield' : PolicyShield K}
    (h : SameMemoryFor A shield shield') (observation : Option (Core.Observation K))
    {p : Proposal K} (hp : p.action.agentId ∈ A) :
    Agree (SameMemoryFor A) (shield.certify observation p) (shield'.certify observation p) := by
  obtain ⟨⟨cores, rfl⟩, hcores⟩ := h
  have htick := SafetyCore.tick_agree (hcores _ hp) (shield.tickOf observation p)
  refine htick.bind fun core core' verdict hcore => ?_
  refine Agree.bind_same fun action => .ok _ ⟨⟨_, rfl⟩, fun a ha => ?_⟩
  have hset := coreFor_set shield p.action.agentId core a
  have hset' := coreFor_set (shield.withCores cores) p.action.agentId core' a
  show SafetyCore.SameMemory
    ((shield.withCores (shield.cores.set p.action.agentId core)).coreFor a)
    (((shield.withCores cores).withCores
      ((shield.withCores cores).cores.set p.action.agentId core')).coreFor a)
  rw [hset, hset']
  split_ifs with heq
  · exact hcore
  · exact hcores a ha

/-- **Batch.** Shields whose cores have the same memory for the agents of a batch answer it
alike. -/
theorem decide_agree {A : Set String} (observations : Dict String (Core.Observation K))
    {ps : List (Proposal K)} (hps : ∀ p ∈ ps, p.action.agentId ∈ A)
    {shield shield' : PolicyShield K} (h : SameMemoryFor A shield shield') :
    Agree (SameMemoryFor A) (shield.decide observations ps) (shield'.decide observations ps) := by
  induction ps generalizing shield shield' with
  | nil => exact .ok [] h
  | cons p ps ih =>
    refine (certify_agree h _ (hps p List.mem_cons_self)).bind fun s s' out hs => ?_
    refine (ih (fun q hq => hps q (List.mem_cons_of_mem p hq)) hs).bind fun t t' outs ht => ?_
    exact .ok (out :: outs) ht

end PolicyShield

end AstroMine.Guard
