import AstroMine.Learn.Delivery
import Mathlib.Algebra.BigOperators.Group.List.Basic
import Mathlib.Algebra.Order.BigOperators.Group.List
import Mathlib.Algebra.Order.Floor.Semiring

/-!
# Accounting of the comms channel (`learn/envs/comms/ledger.py`)

Each link that is offered falls into one outcome: gated out, dropped over the budget, lost or
delivered. While an agent is served, its links that have passed the budget still owe an outcome.

Results:
* `offer_owes`, `count_owes`: what the stages do to the links that owe an outcome.
* `run_tally`: the tallies of a run are conserved.
* `admitLinks_spec`: what the budget admits, and what it sheds.
* `run_accounted`: the accounting of every run since a reset.
-/

namespace AstroMine.Learn

variable {K ρ : Type} [Field K]

/-- `CommsLedger.delivery_ratio` (`ledger.py`, lines 64–69). -/
def CommsModel.deliveryRatio (model : CommsModel K ρ) : K :=
  let offered : ℕ := (model.ledger.entries.map fun entry => entry.2.offered).sum
  let delivered : ℕ := (model.ledger.entries.map fun entry => entry.2.delivered).sum
  if offered = 0 then 1 else (delivered : K) / offered

/-! ## What is owed -/

/-- All but `owed` of the links offered have an outcome. -/
def LinkTally.Owes (tally : LinkTally K) (owed : ℕ) : Prop :=
  tally.delivered + tally.gatedOut + tally.budgetDropped + tally.lossDropped + owed = tally.offered

/-- Each link offered has an outcome. -/
def LinkTally.Conserved (tally : LinkTally K) : Prop :=
  tally.delivered + tally.gatedOut + tally.budgetDropped + tally.lossDropped = tally.offered

theorem LinkTally.conserved_zero : (LinkTally.zero : LinkTally K).Conserved := rfl

omit [Field K] in
theorem LinkTally.Conserved.delivered_le {tally : LinkTally K} (h : tally.Conserved) :
    tally.delivered ≤ tally.offered := by
  rw [LinkTally.Conserved] at h
  omega

/-- An outcome pays for one link. -/
theorem count_owes {tally : LinkTally K} {owed : ℕ} (h : tally.Owes (owed + 1)) (bits : K)
    (outcome : Outcome) : (tally.count bits outcome).Owes owed := by
  rw [LinkTally.Owes] at h
  cases outcome with
  | dropped =>
    simp only [LinkTally.Owes, LinkTally.count]
    omega
  | delivered delay =>
    simp only [LinkTally.Owes, LinkTally.count]
    omega

theorem tally_set (model : CommsModel K ρ) (agent agent' : String) (tally : LinkTally K) (rng : ρ)
    (buffers : Dict (String × String) (List (DelayBuffer.InFlight (Payload K)))) :
    CommsModel.tally ⟨rng, buffers, model.ledger.set agent tally⟩ agent' =
      if agent' = agent then tally else model.tally agent' := by
  simp only [CommsModel.tally, Dict.getD, Dict.get?_set]
  split_ifs <;> rfl

/-- Where the tallies are conserved, no more is delivered than is offered. -/
theorem deliveryRatio_mem [LinearOrder K] [IsStrictOrderedRing K] {model : CommsModel K ρ}
    (h : ∀ agent, (model.tally agent).Conserved) :
    0 ≤ model.deliveryRatio ∧ model.deliveryRatio ≤ 1 := by
  have hentry : ∀ entry ∈ model.ledger.entries, entry.2.delivered ≤ entry.2.offered := by
    intro entry hentry
    have htally : model.tally entry.1 = entry.2 := by
      rw [CommsModel.tally, Dict.getD, (Dict.get?_eq_some_iff _ _ _).mpr hentry]
      rfl
    exact (htally ▸ h entry.1).delivered_le
  have hsum := List.sum_le_sum hentry
  rw [CommsModel.deliveryRatio]
  split_ifs with hzero
  · exact ⟨zero_le_one, le_rfl⟩
  · exact ⟨div_nonneg (Nat.cast_nonneg _) (Nat.cast_nonneg _),
      div_le_one_of_le₀ (Nat.cast_le.mpr hsum) (Nat.cast_nonneg _)⟩

variable [LinearOrder K]

section Budget

variable [FloorRing K]

/-- The links of an observation that pass the gate. -/
def passedLinks (config : CommsModelConfig K) (obs : Observation K) : List (PeerLink K) :=
  (candidates config obs).filter fun link =>
    gate config link obs.selfState ((neighborsById obs).get? link.peer)

theorem length_admitLinks_le (config : CommsModelConfig K) (passed : List (PeerLink K)) :
    (admitLinks config passed).length ≤ passed.length := by
  rw [admitLinks]
  cases config.bandwidth.perAgentBitsPerTick with
  | none => exact le_rfl
  | some budget =>
    exact (List.length_take_le' _ _).trans (sortOn_perm _ _).length_eq.le

/-- After the first two stages the admitted links owe an outcome. -/
theorem offer_owes {tally : LinkTally K} (h : tally.Conserved) (config : CommsModelConfig K)
    (obs : Observation K) : (tally.offer config obs).Owes (admitted config obs).length := by
  have hpassed : (passedLinks config obs).length ≤ (candidates config obs).length :=
    List.length_filter_le _ _
  have hadmitted : (admitted config obs).length ≤ (passedLinks config obs).length := by
    rw [admitted, (sortOn_perm _ _).length_eq]
    exact length_admitLinks_le config _
  rw [LinkTally.Conserved] at h
  rw [passedLinks] at hpassed hadmitted
  simp only [LinkTally.Owes, LinkTally.offer]
  omega

end Budget

/-! ## The tallies of a run -/

section Tallies

variable {draws : Draws K ρ} {config : CommsModelConfig K}

/-- One link pays for itself, and leaves the tallies of the other agents. -/
theorem transmit_tally (model : CommsModel K ρ) (agent : String) (obs : Observation K)
    (link : PeerLink K) (agent' : String) :
    (model.transmit draws config agent obs link).1.tally agent' =
      if agent' = agent then
        (model.tally agent).count config.bandwidth.messageBits
          (drawOutcome draws config model.rng).1
      else model.tally agent' := by
  unfold CommsModel.transmit
  dsimp only
  cases (drawOutcome draws config model.rng).1 with
  | dropped => exact tally_set model agent agent' _ _ _
  | delivered delay => exact tally_set model agent agent' _ _ _

/-- **Run.** The links of an agent pay for themselves, one after the other. -/
theorem transmitAll_tally {model : CommsModel K ρ} {agent : String} {obs : Observation K}
    {links : List (PeerLink K)} (h : (model.tally agent).Owes links.length)
    (hother : ∀ agent', agent' ≠ agent → (model.tally agent').Conserved) (agent' : String) :
    ((CommsModel.transmitAll draws config agent obs model links).1.tally agent').Conserved := by
  induction links generalizing model with
  | nil =>
    by_cases hagent : agent' = agent
    · exact hagent ▸ h
    · exact hother agent' hagent
  | cons link links ih =>
    rw [CommsModel.transmitAll]
    refine ih ?_ fun agent' hne => ?_
    · rw [transmit_tally, if_pos rfl]
      exact count_owes h _ _
    · rw [transmit_tally, if_neg hne]
      exact hother agent' hne

variable [FloorRing K]

/-- **Step.** Serving an agent conserves all tallies. -/
theorem applyAgent_tally {model : CommsModel K ρ} (h : ∀ agent, (model.tally agent).Conserved)
    (agent : String) (obs : Observation K) (agent' : String) :
    ((model.applyAgent draws config agent obs).1.tally agent').Conserved := by
  refine transmitAll_tally ?_ (fun agent' hne => ?_) agent'
  · rw [tally_set, if_pos rfl]
    exact offer_owes (h agent) config obs
  · rw [tally_set, if_neg hne]
    exact h agent'

/-- **Run.** So do the agents of a tick. -/
theorem applyAll_tally {model : CommsModel K ρ} (h : ∀ agent, (model.tally agent).Conserved)
    (entries : List (String × Observation K)) (agent : String) :
    ((CommsModel.applyAll draws config model entries).1.tally agent).Conserved := by
  induction entries generalizing model with
  | nil => exact h agent
  | cons entry entries ih =>
    rw [CommsModel.applyAll]
    exact ih (applyAgent_tally h entry.1 entry.2)

/-- **Run.** The tallies of a run are conserved. -/
theorem run_tally {model : CommsModel K ρ} (h : ∀ agent, (model.tally agent).Conserved)
    (run : List (Dict String (Observation K))) (agent : String) :
    ((CommsModel.run draws config model run).1.tally agent).Conserved := by
  induction run generalizing model with
  | nil => exact h agent
  | cons observations rest ih =>
    rw [CommsModel.run]
    refine ih fun agent => ?_
    rw [CommsModel.apply]
    split_ifs
    · exact h agent
    · exact applyAll_tally h _ agent

end Tallies

/-! ## The budget -/

section Budget

variable [IsStrictOrderedRing K] [FloorRing K] {config : CommsModelConfig K}

/-- The admitted links cost no more than the budget. -/
theorem admitLinks_cost {budget : K} (h : config.bandwidth.perAgentBitsPerTick = some budget)
    (passed : List (PeerLink K)) :
    (admitLinks config passed).length * config.bandwidth.messageBits ≤ budget := by
  have hbits := config.bandwidth.messageBits_pos
  have hbudget : 0 ≤ budget := config.bandwidth.perAgentBitsPerTick_nonneg budget h
  have hcapacity : (admitLinks config passed).length ≤
      ⌊budget / config.bandwidth.messageBits⌋₊ := by
    rw [admitLinks, h]
    exact List.length_take_le _ _
  calc
    ((admitLinks config passed).length : K) * config.bandwidth.messageBits
        ≤ ⌊budget / config.bandwidth.messageBits⌋₊ * config.bandwidth.messageBits :=
          mul_le_mul_of_nonneg_right (Nat.cast_le.mpr hcapacity) hbits.le
    _ ≤ budget / config.bandwidth.messageBits * config.bandwidth.messageBits :=
          mul_le_mul_of_nonneg_right (Nat.floor_le (div_nonneg hbudget hbits.le)) hbits.le
    _ = budget := div_mul_cancel₀ budget hbits.ne'

/-- What the budget sheds of the links that pass the gate: none of it comes before an admitted link
in the priority order, and without a budget it is nothing. -/
structure Shed (config : CommsModelConfig K) (passed kept shed : List (PeerLink K)) : Prop where
  split : (kept ++ shed).Perm passed
  priority : ∀ link ∈ kept, ∀ lost ∈ shed, ¬ priorityKey config lost < priorityKey config link
  unlimited : config.bandwidth.perAgentBitsPerTick = none → shed = []

omit [IsStrictOrderedRing K] in
/-- **Spec.** The budget sheds the end of the priority order. -/
theorem admitLinks_spec (passed : List (PeerLink K)) :
    ∃ shed, Shed config passed (admitLinks config passed) shed := by
  rw [admitLinks]
  cases h : config.bandwidth.perAgentBitsPerTick with
  | none =>
    refine ⟨[], by rw [List.append_nil], fun _ _ _ hlost => ?_, fun _ => rfl⟩
    exact absurd hlost List.not_mem_nil
  | some budget =>
    have hsplit := List.take_append_drop ⌊budget / config.bandwidth.messageBits⌋₊
      (sortOn (priorityKey config) passed)
    have hsorted := sortOn_pairwise (priorityKey config) passed
    refine ⟨_, hsplit ▸ sortOn_perm _ passed, fun link hlink lost hlost => ?_, fun hnone => ?_⟩
    · rw [← hsplit] at hsorted
      exact ((List.pairwise_append.mp hsorted).2.2 link hlink lost hlost).not_gt
    · rw [h] at hnone
      cases hnone

end Budget

/-! ## Runs -/

section Runs

variable [FloorRing K] {draws : Draws K ρ} {config : CommsModelConfig K}

theorem applyAll_reports (model : CommsModel K ρ) (entries : List (String × Observation K)) :
    ∀ r ∈ (CommsModel.applyAll draws config model entries).2,
      r.reports.map LinkReport.link = admitted config r.observed := by
  induction entries generalizing model with
  | nil => exact fun _ h => (by cases h)
  | cons entry entries ih =>
    rw [CommsModel.applyAll, List.forall_mem_cons]
    exact ⟨transmitAll_links draws config _ _ _ _, ih _⟩

/-- **Run.** The links of an observation that are drawn for are the admitted ones. -/
theorem run_reports (model : CommsModel K ρ) (run : List (Dict String (Observation K))) :
    ∀ r ∈ (CommsModel.run draws config model run).2,
      if config.isIdentity then r.reports = []
      else r.reports.map LinkReport.link = admitted config r.observed := by
  induction run generalizing model with
  | nil => exact fun _ h => (by cases h)
  | cons observations rest ih =>
    rw [CommsModel.run]
    refine List.forall_mem_append.mpr ⟨fun r hr => ?_, ih _⟩
    rw [CommsModel.apply] at hr
    split_ifs at hr ⊢ with hidentity
    · obtain ⟨entry, -, rfl⟩ := List.mem_map.mp hr
      rfl
    · exact applyAll_reports _ _ r hr

variable [IsStrictOrderedRing K]

/-- The accounting of one agent in one call: its admitted links are within the budget, and the
budget sheds none of higher priority. An identity channel admits by no budget. -/
structure Accounted (config : CommsModelConfig K) (r : Rendered K) : Prop where
  within : ∀ budget ∈ config.bandwidth.perAgentBitsPerTick,
    r.reports.length * config.bandwidth.messageBits ≤ budget
  shed : config.isIdentity = false → ∃ shed,
    Shed config (passedLinks config r.observed) (r.reports.map LinkReport.link) shed

theorem accounted_of_run {model : CommsModel K ρ} {run : List (Dict String (Observation K))}
    {r : Rendered K} (hr : r ∈ (CommsModel.run draws config model run).2) : Accounted config r := by
  have hreports := run_reports model run r hr
  cases hidentity : config.isIdentity with
  | true =>
    rw [if_pos hidentity] at hreports
    refine ⟨fun budget hbudget => ?_, fun h => (by cases hidentity.symm.trans h)⟩
    rw [hreports, List.length_nil, Nat.cast_zero, zero_mul]
    exact config.bandwidth.perAgentBitsPerTick_nonneg budget hbudget
  | false =>
    rw [if_neg (by rw [hidentity]; exact Bool.false_ne_true)] at hreports
    have hperm : (r.reports.map LinkReport.link).Perm
        (admitLinks config (passedLinks config r.observed)) := by
      rw [hreports]
      exact sortOn_perm _ _
    refine ⟨fun budget hbudget => ?_, fun _ => ?_⟩
    · have hlength := hperm.length_eq
      rw [List.length_map] at hlength
      rw [hlength]
      exact admitLinks_cost hbudget _
    · obtain ⟨shed, hshed⟩ := admitLinks_spec (passedLinks config r.observed)
      refine ⟨shed, (hperm.append_right shed).trans hshed.split, fun link hlink => ?_,
        hshed.unlimited⟩
      exact hshed.priority link (hperm.mem_iff.mp hlink)

/-- A run since a reset. -/
def CommsModel.sinceReset (draws : Draws K ρ) (config : CommsModelConfig K) (seed : Option ℤ)
    (run : List (Dict String (Observation K))) : CommsModel K ρ × List (Rendered K) :=
  CommsModel.run draws config (CommsModel.reset draws config seed) run

/-- **Main theorem.** In every run since a reset, the tallies are conserved, each call stays within
the budget and sheds by priority, and the delivery ratio is a ratio. -/
theorem run_accounted (draws : Draws K ρ) (config : CommsModelConfig K) (seed : Option ℤ)
    (run : List (Dict String (Observation K))) :
    (∀ agent, ((CommsModel.sinceReset draws config seed run).1.tally agent).Conserved) ∧
      (∀ r ∈ (CommsModel.sinceReset draws config seed run).2, Accounted config r) ∧
      0 ≤ (CommsModel.sinceReset draws config seed run).1.deliveryRatio ∧
      (CommsModel.sinceReset draws config seed run).1.deliveryRatio ≤ 1 := by
  have hreset (agent : String) : ((CommsModel.reset draws config seed).tally agent).Conserved :=
    LinkTally.conserved_zero
  have htally (agent : String) :
      ((CommsModel.sinceReset draws config seed run).1.tally agent).Conserved :=
    run_tally hreset run agent
  exact ⟨htally, fun r hr => accounted_of_run hr, deliveryRatio_mem htally⟩

end Runs

/-! ## A fractional budget -/

/-- A budget of two and a half messages. -/
def twoAndAHalf : CommsModelConfig ℚ where
  rangeGate := openGate
  bandwidth :=
    { perAgentBitsPerTick := some (5 / 2)
      messageBits := 1
      priority := .peerOrder
      perAgentBitsPerTick_nonneg := by rintro x ⟨⟩; norm_num
      messageBits_pos := unlimited.messageBits_pos }
  drop := lossless
  delay := undelayed
  seedSalt := 0

/-- An agent with three links. -/
def threeLinks : Observation ℚ where
  tick := 0
  agentId := "a"
  selfState := ⟨"a", 0, 0, 0⟩
  comms := some ⟨"a", [⟨"d", true, none, none, none⟩, ⟨"c", true, none, none, none⟩,
    ⟨"b", true, none, none, none⟩], false⟩
  neighbors := []

theorem run_accounted_threeLinks :
    (∀ agent, ((CommsModel.sinceReset leastDraws twoAndAHalf none
        [Dict.ofList [("a", threeLinks)]]).1.tally agent).Conserved) ∧
      (∀ r ∈ (CommsModel.sinceReset leastDraws twoAndAHalf none
        [Dict.ofList [("a", threeLinks)]]).2, Accounted twoAndAHalf r) ∧
      0 ≤ (CommsModel.sinceReset leastDraws twoAndAHalf none
        [Dict.ofList [("a", threeLinks)]]).1.deliveryRatio ∧
      (CommsModel.sinceReset leastDraws twoAndAHalf none
        [Dict.ofList [("a", threeLinks)]]).1.deliveryRatio ≤ 1 :=
  run_accounted leastDraws twoAndAHalf none _

/-- Two of the three links are admitted, and the last in the order of the peers is shed. -/
example : (CommsModel.sinceReset leastDraws twoAndAHalf none
    [Dict.ofList [("a", threeLinks)]]).1.tally "a" = ⟨3, 2, 0, 1, 0, 0, 3, 2⟩ := by
  decide +kernel

end AstroMine.Learn
