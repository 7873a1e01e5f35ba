import Mathlib.Algebra.Order.Floor.Defs
import Mathlib.Data.Prod.Lex
import Mathlib.Data.String.Basic
import AstroMine.Lib.DelayBuffer

/-!
# The comms channel (`learn/envs/comms/model.py`, `config.py`, `ledger.py`)

Each tick the candidate links of an agent pass four stages, gate, budget, drop and delay; a message
that is delivered is put into the buffer of its link, and the observation is rebuilt from the
buffers. The one generator of the channel draws for each link that reaches the drop stage, in the
order of the agents and of their peers.

Numbers are exact, and ranges are compared by their squares. The generator is a parameter (`Draws`).
What an observation carries besides the fields that the channel reads is left out. Beside the
observation the channel gives the outcomes of its links, which the ledger counts.

Results:
* `sampleDelay_le`: a delay is not longer than `max_ticks`, if `high` is not.
* `transmitAll_buffer`: what the links of an agent change.
-/

namespace AstroMine.Learn

open DelayBuffer (InFlight push latestReleased)

variable {K ρ : Type} [Field K] [LinearOrder K]

/-! ## Configurations -/

/-- `RangeGateConfig` (`config.py`, lines 55–66). -/
structure RangeGateConfig (K : Type) [Field K] [LinearOrder K] where
  honorReachable : Bool := true
  maxRangeM : Option K := none
  minMarginDb : Option K := none
  maxLatencyS : Option K := none
  maxRangeM_nonneg : ∀ x ∈ maxRangeM, 0 ≤ x := by simp
  maxLatencyS_nonneg : ∀ x ∈ maxLatencyS, 0 ≤ x := by simp

/-- `priority` of `BandwidthBudgetConfig`. -/
inductive Priority
  | peerOrder
  | marginDb
  | rateBps
  | latencyS
  deriving DecidableEq, Repr

/-- `BandwidthBudgetConfig` (lines 69–79). -/
structure BandwidthBudgetConfig (K : Type) [Field K] [LinearOrder K] where
  perAgentBitsPerTick : Option K
  messageBits : K
  priority : Priority
  perAgentBitsPerTick_nonneg : ∀ x ∈ perAgentBitsPerTick, 0 ≤ x
  messageBits_pos : 0 < messageBits

/-- `DropConfig` (lines 82–85). -/
structure DropConfig (K : Type) [Field K] [LinearOrder K] where
  probability : K
  probability_nonneg : 0 ≤ probability
  probability_le_one : probability ≤ 1

/-- `kind` of `DelayConfig`. -/
inductive DelayKind
  | none
  | fixed
  | uniform
  | geometric
  deriving DecidableEq, Repr

/-- `DelayConfig` (lines 88–115), with what its validator checks: the bounds of a uniform delay are
ordered, and a fixed delay, but not a uniform one, is within `max_ticks`. -/
structure DelayConfig (K : Type) [Field K] [LinearOrder K] where
  kind : DelayKind
  ticks : ℕ
  low : ℕ
  high : ℕ
  meanTicks : K
  maxTicks : ℕ
  meanTicks_nonneg : 0 ≤ meanTicks
  maxTicks_le : maxTicks ≤ 1024
  uniform_bounds : kind = .uniform → low ≤ high
  fixed_bounds : kind = .fixed → ticks ≤ maxTicks

/-- `CommsModelConfig` (lines 118–142). -/
structure CommsModelConfig (K : Type) [Field K] [LinearOrder K] where
  rangeGate : RangeGateConfig K
  bandwidth : BandwidthBudgetConfig K
  drop : DropConfig K
  delay : DelayConfig K
  seedSalt : ℤ

/-- `CommsModelConfig.is_identity` (lines 133–142). -/
def CommsModelConfig.isIdentity (config : CommsModelConfig K) : Bool :=
  config.rangeGate.honorReachable = true ∧ config.rangeGate.maxRangeM = none ∧
    config.rangeGate.minMarginDb = none ∧ config.rangeGate.maxLatencyS = none ∧
    config.bandwidth.perAgentBitsPerTick = none ∧ config.bandwidth.messageBits = 1 ∧
    config.bandwidth.priority = .marginDb ∧ config.drop.probability = 0 ∧
    config.delay.kind = .none

/-! ## Observations -/

/-- `StateSample`, up to the agent and the translation of its pose. -/
structure StateSample (K : Type) where
  agentId : String
  x : K
  y : K
  z : K
  deriving DecidableEq

/-- `PeerLink` (`core/messages/model.py`, lines 150–157). -/
structure PeerLink (K : Type) where
  peer : String
  reachable : Bool
  rateBps : Option K := none
  latencyS : Option K := none
  marginDb : Option K := none
  deriving DecidableEq

/-- `CommsObservationMask` (lines 160–167). -/
structure CommsObservationMask (K : Type) where
  agentId : String
  links : List (PeerLink K)
  earthContact : Bool := false
  deriving DecidableEq

/-- `Observation` (lines 170–186), up to the fields that the channel does not read. -/
structure Observation (K : Type) where
  tick : ℤ
  agentId : String
  selfState : StateSample K
  comms : Option (CommsObservationMask K)
  neighbors : List (StateSample K)
  deriving DecidableEq

/-! ## The generator -/

/-- `numpy.random.Generator` as far as the channel draws from it, and how it is seeded. -/
structure Draws (K ρ : Type) [Field K] [LinearOrder K] where
  random : ρ → K × ρ
  integers : ρ → ℕ → ℕ → ℕ × ρ
  geometric : ρ → K → ℕ × ρ
  seeded : ℤ → ℤ → ρ
  random_mem : ∀ r, 0 ≤ (random r).1 ∧ (random r).1 < 1
  integers_mem : ∀ r low high, low ≤ high →
    low ≤ (integers r low (high + 1)).1 ∧ (integers r low (high + 1)).1 ≤ high
  geometric_pos : ∀ r p, 1 ≤ (geometric r p).1
  geometric_one : ∀ r, (geometric r 1).1 = 1

/-! ## Ledger and state -/

/-- `LinkTally` (`ledger.py`, lines 26–37). -/
structure LinkTally (K : Type) where
  offered : ℕ
  delivered : ℕ
  gatedOut : ℕ
  budgetDropped : ℕ
  lossDropped : ℕ
  delayed : ℕ
  bitsOffered : K
  bitsDelivered : K
  deriving DecidableEq

/-- A tally of nothing. -/
def LinkTally.zero : LinkTally K := ⟨0, 0, 0, 0, 0, 0, 0, 0⟩

/-- What a message carries: the state of the peer, if it was observed, and the link. -/
abbrev Payload (K : Type) := Option (StateSample K) × PeerLink K

/-- `CommsModel` (`model.py`, lines 50–64), up to its configuration. -/
structure CommsModel (K ρ : Type) where
  rng : ρ
  buffers : Dict (String × String) (List (InFlight (Payload K)))
  ledger : Dict String (LinkTally K)

/-- `CommsModel.reset` (lines 68–78). -/
def CommsModel.reset (draws : Draws K ρ) (config : CommsModelConfig K) (seed : Option ℤ) :
    CommsModel K ρ where
  rng := draws.seeded (seed.getD 0) config.seedSalt
  buffers := .empty
  ledger := .empty

/-! ## The stages -/

/-- `neighbors_by_id` (line 108). -/
def neighborsById (obs : Observation K) : Dict String (StateSample K) :=
  Dict.ofList (obs.neighbors.map fun neighbor => (neighbor.agentId, neighbor))

/-- `_candidates` (lines 143–156). -/
def candidates (config : CommsModelConfig K) (obs : Observation K) : List (PeerLink K) :=
  match obs.comms with
  | some mask =>
    if config.rangeGate.honorReachable then mask.links.filter (·.reachable) else mask.links
  | none => (sortOn id (neighborsById obs).keys).map fun peer => { peer, reachable := true }

/-- Whether a neighbour is farther away than the range (`_range_m`, lines 245–247). -/
def beyond (a b : StateSample K) (range : K) : Bool :=
  range * range < (a.x - b.x) ^ 2 + (a.y - b.y) ^ 2 + (a.z - b.z) ^ 2

/-- `_gate` (lines 158–173). -/
def gate (config : CommsModelConfig K) (link : PeerLink K) (selfState : StateSample K)
    (neighbor : Option (StateSample K)) : Bool :=
  let weak := config.rangeGate.minMarginDb.any fun bound =>
    link.marginDb.all fun margin => margin < bound
  let late := config.rangeGate.maxLatencyS.any fun bound =>
    link.latencyS.any fun latency => bound < latency
  let far := config.rangeGate.maxRangeM.any fun bound =>
    neighbor.all fun neighbor => beyond selfState neighbor bound
  !weak && !late && !far

/-- `_priority_key` (lines 186–196): lower sorts first, an unknown quantity last. -/
def priorityKey (config : CommsModelConfig K) (link : PeerLink K) : WithTop K ×ₗ String :=
  let unknownLast (x : Option K) : WithTop K := x.elim ⊤ fun x => (x : WithTop K)
  match config.bandwidth.priority with
  | .peerOrder => toLex (((0 : K) : WithTop K), link.peer)
  | .marginDb => toLex (unknownLast (link.marginDb.map (- ·)), link.peer)
  | .rateBps => toLex (unknownLast (link.rateBps.map (- ·)), link.peer)
  | .latencyS => toLex (unknownLast link.latencyS, link.peer)

/-- `_admit` (lines 175–184). -/
def admitLinks [FloorRing K] (config : CommsModelConfig K) (passed : List (PeerLink K)) :
    List (PeerLink K) :=
  match config.bandwidth.perAgentBitsPerTick with
  | none => passed
  | some budget =>
    (sortOn (priorityKey config) passed).take ⌊budget / config.bandwidth.messageBits⌋₊

/-- What becomes of a link that reaches the drop stage. -/
inductive Outcome
  | dropped
  | delivered (delay : ℕ)
  deriving DecidableEq, Repr

/-- `_sample_delay` (lines 198–208). -/
def sampleDelay (draws : Draws K ρ) (delay : DelayConfig K) (rng : ρ) : ℕ × ρ :=
  match delay.kind with
  | .none => (0, rng)
  | .fixed => (delay.ticks, rng)
  | .uniform => draws.integers rng delay.low (delay.high + 1)
  | .geometric =>
    let p := if 0 < delay.meanTicks then 1 / (1 + delay.meanTicks) else 1
    let (ticks, rng) := draws.geometric rng p
    (min (ticks - 1) delay.maxTicks, rng)

/-- The draws for one link (lines 127–136): whether it is dropped, and else its delay. -/
def drawOutcome (draws : Draws K ρ) (config : CommsModelConfig K) (rng : ρ) : Outcome × ρ :=
  let delivered (rng : ρ) : Outcome × ρ :=
    let (delay, rng) := sampleDelay draws config.delay rng
    (.delivered delay, rng)
  if 0 < config.drop.probability then
    let (x, rng) := draws.random rng
    if x < config.drop.probability then (.dropped, rng) else delivered rng
  else delivered rng

/-! ## The channel of one agent -/

/-- What the ledger counts for a link with this outcome. -/
def LinkTally.count (tally : LinkTally K) (bits : K) : Outcome → LinkTally K
  | .dropped => { tally with lossDropped := tally.lossDropped + 1 }
  | .delivered delay =>
    { tally with
      delivered := tally.delivered + 1
      bitsDelivered := tally.bitsDelivered + bits
      delayed := if 0 < delay then tally.delayed + 1 else tally.delayed }

/-- `self._ledger.tally(agent)`. -/
def CommsModel.tally (model : CommsModel K ρ) (agent : String) : LinkTally K :=
  model.ledger.getD agent .zero

/-- The buffer of a link. -/
def CommsModel.buffer (model : CommsModel K ρ) (agent peer : String) :
    List (InFlight (Payload K)) :=
  model.buffers.getD (agent, peer) []

/-- `_enqueue` (lines 210–218). -/
def CommsModel.enqueue (model : CommsModel K ρ) (config : CommsModelConfig K) (agent : String)
    (link : PeerLink K) (state : Option (StateSample K)) (releaseTick : ℤ) : CommsModel K ρ :=
  { model with
    buffers := model.buffers.set (agent, link.peer)
      (push (config.delay.maxTicks + 2) (model.buffer agent link.peer)
        ⟨releaseTick, (state, link)⟩) }

/-- What the channel reports of a link that reached the drop stage. -/
structure LinkReport (K : Type) where
  link : PeerLink K
  state : Option (StateSample K)
  outcome : Outcome

/-- One link through the drop and delay stages (lines 126–137). -/
def CommsModel.transmit (model : CommsModel K ρ) (draws : Draws K ρ) (config : CommsModelConfig K)
    (agent : String) (obs : Observation K) (link : PeerLink K) :
    CommsModel K ρ × LinkReport K :=
  let state := (neighborsById obs).get? link.peer
  let (outcome, rng) := drawOutcome draws config model.rng
  let tally := (model.tally agent).count config.bandwidth.messageBits outcome
  let model := { model with rng, ledger := model.ledger.set agent tally }
  let model := match outcome with
    | .dropped => model
    | .delivered delay => model.enqueue config agent link state (obs.tick + delay)
  (model, ⟨link, state, outcome⟩)

/-- The links through the drop and delay stages, one after the other. -/
def CommsModel.transmitAll (draws : Draws K ρ) (config : CommsModelConfig K) (agent : String)
    (obs : Observation K) : CommsModel K ρ → List (PeerLink K) → CommsModel K ρ × List (LinkReport K)
  | model, [] => (model, [])
  | model, link :: links =>
    let (model, report) := model.transmit draws config agent obs link
    let (model, reports) := CommsModel.transmitAll draws config agent obs model links
    (model, report :: reports)

/-- The links that reach the drop stage, in their order (lines 109–126). -/
def admitted [FloorRing K] (config : CommsModelConfig K) (obs : Observation K) :
    List (PeerLink K) :=
  let passed := (candidates config obs).filter fun link =>
    gate config link obs.selfState ((neighborsById obs).get? link.peer)
  sortOn PeerLink.peer (admitLinks config passed)

/-- What the first two stages count (lines 113–122, and 183). -/
def LinkTally.offer [FloorRing K] (tally : LinkTally K) (config : CommsModelConfig K)
    (obs : Observation K) : LinkTally K :=
  let offered := (candidates config obs).length
  let passed := ((candidates config obs).filter fun link =>
    gate config link obs.selfState ((neighborsById obs).get? link.peer)).length
  { tally with
    offered := tally.offered + offered
    bitsOffered := tally.bitsOffered + offered * config.bandwidth.messageBits
    gatedOut := tally.gatedOut + (offered - passed)
    budgetDropped := tally.budgetDropped + (passed - (admitted config obs).length) }

/-- The link and the neighbour that are shown for a candidate (lines 229–236). -/
def CommsModel.renderLink (model : CommsModel K ρ) (obs : Observation K) (candidate : PeerLink K) :
    PeerLink K × Option (StateSample K) :=
  let buf := model.buffer obs.agentId candidate.peer
  let latest := latestReleased buf obs.tick
  let arrivesNow := buf.any fun message => message.release = obs.tick
  let base := (latest.map fun message => message.payload.2).getD candidate
  ({ base with reachable := arrivesNow }, latest.bind fun message => message.payload.1)

/-- `_render` (lines 220–243). -/
def CommsModel.render (model : CommsModel K ρ) (config : CommsModelConfig K) (obs : Observation K) :
    Observation K :=
  let shown := (candidates config obs).map (model.renderLink obs)
  let links := shown.map Prod.fst
  { obs with
    comms := match obs.comms with
      | some mask => some { mask with links }
      | none => if links = [] then none else some { agentId := obs.agentId, links }
    neighbors := shown.filterMap Prod.snd }

/-- `_apply_agent` (lines 105–139). -/
def CommsModel.applyAgent [FloorRing K] (model : CommsModel K ρ) (draws : Draws K ρ)
    (config : CommsModelConfig K) (agent : String) (obs : Observation K) :
    CommsModel K ρ × Observation K × List (LinkReport K) :=
  let tally := (model.tally agent).offer config obs
  let model := { model with ledger := model.ledger.set agent tally }
  let (model, reports) := CommsModel.transmitAll draws config agent obs model (admitted config obs)
  (model, model.render config obs, reports)

/-! ## Ticks and runs -/

/-- What the channel makes of the observation of one agent. -/
structure Rendered (K : Type) where
  agent : String
  observed : Observation K
  shown : Observation K
  reports : List (LinkReport K)

/-- The agents of a tick, one after the other. -/
def CommsModel.applyAll [FloorRing K] (draws : Draws K ρ) (config : CommsModelConfig K) :
    CommsModel K ρ → List (String × Observation K) → CommsModel K ρ × List (Rendered K)
  | model, [] => (model, [])
  | model, (agent, obs) :: rest =>
    let (model, shown, reports) := model.applyAgent draws config agent obs
    let (model, rendered) := CommsModel.applyAll draws config model rest
    (model, ⟨agent, obs, shown, reports⟩ :: rendered)

/-- `CommsModel.apply` (lines 95–103): the agents in the order of their ids. -/
def CommsModel.apply [FloorRing K] (model : CommsModel K ρ) (draws : Draws K ρ)
    (config : CommsModelConfig K) (observations : Dict String (Observation K)) :
    CommsModel K ρ × List (Rendered K) :=
  if config.isIdentity then
    (model, observations.entries.map fun (agent, obs) => ⟨agent, obs, obs, []⟩)
  else CommsModel.applyAll draws config model observations.sortedEntries

/-- A run: the maps of the ticks, one after the other. -/
def CommsModel.run [FloorRing K] (draws : Draws K ρ) (config : CommsModelConfig K) :
    CommsModel K ρ → List (Dict String (Observation K)) → CommsModel K ρ × List (Rendered K)
  | model, [] => (model, [])
  | model, observations :: rest =>
    let (model, rendered) := model.apply draws config observations
    let (model, later) := CommsModel.run draws config model rest
    (model, rendered ++ later)

/-! ## What one link does -/

section Links

variable {draws : Draws K ρ} {config : CommsModelConfig K}

/-- A delay is not longer than `max_ticks`, if the upper end of a uniform one is not. -/
theorem sampleDelay_le (h : config.delay.kind = .uniform → config.delay.high ≤ config.delay.maxTicks)
    (rng : ρ) : (sampleDelay draws config.delay rng).1 ≤ config.delay.maxTicks := by
  unfold sampleDelay
  cases hkind : config.delay.kind with
  | none => exact Nat.zero_le _
  | fixed => exact config.delay.fixed_bounds hkind
  | uniform =>
    exact (draws.integers_mem rng _ _ (config.delay.uniform_bounds hkind)).2.trans (h hkind)
  | geometric => exact min_le_right _ _

/-- A link that is delivered has a sampled delay. -/
theorem drawOutcome_delivered {rng : ρ} {delay : ℕ}
    (h : (drawOutcome draws config rng).1 = .delivered delay) :
    ∃ rng', delay = (sampleDelay draws config.delay rng').1 := by
  unfold drawOutcome at h
  dsimp only at h
  split_ifs at h
  · exact ⟨_, (Outcome.delivered.inj h).symm⟩
  · exact ⟨_, (Outcome.delivered.inj h).symm⟩

/-- The messages to a peer among the reports of a tick. -/
def sentOf (peer : String) (tick : ℤ) (reports : List (LinkReport K)) :
    List (DelayBuffer.Sent (Payload K)) :=
  reports.filterMap fun report =>
    match report.outcome with
    | .delivered delay =>
      if report.link.peer = peer then some ⟨tick, delay, (report.state, report.link)⟩ else none
    | .dropped => none

variable (draws config) in
/-- One link changes the buffer of its peer at most. -/
theorem transmit_buffer (model : CommsModel K ρ) (agent : String) (obs : Observation K)
    (link : PeerLink K) (agent' peer : String) :
    (model.transmit draws config agent obs link).1.buffer agent' peer =
      if agent' = agent then
        (sentOf peer obs.tick [(model.transmit draws config agent obs link).2]).foldl
          (fun buf m => push (config.delay.maxTicks + 2) buf m.item) (model.buffer agent' peer)
      else model.buffer agent' peer := by
  unfold CommsModel.transmit sentOf
  dsimp only
  cases houtcome : (drawOutcome draws config model.rng).1 with
  | dropped => simp [CommsModel.buffer]
  | delivered delay =>
    by_cases hagent : agent' = agent
    · subst hagent
      by_cases hpeer : link.peer = peer
      · subst hpeer
        simp [CommsModel.buffer, CommsModel.enqueue, Dict.getD, Dict.get?_set,
          DelayBuffer.Sent.item, DelayBuffer.Sent.release]
      · simp [CommsModel.buffer, CommsModel.enqueue, Dict.getD, Dict.get?_set, hpeer,
          Ne.symm hpeer]
    · simp [CommsModel.buffer, CommsModel.enqueue, Dict.getD, Dict.get?_set, hagent]

/-- The links of an agent change its own buffers, each by what is sent to its peer. -/
theorem transmitAll_buffer (model : CommsModel K ρ) (agent : String) (obs : Observation K)
    (links : List (PeerLink K)) (agent' peer : String) :
    (CommsModel.transmitAll draws config agent obs model links).1.buffer agent' peer =
      if agent' = agent then
        (sentOf peer obs.tick (CommsModel.transmitAll draws config agent obs model links).2).foldl
          (fun buf m => push (config.delay.maxTicks + 2) buf m.item) (model.buffer agent' peer)
      else model.buffer agent' peer := by
  induction links generalizing model with
  | nil =>
    rw [CommsModel.transmitAll]
    split_ifs <;> rfl
  | cons link links ih =>
    have hone := transmit_buffer draws config model agent obs link agent' peer
    rw [CommsModel.transmitAll]
    dsimp only
    rw [ih, hone]
    split_ifs with hagent
    · rw [← List.foldl_append, sentOf, sentOf, ← List.filterMap_append]
      rfl
    · rfl

variable (draws config) in
/-- The reports are about the links, in their order. -/
theorem transmitAll_links (model : CommsModel K ρ) (agent : String) (obs : Observation K)
    (links : List (PeerLink K)) :
    (CommsModel.transmitAll draws config agent obs model links).2.map LinkReport.link = links := by
  induction links generalizing model with
  | nil => rfl
  | cons link links ih =>
    rw [CommsModel.transmitAll]
    dsimp only
    rw [List.map_cons, ih]
    rfl

variable (draws config) in
/-- Each outcome was drawn, and the state is that of the peer. -/
theorem transmitAll_outcome (model : CommsModel K ρ) (agent : String) (obs : Observation K)
    (links : List (PeerLink K)) :
    ∀ report ∈ (CommsModel.transmitAll draws config agent obs model links).2,
      (∃ rng, report.outcome = (drawOutcome draws config rng).1) ∧
        report.state = (neighborsById obs).get? report.link.peer := by
  induction links generalizing model with
  | nil => exact fun _ h => (by cases h)
  | cons link links ih =>
    rw [CommsModel.transmitAll]
    dsimp only
    rw [List.forall_mem_cons]
    exact ⟨⟨⟨model.rng, rfl⟩, rfl⟩, ih _⟩

end Links

end AstroMine.Learn
