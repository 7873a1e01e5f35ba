import Mathlib.Algebra.Field.Rat
import Mathlib.Data.Rat.Floor
import AstroMine.Learn.Comms

/-!
# Delivery on time

A message that is delivered with a delay is released that many ticks later. A run delivers on time
when each release shows its peer as reachable, the neighbour entry of a peer is the state of its last
release, and the buffers lose no message that is on its way and not the last release.

The buffers do so, where `max_ticks` bounds all delays. The observation shows the peers only that
are candidates at its tick, so a peer whose link is down is not shown at all.

Results:
* `applyAll_told`: each buffer tells what was sent, after a run and at each of its observations.
* `deliversOnTime_iff`: when a run delivers on time.
* `linkUp_onTime`, `linkDown_not_onTime`: a link that stays up, and one that goes down.
-/

namespace AstroMine.Learn

open DelayBuffer (InFlight Sent Tells push latestReleased)

variable {K ρ : Type} [Field K] [LinearOrder K] [FloorRing K]

/-! ## The law -/

/-- The messages to a peer that a run delivered to an agent, in the order of the run. -/
def sentTo (agent peer : String) (rendered : List (Rendered K)) : List (Sent (Payload K)) :=
  (rendered.filter fun r => r.agent = agent).flatMap fun r => sentOf peer r.observed.tick r.reports

/-- One of the messages that were released last by a tick. -/
def LastReleased (sent : List (Sent (Payload K))) (tick : ℤ) (m : Sent (Payload K)) : Prop :=
  m ∈ sent ∧ m.release ≤ tick ∧ ∀ m' ∈ sent, m'.release ≤ tick → m'.release ≤ m.release

/-- The observation shows the peer as reachable. -/
def ShowsReachable (shown : Observation K) (peer : String) : Prop :=
  ∃ mask, shown.comms = some mask ∧ ∃ link ∈ mask.links, link.peer = peer ∧ link.reachable = true

/-- The neighbour entry of the peer is this state, or there is none. -/
def EntryIs (shown : Observation K) (peer : String) (state : Option (StateSample K)) : Prop :=
  ∀ neighbor, neighbor ∈ shown.neighbors ∧ neighbor.agentId = peer ↔ state = some neighbor

/-- A run delivers on time: what it leaves of the channel, and what it renders. -/
structure DeliversOnTime (result : CommsModel K ρ × List (Rendered K)) : Prop where
  onTime : ∀ r ∈ result.2, ∀ peer, ∀ m ∈ sentTo r.agent peer result.2,
    m.release = r.observed.tick → ShowsReachable r.shown peer
  lastKnown : ∀ r ∈ result.2, ∀ peer, ∀ m ∈ sentTo r.agent peer result.2,
    m.release ≤ r.observed.tick →
      ∃ last, LastReleased (sentTo r.agent peer result.2) r.observed.tick last ∧
        EntryIs r.shown peer last.payload.1
  pending : ∀ agent peer tick, (∀ r ∈ result.2, r.agent = agent → r.observed.tick ≤ tick) →
    ∀ m ∈ sentTo agent peer result.2, tick < m.release →
      m.item ∈ result.1.buffer agent peer
  latest : ∀ agent peer tick, (∀ r ∈ result.2, r.agent = agent → r.observed.tick ≤ tick) →
    ∀ m ∈ sentTo agent peer result.2, m.release ≤ tick →
      ∃ last, LastReleased (sentTo agent peer result.2) tick last ∧
        last.item ∈ result.1.buffer agent peer

/-- The ticks of each agent increase. -/
def TicksIncrease (run : List (Dict String (Observation K))) : Prop :=
  ∀ agent, (run.filterMap fun observations => observations.get? agent).Pairwise
    fun obs obs' => obs.tick < obs'.tick

/-- The delays are bounded by `max_ticks`; each observation stands under the id of its agent, and
its mask lists no peer twice. -/
structure Trimmable (config : CommsModelConfig K) (run : List (Dict String (Observation K))) :
    Prop where
  bounded : config.delay.kind = .uniform → config.delay.high ≤ config.delay.maxTicks
  ids : ∀ observations ∈ run, ∀ agent obs, observations.get? agent = some obs →
    obs.agentId = agent
  single : ∀ observations ∈ run, ∀ agent obs, observations.get? agent = some obs →
    ∀ mask, obs.comms = some mask → (mask.links.map PeerLink.peer).Nodup

/-- At each observation each peer with a released message is a candidate, or else none of its
messages is released at this tick and a last one carried no state. -/
def PeersOffered (config : CommsModelConfig K) (rendered : List (Rendered K)) : Prop :=
  ∀ r ∈ rendered, ∀ peer, ∀ m ∈ sentTo r.agent peer rendered, m.release ≤ r.observed.tick →
    peer ∈ (candidates config r.observed).map PeerLink.peer ∨
      (∀ m' ∈ sentTo r.agent peer rendered, m'.release ≠ r.observed.tick) ∧
        ∃ last, LastReleased (sentTo r.agent peer rendered) r.observed.tick last ∧
          last.payload.1 = none

/-! ## What was sent -/

section Sent

omit [Field K] [LinearOrder K] [FloorRing K]

theorem sentTo_append (agent peer : String) (rendered rest : List (Rendered K)) :
    sentTo agent peer (rendered ++ rest) =
      sentTo agent peer rendered ++ sentTo agent peer rest := by
  rw [sentTo, List.filter_append, List.flatMap_append]
  rfl

theorem sentTo_singleton (agent peer : String) (r : Rendered K) :
    sentTo agent peer [r] =
      if r.agent = agent then sentOf peer r.observed.tick r.reports else [] := by
  by_cases h : r.agent = agent <;> simp [sentTo, h]

/-- A message was sent in an observation of the agent. -/
theorem exists_of_mem_sentTo {agent peer : String} {rendered : List (Rendered K)}
    {m : Sent (Payload K)} (h : m ∈ sentTo agent peer rendered) :
    ∃ r ∈ rendered, r.agent = agent ∧ m ∈ sentOf peer r.observed.tick r.reports := by
  obtain ⟨r, hr, hm⟩ := List.mem_flatMap.mp h
  obtain ⟨hr, hagent⟩ := List.mem_filter.mp hr
  exact ⟨r, hr, by simpa using hagent, hm⟩

theorem mem_sentOf {peer : String} {tick : ℤ} {reports : List (LinkReport K)}
    {m : Sent (Payload K)} (h : m ∈ sentOf peer tick reports) :
    ∃ report ∈ reports, report.link.peer = peer ∧ report.outcome = .delivered m.delay ∧
      m.tick = tick ∧ m.payload = (report.state, report.link) := by
  obtain ⟨report, hreport, hm⟩ := List.mem_filterMap.mp h
  refine ⟨report, hreport, ?_⟩
  cases houtcome : report.outcome with
  | dropped =>
    rw [houtcome] at hm
    cases hm
  | delivered delay =>
    rw [houtcome] at hm
    dsimp only at hm
    split_ifs at hm with hpeer
    obtain rfl := Option.some.inj hm
    exact ⟨hpeer, rfl, rfl, rfl⟩

/-- As many messages are sent to a peer as links to it are reported, at most. -/
theorem length_sentOf_le (peer : String) (tick : ℤ) (reports : List (LinkReport K)) :
    (sentOf peer tick reports).length ≤
      ((reports.map LinkReport.link).map PeerLink.peer).count peer := by
  induction reports with
  | nil => exact Nat.zero_le _
  | cons report reports ih =>
    have hsplit : sentOf peer tick (report :: reports) =
        sentOf peer tick [report] ++ sentOf peer tick reports := by
      rw [sentOf, sentOf, sentOf, ← List.filterMap_append]
      rfl
    rw [hsplit, List.length_append, List.map_cons, List.map_cons, List.count_cons, add_comm]
    refine Nat.add_le_add ih ?_
    by_cases hpeer : report.link.peer = peer
    · rw [if_pos (by simpa using hpeer)]
      exact List.length_filterMap_le _ _
    · have hnone : sentOf peer tick [report] = [] := by
        cases houtcome : report.outcome <;> simp [sentOf, houtcome, hpeer]
      rw [hnone]
      exact Nat.zero_le _

end Sent

/-! ## One observation -/

section Step

variable {draws : Draws K ρ} {config : CommsModelConfig K}

omit [FloorRing K] in
/-- The candidates list no peer twice where the mask does not. -/
theorem candidates_nodup {obs : Observation K}
    (h : ∀ mask, obs.comms = some mask → (mask.links.map PeerLink.peer).Nodup) :
    ((candidates config obs).map PeerLink.peer).Nodup := by
  unfold candidates
  cases hmask : obs.comms with
  | none =>
    rw [List.map_map]
    simpa [Function.comp_def] using sortOn_nodup.2 (neighborsById obs).nodup_keys
  | some mask =>
    dsimp only
    split_ifs
    · exact (h mask hmask).sublist (List.filter_sublist.map _)
    · exact h mask hmask

theorem admitLinks_subperm (passed : List (PeerLink K)) : (admitLinks config passed).Subperm passed := by
  unfold admitLinks
  split
  · exact List.Subperm.refl _
  · exact (List.take_sublist _ _).subperm.trans (sortOn_perm _ passed).subperm

/-- So do the links that reach the drop stage. -/
theorem admitted_nodup {obs : Observation K}
    (h : ∀ mask, obs.comms = some mask → (mask.links.map PeerLink.peer).Nodup) :
    ((admitted config obs).map PeerLink.peer).Nodup := by
  have hsubperm : (admitted config obs).Subperm (candidates config obs) :=
    ((sortOn_perm _ _).subperm.trans (admitLinks_subperm _)).trans List.filter_sublist.subperm
  obtain ⟨links, hperm, hsublist⟩ := hsubperm
  rw [← (hperm.map PeerLink.peer).nodup_iff]
  exact (candidates_nodup h).sublist (hsublist.map _)

/-- **Step.** What the buffers of an agent tell after its observation. -/
theorem applyAgent_tells (model : CommsModel K ρ) {rendered : List (Rendered K)} {agent : String}
    {obs : Observation K}
    (hbounded : config.delay.kind = .uniform → config.delay.high ≤ config.delay.maxTicks)
    (hsingle : ∀ mask, obs.comms = some mask → (mask.links.map PeerLink.peer).Nodup)
    {peer : String}
    (h : Tells config.delay.maxTicks (obs.tick - 1) (sentTo agent peer rendered)
      (model.buffer agent peer)) :
    Tells config.delay.maxTicks obs.tick
      (sentTo agent peer rendered ++
        sentOf peer obs.tick (model.applyAgent draws config agent obs).2.2)
      ((model.applyAgent draws config agent obs).1.buffer agent peer) := by
  unfold CommsModel.applyAgent
  dsimp only
  generalize hmodel : ({ model with
    ledger := model.ledger.set agent ((model.tally agent).offer config obs) } : CommsModel K ρ) =
    counted
  have hbuffer : counted.buffer agent peer = model.buffer agent peer := by
    rw [← hmodel]
    rfl
  have houtcome := transmitAll_outcome draws config counted agent obs
    (admitted config obs)
  have hcount := length_sentOf_le peer obs.tick
    (CommsModel.transmitAll draws config agent obs counted (admitted config obs)).2
  rw [transmitAll_links] at hcount
  have hone := hcount.trans (List.nodup_iff_count_le_one.mp (admitted_nodup hsingle) peer)
  rw [transmitAll_buffer, if_pos rfl, hbuffer]
  have hmem : ∀ m ∈ sentOf peer obs.tick
      (CommsModel.transmitAll draws config agent obs counted (admitted config obs)).2, _ :=
    fun _ => mem_sentOf
  generalize sentOf peer obs.tick
    (CommsModel.transmitAll draws config agent obs counted (admitted config obs)).2 = sent at *
  match sent, hone with
  | [], _ =>
    rw [List.append_nil]
    exact h.advance (by omega)
  | [m], _ =>
    obtain ⟨report, hreport, -, hdelivered, htick, -⟩ := hmem m List.mem_cons_self
    obtain ⟨⟨rng, hdrawn⟩, -⟩ := houtcome report hreport
    obtain ⟨rng', hdelay⟩ := drawOutcome_delivered (hdrawn.symm.trans hdelivered)
    rw [← htick]
    refine h.push (by omega) (by omega) ?_
    rw [hdelay]
    exact sampleDelay_le hbounded rng'

/-- Another agent's observation changes neither its buffers nor what was sent to it. -/
theorem applyAgent_buffer_ne (model : CommsModel K ρ) {agent agent' : String} (h : agent' ≠ agent)
    (obs : Observation K) (peer : String) :
    (model.applyAgent draws config agent obs).1.buffer agent' peer = model.buffer agent' peer := by
  unfold CommsModel.applyAgent
  dsimp only
  rw [transmitAll_buffer, if_neg h]
  rfl

end Step

/-! ## Rendering -/

section Render

omit [FloorRing K]

variable {config : CommsModelConfig K} {model : CommsModel K ρ} {obs : Observation K}

theorem mem_render_links {link : PeerLink K} :
    (∃ mask, (model.render config obs).comms = some mask ∧ link ∈ mask.links) ↔
      ∃ candidate ∈ candidates config obs, (model.renderLink obs candidate).1 = link := by
  have hmem : (∃ candidate ∈ candidates config obs, (model.renderLink obs candidate).1 = link) ↔
      link ∈ ((candidates config obs).map (model.renderLink obs)).map Prod.fst := by
    rw [List.map_map]
    exact List.mem_map.symm
  rw [hmem]
  unfold CommsModel.render
  dsimp only
  generalize ((candidates config obs).map (model.renderLink obs)).map Prod.fst = links
  cases obs.comms with
  | some mask => simp
  | none =>
    by_cases hlinks : links = []
    · simp [hlinks]
    · simp [hlinks]

theorem mem_render_neighbors {neighbor : StateSample K} :
    neighbor ∈ (model.render config obs).neighbors ↔
      ∃ candidate ∈ candidates config obs,
        (model.renderLink obs candidate).2 = some neighbor := by
  simp [CommsModel.render]

/-- The messages of a history are about its peer. -/
def About (peer : String) (sent : List (Sent (Payload K))) : Prop :=
  ∀ m ∈ sent, m.payload.2.peer = peer ∧ ∀ neighbor, m.payload.1 = some neighbor →
    neighbor.agentId = peer

variable {agent : String} {sent : String → List (Sent (Payload K))}

/-- What is rendered for a candidate is about its peer. -/
theorem renderLink_peer (hid : obs.agentId = agent)
    (htells : ∀ peer, Tells config.delay.maxTicks obs.tick (sent peer) (model.buffer agent peer))
    (habout : ∀ peer, About peer (sent peer)) (candidate : PeerLink K) :
    (model.renderLink obs candidate).1.peer = candidate.peer ∧
      ∀ neighbor, (model.renderLink obs candidate).2 = some neighbor →
        neighbor.agentId = candidate.peer := by
  unfold CommsModel.renderLink
  rw [hid]
  dsimp only
  cases hlatest : latestReleased (model.buffer agent candidate.peer) obs.tick with
  | none => exact ⟨rfl, fun _ h => (by cases h)⟩
  | some x =>
    obtain ⟨m, hm, rfl, -⟩ := (htells candidate.peer).latest hlatest
    exact habout candidate.peer m hm

/-- A peer that is no candidate is not shown. -/
theorem not_shown (hid : obs.agentId = agent)
    (htells : ∀ peer, Tells config.delay.maxTicks obs.tick (sent peer) (model.buffer agent peer))
    (habout : ∀ peer, About peer (sent peer)) {peer : String}
    (hpeer : peer ∉ (candidates config obs).map PeerLink.peer) :
    ¬ShowsReachable (model.render config obs) peer ∧ EntryIs (model.render config obs) peer none := by
  constructor
  · rintro ⟨mask, hmask, link, hlink, hlinkPeer, -⟩
    obtain ⟨candidate, hcandidate, rfl⟩ := mem_render_links.1 ⟨mask, hmask, hlink⟩
    rw [(renderLink_peer hid htells habout candidate).1] at hlinkPeer
    exact hpeer (List.mem_map.mpr ⟨candidate, hcandidate, hlinkPeer⟩)
  · refine fun neighbor => ⟨fun ⟨hneighbor, hagent⟩ => ?_, fun h => (by cases h)⟩
    obtain ⟨candidate, hcandidate, hstate⟩ := mem_render_neighbors.1 hneighbor
    have hown := (renderLink_peer hid htells habout candidate).2 neighbor hstate
    exact absurd (List.mem_map.mpr ⟨candidate, hcandidate, hown.symm.trans hagent⟩) hpeer

/-- A candidate of whom a message is released now is reachable. -/
theorem showsReachable_of_release (hid : obs.agentId = agent)
    (htells : ∀ peer, Tells config.delay.maxTicks obs.tick (sent peer) (model.buffer agent peer))
    (habout : ∀ peer, About peer (sent peer)) {peer : String}
    (hpeer : peer ∈ (candidates config obs).map PeerLink.peer) {m : Sent (Payload K)}
    (hm : m ∈ sent peer) (hnow : m.release = obs.tick) :
    ShowsReachable (model.render config obs) peer := by
  obtain ⟨candidate, hcandidate, rfl⟩ := List.mem_map.mp hpeer
  obtain ⟨mask, hmask, hlink⟩ := mem_render_links.2 ⟨candidate, hcandidate, rfl⟩
  refine ⟨mask, hmask, _, hlink, (renderLink_peer hid htells habout candidate).1, ?_⟩
  obtain ⟨x, hx, hrelease⟩ := (htells candidate.peer).arrives_iff.mpr ⟨m, hm, hnow⟩
  unfold CommsModel.renderLink
  rw [hid]
  exact List.any_eq_true.mpr ⟨x, hx, decide_eq_true hrelease⟩

/-- The entry of a candidate with a released message is the state of its last release. -/
theorem entryIs_of_release (hid : obs.agentId = agent)
    (htells : ∀ peer, Tells config.delay.maxTicks obs.tick (sent peer) (model.buffer agent peer))
    (habout : ∀ peer, About peer (sent peer)) {peer : String}
    (hpeer : peer ∈ (candidates config obs).map PeerLink.peer) {m : Sent (Payload K)}
    (hm : m ∈ sent peer) (hnow : m.release ≤ obs.tick) :
    ∃ last, LastReleased (sent peer) obs.tick last ∧
      EntryIs (model.render config obs) peer last.payload.1 := by
  obtain ⟨x, hx⟩ := (htells peer).exists_latest hm hnow
  obtain ⟨last, hmem, rfl, hreleased, hlast⟩ := (htells peer).latest hx
  have hstate : ∀ candidate : PeerLink K, candidate.peer = peer →
      (model.renderLink obs candidate).2 = last.payload.1 := by
    rintro candidate rfl
    unfold CommsModel.renderLink
    rw [hid]
    dsimp only
    rw [hx]
    rfl
  refine ⟨last, ⟨hmem, hreleased, hlast⟩, fun neighbor => ⟨?_, fun hneighbor => ?_⟩⟩
  · rintro ⟨hneighbor, hagent⟩
    obtain ⟨candidate, -, hshown⟩ := mem_render_neighbors.1 hneighbor
    have hown := (renderLink_peer hid htells habout candidate).2 neighbor hshown
    rw [← hstate candidate (hown.symm.trans hagent)]
    exact hshown
  · obtain ⟨candidate, hcandidate, hcandidatePeer⟩ := List.mem_map.mp hpeer
    refine ⟨mem_render_neighbors.2 ⟨candidate, hcandidate, ?_⟩,
      (habout peer last hmem).2 neighbor hneighbor⟩
    exact (hstate candidate hcandidatePeer).trans hneighbor

end Render

/-! ## The run -/

/-- The observations of a run, in the order in which the channel takes them. -/
def entriesOf (run : List (Dict String (Observation K))) : List (String × Observation K) :=
  run.flatMap Dict.sortedEntries

/-- Of two observations of one agent the second has the later tick. -/
def Later (a b : String × Observation K) : Prop := a.1 = b.1 → a.2.tick < b.2.tick

/-- What is rendered, as the observations it was made of. -/
def Rendered.entry (r : Rendered K) : String × Observation K := (r.agent, r.observed)

/-- Each buffer tells what was sent. -/
def Told (config : CommsModelConfig K) (model : CommsModel K ρ) (rendered : List (Rendered K)) :
    Prop :=
  ∀ agent peer tick, (∀ r ∈ rendered, r.agent = agent → r.observed.tick ≤ tick) →
    Tells config.delay.maxTicks tick (sentTo agent peer rendered) (model.buffer agent peer)

/-- An observation was rendered from buffers that told what was sent up to it. -/
def RenderedFrom (ρ : Type) (config : CommsModelConfig K) (rendered : List (Rendered K))
    (r : Rendered K) : Prop :=
  ∃ model : CommsModel K ρ, r.shown = model.render config r.observed ∧
    ∃ before after, rendered = before ++ r :: after ∧ ∀ peer,
      Tells config.delay.maxTicks r.observed.tick (sentTo r.agent peer (before ++ [r]))
        (model.buffer r.agent peer)

section Run

variable {draws : Draws K ρ} {config : CommsModelConfig K}

omit [Field K] [LinearOrder K] [FloorRing K] in
theorem mem_entriesOf {run : List (Dict String (Observation K))} {entry : String × Observation K} :
    entry ∈ entriesOf run ↔ ∃ observations ∈ run, observations.get? entry.1 = some entry.2 := by
  simp only [entriesOf, List.mem_flatMap, Dict.sortedEntries, mem_sortOn, Dict.get?_eq_some_iff]

omit [Field K] [LinearOrder K] [FloorRing K] in
/-- The agents of one tick differ, and the ticks of each increase. -/
theorem entriesOf_pairwise {run : List (Dict String (Observation K))} (h : TicksIncrease run) :
    (entriesOf run).Pairwise Later := by
  induction run with
  | nil => exact List.Pairwise.nil
  | cons observations run ih =>
    have hrest : TicksIncrease run := fun agent => by
      have hagent := h agent
      rw [List.filterMap_cons] at hagent
      split at hagent
      · exact hagent
      · exact hagent.of_cons
    rw [entriesOf, List.flatMap_cons, List.pairwise_append]
    refine ⟨?_, ih hrest, fun a ha b hb hab => ?_⟩
    · have hkeys : (observations.sortedEntries.map Prod.fst).Nodup :=
        (((sortOn_perm Prod.fst observations.entries).map Prod.fst).nodup_iff).mpr
          observations.nodup_keys
      exact (List.pairwise_map.mp hkeys).imp fun hne heq => absurd heq hne
    · obtain ⟨observations', hmem, hget⟩ := mem_entriesOf.1 hb
      rw [Dict.sortedEntries, mem_sortOn, ← Dict.get?_eq_some_iff] at ha
      have hagent := h a.1
      rw [List.filterMap_cons, ha] at hagent
      exact (List.pairwise_cons.mp hagent).1 b.2
        (List.mem_filterMap.mpr ⟨observations', hmem, hab ▸ hget⟩)

/-- **Step.** One observation later each buffer still tells what was sent. -/
theorem applyAgent_told (model : CommsModel K ρ) {rendered : List (Rendered K)} {agent : String}
    {obs : Observation K}
    (hbounded : config.delay.kind = .uniform → config.delay.high ≤ config.delay.maxTicks)
    (hsingle : ∀ mask, obs.comms = some mask → (mask.links.map PeerLink.peer).Nodup)
    (hlater : ∀ r ∈ rendered, r.agent = agent → r.observed.tick < obs.tick)
    (h : Told config model rendered) (shown : Observation K) :
    Told config (model.applyAgent draws config agent obs).1
      (rendered ++ [⟨agent, obs, shown, (model.applyAgent draws config agent obs).2.2⟩]) := by
  intro agent' peer tick htick
  rw [sentTo_append, sentTo_singleton]
  dsimp only
  by_cases hagent : agent = agent'
  · subst hagent
    rw [if_pos rfl]
    have hbefore := h agent peer (obs.tick - 1) fun r hr hown => by
      have := hlater r hr hown
      omega
    refine (applyAgent_tells model hbounded hsingle hbefore).advance ?_
    exact htick _ (List.mem_append_right _ List.mem_cons_self) rfl
  · rw [if_neg hagent, List.append_nil, applyAgent_buffer_ne model (Ne.symm hagent)]
    exact h agent' peer tick fun r hr => htick r (List.mem_append_left _ hr)

variable (draws) in
/-- **Run.** After the observations each buffer tells what was sent, and each observation was
rendered from buffers that did. -/
theorem applyAll_told
    (hbounded : config.delay.kind = .uniform → config.delay.high ≤ config.delay.maxTicks)
    (entries : List (String × Observation K)) (model : CommsModel K ρ)
    (rendered : List (Rendered K))
    (hsingle : ∀ entry ∈ entries, ∀ mask, entry.2.comms = some mask →
      (mask.links.map PeerLink.peer).Nodup)
    (hlater : (rendered.map Rendered.entry ++ entries).Pairwise Later)
    (h : Told config model rendered) :
    Told config (CommsModel.applyAll draws config model entries).1
        (rendered ++ (CommsModel.applyAll draws config model entries).2) ∧
      ∀ r ∈ (CommsModel.applyAll draws config model entries).2,
        RenderedFrom ρ config (rendered ++ (CommsModel.applyAll draws config model entries).2) r := by
  induction entries generalizing model rendered with
  | nil => simpa [CommsModel.applyAll] using h
  | cons entry entries ih =>
    obtain ⟨agent, obs⟩ := entry
    rw [CommsModel.applyAll]
    dsimp only
    have hobs : ∀ r ∈ rendered, r.agent = agent → r.observed.tick < obs.tick := fun r hr hagent =>
      (List.pairwise_append.mp hlater).2.2 r.entry (List.mem_map_of_mem hr) (agent, obs)
        List.mem_cons_self hagent
    have hstep : Told config (model.applyAgent draws config agent obs).1 _ :=
      applyAgent_told model hbounded (hsingle _ List.mem_cons_self) hobs h
        (model.applyAgent draws config agent obs).2.1
    generalize hr : (⟨agent, obs, (model.applyAgent draws config agent obs).2.1,
      (model.applyAgent draws config agent obs).2.2⟩ : Rendered K) = r at hstep
    have hrest := ih (model.applyAgent draws config agent obs).1 (rendered ++ [r])
      (fun entry hentry => hsingle entry (List.mem_cons_of_mem _ hentry))
      (by simpa [← hr, Rendered.entry] using hlater) hstep
    rw [List.append_assoc, List.singleton_append] at hrest
    refine ⟨hrest.1, List.forall_mem_cons.mpr ⟨?_, hrest.2⟩⟩
    refine ⟨(model.applyAgent draws config agent obs).1, by rw [← hr]; rfl, rendered, _, rfl, ?_⟩
    intro peer
    have hagent : r.agent = agent := by rw [← hr]
    refine hstep r.agent peer r.observed.tick fun r' hr' hown => ?_
    obtain hr' | hr' := List.mem_append.mp hr'
    · have hlt := hobs r' hr' (hown.trans hagent)
      rw [← hr]
      exact hlt.le
    · obtain rfl := List.mem_singleton.mp hr'
      exact le_rfl

variable (draws config) in
/-- What is rendered are the observations, and the reports carry the states that were observed. -/
theorem applyAll_entries (model : CommsModel K ρ) (entries : List (String × Observation K)) :
    (CommsModel.applyAll draws config model entries).2.map Rendered.entry = entries ∧
      ∀ r ∈ (CommsModel.applyAll draws config model entries).2, ∀ report ∈ r.reports,
        report.state = (neighborsById r.observed).get? report.link.peer := by
  induction entries generalizing model with
  | nil => exact ⟨rfl, fun _ h => (by cases h)⟩
  | cons entry entries ih =>
    obtain ⟨agent, obs⟩ := entry
    rw [CommsModel.applyAll]
    dsimp only
    obtain ⟨hentries, hreports⟩ := ih (model.applyAgent draws config agent obs).1
    refine ⟨by rw [List.map_cons, hentries]; rfl, List.forall_mem_cons.mpr ⟨?_, hreports⟩⟩
    exact fun report hreport => (transmitAll_outcome draws config _ agent obs _ report hreport).2

omit [Field K] [LinearOrder K] [FloorRing K] in
theorem get?_neighborsById {obs : Observation K} {peer : String} {neighbor : StateSample K}
    (h : (neighborsById obs).get? peer = some neighbor) : neighbor.agentId = peer := by
  obtain ⟨_, -, heq⟩ := List.mem_map.mp (Dict.get?_ofList_mem h)
  obtain ⟨rfl, rfl⟩ := Prod.mk.inj heq
  rfl

omit [Field K] [LinearOrder K] [FloorRing K] in
theorem sentTo_about {agent peer : String} {rendered : List (Rendered K)}
    (h : ∀ r ∈ rendered, ∀ report ∈ r.reports,
      report.state = (neighborsById r.observed).get? report.link.peer) :
    About peer (sentTo agent peer rendered) := by
  intro m hm
  obtain ⟨r, hr, -, hsent⟩ := exists_of_mem_sentTo hm
  obtain ⟨report, hreport, hpeer, -, -, hpayload⟩ := mem_sentOf hsent
  rw [hpayload]
  refine ⟨hpeer, fun neighbor hneighbor => ?_⟩
  rw [← hpeer]
  exact get?_neighborsById ((h r hr report hreport).symm.trans hneighbor)

omit [Field K] [LinearOrder K] [FloorRing K] in
/-- What is sent after an observation is not released at it. -/
theorem released_before {before after : List (Rendered K)} {r : Rendered K} {peer : String}
    (hlater : ((before ++ r :: after).map Rendered.entry).Pairwise Later)
    {m : Sent (Payload K)} (hm : m ∈ sentTo r.agent peer (before ++ r :: after))
    (hnow : m.release ≤ r.observed.tick) : m ∈ sentTo r.agent peer (before ++ [r]) := by
  rw [List.append_cons, sentTo_append, List.mem_append] at hm
  refine hm.resolve_right fun hafter => ?_
  obtain ⟨r', hr', hagent, hsent⟩ := exists_of_mem_sentTo hafter
  obtain ⟨-, -, -, -, htick, -⟩ := mem_sentOf hsent
  rw [List.map_append, List.map_cons, List.pairwise_append, List.pairwise_cons] at hlater
  have hlt : r.observed.tick < r'.observed.tick :=
    hlater.2.1.1 r'.entry (List.mem_map_of_mem hr') hagent.symm
  rw [Sent.release] at hnow
  omega

omit [Field K] [LinearOrder K] [FloorRing K] in
theorem sentTo_mono {before after : List (Rendered K)} {r : Rendered K} {agent peer : String}
    {m : Sent (Payload K)} (hm : m ∈ sentTo agent peer (before ++ [r])) :
    m ∈ sentTo agent peer (before ++ r :: after) := by
  rw [List.append_cons, sentTo_append]
  exact List.mem_append_left _ hm

end Run

/-! ## When a run delivers on time -/

section Law

variable {config : CommsModelConfig K} {rendered : List (Rendered K)}

/-- What an observation shows of a peer, by whether it is a candidate. -/
structure ShownByCandidacy (config : CommsModelConfig K) (rendered : List (Rendered K))
    (r : Rendered K) (peer : String) : Prop where
  onTime : peer ∈ (candidates config r.observed).map PeerLink.peer →
    ∀ m ∈ sentTo r.agent peer rendered, m.release = r.observed.tick → ShowsReachable r.shown peer
  lastKnown : peer ∈ (candidates config r.observed).map PeerLink.peer →
    ∀ m ∈ sentTo r.agent peer rendered, m.release ≤ r.observed.tick →
      ∃ last, LastReleased (sentTo r.agent peer rendered) r.observed.tick last ∧
        EntryIs r.shown peer last.payload.1
  hidden : peer ∉ (candidates config r.observed).map PeerLink.peer →
    ¬ShowsReachable r.shown peer ∧ EntryIs r.shown peer none

omit [FloorRing K] in
/-- **Spec.** -/
theorem RenderedFrom.shown {r : Rendered K} (h : RenderedFrom ρ config rendered r)
    (hlater : (rendered.map Rendered.entry).Pairwise Later)
    (hreports : ∀ r ∈ rendered, ∀ report ∈ r.reports,
      report.state = (neighborsById r.observed).get? report.link.peer)
    (hid : r.observed.agentId = r.agent) (peer : String) :
    ShownByCandidacy config rendered r peer := by
  obtain ⟨model, hshown, before, after, rfl, htells⟩ := h
  have habout : ∀ peer, About peer (sentTo r.agent peer (before ++ [r])) := fun peer m hm =>
    sentTo_about hreports m (sentTo_mono hm)
  refine ⟨fun hpeer m hm hnow => ?_, fun hpeer m hm hnow => ?_, fun hpeer => ?_⟩
  · rw [hshown]
    exact showsReachable_of_release hid htells habout hpeer
      (released_before hlater hm hnow.le) hnow
  · obtain ⟨last, ⟨hmem, hreleased, hlast⟩, hentry⟩ :=
      entryIs_of_release hid htells habout hpeer (released_before hlater hm hnow) hnow
    rw [hshown]
    exact ⟨last, ⟨sentTo_mono hmem, hreleased, fun m' hm' hnow' =>
      hlast m' (released_before hlater hm' hnow') hnow'⟩, hentry⟩
  · rw [hshown]
    exact not_shown hid htells habout hpeer

/-- What the run of a channel leaves, from its reset. -/
structure Settled (config : CommsModelConfig K) (result : CommsModel K ρ × List (Rendered K)) :
    Prop where
  told : Told config result.1 result.2
  shown : ∀ r ∈ result.2, ∀ peer, ShownByCandidacy config result.2 r peer

omit [FloorRing K] in
theorem Settled.law_iff {result : CommsModel K ρ × List (Rendered K)}
    (h : Settled config result) : DeliversOnTime result ↔ PeersOffered config result.2 := by
  constructor
  · intro hd r hr peer m hm hnow
    by_cases hpeer : peer ∈ (candidates config r.observed).map PeerLink.peer
    · exact Or.inl hpeer
    · obtain ⟨hreachable, hnone⟩ := (h.shown r hr peer).hidden hpeer
      obtain ⟨last, hlast, hentry⟩ := hd.lastKnown r hr peer m hm hnow
      refine Or.inr ⟨fun m' hm' hnow' => hreachable (hd.onTime r hr peer m' hm' hnow'), last,
        hlast, ?_⟩
      refine Option.eq_none_iff_forall_ne_some.mpr fun neighbor hstate => ?_
      exact Option.some_ne_none neighbor ((hnone neighbor).mp ((hentry neighbor).mpr hstate)).symm
  · intro hoffered
    refine ⟨fun r hr peer m hm hnow => ?_, fun r hr peer m hm hnow => ?_,
      fun agent peer tick htick m hm hpending => ?_, fun agent peer tick htick m hm hnow => ?_⟩
    · obtain hpeer | ⟨hnever, -⟩ := hoffered r hr peer m hm hnow.le
      · exact (h.shown r hr peer).onTime hpeer m hm hnow
      · exact absurd hnow (hnever m hm)
    · by_cases hpeer : peer ∈ (candidates config r.observed).map PeerLink.peer
      · exact (h.shown r hr peer).lastKnown hpeer m hm hnow
      · obtain ⟨-, last, hlast, hstate⟩ := (hoffered r hr peer m hm hnow).resolve_left hpeer
        refine ⟨last, hlast, ?_⟩
        rw [hstate]
        exact ((h.shown r hr peer).hidden hpeer).2
    · exact (h.told agent peer tick htick).pending hm hpending
    · have htells := h.told agent peer tick htick
      obtain ⟨x, hx⟩ := htells.exists_latest hm hnow
      obtain ⟨last, hmem, rfl, hreleased, hlast⟩ := htells.latest hx
      exact ⟨last, ⟨hmem, hreleased, hlast⟩,
        ((DelayBuffer.latestReleased_spec _ tick).1 _ hx).1⟩

end Law

section Main

variable {draws : Draws K ρ} {config : CommsModelConfig K}

omit [Field K] [LinearOrder K] [FloorRing K] in
/-- Nothing is sent where no link reaches the drop stage. -/
theorem sentTo_of_reports_nil {agent peer : String} {rendered : List (Rendered K)}
    (h : ∀ r ∈ rendered, r.reports = []) : sentTo agent peer rendered = [] := by
  refine List.eq_nil_iff_forall_not_mem.mpr fun m hm => ?_
  obtain ⟨r, hr, -, hsent⟩ := exists_of_mem_sentTo hm
  rw [h r hr] at hsent
  cases hsent

variable (draws) in
/-- The identity leaves the channel as it is, and sends nothing. -/
theorem run_identity (hidentity : config.isIdentity = true) (model : CommsModel K ρ)
    (run : List (Dict String (Observation K))) :
    (CommsModel.run draws config model run).1 = model ∧
      ∀ r ∈ (CommsModel.run draws config model run).2, r.reports = [] := by
  induction run generalizing model with
  | nil => exact ⟨rfl, fun _ h => (by cases h)⟩
  | cons observations run ih =>
    rw [CommsModel.run, CommsModel.apply, if_pos hidentity]
    dsimp only
    obtain ⟨hmodel, hreports⟩ := ih model
    refine ⟨hmodel, fun r hr => ?_⟩
    obtain hr | hr := List.mem_append.mp hr
    · obtain ⟨entry, -, rfl⟩ := List.mem_map.mp hr
      rfl
    · exact hreports r hr

theorem applyAll_append (model : CommsModel K ρ) (entries rest : List (String × Observation K)) :
    CommsModel.applyAll draws config model (entries ++ rest) =
      ((CommsModel.applyAll draws config (CommsModel.applyAll draws config model entries).1 rest).1,
        (CommsModel.applyAll draws config model entries).2 ++
          (CommsModel.applyAll draws config
            (CommsModel.applyAll draws config model entries).1 rest).2) := by
  induction entries generalizing model with
  | nil => rfl
  | cons entry entries ih =>
    obtain ⟨agent, obs⟩ := entry
    rw [List.cons_append, CommsModel.applyAll, CommsModel.applyAll]
    dsimp only
    rw [ih]
    rfl

/-- Any other channel takes the observations of a run one after the other. -/
theorem run_eq_applyAll (hidentity : ¬config.isIdentity = true) (model : CommsModel K ρ)
    (run : List (Dict String (Observation K))) :
    CommsModel.run draws config model run =
      CommsModel.applyAll draws config model (entriesOf run) := by
  induction run generalizing model with
  | nil => rfl
  | cons observations run ih =>
    rw [CommsModel.run, CommsModel.apply, if_neg hidentity, entriesOf, List.flatMap_cons,
      applyAll_append]
    dsimp only
    rw [ih]
    rfl

/-- A run whose delays are bounded settles. -/
theorem run_settled (hidentity : ¬config.isIdentity = true)
    {run : List (Dict String (Observation K))} (hticks : TicksIncrease run)
    (htrim : Trimmable config run) (seed : Option ℤ) :
    Settled config (CommsModel.run draws config (.reset draws config seed) run) := by
  have hentry : ∀ entry ∈ entriesOf run, entry.2.agentId = entry.1 ∧
      ∀ mask, entry.2.comms = some mask → (mask.links.map PeerLink.peer).Nodup := by
    intro entry hentry
    obtain ⟨observations, hmem, hget⟩ := mem_entriesOf.1 hentry
    exact ⟨htrim.ids observations hmem entry.1 entry.2 hget,
      htrim.single observations hmem entry.1 entry.2 hget⟩
  have hfresh : Told config (CommsModel.reset draws config seed) [] :=
    fun _ _ tick _ => Tells.empty config.delay.maxTicks tick
  rw [run_eq_applyAll hidentity]
  obtain ⟨htold, hfrom⟩ := applyAll_told draws htrim.bounded (entriesOf run)
    (.reset draws config seed) [] (fun entry h => (hentry entry h).2) (entriesOf_pairwise hticks)
    hfresh
  obtain ⟨hentries, hreports⟩ := applyAll_entries draws config
    (.reset draws config seed) (entriesOf run)
  rw [List.nil_append] at htold hfrom
  refine ⟨htold, fun r hr peer => (hfrom r hr).shown ?_ hreports ?_ peer⟩
  · rw [hentries]
    exact entriesOf_pairwise hticks
  · have hmem : r.entry ∈ entriesOf run := hentries ▸ List.mem_map_of_mem hr
    exact (hentry r.entry hmem).1

/-- **Main theorem.** In a run of the channel with increasing ticks, whose delays are within
`max_ticks`, the messages are delivered on time exactly if the peers with released messages are
candidates. -/
theorem deliversOnTime_iff (draws : Draws K ρ) (config : CommsModelConfig K) (seed : Option ℤ)
    (run : List (Dict String (Observation K))) (hticks : TicksIncrease run)
    (htrim : Trimmable config run) :
    DeliversOnTime (CommsModel.run draws config (.reset draws config seed) run) ↔
      PeersOffered config (CommsModel.run draws config (.reset draws config seed) run).2 := by
  by_cases hidentity : config.isIdentity = true
  · have hreports := (run_identity draws hidentity (.reset draws config seed) run).2
    have hnone : ∀ agent peer, sentTo agent peer
        (CommsModel.run draws config (.reset draws config seed) run).2 = [] :=
      fun _ _ => sentTo_of_reports_nil hreports
    refine ⟨fun _ r _ peer m hm => ?_, fun _ => ⟨fun r _ peer m hm => ?_, fun r _ peer m hm => ?_,
      fun agent peer _ _ m hm => ?_, fun agent peer _ _ m hm => ?_⟩⟩ <;>
    · rw [hnone] at hm
      cases hm
  · exact (run_settled hidentity hticks htrim seed).law_iff

end Main

/-! ## A link that goes down -/

/-- A generator that draws the least of everything. -/
def leastDraws : Draws ℚ Unit where
  random r := (0, r)
  integers r low _ := (low, r)
  geometric r _ := (1, r)
  seeded _ _ := ()
  random_mem _ := ⟨le_rfl, zero_lt_one⟩
  integers_mem _ _ _ h := ⟨le_rfl, h⟩
  geometric_pos _ _ := le_rfl
  geometric_one _ := rfl

/-- No peer is out of range. -/
def openGate : RangeGateConfig ℚ := {}

/-- As many messages of one bit as there are. -/
def unlimited : BandwidthBudgetConfig ℚ where
  perAgentBitsPerTick := none
  messageBits := 1
  priority := .marginDb
  perAgentBitsPerTick_nonneg := openGate.maxRangeM_nonneg
  messageBits_pos := zero_lt_one

theorem zero_nonneg : (0 : ℚ) ≤ 0 := le_rfl

/-- No message is lost. -/
def lossless : DropConfig ℚ := ⟨0, zero_nonneg, zero_le_one⟩

/-- No message is delayed. -/
def undelayed : DelayConfig ℚ where
  kind := .none
  ticks := 0
  low := 0
  high := 0
  meanTicks := 0
  maxTicks := 16
  meanTicks_nonneg := zero_nonneg
  maxTicks_le := by decide
  uniform_bounds := by simp
  fixed_bounds := by simp

/-- Messages take one tick. -/
def oneTick : CommsModelConfig ℚ where
  rangeGate := openGate
  bandwidth := unlimited
  drop := lossless
  delay :=
    { kind := .fixed
      ticks := 1
      low := 0
      high := 0
      meanTicks := 0
      maxTicks := 64
      meanTicks_nonneg := zero_nonneg
      maxTicks_le := by decide
      uniform_bounds := by simp
      fixed_bounds := by simp }
  seedSalt := 0

/-- What the rover observes of the hauler at a tick. -/
def roverAt (tick : ℤ) (reachable : Bool) : Observation ℚ where
  tick
  agentId := "rover"
  selfState := ⟨"rover", 0, 0, 0⟩
  comms := some { agentId := "rover", links := [{ peer := "hauler", reachable }] }
  neighbors := [⟨"hauler", 1, 0, 0⟩]

def observedAt (tick : ℤ) (reachable : Bool) : Dict String (Observation ℚ) :=
  Dict.ofList [("rover", roverAt tick reachable)]

theorem get?_observedAt (tick : ℤ) (reachable : Bool) (agent : String) :
    (observedAt tick reachable).get? agent =
      if agent = "rover" then some (roverAt tick reachable) else none :=
  Dict.get?_set Dict.empty "rover" (roverAt tick reachable) agent

/-- The link is up or down at the second tick. -/
def linkThen (reachable : Bool) : List (Dict String (Observation ℚ)) :=
  [observedAt 0 true, observedAt 1 reachable]

theorem linkThen_ticksIncrease (reachable : Bool) : TicksIncrease (linkThen reachable) := by
  intro agent
  by_cases h : agent = "rover"
  · simp [linkThen, get?_observedAt, h, roverAt]
  · simp [linkThen, get?_observedAt, h]

theorem linkThen_trimmable (reachable : Bool) : Trimmable oneTick (linkThen reachable) := by
  have hrover : ∀ observations ∈ linkThen reachable, ∀ agent obs,
      observations.get? agent = some obs →
        agent = "rover" ∧ ∃ tick reachable, obs = roverAt tick reachable := by
    intro observations hmem agent obs hget
    simp only [linkThen, List.mem_cons, List.not_mem_nil, or_false] at hmem
    obtain rfl | rfl := hmem
    all_goals
      rw [get?_observedAt] at hget
      split_ifs at hget with h
      exact ⟨h, _, _, (Option.some.inj hget).symm⟩
  refine ⟨fun h => (by cases h), fun observations hmem agent obs hget => ?_,
    fun observations hmem agent obs hget mask hmask => ?_⟩
  · obtain ⟨rfl, _, _, rfl⟩ := hrover observations hmem agent obs hget
    rfl
  · obtain ⟨-, _, _, rfl⟩ := hrover observations hmem agent obs hget
    obtain rfl := Option.some.inj hmask
    exact List.nodup_singleton _

/-- What the channel makes of them. -/
theorem run_linkThen (reachable : Bool) :
    (CommsModel.run leastDraws oneTick (.reset leastDraws oneTick none) (linkThen reachable)).2 =
      [⟨"rover", roverAt 0 true,
          { roverAt 0 true with
            comms := some ⟨"rover", [{ peer := "hauler", reachable := false }], false⟩
            neighbors := [] },
          [⟨{ peer := "hauler", reachable := true }, some ⟨"hauler", 1, 0, 0⟩, .delivered 1⟩]⟩,
        ⟨"rover", roverAt 1 reachable,
          { roverAt 1 reachable with
            comms := some ⟨"rover",
              if reachable then [{ peer := "hauler", reachable := true }] else [], false⟩
            neighbors := if reachable then [⟨"hauler", 1, 0, 0⟩] else [] },
          if reachable then
            [⟨{ peer := "hauler", reachable := true }, some ⟨"hauler", 1, 0, 0⟩, .delivered 1⟩]
          else []⟩] := by
  cases reachable <;> rfl

/-- **Counterexample.** A message is released while the link to its peer is down: the peer is not
shown. -/
theorem linkDown_not_onTime : TicksIncrease (linkThen false) ∧
    Trimmable oneTick (linkThen false) ∧
    ¬DeliversOnTime (CommsModel.run leastDraws oneTick (.reset leastDraws oneTick none)
      (linkThen false)) := by
  refine ⟨linkThen_ticksIncrease false, linkThen_trimmable false, fun h => ?_⟩
  have honTime := h.onTime
  rw [run_linkThen] at honTime
  obtain ⟨mask, hmask, link, hlink, -⟩ := honTime _ (List.mem_cons_of_mem _ List.mem_cons_self)
    "hauler" ⟨0, 1, (some ⟨"hauler", 1, 0, 0⟩, { peer := "hauler", reachable := true })⟩
    List.mem_cons_self rfl
  obtain rfl := Option.some.inj hmask
  cases hlink

/-- While the link stays up the message is delivered on time. -/
theorem linkUp_onTime :
    DeliversOnTime (CommsModel.run leastDraws oneTick (.reset leastDraws oneTick none)
      (linkThen true)) := by
  refine (deliversOnTime_iff leastDraws oneTick none (linkThen true) (linkThen_ticksIncrease true)
    (linkThen_trimmable true)).mpr ?_
  rw [run_linkThen]
  intro r hr peer m hm _
  obtain ⟨r', hr', -, hsent⟩ := exists_of_mem_sentTo hm
  obtain ⟨report, hreport, rfl, -⟩ := mem_sentOf hsent
  simp only [List.mem_cons, List.not_mem_nil, or_false] at hr hr'
  refine Or.inl ?_
  obtain rfl | rfl := hr' <;> obtain rfl := List.mem_singleton.mp hreport <;>
    obtain rfl | rfl := hr <;> exact List.mem_cons_self

end AstroMine.Learn
