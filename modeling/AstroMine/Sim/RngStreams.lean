import Mathlib.Data.List.Nodup
import Mathlib.Data.List.Pairwise
import AstroMine.Lib.Dict
import AstroMine.Lib.Joined
import AstroMine.Lib.NamedStreams

/-!
# Named random streams (`sim/runtime/rng.py`)

Every consumer of randomness in a run draws from a stream that is found by its name: the sensors in
`_render_sensors` (`sim/runtime/episode.py`), and the engines, some of which draw when they are
built and some with every sub-step. The rest of the simulator (the physics, the commands, the
coupling of the agents, the readings handed out) is a state of any type `W` that the values drawn
may change in any way, and that decides what the models do with their generators (`Models`). The
digest of a name and the generator seeded from it are parameters too.

Results:
* `streams_private_iff`: no two consumers draw from one stream, exactly if the ids and sensor names
  of the scenario are separated.
* `drawsAlone_run`: in a run of a separated scenario every agent and every sensor draws as if alone.
* `streams_independent_iff`: when the consumers of two scenarios draw from streams of their own, and
  those common to both are given the same values for the same draws.
-/

namespace AstroMine.Sim.RngStreams

open NamedStreams

/-! ## Scenarios -/

/-- The `kind` of a `dynamics` block (`sim/runtime/scenario.py`). -/
inductive DynamicsKind
  | kinematic
  | orbital
  | orekitOrbital
  | mobility
  | mujocoMobility
  | manipulation
  | granular
  | demGranular
  | braxContact
  | mjxContact
  deriving DecidableEq

/-- How the engine of an agent draws: not at all, from the agent's stream with every step
(`reference.py`, line 140) or when it is built (`dem/_engine.py`, line 234), or once for all its
agents from a stream of its own (`brax/_engine.py`, line 104, and `brax/_mjx.py`, line 328). -/
inductive Draws
  | never
  | onAdvance
  | onBuild
  | pooled (stream : String)
  deriving DecidableEq

/-- How the agents of a kind draw. -/
def DynamicsKind.draws : DynamicsKind → Draws
  | .kinematic => .onAdvance
  | .demGranular => .onBuild
  | .braxContact => .pooled "brax_contact"
  | .mjxContact => .pooled "mjx_contact"
  | _ => .never

/-- A sensor: its name, and what its model reads. -/
structure Sensor (τ : Type) where
  name : String
  data : τ

/-- `AgentSpec` (`scenario.py`, lines 352–394): the id, the dynamics, the rest, the sensors. -/
structure AgentSpec (ω τ : Type) where
  agentId : String
  dynamics : DynamicsKind
  rest : ω
  sensors : List (Sensor τ)

/-- `Scenario` (lines 397–426): the agent ids are distinct. -/
structure Scenario (ω τ : Type) where
  agents : List (AgentSpec ω τ)
  ids_nodup : (agents.map AgentSpec.agentId).Nodup

/-! ## Consumers and their streams -/

variable {ω τ γ κ β W D : Type}

/-- Who draws: the engine for one of its agents, or a sensor of an agent. -/
inductive Consumer
  | engine (agentId : String)
  | sensor (agentId name : String)
  deriving DecidableEq

/-- The stream of a sensor (`episode.py`, line 333). -/
def sensorStream (agentId name : String) : String := joined "sensor" (joined agentId name)

/-- The stream that the engine of an agent draws from. -/
def AgentSpec.engineStream (a : AgentSpec ω τ) : Option String :=
  match a.dynamics.draws with
  | .never => none
  | .onAdvance => some a.agentId
  | .onBuild => some a.agentId
  | .pooled stream => some stream

/-- The consumers of an agent with their streams: its engine, and each of its sensors. -/
def AgentSpec.consumers (a : AgentSpec ω τ) : List (Consumer × String) :=
  (a.engineStream.toList.map fun stream => (.engine a.agentId, stream)) ++
    a.sensors.map fun s => (.sensor a.agentId s.name, sensorStream a.agentId s.name)

/-- The consumers of a scenario with their streams. -/
def Scenario.consumers (S : Scenario ω τ) : List (Consumer × String) :=
  S.agents.flatMap AgentSpec.consumers

/-- What seeds a stream: the digest of `f"{root}:{name}"` (`rng.py`, line 38). -/
def digestOf (sha : String → D) (root : ℤ) (name : String) : D := sha (joined (toString root) name)

/-- No two consumers of the scenario draw from one stream. -/
def StreamsPrivate (sha : String → D) (root : ℤ) (S : Scenario ω τ) : Prop :=
  (S.consumers.map fun c => digestOf sha root c.2).Nodup

/-- The digests of different streams of the scenario are different. -/
def DigestsApart (sha : String → D) (root : ℤ) (S : Scenario ω τ) : Prop :=
  ∀ c ∈ S.consumers, ∀ d ∈ S.consumers, digestOf sha root c.2 = digestOf sha root d.2 → c.2 = d.2

/-- The ids and sensor names of a scenario keep its streams apart. -/
structure Separated (S : Scenario ω τ) : Prop where
  /-- The sensors of an agent have distinct names. -/
  sensorNames : ∀ a ∈ S.agents, (a.sensors.map Sensor.name).Nodup
  /-- No id goes on behind another with a colon and what a sensor name of the other begins with. -/
  sensors : ∀ a ∈ S.agents, ∀ b ∈ S.agents, ∀ s ∈ a.sensors, ∀ t ∈ b.sensors, ∀ u,
    ¬ (a.agentId = joined b.agentId u ∧ t.name = joined u s.name)
  /-- No agent whose engine draws is called like the stream of a sensor. -/
  engines : ∀ a ∈ S.agents, ∀ b ∈ S.agents, ∀ t ∈ b.sensors, a.engineStream = some a.agentId →
    a.agentId ≠ sensorStream b.agentId t.name
  /-- An engine that draws for all its agents has one, and no other agent that draws is called
  like its stream. -/
  pools : ∀ a ∈ S.agents, ∀ b ∈ S.agents, ∀ stream, a.dynamics.draws = .pooled stream →
    b.engineStream = some stream → a.agentId = b.agentId

theorem engineStream_cases {a : AgentSpec ω τ} {stream : String}
    (h : a.engineStream = some stream) :
    stream = a.agentId ∨ a.dynamics.draws = .pooled stream := by
  unfold AgentSpec.engineStream at h
  split at h
  · cases h
  · exact .inl (Option.some.inj h).symm
  · exact .inl (Option.some.inj h).symm
  · rename_i pool hd
    rw [Option.some.inj h] at hd
    exact .inr hd

/-- The stream of a pool is not that of a sensor. -/
theorem pooled_ne_sensorStream {kind : DynamicsKind} {stream agentId name : String}
    (h : kind.draws = .pooled stream) : stream ≠ sensorStream agentId name := by
  intro heq
  have hlist := congrArg String.toList heq
  rw [sensorStream, toList_joined] at hlist
  cases kind <;> simp only [DynamicsKind.draws, reduceCtorEq, Draws.pooled.injEq] at h <;>
    subst h <;> simp at hlist

theorem sensorStream_eq_iff (a b s t : String) : sensorStream a s = sensorStream b t ↔
    (a = b ∧ s = t) ∨ (∃ u, a = joined b u ∧ t = joined u s) ∨
      ∃ u, b = joined a u ∧ s = joined u t := by
  rw [sensorStream, sensorStream, joined_right_inj, joined_eq_iff]

/-- Different agents are listed at different places. -/
theorem agents_nodup (S : Scenario ω τ) : S.agents.Nodup := S.ids_nodup.of_map _

theorem eq_of_agentId {S : Scenario ω τ} {a b : AgentSpec ω τ} (ha : a ∈ S.agents)
    (hb : b ∈ S.agents) (h : a.agentId = b.agentId) : a = b :=
  List.inj_on_of_nodup_map S.ids_nodup ha hb h

theorem mem_agentConsumers {a : AgentSpec ω τ} {c : Consumer × String} : c ∈ a.consumers ↔
    (∃ stream, a.engineStream = some stream ∧ c = (.engine a.agentId, stream)) ∨
      ∃ s ∈ a.sensors, c = (.sensor a.agentId s.name, sensorStream a.agentId s.name) := by
  simp only [AgentSpec.consumers, List.mem_append, List.mem_map, Option.mem_toList]
  refine or_congr ?_ ?_
  · exact exists_congr fun _ => and_congr_right fun _ => eq_comm
  · exact exists_congr fun _ => and_congr_right fun _ => eq_comm

theorem mem_consumers {S : Scenario ω τ} {c : Consumer × String} :
    c ∈ S.consumers ↔ ∃ a ∈ S.agents, c ∈ a.consumers := List.mem_flatMap

/-- A consumer belongs to one agent. -/
def Consumer.agentId : Consumer → String
  | .engine agentId => agentId
  | .sensor agentId _ => agentId

theorem agentId_of_mem {a : AgentSpec ω τ} {c : Consumer × String} (h : c ∈ a.consumers) :
    c.1.agentId = a.agentId := by
  rcases mem_agentConsumers.1 h with ⟨_, -, rfl⟩ | ⟨_, -, rfl⟩
  · rfl
  · rfl

/-! ## When streams are private -/

/-- No two consumers draw from one stream if no two draw from streams of one name. -/
theorem streamsPrivate_iff_nodup {sha : String → D} {root : ℤ} {S : Scenario ω τ}
    (hsha : DigestsApart sha root S) :
    StreamsPrivate sha root S ↔ (S.consumers.map Prod.snd).Nodup := by
  have hmap : (S.consumers.map fun c => digestOf sha root c.2) =
      (S.consumers.map Prod.snd).map (digestOf sha root) := by
    rw [List.map_map]
    rfl
  rw [StreamsPrivate, hmap]
  refine ⟨List.Nodup.of_map _, fun h => h.map_on ?_⟩
  intro x hx y hy heq
  obtain ⟨c, hc, rfl⟩ := List.mem_map.mp hx
  obtain ⟨d, hd, rfl⟩ := List.mem_map.mp hy
  exact hsha c hc d hd heq

theorem streams_nodup_iff (S : Scenario ω τ) : (S.consumers.map Prod.snd).Nodup ↔
    (∀ a ∈ S.agents, (a.consumers.map Prod.snd).Nodup) ∧
      ∀ a ∈ S.agents, ∀ b ∈ S.agents, a ≠ b →
        (a.consumers.map Prod.snd).Disjoint (b.consumers.map Prod.snd) := by
  rw [Scenario.consumers, List.map_flatMap, List.nodup_flatMap]
  refine and_congr_right fun _ => ?_
  have hsymm : Std.Symm fun a b : AgentSpec ω τ =>
      (a.consumers.map Prod.snd).Disjoint (b.consumers.map Prod.snd) :=
    ⟨fun _ _ h _ ha hb => h hb ha⟩
  constructor
  · intro h a ha b hb hne
    exact h.forall ha hb hne
  · intro h
    exact (agents_nodup S).pairwise_of_forall_ne h

theorem engineStream_ne_sensorStream {S : Scenario ω τ} (h : Separated S) {a b : AgentSpec ω τ}
    (ha : a ∈ S.agents) (hb : b ∈ S.agents) {stream : String} (hs : a.engineStream = some stream)
    {t : Sensor τ} (ht : t ∈ b.sensors) : stream ≠ sensorStream b.agentId t.name := by
  rcases engineStream_cases hs with rfl | hpool
  · exact h.engines a ha b hb t ht hs
  · exact pooled_ne_sensorStream hpool

theorem engine_of_engineStream {S : Scenario ω τ} (h : Separated S) {a b : AgentSpec ω τ}
    (ha : a ∈ S.agents) (hb : b ∈ S.agents) {stream : String} (has : a.engineStream = some stream)
    (hbs : b.engineStream = some stream) : a.agentId = b.agentId := by
  rcases engineStream_cases has with hown | hpool
  · rcases engineStream_cases hbs with hown' | hpool'
    · rw [← hown, hown']
    · exact (h.pools b hb a ha stream hpool' has).symm
  · exact h.pools a ha b hb stream hpool hbs

/-- In a separated scenario, consumers of one stream are consumers of one agent. -/
theorem agent_of_stream {S : Scenario ω τ} (h : Separated S) {a b : AgentSpec ω τ}
    (ha : a ∈ S.agents) (hb : b ∈ S.agents) {c d : Consumer × String} (hc : c ∈ a.consumers)
    (hd : d ∈ b.consumers) (heq : c.2 = d.2) : a = b := by
  rcases mem_agentConsumers.1 hc with ⟨stream, hs, rfl⟩ | ⟨s, hs, rfl⟩ <;>
    rcases mem_agentConsumers.1 hd with ⟨stream', ht, rfl⟩ | ⟨t, ht, rfl⟩
  · exact eq_of_agentId ha hb (engine_of_engineStream h ha hb hs (ht.trans (congrArg some heq.symm)))
  · exact absurd heq (engineStream_ne_sensorStream h ha hb hs ht)
  · exact absurd heq.symm (engineStream_ne_sensorStream h hb ha ht hs)
  · rcases (sensorStream_eq_iff _ _ _ _).mp heq with ⟨hid, -⟩ | ⟨u, hid, hname⟩ | ⟨u, hid, hname⟩
    · exact eq_of_agentId ha hb hid
    · exact absurd ⟨hid, hname⟩ (h.sensors a ha b hb s hs t ht u)
    · exact absurd ⟨hid, hname⟩ (h.sensors b hb a ha t ht s hs u)

theorem nodup_agentStreams {S : Scenario ω τ} (h : Separated S) {a : AgentSpec ω τ}
    (ha : a ∈ S.agents) : (a.consumers.map Prod.snd).Nodup := by
  have hstreams : a.consumers.map Prod.snd = a.engineStream.toList ++
      (a.sensors.map Sensor.name).map (sensorStream a.agentId) := by
    rw [AgentSpec.consumers, List.map_append, List.map_map, List.map_map, List.map_map]
    congr 1
    exact List.map_id _
  rw [hstreams, List.nodup_append']
  refine ⟨?_, ?_, ?_⟩
  · cases a.engineStream with
    | none => exact List.nodup_nil
    | some stream => exact List.nodup_singleton stream
  · refine (h.sensorNames a ha).map fun s t heq => ?_
    exact (joined_right_inj _ _ _).mp ((joined_right_inj _ _ _).mp heq)
  · intro stream hengine hsensor
    rw [List.map_map, List.mem_map] at hsensor
    obtain ⟨t, ht, rfl⟩ := hsensor
    exact engineStream_ne_sensorStream h ha ha (Option.mem_toList.mp hengine) ht rfl

theorem ne_joined_self (a u : String) : a ≠ joined a u := by
  intro h
  have hlen := congrArg (fun s => s.toList.length) h
  simp [toList_joined] at hlen

theorem separated_of_nodup {S : Scenario ω τ} (h : (S.consumers.map Prod.snd).Nodup) :
    Separated S := by
  have hinj : ∀ a ∈ S.agents, ∀ b ∈ S.agents, ∀ c ∈ a.consumers, ∀ d ∈ b.consumers,
      c.2 = d.2 → c = d := fun a ha b hb c hc d hd heq =>
    List.inj_on_of_nodup_map h (mem_consumers.2 ⟨a, ha, hc⟩) (mem_consumers.2 ⟨b, hb, hd⟩) heq
  have hsensor : ∀ {a : AgentSpec ω τ} {s : Sensor τ}, s ∈ a.sensors →
      (Consumer.sensor a.agentId s.name, sensorStream a.agentId s.name) ∈ a.consumers :=
    fun hs => mem_agentConsumers.2 (.inr ⟨_, hs, rfl⟩)
  have hengine : ∀ {a : AgentSpec ω τ} {stream : String}, a.engineStream = some stream →
      (Consumer.engine a.agentId, stream) ∈ a.consumers :=
    fun hs => mem_agentConsumers.2 (.inl ⟨_, hs, rfl⟩)
  refine ⟨?_, ?_, ?_, ?_⟩
  · intro a ha
    have hself := ((streams_nodup_iff S).mp h).1 a ha
    rw [AgentSpec.consumers, List.map_append, List.map_map, List.map_map] at hself
    have hnames := (List.nodup_append'.mp hself).2.1
    exact List.Nodup.of_map (sensorStream a.agentId) (by rw [List.map_map]; exact hnames)
  · intro a ha b hb s hs t ht u hcut
    have heq := hinj a ha b hb _ (hsensor hs) _ (hsensor ht)
      ((sensorStream_eq_iff _ _ _ _).mpr (.inr (.inl ⟨u, hcut⟩)))
    rw [Prod.mk.injEq, Consumer.sensor.injEq] at heq
    exact ne_joined_self _ _ (heq.1.1.symm.trans hcut.1)
  · intro a ha b hb t ht hs hname
    have heq := hinj a ha b hb _ (hengine hs) _ (hsensor ht) hname
    cases (Prod.mk.inj heq).1
  · intro a ha b hb stream hpool hs
    have has : a.engineStream = some stream := by rw [AgentSpec.engineStream, hpool]
    have heq := hinj a ha b hb _ (hengine has) _ (hengine hs) rfl
    exact Consumer.engine.inj (Prod.mk.inj heq).1

theorem nodup_of_separated {S : Scenario ω τ} (h : Separated S) :
    (S.consumers.map Prod.snd).Nodup := by
  rw [streams_nodup_iff]
  refine ⟨fun a ha => nodup_agentStreams h ha, ?_⟩
  intro a ha b hb hne stream hleft hright
  obtain ⟨c, hc, hstream⟩ := List.mem_map.mp hleft
  obtain ⟨d, hd, heq⟩ := List.mem_map.mp hright
  exact hne (agent_of_stream h ha hb hc hd (hstream.trans heq.symm))

/-- No two consumers draw from one stream, exactly if the ids and sensor names are separated. -/
theorem streams_private_iff {sha : String → D} {root : ℤ} {S : Scenario ω τ}
    (hsha : DigestsApart sha root S) : StreamsPrivate sha root S ↔ Separated S := by
  rw [streamsPrivate_iff_nodup hsha]
  exact ⟨separated_of_nodup, nodup_of_separated⟩

/-- In a separated scenario each consumer has one stream, and each stream one consumer. -/
theorem apart_of_separated {S : Scenario ω τ} (h : Separated S) : Apart S.consumers := by
  intro c hc d hd
  refine ⟨fun heq => ?_, fun heq =>
    congrArg Prod.fst (List.inj_on_of_nodup_map (nodup_of_separated h) hc hd heq)⟩
  obtain ⟨a, ha, hc⟩ := mem_consumers.1 hc
  obtain ⟨b, hb, hd⟩ := mem_consumers.1 hd
  have hab : a = b := eq_of_agentId ha hb (by rw [← agentId_of_mem hc, heq, agentId_of_mem hd])
  subst hab
  rcases mem_agentConsumers.1 hc with ⟨stream, hs, rfl⟩ | ⟨s, hs, rfl⟩ <;>
    rcases mem_agentConsumers.1 hd with ⟨stream', ht, rfl⟩ | ⟨t, ht, rfl⟩
  · exact Option.some.inj (hs.symm.trans ht)
  · cases heq
  · cases heq
  · rw [(Consumer.sensor.inj heq).2]

/-! ## A run -/

/-- What the engines and the sensor models do with their generators, and the rest of the simulator:
its state, and what happens to it between the draws and by their values. -/
structure Models (ω τ γ κ β W : Type) where
  /-- The state at `reset`, before the engine is built. -/
  start : W
  /-- The sub-steps of an engine in a tick (`CouplingSchedule.for_label`). -/
  substeps : DynamicsKind → ℕ
  /-- Whether the engine of an agent still has it: `retire` takes it out. -/
  has : W → String → Bool
  /-- `advance` of an agent that draws with every sub-step. -/
  jitter : AgentSpec ω τ → W → γ → β × γ
  /-- The seed of the packing of an agent that draws when it is built. -/
  packing : AgentSpec ω τ → γ → β × γ
  /-- The key of an engine that draws once for all its agents. -/
  key : γ → κ × γ
  /-- The initial velocity of such an agent, from the key and its index among them. -/
  velocity : κ → ℕ → AgentSpec ω τ → β
  /-- `render_sensor`. -/
  render : AgentSpec ω τ → Sensor τ → W → γ → β × γ
  /-- What the value of a draw does to the state. -/
  note : Consumer → β → W → W
  /-- `apply_actions`. -/
  actuate : W → W
  /-- The rest of a sub-step of the engine of a kind. -/
  integrate : DynamicsKind → W → W
  /-- The boundaries, power, logistics and extraction, before the observations. -/
  exchange : W → W
  /-- What comes behind the observations, up to `retire`. -/
  retire : W → W

/-- The simulator in a run: the streams of `RngStreams`, and the rest. -/
structure Simulator (γ β W : Type) where
  rng : Streams Consumer String γ β
  world : W

variable (sha : String → D) (seeded : D → γ) (root : ℤ) (M : Models ω τ γ κ β W)

/-- The generator of a name that is requested first: `Random(int.from_bytes(digest, "big"))`. -/
def freshStream (name : String) : γ := seeded (digestOf sha root name)

/-- `RngStreams.stream` (lines 34–41), and a draw from what it returns. -/
def draw (s : Simulator γ β W) (c : Consumer) (stream : String) (call : γ → β × γ) :
    Simulator γ β W where
  rng := s.rng.draw (freshStream sha seeded root) c stream call
  world := M.note c (call (s.rng.gen (freshStream sha seeded root) stream)).1 s.world

/-- The agents of each kind, in the order of the scenario (`coupled_engine_factory`,
`coupling/__init__.py`, lines 382–389). -/
def Scenario.groups (S : Scenario ω τ) : Dict DynamicsKind (List (AgentSpec ω τ)) :=
  Dict.group (S.agents.map fun a => (a.dynamics, a))

/-- What the `i`-th agent of a pool gets from the generator of the pool. -/
def Models.pooledVelocity (i : ℕ) (a : AgentSpec ω τ) (g : γ) : β × γ :=
  (M.velocity (M.key g).1 i a, (M.key g).2)

/-- `build_brax_contact_engine`, lines 374–404, and `build_mjx_contact_engine`: one key from the
stream of the engine, and from it the initial velocity of each agent by its index. -/
def buildPool (s : Simulator γ β W) (stream : String) (group : List (AgentSpec ω τ)) :
    Simulator γ β W :=
  let key := M.key (s.rng.gen (freshStream sha seeded root) stream)
  let draws := group.zipIdx.map fun p =>
    (⟨.engine p.1.agentId, M.pooledVelocity p.2 p.1, M.velocity key.1 p.2 p.1⟩ :
      Draw Consumer γ β)
  { rng := ⟨s.rng.gens.set stream key.2, s.rng.log ++ draws⟩
    world := draws.foldl (fun w d => M.note d.consumer d.value w) s.world }

/-- The engine of a kind is built for its agents. -/
def buildGroup (s : Simulator γ β W) (g : DynamicsKind × List (AgentSpec ω τ)) : Simulator γ β W :=
  match g.1.draws with
  | .never => s
  | .onAdvance => s
  | .onBuild =>
    g.2.foldl (fun s (a : AgentSpec ω τ) =>
      draw sha seeded root M s (.engine a.agentId) a.agentId (M.packing a)) s
  | .pooled stream => buildPool sha seeded root M s stream g.2

/-- One sub-step of the engine of a kind. -/
def substep (g : DynamicsKind × List (AgentSpec ω τ)) (s : Simulator γ β W) : Simulator γ β W :=
  let drawn :=
    match g.1.draws with
    | .onAdvance =>
      (g.2.filter fun a : AgentSpec ω τ => M.has s.world a.agentId).foldl
        (fun s (a : AgentSpec ω τ) =>
          draw sha seeded root M s (.engine a.agentId) a.agentId (M.jitter a s.world)) s
    | _ => s
  { drawn with world := M.integrate g.1 drawn.world }

/-- `CoupledEngine.advance`: the sub-steps of each engine. -/
def advance (S : Scenario ω τ) (s : Simulator γ β W) : Simulator γ β W :=
  S.groups.entries.foldl (fun s g => (substep sha seeded root M g)^[M.substeps g.1] s) s

/-- `_render_sensors` (`episode.py`, lines 317–345). -/
def renderSensors (s : Simulator γ β W) (a : AgentSpec ω τ) : Simulator γ β W :=
  a.sensors.foldl (fun s sensor =>
    draw sha seeded root M s (.sensor a.agentId sensor.name)
      (sensorStream a.agentId sensor.name) (M.render a sensor s.world)) s

/-- The observations of the agents that have a sample, engine by engine. -/
def observe (S : Scenario ω τ) (s : Simulator γ β W) : Simulator γ β W :=
  ((S.groups.entries.flatMap Prod.snd).filter fun a : AgentSpec ω τ => M.has s.world a.agentId).foldl
    (renderSensors sha seeded root M) s

/-- `Simulator.reset` (lines 224–249). -/
def reset (S : Scenario ω τ) : Simulator γ β W :=
  let built := S.groups.entries.foldl (buildGroup sha seeded root M) ⟨.init, M.start⟩
  observe sha seeded root M S { built with world := M.exchange built.world }

/-- `Simulator.step` (lines 251–282). -/
def step (S : Scenario ω τ) (s : Simulator γ β W) : Simulator γ β W :=
  let advanced := advance sha seeded root M S { s with world := M.actuate s.world }
  let observed := observe sha seeded root M S { advanced with world := M.exchange advanced.world }
  { observed with world := M.retire observed.world }

/-- A run of some ticks. -/
def run (S : Scenario ω τ) : ℕ → Simulator γ β W
  | 0 => reset sha seeded root M S
  | n + 1 => step sha seeded root M S (run S n)

/-! ## Every consumer draws alone -/

variable {sha seeded root M} {S : Scenario ω τ}

/-- Every consumer of the scenario has drawn as if alone. -/
def DrawsAlone (sha : String → D) (seeded : D → γ) (root : ℤ) (S : Scenario ω τ)
    (s : Simulator γ β W) : Prop :=
  Owned (freshStream sha seeded root) S.consumers s.rng

theorem drawsAlone_draw (hsep : Separated S) {s : Simulator γ β W}
    (h : DrawsAlone sha seeded root S s) {c : Consumer × String} (hc : c ∈ S.consumers)
    (call : γ → β × γ) : DrawsAlone sha seeded root S (draw sha seeded root M s c.1 c.2 call) :=
  owned_draw (apart_of_separated hsep) h hc call

theorem mem_groups {g : DynamicsKind × List (AgentSpec ω τ)} (h : g ∈ S.groups.entries) :
    g.2 = S.agents.filter fun a => a.dynamics = g.1 := by
  have hget : S.groups.get? g.1 = some g.2 := (Dict.get?_eq_some_iff _ _ _).mpr h
  rw [Scenario.groups, Dict.get?_group] at hget
  split_ifs at hget
  rw [← Option.some.inj hget, List.filter_map, List.map_map]
  exact List.map_id _

theorem exists_of_mem_groups {g : DynamicsKind × List (AgentSpec ω τ)}
    (h : g ∈ S.groups.entries) : ∃ a ∈ S.agents, a.dynamics = g.1 := by
  have hkey : g.1 ∈ S.groups.keys := List.mem_map_of_mem h
  obtain ⟨p, hp, hkind⟩ := (Dict.mem_keys_group _ _).mp hkey
  obtain ⟨a, ha, rfl⟩ := List.mem_map.mp hp
  exact ⟨a, ha, hkind⟩

theorem mem_agents_of_group {g : DynamicsKind × List (AgentSpec ω τ)}
    (hg : g ∈ S.groups.entries) {a : AgentSpec ω τ} (ha : a ∈ g.2) :
    a ∈ S.agents ∧ a.dynamics = g.1 := by
  rw [mem_groups hg, List.mem_filter] at ha
  exact ⟨ha.1, of_decide_eq_true ha.2⟩

/-- What a fold over agents or groups keeps, if every step of it does. -/
theorem drawsAlone_foldl {α : Type} {f : Simulator γ β W → α → Simulator γ β W} {l : List α}
    (hf : ∀ x ∈ l, ∀ s, DrawsAlone sha seeded root S s → DrawsAlone sha seeded root S (f s x))
    {s : Simulator γ β W} (h : DrawsAlone sha seeded root S s) :
    DrawsAlone sha seeded root S (l.foldl f s) :=
  List.foldlRecOn l f h fun s hs x hx => hf x hx s hs

theorem engine_mem_consumers {a : AgentSpec ω τ} (ha : a ∈ S.agents) {stream : String}
    (hs : a.engineStream = some stream) : (Consumer.engine a.agentId, stream) ∈ S.consumers :=
  mem_consumers.2 ⟨a, ha, mem_agentConsumers.2 (.inl ⟨stream, hs, rfl⟩)⟩

theorem sensor_mem_consumers {a : AgentSpec ω τ} (ha : a ∈ S.agents) {t : Sensor τ}
    (ht : t ∈ a.sensors) :
    (Consumer.sensor a.agentId t.name, sensorStream a.agentId t.name) ∈ S.consumers :=
  mem_consumers.2 ⟨a, ha, mem_agentConsumers.2 (.inr ⟨t, ht, rfl⟩)⟩

/-- The pool of a separated scenario has one agent. -/
theorem pool_singleton (hsep : Separated S) {g : DynamicsKind × List (AgentSpec ω τ)}
    (hg : g ∈ S.groups.entries) {stream : String} (hpool : g.1.draws = .pooled stream) :
    ∃ a ∈ S.agents, a.engineStream = some stream ∧ g.2 = [a] := by
  obtain ⟨a, ha, hkind⟩ := exists_of_mem_groups hg
  have hstream : ∀ b : AgentSpec ω τ, b.dynamics = g.1 → b.engineStream = some stream := by
    intro b hb
    rw [AgentSpec.engineStream, hb, hpool]
  have hgroup := mem_groups hg
  refine ⟨a, ha, hstream a hkind, ?_⟩
  have hnodup : g.2.Nodup := by
    rw [hgroup]
    exact (agents_nodup S).filter _
  have hmem : a ∈ g.2 := by
    rw [hgroup, List.mem_filter]
    exact ⟨ha, decide_eq_true hkind⟩
  have hall : ∀ b ∈ g.2, b = a := by
    intro b hb
    obtain ⟨hb, hbkind⟩ := mem_agents_of_group hg hb
    exact eq_of_agentId hb ha
      (hsep.pools b hb a ha stream (by rw [hbkind, hpool]) (hstream a hkind))
  exact List.perm_singleton.mp ((List.perm_ext_iff_of_nodup hnodup (List.nodup_singleton a)).mpr
    fun b => ⟨fun hb => List.mem_singleton.mpr (hall b hb), fun hb => by
      rw [List.mem_singleton.mp hb]
      exact hmem⟩)

/-- A pool of one agent draws as that agent. -/
theorem buildPool_singleton (s : Simulator γ β W) (stream : String) (a : AgentSpec ω τ) :
    buildPool sha seeded root M s stream [a] =
      draw sha seeded root M s (.engine a.agentId) stream (M.pooledVelocity 0 a) := rfl

theorem drawsAlone_buildGroup (hsep : Separated S) {g : DynamicsKind × List (AgentSpec ω τ)}
    (hg : g ∈ S.groups.entries) {s : Simulator γ β W} (h : DrawsAlone sha seeded root S s) :
    DrawsAlone sha seeded root S (buildGroup sha seeded root M s g) := by
  unfold buildGroup
  split
  · exact h
  · exact h
  · rename_i hdraws
    refine drawsAlone_foldl ?_ h
    intro a ha s hs
    obtain ⟨ha, hkind⟩ := mem_agents_of_group hg ha
    have hmem : (Consumer.engine a.agentId, a.agentId) ∈ S.consumers :=
      engine_mem_consumers ha (by rw [AgentSpec.engineStream, hkind, hdraws])
    exact drawsAlone_draw hsep hs hmem _
  · rename_i stream hdraws
    obtain ⟨a, ha, hstream, hgroup⟩ := pool_singleton hsep hg hdraws
    rw [hgroup, buildPool_singleton]
    exact drawsAlone_draw hsep h (engine_mem_consumers ha hstream) _

theorem drawsAlone_substep (hsep : Separated S) {g : DynamicsKind × List (AgentSpec ω τ)}
    (hg : g ∈ S.groups.entries) {s : Simulator γ β W} (h : DrawsAlone sha seeded root S s) :
    DrawsAlone sha seeded root S (substep sha seeded root M g s) := by
  unfold substep
  split
  · rename_i hdraws
    refine drawsAlone_foldl ?_ h
    intro a ha t ht
    obtain ⟨ha, hkind⟩ := mem_agents_of_group hg (List.mem_of_mem_filter ha)
    have hmem : (Consumer.engine a.agentId, a.agentId) ∈ S.consumers :=
      engine_mem_consumers ha (by rw [AgentSpec.engineStream, hkind, hdraws])
    exact drawsAlone_draw hsep ht hmem _
  · exact h

theorem drawsAlone_advance (hsep : Separated S) {s : Simulator γ β W}
    (h : DrawsAlone sha seeded root S s) :
    DrawsAlone sha seeded root S (advance sha seeded root M S s) := by
  refine drawsAlone_foldl ?_ h
  intro g hg s hs
  induction M.substeps g.1 generalizing s with
  | zero => exact hs
  | succ n ih => exact ih _ (drawsAlone_substep hsep hg hs)

theorem drawsAlone_renderSensors (hsep : Separated S) {a : AgentSpec ω τ} (ha : a ∈ S.agents)
    {s : Simulator γ β W} (h : DrawsAlone sha seeded root S s) :
    DrawsAlone sha seeded root S (renderSensors sha seeded root M s a) := by
  refine drawsAlone_foldl ?_ h
  intro t ht s hs
  exact drawsAlone_draw hsep hs (sensor_mem_consumers ha ht) _

theorem drawsAlone_observe (hsep : Separated S) {s : Simulator γ β W}
    (h : DrawsAlone sha seeded root S s) :
    DrawsAlone sha seeded root S (observe sha seeded root M S s) := by
  refine drawsAlone_foldl ?_ h
  intro a ha s hs
  obtain ⟨g, hg, ha⟩ := List.mem_flatMap.mp (List.mem_of_mem_filter ha)
  exact drawsAlone_renderSensors hsep (mem_agents_of_group hg ha).1 hs

theorem drawsAlone_reset (hsep : Separated S) :
    DrawsAlone sha seeded root S (reset sha seeded root M S) := by
  refine drawsAlone_observe hsep (drawsAlone_foldl ?_ owned_init)
  intro g hg s hs
  exact drawsAlone_buildGroup hsep hg hs

theorem drawsAlone_step (hsep : Separated S) {s : Simulator γ β W}
    (h : DrawsAlone sha seeded root S s) :
    DrawsAlone sha seeded root S (step sha seeded root M S s) :=
  drawsAlone_observe hsep (drawsAlone_advance hsep h)

/-- In every state of a run of a separated scenario, every consumer has drawn as if alone. -/
theorem drawsAlone_run (hsep : Separated S) (n : ℕ) :
    DrawsAlone sha seeded root S (run sha seeded root M S n) := by
  induction n with
  | zero => exact drawsAlone_reset hsep
  | succ n ih => exact drawsAlone_step hsep ih

/-! ## Two runs -/

/-- A consumer that makes the same draws in two runs, as far as the first one goes, is given the
same values. -/
def DrawsAgree (sha : String → D) (seeded : D → γ) (root : ℤ) (M M' : Models ω τ γ κ β W)
    (S S' : Scenario ω τ) (c : Consumer) : Prop :=
  ∀ n n', callsOf c (run sha seeded root M S n).rng.log <+:
      callsOf c (run sha seeded root M' S' n').rng.log →
    valuesOf c (run sha seeded root M S n).rng.log <+:
      valuesOf c (run sha seeded root M' S' n').rng.log

/-- Streams of their own in two scenarios, and the same draws for what is in both: the sensors of
one agent and one name, and the engine of one agent and one kind. -/
def StreamsIndependent (sha : String → D) (seeded : D → γ) (root : ℤ) (M M' : Models ω τ γ κ β W)
    (S S' : Scenario ω τ) : Prop :=
  StreamsPrivate sha root S ∧ StreamsPrivate sha root S' ∧
    ∀ a ∈ S.agents, ∀ a' ∈ S'.agents, a.agentId = a'.agentId →
      (∀ t ∈ a.sensors, ∀ t' ∈ a'.sensors, t.name = t'.name →
        DrawsAgree sha seeded root M M' S S' (.sensor a.agentId t.name)) ∧
      (a.dynamics = a'.dynamics →
        DrawsAgree sha seeded root M M' S S' (.engine a.agentId))

variable {M' : Models ω τ γ κ β W} {S' : Scenario ω τ}

/-- In separated scenarios, a consumer with one stream in both is given the same values. -/
theorem drawsAgree_of_mem (hsep : Separated S) (hsep' : Separated S') {c : Consumer}
    {stream : String} (hc : (c, stream) ∈ S.consumers) (hc' : (c, stream) ∈ S'.consumers) :
    DrawsAgree sha seeded root M M' S S' c := by
  intro n n' hcalls
  exact values_prefix_of_owned (drawsAlone_run hsep n) (drawsAlone_run hsep' n') hc hc' hcalls

/-- An engine that does not draw is given nothing. -/
theorem drawsAgree_of_never (hsep : Separated S) {a : AgentSpec ω τ} (ha : a ∈ S.agents)
    (hnever : a.engineStream = none) :
    DrawsAgree sha seeded root M M' S S' (.engine a.agentId) := by
  intro n n' _
  rw [values_of_notMem (drawsAlone_run hsep n)]
  · exact List.nil_prefix
  · rintro ⟨c, stream⟩ hmem rfl
    obtain ⟨b, hb, hc⟩ := mem_consumers.1 hmem
    have hab : a = b := eq_of_agentId ha hb (agentId_of_mem hc)
    subst hab
    rcases mem_agentConsumers.1 hc with ⟨stream', hs, -⟩ | ⟨t, -, heq⟩
    · rw [hnever] at hs
      cases hs
    · cases (Prod.mk.inj heq).1

/-- **Main theorem.** The streams of two scenarios are private and what is common to both keeps its
draws, whatever the rest of the simulator does, exactly if both scenarios are separated. -/
theorem streams_independent_iff (hsha : DigestsApart sha root S) (hsha' : DigestsApart sha root S') :
    StreamsIndependent sha seeded root M M' S S' ↔ Separated S ∧ Separated S' := by
  constructor
  · rintro ⟨hprivate, hprivate', -⟩
    exact ⟨(streams_private_iff hsha).mp hprivate, (streams_private_iff hsha').mp hprivate'⟩
  · rintro ⟨hsep, hsep'⟩
    refine ⟨(streams_private_iff hsha).mpr hsep, (streams_private_iff hsha').mpr hsep', ?_⟩
    intro a ha a' ha' hid
    refine ⟨?_, ?_⟩
    · intro t ht t' ht' hname
      refine drawsAgree_of_mem hsep hsep' (sensor_mem_consumers ha ht) ?_
      rw [hid, hname]
      exact sensor_mem_consumers ha' ht'
    · intro hkind
      cases hs : a.engineStream with
      | none => exact drawsAgree_of_never hsep ha hs
      | some stream =>
        refine drawsAgree_of_mem hsep hsep' (engine_mem_consumers ha hs) ?_
        rw [hid]
        refine engine_mem_consumers ha' ?_
        rw [← hs, AgentSpec.engineStream, AgentSpec.engineStream, hkind, hid]

/-- A generator that counts its draws, and a simulator that does nothing else. -/
def countingModels : Models Unit Unit ℕ ℕ ℕ Unit where
  start := ()
  substeps := fun _ => 1
  has := fun _ _ => true
  jitter := fun _ _ g => (g, g + 1)
  packing := fun _ g => (g, g + 1)
  key := fun g => (g, g + 1)
  velocity := fun key i _ => key + i
  render := fun _ _ _ g => (g, g + 1)
  note := fun _ _ w => w
  actuate := id
  integrate := fun _ => id
  exchange := id
  retire := id

/-- A rover with a neutron spectrometer. -/
def nssRover : AgentSpec Unit Unit := ⟨"rover", .kinematic, (), [⟨"nss", ()⟩]⟩

/-- The rover alone. -/
def roverAlone : Scenario Unit Unit := ⟨[nssRover], by decide⟩

/-- The rover, and an excavator. -/
def roverAndDigger : Scenario Unit Unit :=
  ⟨[nssRover, ⟨"digger", .demGranular, (), [⟨"nss", ()⟩]⟩], by decide⟩

/-- The rover, and an agent that is called like the stream of its spectrometer. -/
def roverAndNamesake : Scenario Unit Unit :=
  ⟨[nssRover, ⟨"sensor:rover:nss", .kinematic, (), []⟩], by decide⟩

theorem digestsApart_id (root : ℤ) (S : Scenario ω τ) : DigestsApart id root S :=
  fun _ _ _ _ heq => (joined_right_inj _ _ _).mp heq

/-- The rover keeps its draws when the excavator leaves. -/
theorem roverAndDigger_independent :
    StreamsIndependent id (fun _ => 0) 0 countingModels countingModels roverAndDigger roverAlone :=
  (streams_independent_iff (digestsApart_id 0 roverAndDigger) (digestsApart_id 0 roverAlone)).mpr
    ⟨(streams_private_iff (digestsApart_id 0 _)).mp (by unfold StreamsPrivate; decide +kernel),
      (streams_private_iff (digestsApart_id 0 _)).mp (by unfold StreamsPrivate; decide +kernel)⟩

/-- **Counterexample.** The namesake draws from the stream of the spectrometer: when it leaves, the
second reading of the rover is another one, for the same draws. -/
theorem namesake_not_independent :
    ¬ StreamsPrivate id 0 roverAndNamesake ∧
      ¬ DrawsAgree id (fun _ => 0) 0 countingModels countingModels roverAndNamesake roverAlone
        (.sensor "rover" "nss") := by
  refine ⟨by unfold StreamsPrivate; decide +kernel, fun h => ?_⟩
  have hvalues : valuesOf (.sensor "rover" "nss")
      (run id (fun _ => 0) 0 countingModels roverAndNamesake 1).rng.log = [0, 2] := by
    decide +kernel
  have hvalues' : valuesOf (.sensor "rover" "nss")
      (run id (fun _ => 0) 0 countingModels roverAlone 1).rng.log = [0, 1] := by
    decide +kernel
  have hcalls : callsOf (.sensor "rover" "nss")
      (run id (fun _ => 0) 0 countingModels roverAndNamesake 1).rng.log =
      callsOf (.sensor "rover" "nss")
        (run id (fun _ => 0) 0 countingModels roverAlone 1).rng.log := by
    rfl
  have hprefix := h 1 1 (by rw [hcalls])
  rw [hvalues, hvalues'] at hprefix
  revert hprefix
  decide

end AstroMine.Sim.RngStreams
