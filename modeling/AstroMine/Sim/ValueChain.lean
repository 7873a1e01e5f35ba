import Mathlib.Algebra.Order.Field.Basic
import Mathlib.Data.String.Basic
import Mathlib.Tactic.Linarith
import Mathlib.Tactic.FieldSimp
import Mathlib.Tactic.Ring
import AstroMine.Lib.Instances
import AstroMine.Sim.Engines

/-!
# The value chain (`sim/logistics`, `sim/isru`, `sim/runtime/episode.py`)

Regolith is accrued where it is dug, drawn by plants and by carriers in range, and converted to
water at the plants, all within one tick of the simulator. The arithmetic is exact. Two poses are
in transfer range when the square of their distance is at most the square of the radius.

Results:
* `transfer_total`: a transfer moves any quantity that blends and splits with the material.
* `tick_regolith`, `tick_water`: what one tick does to the held regolith and to the water.
* `valueChain_conserves`: conservation, the stores and the carriers, over every run.
-/

namespace AstroMine.Sim

open AstroMine.Core
open scoped Numerals

variable {K : Type} [Field K] [LinearOrder K] [IsStrictOrderedRing K]

/-! ## Material -/

/-- `Material` (`sim/logistics/__init__.py`, lines 46–63): what `__post_init__` checks is carried. -/
structure Material (K : Type) [Field K] [LinearOrder K] where
  massKg : K
  waterFraction : K
  mass_nonneg : 0 ≤ massKg
  fraction_nonneg : 0 ≤ waterFraction
  fraction_le_one : waterFraction ≤ 1

namespace Material

omit [IsStrictOrderedRing K] in
theorem zero_nonneg : (0 : K) ≤ 0 := le_rfl

/-- `Material()`. -/
def empty : Material K := ⟨0, 0, zero_nonneg, zero_nonneg, zero_le_one⟩

/-- `water_kg` (lines 65–68). -/
def waterKg (m : Material K) : K := m.massKg * m.waterFraction

theorem waterKg_nonneg (m : Material K) : 0 ≤ m.waterKg :=
  mul_nonneg m.mass_nonneg m.fraction_nonneg

theorem waterKg_le (m : Material K) : m.waterKg ≤ m.massKg :=
  mul_le_of_le_one_right m.mass_nonneg m.fraction_le_one

/-- `blended_with` (lines 70–76). -/
def blendedWith (m other : Material K) : Material K :=
  if h : m.massKg + other.massKg ≤ 0 then empty
  else
    { massKg := m.massKg + other.massKg
      waterFraction := (m.waterKg + other.waterKg) / (m.massKg + other.massKg)
      mass_nonneg := le_of_lt (not_le.mp h)
      fraction_nonneg := div_nonneg (add_nonneg m.waterKg_nonneg other.waterKg_nonneg)
        (le_of_lt (not_le.mp h))
      fraction_le_one := (div_le_one (not_le.mp h)).mpr (add_le_add m.waterKg_le other.waterKg_le) }

/-- `take` (lines 78–84): what is taken, and what remains. -/
def take (m : Material K) (massKg : K) : Material K × Material K :=
  let taken := max 0 (min massKg m.massKg)
  ({ m with massKg := taken, mass_nonneg := le_max_left 0 _ },
    { m with
      massKg := m.massKg - taken
      mass_nonneg := sub_nonneg.mpr (max_le m.mass_nonneg (min_le_right _ _)) })

@[simp]
theorem massKg_empty : (empty : Material K).massKg = 0 := rfl

@[simp]
theorem waterKg_empty : (empty : Material K).waterKg = 0 := zero_mul _

/-- A blend has the mass of both. -/
theorem massKg_blendedWith (m other : Material K) :
    (m.blendedWith other).massKg = m.massKg + other.massKg := by
  unfold blendedWith
  split_ifs with h
  · exact le_antisymm (add_nonneg m.mass_nonneg other.mass_nonneg) h
  · rfl

/-- A blend has the water of both. -/
theorem waterKg_blendedWith (m other : Material K) :
    (m.blendedWith other).waterKg = m.waterKg + other.waterKg := by
  unfold blendedWith
  split_ifs with h
  · have hm : m.massKg = 0 := by linarith [m.mass_nonneg, other.mass_nonneg]
    have ho : other.massKg = 0 := by linarith [m.mass_nonneg, other.mass_nonneg]
    rw [waterKg_empty, waterKg, waterKg, hm, ho, zero_mul, zero_mul, add_zero]
  · have hne : m.massKg + other.massKg ≠ 0 := ne_of_gt (not_le.mp h)
    rw [waterKg]
    exact mul_div_cancel₀ _ hne

theorem massKg_take (m : Material K) (massKg : K) :
    (m.take massKg).1.massKg + (m.take massKg).2.massKg = m.massKg := by
  simp [take]

theorem waterKg_take (m : Material K) (massKg : K) :
    (m.take massKg).1.waterKg + (m.take massKg).2.waterKg = m.waterKg := by
  simp only [take, waterKg]
  ring

theorem massKg_take_le (m : Material K) {massKg : K} (h : 0 ≤ massKg) :
    (m.take massKg).1.massKg ≤ massKg :=
  max_le h (min_le_left _ _)

end Material

/-- A quantity of material that an empty one has not and that goes with blending and splitting. -/
structure Additive (f : Material K → K) : Prop where
  empty : f .empty = 0
  blend : ∀ m other, f (m.blendedWith other) = f m + f other
  take : ∀ m massKg, f (m.take massKg).1 + f (m.take massKg).2 = f m

theorem additive_mass : Additive (Material.massKg : Material K → K) :=
  ⟨Material.massKg_empty, Material.massKg_blendedWith, Material.massKg_take⟩

theorem additive_water : Additive (Material.waterKg : Material K → K) :=
  ⟨Material.waterKg_empty, Material.waterKg_blendedWith, Material.waterKg_take⟩

/-- `DEFAULT_TRANSFER_RATE_KG_S` (line 43). -/
def defaultTransferRateKgS : K := 5

/-- `DEFAULT_TRANSFER_RADIUS_M` (line 39). -/
def defaultTransferRadiusM : K := 50

/-- `transfer` (lines 87–107), at the default rate. -/
def transfer (source sink : Material K) (dtS : K) (sinkCapacityKg : Option K) :
    Material K × Material K :=
  if dtS ≤ 0 ∨ (defaultTransferRateKgS : K) ≤ 0 ∨ source.massKg ≤ 0 then (source, sink)
  else
    let most := match sinkCapacityKg with
      | none => defaultTransferRateKgS * dtS
      | some capacity => min (defaultTransferRateKgS * dtS) (max 0 (capacity - sink.massKg))
    let (moved, remaining) := source.take most
    if moved.massKg ≤ 0 then (source, sink) else (remaining, sink.blendedWith moved)

/-- A transfer moves every additive quantity from the source to the sink. -/
theorem transfer_total {f : Material K → K} (hf : Additive f) (source sink : Material K) (dtS : K)
    (capacity : Option K) :
    f (transfer source sink dtS capacity).1 + f (transfer source sink dtS capacity).2 =
      f source + f sink := by
  unfold transfer
  split_ifs with hidle
  · rfl
  · dsimp only
    split_ifs with hmoved
    · rfl
    · rw [hf.blend, ← hf.take source]
      ring

/-- A transfer takes a sink with a capacity above it only if it was above it before. -/
theorem transfer_le_capacity (source sink : Material K) (dtS capacity : K) :
    (transfer source sink dtS (some capacity)).2.massKg ≤ max capacity sink.massKg := by
  unfold transfer
  split_ifs with hidle
  · exact le_max_right _ _
  · dsimp only
    split_ifs with hmoved
    · exact le_max_right _ _
    · rw [Material.massKg_blendedWith]
      have hdt : 0 < dtS := by
        by_contra h
        exact hidle (.inl (not_lt.mp h))
      have hrate : (0 : K) ≤ defaultTransferRateKgS * dtS :=
        mul_nonneg (by norm_num [defaultTransferRateKgS]) (le_of_lt hdt)
      have hle := source.massKg_take_le
        (le_min hrate (le_max_left 0 (capacity - sink.massKg)))
      have hroom := le_trans hle (min_le_right _ _)
      rcases le_max_iff.mp hroom with hfull | hfree
      · exact absurd hfull hmoved
      · exact le_trans (by linarith) (le_max_left _ _)

/-! ## Plants -/

/-- `IsruState` (`sim/isru/__init__.py`, lines 44–50). -/
structure IsruState (K : Type) where
  storedWaterKg : K
  energyUsedJ : K

/-- `IsruModel` (lines 53–80): what its constructor checks is carried. -/
structure IsruModel (K : Type) [Field K] [LinearOrder K] where
  rate : K
  specificEnergy : K
  capacity : Option K
  modes : List String
  rate_nonneg : 0 ≤ rate
  specificEnergy_nonneg : 0 ≤ specificEnergy
  capacity_nonneg : ∀ c ∈ capacity, 0 ≤ c

namespace IsruModel

/-- `initial_state`. -/
def initialState : IsruState K := ⟨0, 0⟩

/-- The water a step produces, `none` where it returns the state unchanged (lines 107–115). -/
def produced (model : IsruModel K) (state : IsruState K) (dtS : K) (mode : Option String)
    (feedstock : Material K) : Option K :=
  if mode.all (fun name => name ∉ model.modes) ∨ dtS ≤ 0 ∨ model.rate = 0 then none
  else if feedstock.waterKg ≤ 0 then none
  else
    let most := min (model.rate * dtS) feedstock.waterKg
    let most := match model.capacity with
      | none => most
      | some capacity => min most (capacity - state.storedWaterKg)
    if most ≤ 0 then none else some most

/-- `step` (lines 82–119): the new state, and the feedstock that remains. -/
def step (model : IsruModel K) (state : IsruState K) (dtS : K) (mode : Option String)
    (feedstock : Material K) : IsruState K × Material K :=
  match model.produced state dtS mode feedstock with
  | none => (state, feedstock)
  | some water =>
    (⟨state.storedWaterKg + water, state.energyUsedJ + model.specificEnergy * water⟩,
      (feedstock.take (water / feedstock.waterFraction)).2)

/-- The regolith that a step splits off the feedstock (`_consumed`, line 116). -/
def consumed (model : IsruModel K) (state : IsruState K) (dtS : K) (mode : Option String)
    (feedstock : Material K) : K :=
  match model.produced state dtS mode feedstock with
  | none => 0
  | some water => (feedstock.take (water / feedstock.waterFraction)).1.massKg

variable {model : IsruModel K} {state : IsruState K} {dtS : K} {mode : Option String}
  {feedstock : Material K}

/-- What a step produces: some water, no more than the feedstock has and the tank can take. -/
theorem produced_spec {water : K} (h : model.produced state dtS mode feedstock = some water) :
    0 < water ∧ water ≤ feedstock.waterKg ∧
      ∀ c ∈ model.capacity, state.storedWaterKg + water ≤ c := by
  unfold produced at h
  split_ifs at h with hidle hdry
  dsimp only at h
  split_ifs at h with hnone
  obtain rfl := Option.some.inj h
  refine ⟨not_le.mp hnone, ?_, ?_⟩
  · cases hc : model.capacity with
    | none => exact min_le_right _ _
    | some c => exact le_trans (min_le_left _ _) (min_le_right _ _)
  · intro c hc
    rw [Option.mem_def] at hc
    rw [hc]
    have := min_le_right (min (model.rate * dtS) feedstock.waterKg) (c - state.storedWaterKg)
    dsimp only
    linarith

/-- The regolith that a step consumes is missing from the feedstock. -/
theorem step_mass : (model.step state dtS mode feedstock).2.massKg +
    model.consumed state dtS mode feedstock = feedstock.massKg := by
  unfold step consumed
  cases model.produced state dtS mode feedstock with
  | none => exact add_zero _
  | some water =>
    rw [add_comm]
    exact feedstock.massKg_take _

/-- The water that a step stores is missing from the feedstock. -/
theorem step_water : (model.step state dtS mode feedstock).2.waterKg +
    (model.step state dtS mode feedstock).1.storedWaterKg =
      feedstock.waterKg + state.storedWaterKg := by
  unfold step
  cases h : model.produced state dtS mode feedstock with
  | none => rfl
  | some water =>
    obtain ⟨hpos, hle, -⟩ := produced_spec h
    have hfraction : 0 < feedstock.waterFraction := by
      rcases lt_or_eq_of_le feedstock.fraction_nonneg with hf | hf
      · exact hf
      · rw [Material.waterKg, ← hf, mul_zero] at hle
        exact absurd (lt_of_lt_of_le hpos hle) (lt_irrefl _)
    have hneed : water / feedstock.waterFraction ≤ feedstock.massKg :=
      (div_le_iff₀ hfraction).mpr hle
    have htaken : (feedstock.take (water / feedstock.waterFraction)).1.waterKg = water := by
      simp only [Material.take, Material.waterKg]
      rw [min_eq_left hneed, max_eq_right (div_nonneg (le_of_lt hpos) (le_of_lt hfraction))]
      exact div_mul_cancel₀ _ (ne_of_gt hfraction)
    have hsplit := feedstock.waterKg_take (water / feedstock.waterFraction)
    dsimp only
    linarith

/-- A tank and its meter: the energy is that of the stored water, which the tank can hold. -/
structure Metered (model : IsruModel K) (state : IsruState K) : Prop where
  stored_nonneg : 0 ≤ state.storedWaterKg
  energy : state.energyUsedJ = model.specificEnergy * state.storedWaterKg
  capacity : ∀ c ∈ model.capacity, state.storedWaterKg ≤ c

omit [IsStrictOrderedRing K] in
theorem metered_initialState (model : IsruModel K) : model.Metered initialState :=
  ⟨le_rfl, (mul_zero _).symm, model.capacity_nonneg⟩

theorem Metered.step (h : model.Metered state) :
    model.Metered (model.step state dtS mode feedstock).1 := by
  unfold IsruModel.step
  cases hp : model.produced state dtS mode feedstock with
  | none => exact h
  | some water =>
    obtain ⟨hpos, -, hcap⟩ := produced_spec hp
    refine ⟨add_nonneg h.stored_nonneg (le_of_lt hpos), ?_, hcap⟩
    dsimp only
    rw [h.energy]
    ring

/-- Stored water and energy do not decrease. -/
theorem step_monotone : state.storedWaterKg ≤ (model.step state dtS mode feedstock).1.storedWaterKg ∧
    state.energyUsedJ ≤ (model.step state dtS mode feedstock).1.energyUsedJ := by
  unfold step
  cases hp : model.produced state dtS mode feedstock with
  | none => exact ⟨le_rfl, le_rfl⟩
  | some water =>
    obtain ⟨hpos, -, -⟩ := produced_spec hp
    have henergy := mul_nonneg model.specificEnergy_nonneg (le_of_lt hpos)
    exact ⟨by dsimp only; linarith, by dsimp only; linarith⟩

end IsruModel

/-! ## One tick -/

/-- A water-equivalent mass fraction, between 0 and 1. -/
structure Grade (K : Type) [Field K] [LinearOrder K] where
  value : K
  nonneg : 0 ≤ value
  le_one : value ≤ 1

/-- `max(0.0, min(1.0, grade))`. -/
def Grade.clamp (grade : K) : Grade K where
  value := max 0 (min 1 grade)
  nonneg := le_max_left 0 _
  le_one := max_le zero_le_one (min_le_left 1 _)

/-- What the simulator knows of the value chain (`episode.py`, lines 177–199): the plants, their
nominal grades, the cargo capacities, and the resource field. -/
structure ChainConfig (K : Type) [Field K] [LinearOrder K] where
  isruModels : Dict String (IsruModel K)
  isruNominal : Dict String (Grade K)
  cargoCapacity : Dict String (Option K)
  resourceField : Option (Vec3 K → Epoch K → K)

/-- The stores of a run: `_material`, `_excavated_seen` and `_isru_state`. -/
structure ValueChain (K : Type) [Field K] [LinearOrder K] where
  material : Dict String (Material K)
  excavatedSeen : Dict String K
  isruState : Dict String (IsruState K)

/-- What a tick reads: the samples, the excavated mass, its length and its epoch. -/
structure TickInput (K : Type) where
  samples : List (StateSample K)
  excavatedKg : Dict String K
  dtS : K
  epoch : Epoch K

variable {cfg : ChainConfig K}

/-- `_grade_at` (lines 347–359). -/
def gradeAt (cfg : ChainConfig K) (epoch : Epoch K) (sample : StateSample K) : Grade K :=
  match cfg.resourceField with
  | none => cfg.isruNominal.getD sample.agentId ⟨0, Material.zero_nonneg, zero_le_one⟩
  | some mean => .clamp (mean sample.pose.translationM epoch)

/-- Two poses are further apart than the transfer radius (`_distance`, lines 77–81); an absent
one is out of range. -/
def outOfRange (a b : Option (Vec3 K)) : Bool :=
  match a, b with
  | some a, some b =>
    defaultTransferRadiusM ^ 2 < (a.x - b.x) ^ 2 + (a.y - b.y) ^ 2 + (a.z - b.z) ^ 2
  | _, _ => true

namespace ValueChain

/-- The material of an agent; a missing entry of the `defaultdict` is empty. -/
def materialOf (chain : ValueChain K) (agent : String) : Material K :=
  chain.material.getD agent .empty

/-- The accrual of one sample (lines 383–392). -/
def accrue (cfg : ChainConfig K) (tick : TickInput K) (chain : ValueChain K)
    (sample : StateSample K) : ValueChain K :=
  match tick.excavatedKg.get? sample.agentId with
  | none => chain
  | some total =>
    let dug := total - chain.excavatedSeen.getD sample.agentId 0
    let seen := chain.excavatedSeen.set sample.agentId total
    if h : 0 < dug then
      { chain with
        excavatedSeen := seen
        material := chain.material.set sample.agentId
          ((chain.materialOf sample.agentId).blendedWith
            ⟨dug, (gradeAt cfg tick.epoch sample).value, le_of_lt h,
              (gradeAt cfg tick.epoch sample).nonneg, (gradeAt cfg tick.epoch sample).le_one⟩) }
    else { chain with excavatedSeen := seen }

/-- `_pull` from one holder (lines 402–414). -/
def pullFrom (cfg : ChainConfig K) (pose : Dict String (Vec3 K)) (dtS : K) (sink : String)
    (capacity : Option K) (fromPlants : Bool) (chain : ValueChain K) (source : String) :
    ValueChain K :=
  if source = sink ∨ (chain.materialOf source).massKg ≤ 0 then chain
  else if fromPlants = false ∧ source ∈ cfg.isruModels.keys then chain
  else if outOfRange (pose.get? sink) (pose.get? source) then chain
  else
    let (remaining, loaded) :=
      transfer (chain.materialOf source) (chain.materialOf sink) dtS capacity
    { chain with material := (chain.material.set source remaining).set sink loaded }

/-- `_pull` (lines 394–414): from every holder there is, by name. -/
def pull (cfg : ChainConfig K) (pose : Dict String (Vec3 K)) (dtS : K) (sink : String)
    (capacity : Option K) (fromPlants : Bool) (chain : ValueChain K) : ValueChain K :=
  (sortOn id chain.material.keys).foldl (pullFrom cfg pose dtS sink capacity fromPlants) chain

/-- The poses of a tick; a later sample of an agent replaces an earlier one. -/
def poses (tick : TickInput K) : Dict String (Vec3 K) :=
  .ofList (tick.samples.map fun s => (s.agentId, s.pose.translationM))

/-- The pickup of one carrier (lines 420–422). -/
def pickup (cfg : ChainConfig K) (tick : TickInput K) (chain : ValueChain K)
    (carrier : String × Option K) : ValueChain K :=
  match carrier.2 with
  | none => chain
  | some capacity => chain.pull cfg (poses tick) tick.dtS carrier.1 (some capacity) false

/-- The accrual and the deliveries of a tick (lines 381–419). -/
def deliver (cfg : ChainConfig K) (chain : ValueChain K) (tick : TickInput K) : ValueChain K :=
  (sortOn id cfg.isruModels.keys).foldl
    (fun chain plant => chain.pull cfg (poses tick) tick.dtS plant none true)
    (tick.samples.foldl (accrue cfg tick) chain)

/-- `_apply_logistics` (lines 361–422). -/
def applyLogistics (cfg : ChainConfig K) (chain : ValueChain K) (tick : TickInput K) :
    ValueChain K :=
  cfg.cargoCapacity.sortedEntries.foldl (pickup cfg tick) (chain.deliver cfg tick)

/-- `_apply_isru` at one sample (lines 437–445). -/
def extract (cfg : ChainConfig K) (dtS : K) (chain : ValueChain K) (sample : StateSample K) :
    ValueChain K :=
  match cfg.isruModels.get? sample.agentId with
  | none => chain
  | some model =>
    let (state, remaining) := model.step
      (chain.isruState.getD sample.agentId IsruModel.initialState) dtS sample.mode
      (chain.materialOf sample.agentId)
    { chain with
      isruState := chain.isruState.set sample.agentId state
      material := chain.material.set sample.agentId remaining }

/-- The logistics and the extraction of a tick (`step`, lines 263–264). -/
def tick (cfg : ChainConfig K) (chain : ValueChain K) (input : TickInput K) : ValueChain K :=
  input.samples.foldl (extract cfg input.dtS) (chain.applyLogistics cfg input)

/-- The stores after `reset` (lines 240–242), before its first tick of length zero. -/
def initial (cfg : ChainConfig K) : ValueChain K where
  material := .empty
  excavatedSeen := .empty
  isruState := cfg.isruModels.mapValues fun _ => IsruModel.initialState

/-- The stores after the ticks of a run. -/
def run (cfg : ChainConfig K) (ticks : List (TickInput K)) : ValueChain K :=
  ticks.foldl (tick cfg) (initial cfg)

/-! ## What a run reports, digs and consumes -/

/-- The reports of excavated mass after one more sample. -/
def report (tick : TickInput K) (seen : Dict String K) (sample : StateSample K) : Dict String K :=
  match tick.excavatedKg.get? sample.agentId with
  | none => seen
  | some total => seen.set sample.agentId total

/-- The cumulative mass each agent reported last. -/
def reports (ticks : List (TickInput K)) (seen : Dict String K) : Dict String K :=
  ticks.foldl (fun seen tick => tick.samples.foldl (report tick) seen) seen

/-- The digs of the samples of a tick: the increment of the report, and the grade where it was
dug. -/
def digsOf (cfg : ChainConfig K) (tick : TickInput K) :
    Dict String K → List (StateSample K) → List (K × K)
  | _, [] => []
  | seen, sample :: rest =>
    let later := digsOf cfg tick (report tick seen sample) rest
    match tick.excavatedKg.get? sample.agentId with
    | none => later
    | some total =>
      (total - seen.getD sample.agentId 0, (gradeAt cfg tick.epoch sample).value) :: later

/-- The digs of the ticks of a run. -/
def digs (cfg : ChainConfig K) : Dict String K → List (TickInput K) → List (K × K)
  | _, [] => []
  | seen, tick :: rest =>
    digsOf cfg tick seen tick.samples ++ digs cfg (tick.samples.foldl (report tick) seen) rest

/-- The regolith that the plants consume at the samples of a tick. -/
def consumedAt (cfg : ChainConfig K) (dtS : K) : ValueChain K → List (StateSample K) → K
  | _, [] => 0
  | chain, sample :: rest =>
    (match cfg.isruModels.get? sample.agentId with
      | none => 0
      | some model => model.consumed
        (chain.isruState.getD sample.agentId IsruModel.initialState) dtS sample.mode
        (chain.materialOf sample.agentId)) +
    consumedAt cfg dtS (extract cfg dtS chain sample) rest

/-- The regolith that the plants consume over the ticks of a run. -/
def consumed (cfg : ChainConfig K) : ValueChain K → List (TickInput K) → K
  | _, [] => 0
  | chain, input :: rest =>
    consumedAt cfg input.dtS (chain.applyLogistics cfg input) input.samples +
      consumed cfg (chain.tick cfg input) rest

/-- A quantity of the held material, over all agents. -/
def held (f : Material K → K) (chain : ValueChain K) : K := chain.material.total f

/-- The stored water, over all plants. -/
def storedWater (chain : ValueChain K) : K := chain.isruState.total IsruState.storedWaterKg

/-- The mass of a carrier before and after its pickup. -/
structure Pickup (K : Type) where
  carrier : String
  capacity : K
  before : K
  after : K

/-- The pickups of the carriers of a tick, one after the other. -/
def pickups (cfg : ChainConfig K) (tick : TickInput K) :
    ValueChain K → List (String × Option K) → List (Pickup K)
  | _, [] => []
  | chain, (carrier, capacity) :: rest =>
    let later := pickups cfg tick (chain.pickup cfg tick (carrier, capacity)) rest
    match capacity with
    | none => later
    | some capacity =>
      { carrier, capacity, before := (chain.materialOf carrier).massKg
        after := ((chain.pickup cfg tick (carrier, some capacity)).materialOf carrier).massKg } ::
      later

/-! ## What one tick does to a quantity -/

variable {f : Material K → K} {chain : ValueChain K}

theorem held_set (hf : Additive f) (chain : ValueChain K) (agent : String) (m : Material K) :
    (chain.material.set agent m).total f = chain.held f - f (chain.materialOf agent) + f m :=
  Dict.total_set_getD hf.empty chain.material agent m

theorem excavatedSeen_accrue (cfg : ChainConfig K) (tick : TickInput K) (chain : ValueChain K)
    (sample : StateSample K) :
    (accrue cfg tick chain sample).excavatedSeen = report tick chain.excavatedSeen sample := by
  unfold accrue report
  cases tick.excavatedKg.get? sample.agentId with
  | none => rfl
  | some total => dsimp only; split_ifs <;> rfl

theorem isruState_accrue (cfg : ChainConfig K) (tick : TickInput K) (chain : ValueChain K)
    (sample : StateSample K) :
    (accrue cfg tick chain sample).isruState = chain.isruState := by
  unfold accrue
  cases tick.excavatedKg.get? sample.agentId with
  | none => rfl
  | some total => dsimp only; split_ifs <;> rfl

/-- A quantity of what is dug: `g` of the increment and the grade, where it is zero for none. -/
structure Dug (f : Material K → K) (g : K × K → K) : Prop where
  zero : ∀ grade, g (0, grade) = 0
  material : ∀ m : Material K, f m = g (m.massKg, m.waterFraction)

omit [IsStrictOrderedRing K] in
theorem dug_mass : Dug (Material.massKg : Material K → K) Prod.fst := ⟨fun _ => rfl, fun _ => rfl⟩

omit [IsStrictOrderedRing K] in
theorem dug_water : Dug (Material.waterKg : Material K → K) fun d => d.1 * d.2 :=
  ⟨fun _ => zero_mul _, fun _ => rfl⟩

/-- The samples of a tick accrue what they dig, if no report decreases. -/
theorem held_accrue {g : K × K → K} (hf : Additive f) (hg : Dug f g) (tick : TickInput K)
    (samples : List (StateSample K)) (chain : ValueChain K)
    (h : ∀ d ∈ digsOf cfg tick chain.excavatedSeen samples, 0 ≤ d.1) :
    (samples.foldl (accrue cfg tick) chain).held f =
      chain.held f + ((digsOf cfg tick chain.excavatedSeen samples).map g).sum := by
  induction samples generalizing chain with
  | nil => simp [digsOf]
  | cons sample rest ih =>
    have hseen := excavatedSeen_accrue cfg tick chain sample
    have hrest : ∀ d ∈ digsOf cfg tick (accrue cfg tick chain sample).excavatedSeen rest,
        0 ≤ d.1 := by
      intro d hd
      rw [hseen] at hd
      apply h d
      rw [digsOf]
      split
      · exact hd
      · exact List.mem_cons_of_mem _ hd
    rw [List.foldl_cons, ih _ hrest, hseen, digsOf]
    cases ht : tick.excavatedKg.get? sample.agentId with
    | none =>
      have hsame : accrue cfg tick chain sample = chain := by unfold accrue; rw [ht]
      rw [hsame]
    | some total =>
      have hdug : 0 ≤ total - chain.excavatedSeen.getD sample.agentId 0 := by
        refine h (_, (gradeAt cfg tick.epoch sample).value) ?_
        rw [digsOf, ht]
        exact List.mem_cons_self
      have hheld : (accrue cfg tick chain sample).held f = chain.held f +
          g (total - chain.excavatedSeen.getD sample.agentId 0,
            (gradeAt cfg tick.epoch sample).value) := by
        unfold accrue
        rw [ht]
        dsimp only
        split_ifs with hpos
        · have hnew := hg.material ⟨total - chain.excavatedSeen.getD sample.agentId 0,
            (gradeAt cfg tick.epoch sample).value, le_of_lt hpos,
            (gradeAt cfg tick.epoch sample).nonneg, (gradeAt cfg tick.epoch sample).le_one⟩
          rw [held, held_set hf, hf.blend, hnew]
          ring
        · rw [← le_antisymm hdug (not_lt.mp hpos), hg.zero, add_zero]
          rfl
      rw [hheld, List.map_cons, List.sum_cons, add_assoc]

/-- A pull from one holder moves material, and makes none. -/
theorem held_pullFrom (hf : Additive f) (pose : Dict String (Vec3 K)) (dtS : K) (sink : String)
    (capacity : Option K) (fromPlants : Bool) (chain : ValueChain K) (source : String) :
    (pullFrom cfg pose dtS sink capacity fromPlants chain source).held f = chain.held f := by
  unfold pullFrom
  split_ifs with hsource hplant hrange
  · rfl
  · rfl
  · rfl
  · rw [not_or] at hsource
    have htransfer := transfer_total hf (chain.materialOf source) (chain.materialOf sink) dtS
      capacity
    generalize transfer (chain.materialOf source) (chain.materialOf sink) dtS capacity = moved
      at htransfer
    let emptied : ValueChain K := { chain with material := chain.material.set source moved.1 }
    have hsink : emptied.materialOf sink = chain.materialOf sink := by
      rw [materialOf, Dict.getD, Dict.get?_set, if_neg fun h => hsource.1 h.symm]
      rfl
    have hemptied : emptied.held f = chain.held f - f (chain.materialOf source) + f moved.1 :=
      held_set hf chain source moved.1
    have hloaded := held_set hf emptied sink moved.2
    rw [hsink, hemptied] at hloaded
    rw [held]
    dsimp only
    rw [hloaded]
    linarith

theorem foldl_eq_of_step {α β γ : Type} {step : β → α → β} {g : β → γ}
    (h : ∀ b a, g (step b a) = g b) (xs : List α) (b : β) : g (xs.foldl step b) = g b := by
  induction xs generalizing b with
  | nil => rfl
  | cons x xs ih => rw [List.foldl_cons, ih, h]

theorem held_pull (hf : Additive f) (pose : Dict String (Vec3 K)) (dtS : K) (sink : String)
    (capacity : Option K) (fromPlants : Bool) (chain : ValueChain K) :
    (chain.pull cfg pose dtS sink capacity fromPlants).held f = chain.held f :=
  foldl_eq_of_step (held_pullFrom hf pose dtS sink capacity fromPlants) _ chain

/-- The stores besides the material: the reports and the tanks. -/
def ledger (chain : ValueChain K) : Dict String K × Dict String (IsruState K) :=
  (chain.excavatedSeen, chain.isruState)

/-- Neither the reports nor the tanks are touched by a pull. -/
theorem ledger_pullFrom (pose : Dict String (Vec3 K)) (dtS : K) (sink : String)
    (capacity : Option K) (fromPlants : Bool) (chain : ValueChain K) (source : String) :
    (pullFrom cfg pose dtS sink capacity fromPlants chain source).ledger = chain.ledger := by
  unfold pullFrom
  split_ifs <;> rfl

theorem ledger_pull (pose : Dict String (Vec3 K)) (dtS : K) (sink : String)
    (capacity : Option K) (fromPlants : Bool) (chain : ValueChain K) :
    (chain.pull cfg pose dtS sink capacity fromPlants).ledger = chain.ledger :=
  foldl_eq_of_step (ledger_pullFrom pose dtS sink capacity fromPlants) _ chain

theorem held_pickup (hf : Additive f) (tick : TickInput K) (chain : ValueChain K)
    (carrier : String × Option K) : (chain.pickup cfg tick carrier).held f = chain.held f := by
  unfold pickup
  split
  · rfl
  · exact held_pull hf _ _ _ _ _ _

theorem ledger_pickup (tick : TickInput K) (chain : ValueChain K) (carrier : String × Option K) :
    (chain.pickup cfg tick carrier).ledger = chain.ledger := by
  unfold pickup
  split
  · rfl
  · exact ledger_pull _ _ _ _ _ _

/-- The logistics of a tick add what is dug, and nothing else. -/
theorem held_applyLogistics {g : K × K → K} (hf : Additive f) (hg : Dug f g) (chain : ValueChain K)
    (tick : TickInput K) (h : ∀ d ∈ digsOf cfg tick chain.excavatedSeen tick.samples, 0 ≤ d.1) :
    (chain.applyLogistics cfg tick).held f =
      chain.held f + ((digsOf cfg tick chain.excavatedSeen tick.samples).map g).sum := by
  rw [← held_accrue hf hg tick tick.samples chain h, applyLogistics, deliver]
  rw [foldl_eq_of_step (g := held f) (fun chain carrier => held_pickup hf tick chain carrier)]
  exact foldl_eq_of_step (g := held f)
    (fun chain plant => held_pull hf (poses tick) tick.dtS plant none true chain) _ _

/-- The logistics of a tick note the reports and leave the tanks alone. -/
theorem ledger_applyLogistics (chain : ValueChain K) (tick : TickInput K) :
    (chain.applyLogistics cfg tick).ledger =
      (tick.samples.foldl (report tick) chain.excavatedSeen, chain.isruState) := by
  have haccrue : ∀ (samples : List (StateSample K)) (chain : ValueChain K),
      (samples.foldl (accrue cfg tick) chain).ledger =
        (samples.foldl (report tick) chain.excavatedSeen, chain.isruState) := by
    intro samples
    induction samples with
    | nil => intro chain; rfl
    | cons sample rest ih =>
      intro chain
      rw [List.foldl_cons, ih, List.foldl_cons, excavatedSeen_accrue, isruState_accrue]
  rw [← haccrue, applyLogistics, deliver]
  rw [foldl_eq_of_step (g := ledger) fun chain carrier => ledger_pickup tick chain carrier]
  exact foldl_eq_of_step (g := ledger)
    (fun chain plant => ledger_pull (poses tick) tick.dtS plant none true chain) _ _

theorem digsOf_sum (tick : TickInput K) (seen : Dict String K) (samples : List (StateSample K)) :
    ((digsOf cfg tick seen samples).map Prod.fst).sum =
      (samples.foldl (report tick) seen).total id - seen.total id := by
  induction samples generalizing seen with
  | nil => simp [digsOf]
  | cons sample rest ih =>
    rw [List.foldl_cons, digsOf]
    cases ht : tick.excavatedKg.get? sample.agentId with
    | none =>
      have hsame : report tick seen sample = seen := by unfold report; rw [ht]
      rw [ih, hsame]
    | some total =>
      have hset : report tick seen sample = seen.set sample.agentId total := by
        unfold report; rw [ht]
      have htotal : (seen.set sample.agentId total).total id =
          seen.total id - seen.getD sample.agentId 0 + total :=
        Dict.total_set_getD (f := id) (show id (0 : K) = 0 from rfl) seen sample.agentId total
      rw [List.map_cons, List.sum_cons, ih, hset, htotal]
      ring

/-! ## Extraction -/

theorem held_extract (hf : Additive f) (dtS : K) {sample : StateSample K} {model : IsruModel K}
    (hm : cfg.isruModels.get? sample.agentId = some model) (chain : ValueChain K) :
    (chain.extract cfg dtS sample).held f = chain.held f - f (chain.materialOf sample.agentId) +
      f (model.step (chain.isruState.getD sample.agentId IsruModel.initialState) dtS sample.mode
        (chain.materialOf sample.agentId)).2 := by
  unfold extract
  rw [hm]
  exact held_set hf chain _ _

theorem excavatedSeen_extract (dtS : K) (chain : ValueChain K) (sample : StateSample K) :
    (chain.extract cfg dtS sample).excavatedSeen = chain.excavatedSeen := by
  unfold extract
  split <;> rfl

/-- What extraction consumes is missing from the held regolith. -/
theorem mass_extract (dtS : K) (samples : List (StateSample K)) (chain : ValueChain K) :
    (samples.foldl (extract cfg dtS) chain).held Material.massKg +
      consumedAt cfg dtS chain samples = chain.held Material.massKg := by
  induction samples generalizing chain with
  | nil => simp [consumedAt]
  | cons sample rest ih =>
    have hrest := ih (chain.extract cfg dtS sample)
    rw [List.foldl_cons, consumedAt]
    cases hm : cfg.isruModels.get? sample.agentId with
    | none =>
      have hsame : chain.extract cfg dtS sample = chain := by unfold extract; rw [hm]
      rw [hsame] at hrest ⊢
      rw [zero_add]
      exact hrest
    | some model =>
      have hheld := held_extract additive_mass dtS hm chain
      have hstep : (model.step (chain.isruState.getD sample.agentId IsruModel.initialState) dtS
          sample.mode (chain.materialOf sample.agentId)).2.massKg +
        model.consumed (chain.isruState.getD sample.agentId IsruModel.initialState) dtS
          sample.mode (chain.materialOf sample.agentId) =
        (chain.materialOf sample.agentId).massKg := IsruModel.step_mass
      dsimp only
      linarith

/-- Extraction keeps the water there is. -/
theorem water_extract (dtS : K) (chain : ValueChain K) (sample : StateSample K) :
    (chain.extract cfg dtS sample).held Material.waterKg +
        (chain.extract cfg dtS sample).storedWater =
      chain.held Material.waterKg + chain.storedWater := by
  cases hm : cfg.isruModels.get? sample.agentId with
  | none =>
    have hsame : chain.extract cfg dtS sample = chain := by unfold extract; rw [hm]
    rw [hsame]
  | some model =>
    have hheld := held_extract additive_water dtS hm chain
    have hstored : (chain.extract cfg dtS sample).storedWater = chain.storedWater -
        (chain.isruState.getD sample.agentId IsruModel.initialState).storedWaterKg +
        (model.step (chain.isruState.getD sample.agentId IsruModel.initialState) dtS sample.mode
          (chain.materialOf sample.agentId)).1.storedWaterKg := by
      unfold extract
      rw [hm]
      exact Dict.total_set_getD (f := IsruState.storedWaterKg) rfl chain.isruState _ _
    have hstep : (model.step (chain.isruState.getD sample.agentId IsruModel.initialState) dtS
        sample.mode (chain.materialOf sample.agentId)).2.waterKg +
      (model.step (chain.isruState.getD sample.agentId IsruModel.initialState) dtS
        sample.mode (chain.materialOf sample.agentId)).1.storedWaterKg =
      (chain.materialOf sample.agentId).waterKg +
        (chain.isruState.getD sample.agentId IsruModel.initialState).storedWaterKg :=
      IsruModel.step_water
    linarith

/-- The tank of an agent. -/
def tank (chain : ValueChain K) (agent : String) : IsruState K :=
  chain.isruState.getD agent IsruModel.initialState

/-- Extraction steps the tank of the agent of the sample, if it is a plant, and no other. -/
theorem tank_extract (dtS : K) (chain : ValueChain K) (sample : StateSample K) (agent : String) :
    (chain.extract cfg dtS sample).tank agent = chain.tank agent ∨
      ∃ model, cfg.isruModels.get? agent = some model ∧
        (chain.extract cfg dtS sample).tank agent =
          (model.step (chain.tank agent) dtS sample.mode (chain.materialOf agent)).1 := by
  unfold extract
  cases hm : cfg.isruModels.get? sample.agentId with
  | none => exact .inl rfl
  | some model =>
    by_cases ha : agent = sample.agentId
    · subst ha
      refine .inr ⟨model, hm, ?_⟩
      dsimp only
      rw [tank, Dict.getD, Dict.get?_set, if_pos rfl]
      rfl
    · left
      dsimp only
      rw [tank, tank, Dict.getD, Dict.get?_set, if_neg ha]
      rfl

/-! ## One tick -/

/-- Every tank of a plant is metered. -/
def Stores (cfg : ChainConfig K) (chain : ValueChain K) : Prop :=
  ∀ agent model, cfg.isruModels.get? agent = some model → model.Metered (chain.tank agent)

theorem tank_applyLogistics (chain : ValueChain K) (input : TickInput K) (agent : String) :
    (chain.applyLogistics cfg input).tank agent = chain.tank agent := by
  have h : (chain.applyLogistics cfg input).isruState = chain.isruState :=
    congrArg Prod.snd (ledger_applyLogistics chain input)
  rw [tank, tank, h]

theorem excavatedSeen_tick (chain : ValueChain K) (input : TickInput K) :
    (chain.tick cfg input).excavatedSeen =
      input.samples.foldl (report input) chain.excavatedSeen := by
  rw [tick, foldl_eq_of_step (g := excavatedSeen) (excavatedSeen_extract input.dtS)]
  exact congrArg Prod.fst (ledger_applyLogistics chain input)

/-- One tick: the regolith that is held or consumed grows by what the samples report. -/
theorem tick_regolith (chain : ValueChain K) (input : TickInput K)
    (h : ∀ d ∈ digsOf cfg input chain.excavatedSeen input.samples, 0 ≤ d.1) :
    (chain.tick cfg input).held Material.massKg +
        consumedAt cfg input.dtS (chain.applyLogistics cfg input) input.samples =
      chain.held Material.massKg +
        ((input.samples.foldl (report input) chain.excavatedSeen).total id -
          chain.excavatedSeen.total id) := by
  rw [tick, mass_extract, held_applyLogistics additive_mass dug_mass chain input h, digsOf_sum]

/-- One tick: the water that is held or stored grows by that of what is dug. -/
theorem tick_water (chain : ValueChain K) (input : TickInput K)
    (h : ∀ d ∈ digsOf cfg input chain.excavatedSeen input.samples, 0 ≤ d.1) :
    (chain.tick cfg input).held Material.waterKg + (chain.tick cfg input).storedWater =
      chain.held Material.waterKg + chain.storedWater +
        ((digsOf cfg input chain.excavatedSeen input.samples).map fun d => d.1 * d.2).sum := by
  have hextract : (input.samples.foldl (extract cfg input.dtS)
        (chain.applyLogistics cfg input)).held Material.waterKg +
      (input.samples.foldl (extract cfg input.dtS) (chain.applyLogistics cfg input)).storedWater =
      (chain.applyLogistics cfg input).held Material.waterKg +
        (chain.applyLogistics cfg input).storedWater :=
    foldl_eq_of_step
      (g := fun chain : ValueChain K => chain.held Material.waterKg + chain.storedWater)
      (water_extract input.dtS) input.samples _
  have hstored : (chain.applyLogistics cfg input).storedWater = chain.storedWater :=
    congrArg (fun ledger : Dict String K × Dict String (IsruState K) =>
      ledger.2.total IsruState.storedWaterKg) (ledger_applyLogistics chain input)
  have hheld := held_applyLogistics additive_water dug_water chain input h
  rw [tick, hextract, hstored, hheld]
  ring

/-- Extraction keeps the tanks metered, and takes nothing out of them. -/
theorem stores_extract (dtS : K) (samples : List (StateSample K)) (chain : ValueChain K)
    (h : Stores cfg chain) : Stores cfg (samples.foldl (extract cfg dtS) chain) ∧
      ∀ agent, (chain.tank agent).storedWaterKg ≤
          ((samples.foldl (extract cfg dtS) chain).tank agent).storedWaterKg ∧
        (chain.tank agent).energyUsedJ ≤
          ((samples.foldl (extract cfg dtS) chain).tank agent).energyUsedJ := by
  induction samples generalizing chain with
  | nil => exact ⟨h, fun agent => ⟨le_rfl, le_rfl⟩⟩
  | cons sample rest ih =>
    have hnext : Stores cfg (chain.extract cfg dtS sample) := by
      intro agent model hm
      rcases tank_extract dtS chain sample agent with heq | ⟨model', hm', heq⟩
      · rw [heq]
        exact h agent model hm
      · rw [hm, Option.some.injEq] at hm'
        subst hm'
        rw [heq]
        exact (h agent model hm).step
    obtain ⟨hstores, hmono⟩ := ih _ hnext
    refine ⟨hstores, fun agent => ?_⟩
    rcases (tank_extract dtS chain sample agent : _ ∨ ∃ model, cfg.isruModels.get? agent = some model ∧
        _) with heq | ⟨model, -, heq⟩
    · have := hmono agent
      rw [heq] at this
      exact this
    · have hstep : (chain.tank agent).storedWaterKg ≤ (model.step (chain.tank agent) dtS sample.mode
            (chain.materialOf agent)).1.storedWaterKg ∧
          (chain.tank agent).energyUsedJ ≤ (model.step (chain.tank agent) dtS sample.mode
            (chain.materialOf agent)).1.energyUsedJ := IsruModel.step_monotone
      have := hmono agent
      rw [heq] at this
      exact ⟨le_trans hstep.1 this.1, le_trans hstep.2 this.2⟩

theorem stores_tick {chain : ValueChain K} (h : Stores cfg chain) (input : TickInput K) :
    Stores cfg (chain.tick cfg input) ∧ ∀ agent,
      (chain.tank agent).storedWaterKg ≤ ((chain.tick cfg input).tank agent).storedWaterKg ∧
      (chain.tank agent).energyUsedJ ≤ ((chain.tick cfg input).tank agent).energyUsedJ := by
  have hlogistics : Stores cfg (chain.applyLogistics cfg input) := by
    intro agent model hm
    rw [tank_applyLogistics]
    exact h agent model hm
  obtain ⟨hstores, hmono⟩ := stores_extract input.dtS input.samples _ hlogistics
  refine ⟨hstores, fun agent => ?_⟩
  have := hmono agent
  rw [tank_applyLogistics] at this
  exact this

/-! ## Pickups -/

/-- A pull from one holder takes the sink above its capacity only if it was above it before. -/
theorem mass_pullFrom_le (pose : Dict String (Vec3 K)) (dtS capacity : K) (sink : String)
    (fromPlants : Bool) (chain : ValueChain K) (source : String) :
    ((pullFrom cfg pose dtS sink (some capacity) fromPlants chain source).materialOf sink).massKg ≤
      max capacity (chain.materialOf sink).massKg := by
  unfold pullFrom
  split_ifs with hsource hplant hrange
  · exact le_max_right _ _
  · exact le_max_right _ _
  · exact le_max_right _ _
  · rw [materialOf, Dict.getD, Dict.get?_set, if_pos rfl, Option.getD_some]
    exact transfer_le_capacity _ _ _ _

/-- A pickup takes its carrier above its capacity only if it was above it before. -/
theorem mass_pull_le (pose : Dict String (Vec3 K)) (dtS capacity : K) (sink : String)
    (fromPlants : Bool) (chain : ValueChain K) :
    ((chain.pull cfg pose dtS sink (some capacity) fromPlants).materialOf sink).massKg ≤
      max capacity (chain.materialOf sink).massKg := by
  have hfold : ∀ (sources : List String) (chain : ValueChain K),
      ((sources.foldl (pullFrom cfg pose dtS sink (some capacity) fromPlants) chain).materialOf
        sink).massKg ≤ max capacity (chain.materialOf sink).massKg := by
    intro sources
    induction sources with
    | nil => intro chain; exact le_max_right _ _
    | cons source rest ih =>
      intro chain
      refine le_trans (ih _) (max_le (le_max_left _ _) ?_)
      exact mass_pullFrom_le pose dtS capacity sink fromPlants chain source
  exact hfold _ chain

theorem pickups_le (tick : TickInput K) (carriers : List (String × Option K))
    (chain : ValueChain K) :
    ∀ p ∈ pickups cfg tick chain carriers, p.after ≤ max p.capacity p.before := by
  induction carriers generalizing chain with
  | nil => intro p hp; cases hp
  | cons carrier rest ih =>
    obtain ⟨name, capacity⟩ := carrier
    intro p hp
    cases capacity with
    | none => exact ih _ p hp
    | some capacity =>
      rcases List.mem_cons.mp hp with rfl | hp
      · exact mass_pull_le (poses tick) tick.dtS capacity name false chain
      · exact ih _ p hp

/-! ## Runs -/

/-- The cumulative mass of no agent decreases over a run, from zero on. -/
def NonDecreasing (cfg : ChainConfig K) (ticks : List (TickInput K)) : Prop :=
  ∀ d ∈ digs cfg .empty ticks, 0 ≤ d.1

theorem regolith_foldl (ticks : List (TickInput K)) (chain : ValueChain K)
    (h : ∀ d ∈ digs cfg chain.excavatedSeen ticks, 0 ≤ d.1) :
    (ticks.foldl (tick cfg) chain).held Material.massKg + consumed cfg chain ticks =
      chain.held Material.massKg +
        ((reports ticks chain.excavatedSeen).total id - chain.excavatedSeen.total id) := by
  induction ticks generalizing chain with
  | nil => simp [consumed, reports]
  | cons input rest ih =>
    rw [digs] at h
    have hone := tick_regolith chain input fun d hd => h d (List.mem_append_left _ hd)
    have hrest := ih (chain.tick cfg input) (by
      rw [excavatedSeen_tick]
      exact fun d hd => h d (List.mem_append_right _ hd))
    rw [excavatedSeen_tick] at hrest
    rw [List.foldl_cons, consumed]
    have hreports : reports (input :: rest) chain.excavatedSeen =
      reports rest (input.samples.foldl (report input) chain.excavatedSeen) := rfl
    rw [hreports]
    linarith

theorem water_foldl (ticks : List (TickInput K)) (chain : ValueChain K)
    (h : ∀ d ∈ digs cfg chain.excavatedSeen ticks, 0 ≤ d.1) :
    (ticks.foldl (tick cfg) chain).held Material.waterKg +
        (ticks.foldl (tick cfg) chain).storedWater =
      chain.held Material.waterKg + chain.storedWater +
        ((digs cfg chain.excavatedSeen ticks).map fun d => d.1 * d.2).sum := by
  induction ticks generalizing chain with
  | nil => simp [digs]
  | cons input rest ih =>
    rw [digs] at h
    have hone := tick_water chain input fun d hd => h d (List.mem_append_left _ hd)
    have hrest := ih (chain.tick cfg input) (by
      rw [excavatedSeen_tick]
      exact fun d hd => h d (List.mem_append_right _ hd))
    rw [excavatedSeen_tick] at hrest
    rw [List.foldl_cons, hrest, hone, digs, List.map_append, List.sum_append]
    ring

omit [IsStrictOrderedRing K] in
theorem stores_initial (cfg : ChainConfig K) : Stores cfg (initial cfg) := by
  intro agent model hm
  have htank : (initial cfg).tank agent = IsruModel.initialState := by
    rw [tank, Dict.getD, initial, Dict.get?_mapValues, hm]
    rfl
  rw [htank]
  exact model.metered_initialState

theorem stores_run (cfg : ChainConfig K) (ticks : List (TickInput K)) :
    Stores cfg (run cfg ticks) := by
  induction ticks using List.reverseRecOn with
  | nil => exact stores_initial cfg
  | append_singleton ticks input ih =>
    rw [run, List.foldl_append]
    exact (stores_tick ih input).1

omit [IsStrictOrderedRing K] in
theorem storedWater_initial (cfg : ChainConfig K) : (initial cfg).storedWater = 0 := by
  rw [storedWater, initial, Dict.total, Dict.mapValues, List.map_map]
  apply List.sum_eq_zero
  intro x hx
  obtain ⟨p, -, rfl⟩ := List.mem_map.mp hx
  rfl

/-- What holds after the ticks of a run. -/
structure Conserves (cfg : ChainConfig K) (ticks : List (TickInput K)) : Prop where
  /-- The regolith that is held, and what the plants consumed, is what was excavated. -/
  regolith : (run cfg ticks).held Material.massKg + consumed cfg (initial cfg) ticks =
    (reports ticks .empty).total id
  /-- The water that is held and stored is that of what was dug, at the grade where it was dug. -/
  water : (run cfg ticks).held Material.waterKg + (run cfg ticks).storedWater =
    ((digs cfg .empty ticks).map fun d => d.1 * d.2).sum
  /-- The energy of a plant is that of its stored water, and its tank can hold it. -/
  stores : ∀ agent model, cfg.isruModels.get? agent = some model →
    ((run cfg ticks).tank agent).energyUsedJ =
      model.specificEnergy * ((run cfg ticks).tank agent).storedWaterKg ∧
    ∀ c ∈ model.capacity, ((run cfg ticks).tank agent).storedWaterKg ≤ c
  /-- Stored water and energy do not decrease in the next tick. -/
  series : ∀ input agent,
    ((run cfg ticks).tank agent).storedWaterKg ≤
      ((run cfg (ticks ++ [input])).tank agent).storedWaterKg ∧
    ((run cfg ticks).tank agent).energyUsedJ ≤
      ((run cfg (ticks ++ [input])).tank agent).energyUsedJ
  /-- No pickup of the next tick takes its carrier above its capacity. -/
  carriers : ∀ input,
    ∀ p ∈ pickups cfg input ((run cfg ticks).deliver cfg input) cfg.cargoCapacity.sortedEntries,
      p.after ≤ max p.capacity p.before

/-- **Main theorem.** Conservation along the value chain, after every tick of every run in which
the reports of excavated mass do not decrease. -/
theorem valueChain_conserves (cfg : ChainConfig K) (ticks : List (TickInput K))
    (h : NonDecreasing cfg ticks) : Conserves cfg ticks where
  regolith := by
    have hrun := regolith_foldl ticks (initial cfg) h
    have hheld : (initial cfg).held Material.massKg = 0 := rfl
    have hseen : (initial cfg).excavatedSeen = .empty := rfl
    rw [hheld, hseen, Dict.total_empty, sub_zero, zero_add] at hrun
    exact hrun
  water := by
    have hrun := water_foldl ticks (initial cfg) h
    have hheld : (initial cfg).held Material.waterKg = 0 := rfl
    rw [hheld, storedWater_initial, zero_add, zero_add] at hrun
    exact hrun
  stores agent model hm :=
    ⟨(stores_run cfg ticks agent model hm).energy, (stores_run cfg ticks agent model hm).capacity⟩
  series input agent := by
    have hnext := (stores_tick (stores_run cfg ticks) input).2 agent
    rw [run, run, List.foldl_append]
    exact hnext
  carriers input := pickups_le input _ _

/-! ## A digger, a hauler and a plant -/

/-- The sample of an agent at a place on the x axis. -/
def sampleAt (agentId : String) (x : ℚ) (mode : String) : StateSample ℚ where
  agentId
  frame := { name := "MOON_ME", frameClass := .bodyFixed, center := none }
  pose := ⟨⟨x, 0, 0⟩, identityQuat⟩
  mode := some mode

/-- A plant with a tank of 3 kg, and a hauler that can carry 30 kg. -/
def haulConfig : ChainConfig ℚ where
  isruModels := .ofList [("plant", ⟨1, 2, some 3, ["extract"], by decide, by decide, by simp⟩)]
  isruNominal := .empty
  cargoCapacity := .ofList [("digger", none), ("hauler", some 30), ("plant", none)]
  resourceField := some fun _ _ => 1 / 10

/-- A tick of 10 s: the hauler stands at `x`, and the digger has dug `total`. -/
def haulTick (x total : ℚ) : TickInput ℚ where
  samples := [sampleAt "digger" 0 "dig", sampleAt "hauler" x "drive",
    sampleAt "plant" 12000 "extract"]
  excavatedKg := .ofList [("digger", total)]
  dtS := 10
  epoch := ⟨0, .tdb⟩

/-- The hauler loads at the digger, drives, and unloads at the plant, which stores water. -/
theorem haulRun_conserves :
    Conserves haulConfig [haulTick 10 100, haulTick 6000 100, haulTick 11990 120] ∧
      0 < (run haulConfig [haulTick 10 100, haulTick 6000 100, haulTick 11990 120]).storedWater :=
  ⟨valueChain_conserves haulConfig _ (by unfold NonDecreasing; decide +kernel), by decide +kernel⟩

end ValueChain

end AstroMine.Sim
