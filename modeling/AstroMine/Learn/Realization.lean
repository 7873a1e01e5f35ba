import AstroMine.Lib.DrawSeq
import AstroMine.Learn.Delivery

/-!
# The realization of drops and delays

All links of a run draw from one generator, in the order in which they reach the drop stage. What a
link gets is decided by the seed and by how many links came before it, of whatever agent and tick.

Two runs that let different links through an earlier stage shift the draws of all later links, unless
the configuration leaves nothing to chance.

Results:
* `run_decisions`: the decisions of a run are the draws in order.
* `realizedAlike_iff`: when two runs decide their common links alike.
* `shed_not_alike`: the counterexample.
-/

namespace AstroMine.Learn

open DrawSeq (stateAt nth drawAll Alike)

variable {K ρ : Type} [Field K] [LinearOrder K] [FloorRing K]

/-- A link of a run: its agent, its peer and its tick. -/
abbrev LinkAt := String × String × ℤ

/-- The links that reach the drop stage at an observation. -/
def linksAt (config : CommsModelConfig K) (entry : String × Observation K) : List LinkAt :=
  (admitted config entry.2).map fun link => (entry.1, link.peer, entry.2.tick)

/-- The links that reach the drop stage in a run, in their order. -/
def linksOf (config : CommsModelConfig K) (run : List (Dict String (Observation K))) :
    List LinkAt :=
  if config.isIdentity then [] else (entriesOf run).flatMap (linksAt config)

/-- What was decided about the links of a run. -/
def decisions (rendered : List (Rendered K)) : List (LinkAt × Outcome) :=
  rendered.flatMap fun r =>
    r.reports.map fun report => ((r.agent, report.link.peer, r.observed.tick), report.outcome)

/-! ## The draws of a run -/

section Draws

variable {draws : Draws K ρ} {config : CommsModelConfig K}

omit [FloorRing K] in
variable (draws config) in
theorem transmit_rng (model : CommsModel K ρ) (agent : String) (obs : Observation K)
    (link : PeerLink K) :
    (model.transmit draws config agent obs link).1.rng = (drawOutcome draws config model.rng).2 := by
  unfold CommsModel.transmit
  dsimp only
  split <;> rfl

omit [FloorRing K] in
variable (draws config) in
/-- **Step.** The links of an observation get the next draws. -/
theorem transmitAll_draws (model : CommsModel K ρ) (agent : String) (obs : Observation K)
    (links : List (PeerLink K)) :
    ((CommsModel.transmitAll draws config agent obs model links).2.map fun report =>
        ((agent, report.link.peer, obs.tick), report.outcome)) =
      drawAll (drawOutcome draws config) model.rng
        (links.map fun link => (agent, link.peer, obs.tick)) ∧
    (CommsModel.transmitAll draws config agent obs model links).1.rng =
      stateAt (drawOutcome draws config) model.rng links.length := by
  induction links generalizing model with
  | nil => exact ⟨rfl, rfl⟩
  | cons link links ih =>
    obtain ⟨hreports, hrng⟩ := ih (model.transmit draws config agent obs link).1
    rw [transmit_rng] at hreports hrng
    rw [CommsModel.transmitAll]
    dsimp only
    refine ⟨?_, hrng⟩
    rw [List.map_cons, hreports]
    rfl

/-- **Run.** So do the links of all observations. -/
theorem applyAll_draws (model : CommsModel K ρ) (entries : List (String × Observation K)) :
    decisions (CommsModel.applyAll draws config model entries).2 =
      drawAll (drawOutcome draws config) model.rng (entries.flatMap (linksAt config)) := by
  induction entries generalizing model with
  | nil => rfl
  | cons entry entries ih =>
    obtain ⟨agent, obs⟩ := entry
    rw [CommsModel.applyAll]
    dsimp only
    have hstep := transmitAll_draws draws config
      { model with ledger := model.ledger.set agent ((model.tally agent).offer config obs) }
      agent obs (admitted config obs)
    have hrng : (model.applyAgent draws config agent obs).1.rng =
        stateAt (drawOutcome draws config) model.rng (linksAt config (agent, obs)).length := by
      rw [linksAt, List.length_map]
      exact hstep.2
    rw [List.flatMap_cons, DrawSeq.drawAll_append, ← hrng, ← ih, decisions, List.flatMap_cons]
    exact congrArg (· ++ _) hstep.1

/-- The decisions of a run are the draws of the generator, in the order of its links. -/
theorem run_decisions (seed : Option ℤ) (run : List (Dict String (Observation K))) :
    decisions (CommsModel.run draws config (.reset draws config seed) run).2 =
      drawAll (drawOutcome draws config) (draws.seeded (seed.getD 0) config.seedSalt)
        (linksOf config run) := by
  rw [linksOf]
  by_cases hidentity : config.isIdentity = true
  · rw [if_pos hidentity, drawAll, decisions, List.flatMap_eq_nil_iff]
    intro r hr
    rw [(run_identity draws hidentity _ run).2 r hr]
    rfl
  · rw [if_neg hidentity, run_eq_applyAll hidentity, applyAll_draws]
    rfl

end Draws

/-! ## What is left to chance -/

/-- No draw makes a difference: every link is dropped, or none is and all have the same delay. -/
def CommsModelConfig.Chanceless (config : CommsModelConfig K) : Prop :=
  config.drop.probability = 1 ∨ config.drop.probability = 0 ∧
    match config.delay.kind with
    | .none | .fixed => True
    | .uniform => config.delay.low = config.delay.high
    | .geometric => config.delay.meanTicks = 0 ∨ config.delay.maxTicks = 0

section Chance

variable {draws : Draws K ρ} {config : CommsModelConfig K}

omit [FloorRing K] in
theorem drawOutcome_of_probability_zero (h : config.drop.probability = 0) (rng : ρ) :
    drawOutcome draws config rng =
      (.delivered (sampleDelay draws config.delay rng).1, (sampleDelay draws config.delay rng).2) := by
  unfold drawOutcome
  rw [h, if_neg (lt_irrefl 0)]

omit [FloorRing K] in
/-- Where nothing is left to chance all draws agree. -/
theorem CommsModelConfig.Chanceless.drawOutcome_eq (h : config.Chanceless) (rng rng' : ρ) :
    (drawOutcome draws config rng).1 = (drawOutcome draws config rng').1 := by
  obtain hone | ⟨hzero, hdelay⟩ := h
  · have hdropped : ∀ rng, (drawOutcome draws config rng).1 = .dropped := fun rng => by
      obtain ⟨hpos, hlt⟩ := draws.random_mem rng
      unfold drawOutcome
      rw [hone]
      dsimp only
      rw [if_pos (hpos.trans_lt hlt), if_pos hlt]
    rw [hdropped, hdropped]
  · rw [drawOutcome_of_probability_zero hzero, drawOutcome_of_probability_zero hzero]
    refine congrArg Outcome.delivered ?_
    unfold sampleDelay
    cases hkind : config.delay.kind with
    | none => rfl
    | fixed => rfl
    | uniform =>
      rw [hkind] at hdelay
      have hbounds := fun rng => draws.integers_mem rng _ _ (config.delay.uniform_bounds hkind)
      rw [hdelay] at hbounds
      dsimp only
      rw [hdelay]
      exact (le_antisymm (hbounds rng).2 (hbounds rng).1).trans
        (le_antisymm (hbounds rng').2 (hbounds rng').1).symm
    | geometric =>
      rw [hkind] at hdelay
      obtain hmean | hmax := hdelay
      · dsimp only
        rw [hmean, if_neg (lt_irrefl 0), draws.geometric_one, draws.geometric_one]
      · dsimp only
        rw [hmax, Nat.min_zero, Nat.min_zero]

/-- A generator that counts its draws, and gives one of them the other way. -/
def markedDraws (p : K) (h0 : 0 ≤ p) (h1 : p < 1) (mark : ℕ) : Draws K ℕ where
  random n := (if n = mark then 0 else p, n + 1)
  integers n low high := (if n = mark then low else high - 1, if p = 0 then n + 1 else n)
  geometric n q := (if n = mark ∨ q = 1 then 1 else 2, if p = 0 then n + 1 else n)
  seeded _ _ := 0
  random_mem n := by
    dsimp only
    split_ifs
    · exact ⟨le_rfl, h0.trans_lt h1⟩
    · exact ⟨h0, h1⟩
  integers_mem n low high h := by
    dsimp only
    split_ifs
    · exact ⟨le_rfl, h⟩
    · exact ⟨h, le_rfl⟩
  geometric_pos n q := by
    dsimp only
    split_ifs <;> decide
  geometric_one n := if_pos (Or.inr rfl)

omit [FloorRing K] in
/-- Where something is left to chance it decides one link unlike the others, and each link is one
draw. -/
theorem markedDraws_drawOutcome (h : ¬config.Chanceless)
    (hlt : config.drop.probability < 1) (mark n : ℕ) :
    (drawOutcome (markedDraws _ config.drop.probability_nonneg hlt mark) config n).2 = n + 1 ∧
      (n ≠ mark →
        (drawOutcome (markedDraws _ config.drop.probability_nonneg hlt mark) config n).1 ≠
          (drawOutcome (markedDraws _ config.drop.probability_nonneg hlt mark) config mark).1) := by
  by_cases hp : config.drop.probability = 0
  · have hchance := fun hdelay => h (Or.inr ⟨hp, hdelay⟩)
    simp only [drawOutcome_of_probability_zero hp, sampleDelay]
    cases hkind : config.delay.kind with
    | none =>
      rw [hkind] at hchance
      exact absurd trivial hchance
    | fixed =>
      rw [hkind] at hchance
      exact absurd trivial hchance
    | uniform =>
      rw [hkind] at hchance
      refine ⟨by simp [markedDraws, hp], fun hn => ?_⟩
      simpa [markedDraws, hn] using Ne.symm hchance
    | geometric =>
      rw [hkind] at hchance
      obtain ⟨hmean, hmax⟩ := not_or.mp hchance
      have hpos : 0 < config.delay.meanTicks :=
        lt_of_le_of_ne config.delay.meanTicks_nonneg (Ne.symm hmean)
      refine ⟨by simp [markedDraws, hp], fun hn => ?_⟩
      simp [markedDraws, hn, hpos, hmean]
      omega
  · have hpos : 0 < config.drop.probability :=
      lt_of_le_of_ne config.drop.probability_nonneg (Ne.symm hp)
    have hrandom : ∀ n, (markedDraws _ config.drop.probability_nonneg hlt mark).random n =
        (if n = mark then 0 else config.drop.probability, n + 1) := fun _ => rfl
    have hdelay : ∀ n, (sampleDelay (markedDraws _ config.drop.probability_nonneg hlt mark)
        config.delay n).2 = n := fun n => by
      unfold sampleDelay markedDraws
      cases config.delay.kind <;> simp [hp]
    generalize markedDraws _ config.drop.probability_nonneg hlt mark = draws at hrandom hdelay
    have hdropped : (drawOutcome draws config mark).1 = .dropped := by
      simp [drawOutcome, hrandom, hpos]
    have hdelivered : ∀ n, n ≠ mark → (drawOutcome draws config n).1 ≠ .dropped := fun n hn => by
      simp [drawOutcome, hrandom, hpos, hn]
    refine ⟨?_, fun hn => ?_⟩
    · unfold drawOutcome
      rw [if_pos hpos, hrandom]
      dsimp only
      split_ifs <;> simp [hdelay]
    · rw [hdropped]
      exact hdelivered n hn

end Chance

/-! ## When two runs are decided alike -/

section Alike

variable {config : CommsModelConfig K}

/-- Each common link has the same place in both. -/
def SamePlaces (links links' : List LinkAt) : Prop :=
  ∀ (i j : ℕ) (link : LinkAt), links[i]? = some link → links'[j]? = some link → i = j

/-- Two runs are decided alike by a generator. -/
def DecidedAlike (draws : Draws K ρ) (config : CommsModelConfig K) (seed : Option ℤ)
    (run run' : List (Dict String (Observation K))) : Prop :=
  Alike (decisions (CommsModel.run draws config (.reset draws config seed) run).2)
    (decisions (CommsModel.run draws config (.reset draws config seed) run').2)

/-- By one generator two runs are decided alike exactly if its draws at the two places of each
common link agree. -/
theorem decidedAlike_iff (draws : Draws K ρ) (seed : Option ℤ)
    (run run' : List (Dict String (Observation K))) :
    DecidedAlike draws config seed run run' ↔
      ∀ (i j : ℕ) (link : LinkAt), (linksOf config run)[i]? = some link →
        (linksOf config run')[j]? = some link →
          nth (drawOutcome draws config) (draws.seeded (seed.getD 0) config.seedSalt) i =
            nth (drawOutcome draws config) (draws.seeded (seed.getD 0) config.seedSalt) j := by
  rw [DecidedAlike, run_decisions, run_decisions]
  exact DrawSeq.alike_iff _ _ _ _

omit [FloorRing K] in
/-- The marked generator is at each place at its count. -/
theorem nth_markedDraws (h : ¬config.Chanceless) (hlt : config.drop.probability < 1)
    (mark n : ℕ) :
    nth (drawOutcome (markedDraws _ config.drop.probability_nonneg hlt mark) config) 0 n =
      (drawOutcome (markedDraws _ config.drop.probability_nonneg hlt mark) config n).1 := by
  have hstate : ∀ m k : ℕ,
      stateAt (drawOutcome (markedDraws _ config.drop.probability_nonneg hlt mark) config) m k =
        m + k := by
    intro m k
    induction k generalizing m with
    | zero => rfl
    | succ k ih =>
      rw [stateAt, (markedDraws_drawOutcome h hlt mark m).1, ih]
      omega
  rw [nth, hstate, Nat.zero_add]

/-- **Main theorem.** Two runs are decided alike, whatever the generator and the seed, exactly if
nothing is left to chance or their common links have the same places. -/
theorem realizedAlike_iff (config : CommsModelConfig K)
    (run run' : List (Dict String (Observation K))) :
    (∀ (ρ : Type) (draws : Draws K ρ) (seed : Option ℤ),
      DecidedAlike draws config seed run run') ↔
      config.Chanceless ∨ SamePlaces (linksOf config run) (linksOf config run') := by
  constructor
  · intro h
    by_contra hnone
    obtain ⟨hchance, hplaces⟩ := not_or.mp hnone
    have hlt : config.drop.probability < 1 :=
      lt_of_le_of_ne config.drop.probability_le_one fun hp => hchance (Or.inl hp)
    refine hplaces fun i j link hi hj => ?_
    by_contra hne
    have halike := (decidedAlike_iff _ none run run').mp
      (h ℕ (markedDraws _ config.drop.probability_nonneg hlt j) none) i j link hi hj
    have hseeded : (markedDraws _ config.drop.probability_nonneg hlt j).seeded
        ((none : Option ℤ).getD 0) config.seedSalt = 0 := rfl
    rw [hseeded, nth_markedDraws hchance, nth_markedDraws hchance] at halike
    exact (markedDraws_drawOutcome hchance hlt j i).2 hne halike
  · intro h ρ draws seed
    rw [decidedAlike_iff]
    intro i j link hi hj
    obtain hchanceless | hplaces := h
    · exact hchanceless.drawOutcome_eq _ _
    · rw [hplaces i j link hi hj]

end Alike

/-! ## A link that a policy puts before another -/

/-- The first two numbers that the generator draws for the seed 0 and the default salt. -/
def recordedDraws : Draws ℚ ℕ where
  random n :=
    (if n = 0 then 5421069573602445 / 2 ^ 53 else if n = 1 then 2429416943677917 / 2 ^ 53 else 0,
      n + 1)
  integers n low _ := (low, n)
  geometric n _ := (1, n)
  seeded _ _ := 0
  random_mem n := by
    dsimp only
    split_ifs <;> norm_num
  integers_mem _ _ _ h := ⟨le_rfl, h⟩
  geometric_pos _ _ := le_rfl
  geometric_one _ := rfl

/-- Every other message is lost on average. -/
def halfLost : CommsModelConfig ℚ where
  rangeGate := openGate
  bandwidth := unlimited
  drop := ⟨1 / 2, by norm_num, by norm_num⟩
  delay := undelayed
  seedSalt := 0x00C00115

/-- One tick at which the rover has links to these peers. -/
def linkedTo (peers : List String) : List (Dict String (Observation ℚ)) :=
  [Dict.ofList [("rover",
    { tick := 0
      agentId := "rover"
      selfState := ⟨"rover", 0, 0, 0⟩
      comms := some ⟨"rover", peers.map fun peer => ⟨peer, true, none, none, none⟩, false⟩
      neighbors := [] })]]

/-- **Counterexample.** The link to the scout is delivered where it is the only one, and dropped
where a link to the hauler comes before it. -/
theorem shed_not_alike :
    decisions (CommsModel.run recordedDraws halfLost (.reset recordedDraws halfLost (some 0))
        (linkedTo ["scout"])).2 = [(("rover", "scout", 0), .delivered 0)] ∧
      decisions (CommsModel.run recordedDraws halfLost (.reset recordedDraws halfLost (some 0))
        (linkedTo ["hauler", "scout"])).2 =
          [(("rover", "hauler", 0), .delivered 0), (("rover", "scout", 0), .dropped)] ∧
      ¬DecidedAlike recordedDraws halfLost (some 0) (linkedTo ["scout"])
        (linkedTo ["hauler", "scout"]) := by
  have hfirst : decisions (CommsModel.run recordedDraws halfLost
      (.reset recordedDraws halfLost (some 0)) (linkedTo ["scout"])).2 =
        [(("rover", "scout", 0), .delivered 0)] := by decide +kernel
  have hsecond : decisions (CommsModel.run recordedDraws halfLost
      (.reset recordedDraws halfLost (some 0)) (linkedTo ["hauler", "scout"])).2 =
        [(("rover", "hauler", 0), .delivered 0), (("rover", "scout", 0), .dropped)] := by
    decide +kernel
  refine ⟨hfirst, hsecond, fun h => ?_⟩
  rw [DecidedAlike, hfirst, hsecond] at h
  cases h _ _ _ List.mem_cons_self (List.mem_cons_of_mem _ List.mem_cons_self)

end AstroMine.Learn
