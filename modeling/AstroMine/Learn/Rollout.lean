import AstroMine.Lib.Dict
import AstroMine.Learn.Gae

/-!
# Advantages of joined rollouts (`learn/algos/_ppo.py`, `learn/train/executor.py`)

The executors roll out several copies of the environment and join their steps, one copy after the
other. The trainers compute advantages and returns from the joined rollout: for each agent from the
steps in which it is live, cut by its done flags, or, with a centralised critic, for the team, where
only the last joined step counts as done.

A copy that the step budget cuts off does not end done, and with a critic no copy but the last does:
there the advantages run on into the next copy.

Results:
* `teamAdvantages_eq`: the team's advantages are those of a trajectory that is never done.
* `separate_iff`: when the joined rollout has the advantages and returns of its copies.
* `cutOff_not_separate`: the counterexample.
-/

namespace AstroMine.Learn

variable {A S K : Type} [DecidableEq A] [CommRing K]

/-- `RolloutStep` (`executor.py`, lines 115–127), with what the advantages are computed from: the
reward, the value and the done flag of each live agent, and the state. -/
structure RolloutStep (A S K : Type) [DecidableEq A] where
  agents : Dict A (Sample K)
  state : S

/-- What a PPO or MAPPO trainer computes advantages with. -/
structure Trainer (S K : Type) where
  gamma : K
  gaeLambda : K
  critic : Option (S → K)

/-- The trajectory of an agent (lines 531–533). -/
def agentTrajectory (agent : A) (steps : List (RolloutStep A S K)) : List (Sample K) :=
  steps.filterMap fun step => step.agents.get? agent

/-- The trajectory of the team (lines 565–569): the rewards are added, and the last step is done. -/
def teamTrajectory (critic : S → K) (steps : List (RolloutStep A S K)) : List (Sample K) :=
  steps.zipIdx.map fun (step, i) =>
    { reward := step.agents.total Sample.reward
      value := critic step.state
      done := i + 1 = steps.length }

/-- `_team_advantages` (lines 562–573). -/
def Trainer.teamAdvantages (t : Trainer S K) (steps : List (RolloutStep A S K)) :
    Option (List K) :=
  t.critic.map fun critic => (computeGae t.gamma t.gaeLambda (teamTrajectory critic steps)).1

/-- `_team_returns` (lines 575–582). -/
def Trainer.teamReturns (t : Trainer S K) (steps : List (RolloutStep A S K)) : Option (List K) :=
  t.critic.map fun critic =>
    List.zipWith (· + ·) ((t.teamAdvantages steps).getD []) (steps.map fun step => critic step.state)

/-- The advantages and the returns in the batch of an agent (`_agent_batches`, lines 515–548). An
agent that is live in no step has no batch. -/
def Trainer.agentBatch (t : Trainer S K) (agent : A) (steps : List (RolloutStep A S K)) :
    List K × List K :=
  match t.teamAdvantages steps with
  | some team =>
    let advantages := (steps.zip team).filterMap fun (step, advantage) =>
      (step.agents.get? agent).map fun _ => advantage
    (advantages, advantages)
  | none => computeGae t.gamma t.gaeLambda (agentTrajectory agent steps)

/-- The steps of the joined rollout (`_concat_rollouts`, lines 351–367, and the end of
`batched_rollout`): those of the copies in their order. -/
def concatRollouts (rollouts : List (List (RolloutStep A S K))) : List (RolloutStep A S K) :=
  rollouts.flatten

/-- The joined rollout has the advantages and the returns of its copies. -/
structure Separate (t : Trainer S K) (rollouts : List (List (RolloutStep A S K))) : Prop where
  agentAdvantages : ∀ agent, (t.agentBatch agent (concatRollouts rollouts)).1 =
    (rollouts.map fun rollout => (t.agentBatch agent rollout).1).flatten
  agentReturns : ∀ agent, (t.agentBatch agent (concatRollouts rollouts)).2 =
    (rollouts.map fun rollout => (t.agentBatch agent rollout).2).flatten
  teamAdvantages : (t.teamAdvantages (concatRollouts rollouts)).getD [] =
    (rollouts.map fun rollout => (t.teamAdvantages rollout).getD []).flatten
  teamReturns : (t.teamReturns (concatRollouts rollouts)).getD [] =
    (rollouts.map fun rollout => (t.teamReturns rollout).getD []).flatten

/-- The trajectory of the team with no step done. -/
def openTrajectory (critic : S → K) (steps : List (RolloutStep A S K)) : List (Sample K) :=
  steps.map fun step =>
    { reward := step.agents.total Sample.reward, value := critic step.state, done := false }

/-- The copies are separated: for each agent by its done flags, or, with a critic, for the team
without any. -/
def CopiesSeparated (t : Trainer S K) (rollouts : List (List (RolloutStep A S K))) : Prop :=
  match t.critic with
  | none => ∀ agent, Separated t.gamma t.gaeLambda (rollouts.map (agentTrajectory agent))
  | some critic => Separated t.gamma t.gaeLambda (rollouts.map (openTrajectory critic))

/-! ## The trajectories of the joined rollout -/

omit [CommRing K] in
theorem agentTrajectory_concat (agent : A) (rollouts : List (List (RolloutStep A S K))) :
    agentTrajectory agent (concatRollouts rollouts) =
      (rollouts.map (agentTrajectory agent)).flatten := by
  rw [agentTrajectory, concatRollouts, List.filterMap_flatten]
  rfl

theorem openTrajectory_concat (critic : S → K) (rollouts : List (List (RolloutStep A S K))) :
    openTrajectory critic (concatRollouts rollouts) =
      (rollouts.map (openTrajectory critic)).flatten := by
  rw [openTrajectory, concatRollouts, List.map_flatten]
  rfl

/-- The returns of joined trajectories are joined where the advantages are. -/
theorem returns_joined (gamma gaeLambda : K) {pieces : List (List (Sample K))}
    (h : (computeGae gamma gaeLambda pieces.flatten).1 =
      (pieces.map fun piece => (computeGae gamma gaeLambda piece).1).flatten) :
    (computeGae gamma gaeLambda pieces.flatten).2 =
      (pieces.map fun piece => (computeGae gamma gaeLambda piece).2).flatten := by
  show List.zipWith _ (computeGae gamma gaeLambda pieces.flatten).1 _ = _
  rw [h, List.map_flatten]
  refine zipWith_flatten _ _ _ pieces fun piece _ => ?_
  rw [computeGae_eq, length_backScan, List.length_map]

/-- The flag of the last step changes nothing: the advantages of the team are those of a trajectory
that is never done. -/
theorem teamAdvantages_eq (gamma gaeLambda : K) (critic : S → K)
    (steps : List (RolloutStep A S K)) :
    (computeGae gamma gaeLambda (teamTrajectory critic steps)).1 =
      (computeGae gamma gaeLambda (openTrajectory critic steps)).1 := by
  rw [computeGae_eq, computeGae_eq]
  obtain rfl | ⟨before, last, rfl⟩ := List.eq_nil_or_concat' steps
  · rfl
  · have hbefore : teamTrajectory critic (before ++ [last]) = openTrajectory critic before ++
        [{ reward := last.agents.total Sample.reward, value := critic last.state, done := true }] := by
      refine List.ext_getElem (by simp [teamTrajectory, openTrajectory]) fun i hi hi' => ?_
      simp only [teamTrajectory, List.length_map, List.length_zipIdx, List.length_append,
        List.length_singleton] at hi
      by_cases hlast : i < before.length
      · simp [teamTrajectory, openTrajectory, hlast, hlast.ne]
      · obtain rfl : i = before.length := by omega
        simp [teamTrajectory, openTrajectory]
    rw [hbefore, openTrajectory, openTrajectory, List.map_append, backScan_append, backScan_append]
    simp [backScan, advantage, takeOver]

/-- The advantages of the team, with no step done. -/
def Trainer.openAdvantages (t : Trainer S K) (critic : S → K) (steps : List (RolloutStep A S K)) :
    List K :=
  (computeGae t.gamma t.gaeLambda (openTrajectory critic steps)).1

theorem length_openAdvantages (t : Trainer S K) (critic : S → K)
    (steps : List (RolloutStep A S K)) :
    (t.openAdvantages critic steps).length = steps.length := by
  rw [Trainer.openAdvantages, computeGae_eq, length_backScan, openTrajectory, List.length_map]

theorem openAdvantages_joined_iff (t : Trainer S K) (critic : S → K)
    (rollouts : List (List (RolloutStep A S K))) :
    t.openAdvantages critic (concatRollouts rollouts) =
        (rollouts.map (t.openAdvantages critic)).flatten ↔
      Separated t.gamma t.gaeLambda (rollouts.map (openTrajectory critic)) := by
  rw [← advantages_joined_iff, List.map_map, Trainer.openAdvantages, openTrajectory_concat]
  rfl

/-! ## When the advantages stay in their copies -/

/-- Without a critic the batches are joined exactly if the agents' trajectories are separated. -/
theorem separate_of_agents {t : Trainer S K} (hcritic : t.critic = none)
    (rollouts : List (List (RolloutStep A S K))) :
    Separate t rollouts ↔
      ∀ agent, Separated t.gamma t.gaeLambda (rollouts.map (agentTrajectory agent)) := by
  have hbatch (agent : A) (steps : List (RolloutStep A S K)) :
      t.agentBatch agent steps = computeGae t.gamma t.gaeLambda (agentTrajectory agent steps) := by
    rw [Trainer.agentBatch, Trainer.teamAdvantages, hcritic]
    rfl
  have hteam (steps : List (RolloutStep A S K)) : (t.teamAdvantages steps).getD [] = [] := by
    rw [Trainer.teamAdvantages, hcritic]
    rfl
  have hreturns (steps : List (RolloutStep A S K)) : (t.teamReturns steps).getD [] = [] := by
    rw [Trainer.teamReturns, hcritic]
    rfl
  have hjoined (agent : A) := advantages_joined_iff t.gamma t.gaeLambda
    (rollouts.map (agentTrajectory agent))
  constructor
  · intro h agent
    have hagent := h.agentAdvantages agent
    simp only [hbatch, agentTrajectory_concat] at hagent
    exact (hjoined agent).mp (by rwa [List.map_map])
  · intro h
    refine ⟨fun agent => ?_, fun agent => ?_, by simp [hteam], by simp [hreturns]⟩
    · have hadvantages := (hjoined agent).mpr (h agent)
      simp only [hbatch, agentTrajectory_concat]
      rwa [List.map_map] at hadvantages
    · have hadvantages := returns_joined _ _ ((hjoined agent).mpr (h agent))
      simp only [hbatch, agentTrajectory_concat]
      rwa [List.map_map] at hadvantages

/-- With a critic they are exactly if the team's trajectories are, with no step done. -/
theorem separate_of_team {t : Trainer S K} {critic : S → K} (hcritic : t.critic = some critic)
    (rollouts : List (List (RolloutStep A S K))) :
    Separate t rollouts ↔
      Separated t.gamma t.gaeLambda (rollouts.map (openTrajectory critic)) := by
  have hteam (steps : List (RolloutStep A S K)) :
      t.teamAdvantages steps = some (t.openAdvantages critic steps) := by
    rw [Trainer.teamAdvantages, hcritic, Option.map_some, teamAdvantages_eq]
    rfl
  have hlength := length_openAdvantages t critic (A := A)
  rw [← openAdvantages_joined_iff]
  constructor
  · intro h
    have hboth := h.teamAdvantages
    simpa only [hteam, Option.getD_some] using hboth
  · intro h
    have hbatch (agent : A) : (((concatRollouts rollouts).zip
        (t.openAdvantages critic (concatRollouts rollouts))).filterMap fun p : RolloutStep A S K × K =>
          (p.1.agents.get? agent).map fun _ => p.2) =
        (rollouts.map fun rollout => (rollout.zip (t.openAdvantages critic rollout)).filterMap fun p =>
          (p.1.agents.get? agent).map fun _ => p.2).flatten := by
      have hzip := zipWith_flatten Prod.mk id (t.openAdvantages critic) rollouts fun rollout _ =>
        (hlength rollout).symm
      rw [List.map_id] at hzip
      rw [h, concatRollouts, List.zip, hzip, List.filterMap_flatten, List.map_map]
      rfl
    refine ⟨fun agent => ?_, fun agent => ?_, ?_, ?_⟩
    · simp only [Trainer.agentBatch, hteam]
      exact hbatch agent
    · simp only [Trainer.agentBatch, hteam]
      exact hbatch agent
    · simpa only [hteam, Option.getD_some] using h
    · simp only [Trainer.teamReturns, hteam, hcritic, Option.map_some, Option.getD_some]
      rw [h, concatRollouts, List.map_flatten]
      exact zipWith_flatten _ _ _ rollouts fun rollout _ => by rw [hlength, List.length_map]

/-- **Main theorem.** The joined rollout has the advantages and the returns of its copies exactly
if the copies are separated. -/
theorem separate_iff (t : Trainer S K) (rollouts : List (List (RolloutStep A S K))) :
    Separate t rollouts ↔ CopiesSeparated t rollouts := by
  unfold CopiesSeparated
  cases hcritic : t.critic with
  | none => exact separate_of_agents hcritic rollouts
  | some critic => exact separate_of_team hcritic rollouts

/-! ## A copy that is cut off -/

/-- A copy of one step with reward 1, in which the only agent is not done. -/
def cutOffCopy : List (RolloutStep String Unit ℤ) :=
  [{ agents := Dict.ofList [("rover", { reward := 1, value := 0, done := false })], state := () }]

/-- **Counterexample.** Two copies of one step are cut off by the step budget: the first one's
advantage, 1 alone, is 2 in the joined rollout. -/
theorem cutOff_not_separate :
    ¬Separate (⟨1, 1, none⟩ : Trainer Unit ℤ) [cutOffCopy, cutOffCopy] := by
  intro h
  have hrover := h.agentAdvantages "rover"
  revert hrover
  decide

end AstroMine.Learn
