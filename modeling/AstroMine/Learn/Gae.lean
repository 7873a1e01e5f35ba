import Mathlib.Data.List.Chain
import Mathlib.Tactic.Ring
import AstroMine.Lib.BackScan

/-!
# Generalized advantage estimation (`learn/algos/_torch_common.py`)

`compute_gae` runs backwards over a trajectory, which only done flags cut. Rewards and values are
exact numbers of a commutative ring.

What the loop carries from one step to the step before it is one number: the value behind the step,
discounted and mixed with its advantage. Over a whole trajectory it is `bootstrap`, the discounted
sum of what its steps carry, up to the first one that is done.

Results:
* `computeGae_eq`: the advantages as a backward scan.
* `advantages_joined_iff`: when joined trajectories have the advantages that they have alone.
-/

namespace AstroMine.Learn

/-- One step of a trajectory: `rewards[t]`, `values[t]` and `dones[t]`. -/
structure Sample (K : Type) where
  reward : K
  value : K
  done : Bool
  deriving DecidableEq

section Gae

variable {K : Type} [CommRing K] (gamma gaeLambda : K)

/-- `0.0 if dones[t] else 1.0`. -/
def Sample.live (sample : Sample K) : K := if sample.done then 0 else 1

/-- The variables of the loop, with the value of the step behind (0 past the end). -/
structure GaeLoop (K : Type) where
  advantages : List K
  gae : K
  value : K

/-- One round of the loop (lines 103–107). -/
def gaeRound (sample : Sample K) (loop : GaeLoop K) : GaeLoop K :=
  let nextValue := if sample.done then 0 else loop.value
  let delta := sample.reward + gamma * nextValue * sample.live - sample.value
  let gae := delta + gamma * gaeLambda * sample.live * loop.gae
  { advantages := gae :: loop.advantages, gae, value := sample.value }

/-- `compute_gae` (lines 88–109): the advantages and the returns. -/
def computeGae (samples : List (Sample K)) : List K × List K :=
  let advantages := (samples.foldr (gaeRound gamma gaeLambda) ⟨[], 0, 0⟩).advantages
  (advantages, List.zipWith (· + ·) advantages (samples.map Sample.value))

/-! ## What a step takes over -/

/-- What the step in front of this one takes over, given what this one does. -/
def takeOver (sample : Sample K) (behind : K) : K :=
  gamma * ((1 - gaeLambda) * sample.value + gaeLambda * sample.reward) +
    gamma * gaeLambda * sample.live * behind

/-- What a step in front of the trajectory would take over from it: the discounted sum over its
steps up to the first that is done. -/
def bootstrap (samples : List (Sample K)) : K := samples.foldr (takeOver gamma gaeLambda) 0

/-- The advantage of a step. -/
def advantage (sample : Sample K) (behind : K) : K :=
  sample.reward - sample.value + sample.live * behind

/-- The loop takes over the value behind a step, discounted and mixed with its advantage. -/
theorem loop_eq (samples : List (Sample K)) (loop : GaeLoop K) :
    let behind := gamma * (loop.value + gaeLambda * loop.gae)
    let after := samples.foldr (gaeRound gamma gaeLambda) loop
    after.advantages =
        backScan (takeOver gamma gaeLambda) advantage samples behind ++ loop.advantages ∧
      gamma * (after.value + gaeLambda * after.gae) =
        samples.foldr (takeOver gamma gaeLambda) behind := by
  intro behind
  induction samples with
  | nil => exact ⟨rfl, rfl⟩
  | cons sample samples ih =>
    obtain ⟨hadvantages, hbehind⟩ := ih
    rw [List.foldr_cons, List.foldr_cons]
    generalize samples.foldr (gaeRound gamma gaeLambda) loop = after at hadvantages hbehind ⊢
    have hgae : (gaeRound gamma gaeLambda sample after).gae =
        advantage sample (samples.foldr (takeOver gamma gaeLambda) behind) := by
      rw [← hbehind]
      cases hdone : sample.done with
      | true => simp [gaeRound, advantage, Sample.live, hdone]
      | false =>
        simp only [gaeRound, advantage, Sample.live, hdone, Bool.false_eq_true, if_false]
        ring
    refine ⟨?_, ?_⟩
    · show (gaeRound gamma gaeLambda sample after).gae :: after.advantages = _
      rw [hgae, hadvantages]
      rfl
    · show gamma * (sample.value + gaeLambda * (gaeRound gamma gaeLambda sample after).gae) = _
      rw [hgae, takeOver, advantage]
      ring

/-- The advantages are a backward scan with nothing behind the trajectory. -/
theorem computeGae_eq (samples : List (Sample K)) :
    (computeGae gamma gaeLambda samples).1 =
      backScan (takeOver gamma gaeLambda) advantage samples 0 := by
  obtain ⟨hadvantages, -⟩ := loop_eq gamma gaeLambda samples ⟨[], 0, 0⟩
  rw [computeGae, hadvantages, mul_zero, add_zero, mul_zero, List.append_nil]

/-! ## Joined trajectories -/

/-- The trajectory takes over nothing from what is behind it: it has no steps, or its last one is
done, or there is nothing to take over. -/
def Cut (samples : List (Sample K)) (behind : K) : Prop :=
  ∀ sample ∈ samples.getLast?, sample.done = true ∨ behind = 0

/-- A trajectory has the advantages that it has alone exactly if it takes over nothing. -/
theorem advantages_eq_iff (samples : List (Sample K)) (behind : K) :
    backScan (takeOver gamma gaeLambda) advantage samples behind =
        backScan (takeOver gamma gaeLambda) advantage samples 0 ↔
      Cut samples behind := by
  obtain rfl | ⟨before, last, rfl⟩ := List.eq_nil_or_concat' samples
  · simp [backScan, Cut]
  · have hlast : Cut (before ++ [last]) behind ↔ last.done = true ∨ behind = 0 := by
      simp [Cut]
    have hlive : last.live * behind = 0 ↔ last.done = true ∨ behind = 0 := by
      cases hdone : last.done <;> simp [Sample.live, hdone]
    rw [hlast, ← hlive, backScan_append, backScan_append]
    constructor
    · intro h
      have hout := (List.append_inj' h rfl).2
      simpa [backScan, advantage] using hout
    · intro h
      have hsame : takeOver gamma gaeLambda last behind = takeOver gamma gaeLambda last 0 := by
        rw [takeOver, takeOver, mul_assoc, h, mul_zero, mul_zero]
      simp only [backScan, List.foldr_cons, List.foldr_nil, advantage, hsame, h, mul_zero]

/-- A trajectory that takes over nothing, and has steps, gives on what it gives alone. -/
theorem bootstrap_of_cut {samples : List (Sample K)} {behind : K} (h : Cut samples behind)
    (hne : samples ≠ []) :
    samples.foldr (takeOver gamma gaeLambda) behind = bootstrap gamma gaeLambda samples := by
  obtain rfl | ⟨before, last, rfl⟩ := List.eq_nil_or_concat' samples
  · exact absurd rfl hne
  · have hlive : last.live * behind = 0 := by
      obtain hdone | rfl := h last (by simp)
      · simp [Sample.live, hdone]
      · exact mul_zero _
    have hsame : takeOver gamma gaeLambda last behind = takeOver gamma gaeLambda last 0 := by
      rw [takeOver, takeOver, mul_assoc, hlive, mul_zero, mul_zero]
    rw [bootstrap, List.foldr_append, List.foldr_append, List.foldr_cons, List.foldr_cons,
      List.foldr_nil, List.foldr_nil, hsame]

/-- Each trajectory with steps ends done, or the next one with steps gives nothing over. -/
def Separated (pieces : List (List (Sample K))) : Prop :=
  (pieces.filter (· ≠ [])).IsChain fun piece next => Cut piece (bootstrap gamma gaeLambda next)

theorem separated_cons {piece : List (Sample K)} {pieces : List (List (Sample K))}
    (hne : piece ≠ []) :
    Separated gamma gaeLambda (piece :: pieces) ↔
      (∀ next ∈ (pieces.filter (· ≠ [])).head?, Cut piece (bootstrap gamma gaeLambda next)) ∧
        Separated gamma gaeLambda pieces := by
  rw [Separated, Separated, List.filter_cons_of_pos (by simpa using hne)]
  cases pieces.filter (· ≠ []) with
  | nil => simp
  | cons next pieces => simp [List.isChain_cons_cons]

theorem separated_nil_cons {pieces : List (List (Sample K))} :
    Separated gamma gaeLambda ([] :: pieces) ↔ Separated gamma gaeLambda pieces := by
  rw [Separated, List.filter_cons_of_neg (by simp)]
  rfl

/-- Separated trajectories give over what the first one with steps does. -/
theorem bootstrap_flatten {pieces : List (List (Sample K))}
    (h : Separated gamma gaeLambda pieces) :
    bootstrap gamma gaeLambda pieces.flatten =
      ((pieces.filter (· ≠ [])).head?.map (bootstrap gamma gaeLambda)).getD 0 := by
  induction pieces with
  | nil => rfl
  | cons piece pieces ih =>
    by_cases hne : piece = []
    · subst hne
      rw [List.flatten_cons, List.nil_append, List.filter_cons_of_neg (by simp)]
      exact ih ((separated_nil_cons gamma gaeLambda).mp h)
    · obtain ⟨hcut, hrest⟩ := (separated_cons gamma gaeLambda hne).mp h
      rw [List.filter_cons_of_pos (by simpa using hne), List.flatten_cons, bootstrap,
        List.foldr_append]
      refine bootstrap_of_cut gamma gaeLambda ?_ hne
      have hbehind := ih hrest
      rw [bootstrap] at hbehind
      rw [hbehind]
      cases hhead : (pieces.filter (· ≠ [])).head? with
      | none => exact fun _ _ => Or.inr rfl
      | some next => exact hcut next hhead

/-- **Joined.** Joined trajectories have the advantages that they have alone exactly if they are
separated. -/
theorem advantages_joined_iff (pieces : List (List (Sample K))) :
    (computeGae gamma gaeLambda pieces.flatten).1 =
        (pieces.map fun piece => (computeGae gamma gaeLambda piece).1).flatten ↔
      Separated gamma gaeLambda pieces := by
  simp only [computeGae_eq]
  induction pieces with
  | nil => exact iff_of_true rfl List.isChain_nil
  | cons piece pieces ih =>
    rw [backScan_flatten_cons, ih, advantages_eq_iff]
    by_cases hne : piece = []
    · subst hne
      rw [separated_nil_cons]
      exact and_iff_right fun _ h => (by cases h)
    · rw [separated_cons gamma gaeLambda hne]
      refine and_congr_left fun hrest => ?_
      have hbehind := bootstrap_flatten gamma gaeLambda hrest
      rw [bootstrap] at hbehind
      rw [hbehind]
      cases hhead : (pieces.filter (· ≠ [])).head? with
      | none => exact iff_of_true (fun _ _ => Or.inr rfl) fun _ h => (by cases h)
      | some next => simp

end Gae

end AstroMine.Learn
