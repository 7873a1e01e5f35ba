import Mathlib.Data.List.DropRight
import Mathlib.Data.String.Basic
import AstroMine.Lib.Dict
import AstroMine.Lib.Flt
import AstroMine.Lib.Transition

/-!
# Staged curricula (`learn/curriculum/staged.py`, `spec.py`)

A curriculum holds each stage until the rule of the stage was satisfied on so many updates in a row,
and goes on to the next. At the last stage it is done, and may be updated on.

Thresholds and metrics are floats with exact arithmetic. The fields of a stage that an update does
not read are left out.

Results:
* `updates_held`: the counters tell what was fed in while the stage was held.
* `promotesExactly_iff`: when a curriculum promotes exactly.
* `fedOn_not_exact`: the counterexample.
-/

namespace AstroMine.Learn

variable {K : Type} [LinearOrder K]

/-! ## Specs -/

/-- `mode` of `AdvanceRule`. -/
inductive AdvanceMode
  | ge
  | le
  deriving DecidableEq, Repr

/-- `AdvanceRule` (`spec.py`, lines 52–72). -/
structure AdvanceRule (K : Type) where
  metric : String := "mean_reward"
  threshold : Flt K
  mode : AdvanceMode := .ge
  patience : ℕ := 1
  minIterations : ℕ := 1
  patience_pos : 0 < patience := by decide
  minIterations_pos : 0 < minIterations := by decide

/-- `AdvanceRule.satisfied` (lines 70–72). -/
def AdvanceRule.satisfied (rule : AdvanceRule K) (value : Flt K) : Bool :=
  match rule.mode with
  | .ge => rule.threshold ≤ value
  | .le => value ≤ rule.threshold

/-- `StageSpec` (lines 124–136), up to the fields that an update does not read. -/
structure StageSpec (K : Type) where
  name : String
  advance : AdvanceRule K

/-- `CurriculumSpec` (lines 139–160). -/
structure CurriculumSpec (K : Type) where
  stages : List (StageSpec K)
  stages_ne_nil : stages ≠ []
  names_nodup : (stages.map StageSpec.name).Nodup

/-! ## The curriculum -/

/-- A record of `history`. -/
structure StageRecord (K : Type) where
  stageIndex : ℕ
  stageName : String
  iterations : ℕ
  metric : String
  value : Option (Flt K)

/-- The state of `StagedCurriculum` (lines 185–193). -/
structure StagedCurriculum (spec : CurriculumSpec K) where
  index : Fin spec.stages.length
  streak : ℕ
  iterations : ℕ
  done : Bool
  history : List (StageRecord K)

/-- The metrics of an update. -/
abbrev Metrics (K : Type) := Dict String (Flt K)

variable {spec : CurriculumSpec K}

/-- `StagedCurriculum.__init__`. -/
def StagedCurriculum.init (spec : CurriculumSpec K) : StagedCurriculum spec where
  index := ⟨0, List.length_pos_iff.mpr spec.stages_ne_nil⟩
  streak := 0
  iterations := 0
  done := false
  history := []

/-- `stage_spec` (lines 205–208). -/
def StagedCurriculum.stageSpec (c : StagedCurriculum spec) : StageSpec K := spec.stages[c.index]

/-- Whether an update satisfies a rule (lines 238–239): a missing metric does not. -/
def AdvanceRule.satisfiedBy (rule : AdvanceRule K) (metrics : Metrics K) : Bool :=
  (metrics.get? rule.metric).any rule.satisfied

/-- `_streak` after an update (lines 239–242). -/
def StagedCurriculum.streakAfter (c : StagedCurriculum spec) (metrics : Metrics K) : ℕ :=
  if c.stageSpec.advance.satisfiedBy metrics then c.streak + 1 else 0

/-- `ready` (line 244). -/
def StagedCurriculum.Ready (c : StagedCurriculum spec) (metrics : Metrics K) : Prop :=
  c.stageSpec.advance.patience ≤ c.streakAfter metrics ∧
    c.stageSpec.advance.minIterations ≤ c.iterations + 1

instance (c : StagedCurriculum spec) (metrics : Metrics K) : Decidable (c.Ready metrics) :=
  inferInstanceAs (Decidable (_ ∧ _))

/-- What is recorded for a stage (lines 248–256). -/
def StagedCurriculum.record (c : StagedCurriculum spec) (metrics : Metrics K) : StageRecord K where
  stageIndex := c.index
  stageName := c.stageSpec.name
  iterations := c.iterations + 1
  metric := c.stageSpec.advance.metric
  value := metrics.get? c.stageSpec.advance.metric

/-- `StagedCurriculum.update` (lines 233–264): whether it promoted, and what it leaves. -/
def StagedCurriculum.update (c : StagedCurriculum spec) (metrics : Metrics K) :
    Bool × StagedCurriculum spec :=
  if c.Ready metrics then
    let history := c.history ++ [c.record metrics]
    if h : c.index + 1 < spec.stages.length then
      (true, { c with index := ⟨c.index + 1, h⟩, streak := 0, iterations := 0, history })
    else
      (false, { c with
        streak := c.streakAfter metrics, iterations := c.iterations + 1, done := true, history })
  else (false, { c with streak := c.streakAfter metrics, iterations := c.iterations + 1 })

/-- The curriculum after some updates. -/
def updates (spec : CurriculumSpec K) (past : List (Metrics K)) : StagedCurriculum spec :=
  past.foldl (fun c metrics => (c.update metrics).2) (.init spec)

/-! ## The law -/

/-- The index of the stage after some updates. -/
def stageAfter (spec : CurriculumSpec K) (past : List (Metrics K)) : ℕ := (updates spec past).index

/-- The updates that were made in the current stage: it was not reached before them. -/
def Held (spec : CurriculumSpec K) (past held : List (Metrics K)) : Prop :=
  ∃ before, past = before ++ held ∧ stageAfter spec before = stageAfter spec past ∧
    ∀ earlier, earlier <+: before → earlier ≠ before →
      stageAfter spec earlier < stageAfter spec past

/-- A rule is met by the updates of a stage: they are enough, and the last of them satisfy it. -/
def AdvanceRule.MetBy (rule : AdvanceRule K) (held : List (Metrics K)) : Prop :=
  rule.minIterations ≤ held.length ∧ rule.patience ≤ held.length ∧
    ∀ metrics ∈ held.drop (held.length - rule.patience), rule.satisfiedBy metrics = true

/-- An update meets the rule of the stage that is current. -/
def MetAt (spec : CurriculumSpec K) (past : List (Metrics K)) (metrics : Metrics K) : Prop :=
  ∃ held, Held spec past held ∧ (updates spec past).stageSpec.advance.MetBy (held ++ [metrics])

/-- How many stages are completed. -/
def completed (c : StagedCurriculum spec) : ℕ := c.index + if c.done then 1 else 0

/-- A curriculum promotes exactly, in a run of updates. -/
structure PromotesExactly (spec : CurriculumSpec K) (run : List (Metrics K)) : Prop where
  steps : ∀ past metrics, past ++ [metrics] <+: run →
    stageAfter spec past ≤ stageAfter spec (past ++ [metrics]) ∧
      stageAfter spec (past ++ [metrics]) ≤ stageAfter spec past + 1
  leaves : ∀ past metrics, past ++ [metrics] <+: run →
    (stageAfter spec past < stageAfter spec (past ++ [metrics]) ↔
      MetAt spec past metrics ∧ stageAfter spec past + 1 < spec.stages.length)
  finishes : ∀ past, past <+: run →
    ((updates spec past).done = true ↔ ∃ before metrics, before ++ [metrics] <+: past ∧
      MetAt spec before metrics ∧ stageAfter spec before + 1 = spec.stages.length)
  records : ∀ past, past <+: run →
    (updates spec past).history.map StageRecord.stageIndex = List.range (completed (updates spec past))
  names : ∀ past, past <+: run → ∀ record ∈ (updates spec past).history,
    (spec.stages[record.stageIndex]?).map StageSpec.name = some record.stageName

/-! ## One update -/

/-- What an update does: it counts, or it promotes, or it completes the last stage. -/
theorem update_cases (c : StagedCurriculum spec) (metrics : Metrics K) :
    (¬c.Ready metrics ∧ (c.update metrics).2 =
      { c with streak := c.streakAfter metrics, iterations := c.iterations + 1 }) ∨
    (c.Ready metrics ∧ ∃ h : c.index + 1 < spec.stages.length, (c.update metrics).2 =
      { c with
        index := ⟨c.index + 1, h⟩
        streak := 0
        iterations := 0
        history := c.history ++ [c.record metrics] }) ∨
    (c.Ready metrics ∧ c.index + 1 = spec.stages.length ∧ (c.update metrics).2 =
      { c with
        streak := c.streakAfter metrics
        iterations := c.iterations + 1
        done := true
        history := c.history ++ [c.record metrics] }) := by
  unfold StagedCurriculum.update
  by_cases hready : c.Ready metrics
  · by_cases hlast : c.index + 1 < spec.stages.length
    · exact Or.inr (Or.inl ⟨hready, hlast, by simp [hready, hlast]⟩)
    · refine Or.inr (Or.inr ⟨hready, ?_, by simp [hready, hlast]⟩)
      have := c.index.isLt
      omega
  · exact Or.inl ⟨hready, by simp [hready]⟩

theorem updates_append (past : List (Metrics K)) (metrics : Metrics K) :
    updates spec (past ++ [metrics]) = ((updates spec past).update metrics).2 := by
  rw [updates, List.foldl_append]
  rfl

variable (spec) in
/-- The stage stays or goes on by one. -/
theorem stageAfter_append (past : List (Metrics K)) (metrics : Metrics K) :
    stageAfter spec (past ++ [metrics]) =
      if (updates spec past).Ready metrics ∧ stageAfter spec past + 1 < spec.stages.length then
        stageAfter spec past + 1
      else stageAfter spec past := by
  unfold stageAfter
  rw [updates_append]
  obtain ⟨hready, heq⟩ | ⟨hready, hlast, heq⟩ | ⟨hready, hlast, heq⟩ :=
    update_cases (updates spec past) metrics
  · rw [heq, if_neg fun h => hready h.1]
  · rw [heq, if_pos ⟨hready, hlast⟩]
  · rw [heq, if_neg fun h => by omega]

theorem stageAfter_mono {past later : List (Metrics K)} (h : past <+: later) :
    stageAfter spec past ≤ stageAfter spec later := by
  obtain ⟨rest, rfl⟩ := h
  induction rest using List.reverseRecOn with
  | nil => rw [List.append_nil]
  | append_singleton rest metrics ih =>
    rw [← List.append_assoc, stageAfter_append]
    split_ifs <;> omega

/-! ## What the counters tell -/

theorem le_length_takeWhile {α : Type} {p : α → Bool} (n : ℕ) (xs : List α) :
    n ≤ (xs.takeWhile p).length ↔ n ≤ xs.length ∧ ∀ x ∈ xs.take n, p x = true := by
  induction xs generalizing n with
  | nil => simp
  | cons x xs ih =>
    cases n with
    | zero => simp
    | succ n =>
      by_cases hx : p x = true
      · simp [hx, ih]
      · simp [hx]

/-- A rule that the last updates satisfy so often is satisfied by so many of the last. -/
theorem le_length_rtakeWhile {α : Type} {p : α → Bool} (n : ℕ) (xs : List α) :
    n ≤ (xs.rtakeWhile p).length ↔
      n ≤ xs.length ∧ ∀ x ∈ xs.drop (xs.length - n), p x = true := by
  rw [List.rtakeWhile, List.length_reverse, le_length_takeWhile, List.take_reverse,
    List.length_reverse]
  simp only [List.mem_reverse]

/-- The updates of a stage are told by the run. -/
theorem Held.unique {past held held' : List (Metrics K)} (h : Held spec past held)
    (h' : Held spec past held') : held = held' := by
  obtain ⟨before, hpast, hstage, hfirst⟩ := h
  obtain ⟨before', hpast', hstage', hfirst'⟩ := h'
  have hsame : before = before' := by
    obtain hle | hle := List.prefix_or_prefix_of_prefix ⟨held, hpast.symm⟩ ⟨held', hpast'.symm⟩
    · by_contra hne
      exact absurd hstage (hfirst' before hle hne).ne
    · by_contra hne
      exact absurd hstage' (hfirst before' hle (Ne.symm hne)).ne
  rw [hpast, hsame] at hpast'
  exact List.append_cancel_left hpast'

/-- While the stage stays its updates grow. -/
theorem Held.append {past held : List (Metrics K)} {metrics : Metrics K} (h : Held spec past held)
    (hstage : stageAfter spec (past ++ [metrics]) = stageAfter spec past) :
    Held spec (past ++ [metrics]) (held ++ [metrics]) := by
  obtain ⟨before, hpast, hbefore, hfirst⟩ := h
  refine ⟨before, by rw [hpast, List.append_assoc], hbefore.trans hstage.symm, ?_⟩
  rw [hstage]
  exact hfirst

/-- A new stage has none. -/
theorem held_nil {past : List (Metrics K)} {metrics : Metrics K}
    (hstage : stageAfter spec past < stageAfter spec (past ++ [metrics])) :
    Held spec (past ++ [metrics]) [] := by
  refine ⟨past ++ [metrics], (List.append_nil _).symm, rfl, fun earlier hpre hne => ?_⟩
  have hshort : earlier <+: past := by
    obtain hpre | heq := List.prefix_concat_iff.mp hpre |>.symm
    · exact hpre
    · exact absurd heq hne
  exact (stageAfter_mono hshort).trans_lt hstage

/-- A streak that was counted goes on to be. -/
theorem streakAfter_eq {c : StagedCurriculum spec} {held : List (Metrics K)}
    (h : c.streak = (held.rtakeWhile c.stageSpec.advance.satisfiedBy).length)
    (metrics : Metrics K) : c.streakAfter metrics =
      ((held ++ [metrics]).rtakeWhile c.stageSpec.advance.satisfiedBy).length := by
  rw [StagedCurriculum.streakAfter, List.rtakeWhile_concat, h]
  split_ifs <;> simp

variable (spec) in
/-- **Run.** The counters tell what was fed in while the stage was held. -/
theorem updates_held (past : List (Metrics K)) : ∃ held, Held spec past held ∧
    (updates spec past).iterations = held.length ∧ (updates spec past).streak =
      (held.rtakeWhile (updates spec past).stageSpec.advance.satisfiedBy).length := by
  induction past using List.reverseRecOn with
  | nil => exact ⟨[], ⟨[], rfl, rfl, fun earlier h hne => absurd (List.prefix_nil.mp h) hne⟩, rfl, rfl⟩
  | append_singleton past metrics ih =>
    obtain ⟨held, hheld, hiterations, hstreak⟩ := ih
    have hstage := stageAfter_append spec past metrics
    have hcount := streakAfter_eq hstreak metrics
    rw [updates_append]
    obtain ⟨hready, heq⟩ | ⟨hready, hlast, heq⟩ | ⟨hready, hlast, heq⟩ :=
      update_cases (updates spec past) metrics
    · rw [if_neg fun h => hready h.1] at hstage
      refine ⟨held ++ [metrics], hheld.append hstage, ?_, ?_⟩
      · rw [heq, List.length_append, ← hiterations]
        rfl
      · rw [heq]
        exact hcount
    · rw [if_pos ⟨hready, hlast⟩] at hstage
      exact ⟨[], held_nil (by omega), by rw [heq]; rfl, by rw [heq]; rfl⟩
    · rw [if_neg fun h => by have := h.2; rw [stageAfter] at this; omega] at hstage
      refine ⟨held ++ [metrics], hheld.append hstage, ?_, ?_⟩
      · rw [heq, List.length_append, ← hiterations]
        rfl
      · rw [heq]
        exact hcount

/-- An update is ready exactly if it meets the rule of its stage. -/
theorem ready_iff (past : List (Metrics K)) (metrics : Metrics K) :
    (updates spec past).Ready metrics ↔ MetAt spec past metrics := by
  obtain ⟨held, hheld, hiterations, hstreak⟩ := updates_held spec past
  have hcount := streakAfter_eq hstreak metrics
  have hmet : (updates spec past).Ready metrics ↔
      (updates spec past).stageSpec.advance.MetBy (held ++ [metrics]) := by
    rw [StagedCurriculum.Ready, AdvanceRule.MetBy, hcount, le_length_rtakeWhile, hiterations]
    simp only [List.length_append, List.length_singleton]
    tauto
  rw [hmet]
  constructor
  · exact fun h => ⟨held, hheld, h⟩
  · rintro ⟨held', hheld', h⟩
    rwa [hheld.unique hheld']

/-! ## Completion and records -/

theorem update_done_iff (c : StagedCurriculum spec) (metrics : Metrics K) :
    (c.update metrics).2.done = true ↔
      c.done = true ∨ c.Ready metrics ∧ c.index + 1 = spec.stages.length := by
  obtain ⟨hready, heq⟩ | ⟨hready, hlast, heq⟩ | ⟨hready, hlast, heq⟩ := update_cases c metrics
  · rw [heq]
    exact ⟨Or.inl, fun h => h.resolve_right fun h => hready h.1⟩
  · rw [heq]
    exact ⟨Or.inl, fun h => h.resolve_right fun h => by omega⟩
  · rw [heq]
    exact ⟨fun _ => Or.inr ⟨hready, hlast⟩, fun _ => rfl⟩

/-- It is done from the moment at which the rule of the last stage is met. -/
theorem updates_done_iff (past : List (Metrics K)) :
    (updates spec past).done = true ↔ ∃ before metrics, before ++ [metrics] <+: past ∧
      MetAt spec before metrics ∧ stageAfter spec before + 1 = spec.stages.length := by
  induction past using List.reverseRecOn with
  | nil =>
    refine ⟨fun h => (by cases h), fun ⟨before, metrics, hpre, _⟩ => ?_⟩
    exact absurd (List.prefix_nil.mp hpre) (by simp)
  | append_singleton past last ih =>
    rw [updates_append, update_done_iff, ih, ready_iff]
    constructor
    · rintro (⟨before, metrics, hpre, h⟩ | h)
      · exact ⟨before, metrics, hpre.trans (List.prefix_append _ _), h⟩
      · exact ⟨past, last, List.prefix_rfl, h⟩
    · rintro ⟨before, metrics, hpre, h⟩
      obtain heq | hpre := List.prefix_concat_iff.mp hpre
      · obtain ⟨rfl, rfl⟩ := List.append_inj' heq rfl |>.imp_right List.singleton_inj.mp
        exact Or.inr h
      · exact Or.inl ⟨before, metrics, hpre, h⟩

/-- Each record names its stage. -/
theorem updates_names (past : List (Metrics K)) : ∀ record ∈ (updates spec past).history,
    (spec.stages[record.stageIndex]?).map StageSpec.name = some record.stageName := by
  induction past using List.reverseRecOn with
  | nil => exact fun _ h => (by cases h)
  | append_singleton past metrics ih =>
    have hnamed : ∀ record ∈ (updates spec past).history ++ [(updates spec past).record metrics],
        (spec.stages[record.stageIndex]?).map StageSpec.name = some record.stageName := by
      simp only [List.mem_append, List.mem_singleton]
      rintro record (h | rfl)
      · exact ih record h
      · rw [StagedCurriculum.record, List.getElem?_eq_getElem (updates spec past).index.isLt]
        rfl
    rw [updates_append]
    obtain ⟨-, heq⟩ | ⟨-, _, heq⟩ | ⟨-, -, heq⟩ := update_cases (updates spec past) metrics
    · rw [heq]
      exact ih
    · rw [heq]
      exact hnamed
    · rw [heq]
      exact hnamed

/-- Only the last stage is done. -/
def DoneAtLast (c : StagedCurriculum spec) : Prop :=
  c.done = true → c.index + 1 = spec.stages.length

/-- One record stands for each completed stage. -/
def Recorded (c : StagedCurriculum spec) : Prop :=
  c.history.map StageRecord.stageIndex = List.range (completed c)

theorem doneAtLast_update {c : StagedCurriculum spec} (metrics : Metrics K) (h : DoneAtLast c) :
    DoneAtLast (c.update metrics).2 := by
  intro hdone
  obtain ⟨-, heq⟩ | ⟨-, hlast, heq⟩ | ⟨-, hlast, heq⟩ := update_cases c metrics
  · rw [heq] at hdone ⊢
    exact h hdone
  · rw [heq] at hdone
    have := h hdone
    omega
  · rw [heq]
    exact hlast

/-- **Step.** The records stay right unless a completed curriculum is ready again. -/
theorem recorded_update_iff {c : StagedCurriculum spec} (metrics : Metrics K) (hlast : DoneAtLast c)
    (h : Recorded c) : Recorded (c.update metrics).2 ↔ (c.done = true → ¬c.Ready metrics) := by
  have hone : (c.history ++ [c.record metrics]).map StageRecord.stageIndex =
      List.range (completed c) ++ [(c.index : ℕ)] := by
    rw [List.map_append, h]
    rfl
  obtain ⟨hready, heq⟩ | ⟨hready, hnext, heq⟩ | ⟨hready, hend, heq⟩ := update_cases c metrics
  · rw [heq]
    exact iff_of_true h fun _ => hready
  · have hgoing : c.done = false := Bool.not_eq_true _ ▸ fun hdone => by
      have := hlast hdone
      omega
    rw [heq]
    refine iff_of_true ?_ fun hdone => absurd hdone (by simp [hgoing])
    rw [Recorded, hone]
    simp [completed, hgoing, List.range_succ]
  · rw [heq, Recorded, hone]
    cases hdone : c.done with
    | true =>
      refine iff_of_false (fun heq => ?_) fun h => h rfl hready
      have hlength := congrArg List.length heq
      simp [completed, hdone] at hlength
    | false =>
      refine iff_of_true ?_ fun h => (by cases h)
      simp [completed, hdone, List.range_succ]

/-- **Main theorem.** A curriculum promotes exactly, in a run of updates, if and only if no update
after its completion meets the rule of the last stage again. -/
theorem promotesExactly_iff (spec : CurriculumSpec K) (run : List (Metrics K)) :
    PromotesExactly spec run ↔ ∀ past metrics, past ++ [metrics] <+: run →
      (updates spec past).done = true → ¬MetAt spec past metrics := by
  have hrecords : (∀ past, past <+: run → Recorded (updates spec past)) ↔
      ∀ past metrics, past ++ [metrics] <+: run → (updates spec past).done = true →
        ¬(updates spec past).Ready metrics := by
    unfold updates
    exact Transition.foldl_invariant_iff (W := DoneAtLast)
      (fun c metrics hlast => doneAtLast_update metrics hlast)
      (fun c metrics hlast h => recorded_update_iff metrics hlast h) (fun h => (by cases h)) rfl
  have hready : (∀ past metrics, past ++ [metrics] <+: run → (updates spec past).done = true →
      ¬MetAt spec past metrics) ↔ ∀ past metrics, past ++ [metrics] <+: run →
        (updates spec past).done = true → ¬(updates spec past).Ready metrics := by
    simp only [ready_iff]
  rw [hready]
  constructor
  · intro h
    exact hrecords.mp h.records
  · intro h
    refine ⟨fun past metrics _ => ?_, fun past metrics _ => ?_, fun past _ => updates_done_iff past,
      hrecords.mpr h, fun past _ => updates_names past⟩
    · rw [stageAfter_append]
      split_ifs <;> omega
    · rw [stageAfter_append, ← ready_iff]
      split_ifs with hmet
      · exact iff_of_true (by omega) hmet
      · exact iff_of_false (by omega) hmet

/-! ## A curriculum that is fed on -/

/-- One stage, with a bar that each reward of 1 clears. -/
def oneStage : CurriculumSpec ℚ where
  stages := [{ name := "easy", advance := { threshold := .fin 1 } }]
  stages_ne_nil := by simp
  names_nodup := by simp

/-- The metrics of a good iteration. -/
def goodReward : Metrics ℚ := Dict.ofList [("mean_reward", .fin 1)]

/-- **Counterexample.** A second good update after the last stage records the stage again. -/
theorem fedOn_not_exact :
    (updates oneStage [goodReward, goodReward]).history.map StageRecord.stageIndex = [0, 0] ∧
      ¬PromotesExactly oneStage [goodReward, goodReward] := by
  have hhistory :
      (updates oneStage [goodReward, goodReward]).history.map StageRecord.stageIndex = [0, 0] := by
    decide +kernel
  refine ⟨hhistory, fun h => ?_⟩
  have hrecords := h.records _ List.prefix_rfl
  rw [hhistory] at hrecords
  revert hrecords
  decide +kernel

end AstroMine.Learn
