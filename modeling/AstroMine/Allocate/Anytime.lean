import AstroMine.Allocate.CpSat
import AstroMine.Allocate.Incumbent
import AstroMine.Allocate.Meaning

/-!
# The anytime stream

`BoundTracker` (`anytime/bounds.py`), `stream_incumbents` (`anytime/stream.py`) and the incumbents
that `CpSatSolver` hands to them (`solvers/cpsat.py`). The search of the backend is data here: what
its reader shows at each callback and at the end.

Results:
* `trackAll_tightening`: the exposed bounds tighten, whatever the raw bounds do.
* `trackAll_gap`: an exposed gap is the one of the exposed bound.
* `streamIncumbents_honest_iff`: when the exposed stream is honest.
-/

namespace AstroMine.Allocate

open Rounding

/-! ## Objective values by sense -/

/-- The first value is no better than the second. -/
def Below (sense : ObjectiveSense) (a b : ℚ) : Prop :=
  match sense with
  | .maximize => a ≤ b
  | .minimize => b ≤ a

theorem Below.refl (sense : ObjectiveSense) (a : ℚ) : Below sense a a := by
  cases sense <;> exact le_refl a

theorem Below.trans {sense : ObjectiveSense} {a b c : ℚ} (h : Below sense a b)
    (h' : Below sense b c) : Below sense a c := by
  cases sense with
  | maximize => exact le_trans (α := ℚ) h h'
  | minimize => exact le_trans (α := ℚ) h' h

theorem Below.antisymm {sense : ObjectiveSense} {a b : ℚ} (h : Below sense a b)
    (h' : Below sense b a) : a = b := by
  cases sense with
  | maximize => exact le_antisymm (α := ℚ) h h'
  | minimize => exact le_antisymm (α := ℚ) h' h

/-- The tighter of two bounds (`bounds.py`, lines 42–47). -/
def tighten (sense : ObjectiveSense) (best bound : ℚ) : ℚ :=
  match sense with
  | .maximize => min best bound
  | .minimize => max best bound

theorem tighten_below_left (sense : ObjectiveSense) (best bound : ℚ) :
    Below sense (tighten sense best bound) best := by
  cases sense with
  | maximize => exact min_le_left best bound
  | minimize => exact le_max_left best bound

theorem tighten_below_right (sense : ObjectiveSense) (best bound : ℚ) :
    Below sense (tighten sense best bound) bound := by
  cases sense with
  | maximize => exact min_le_right best bound
  | minimize => exact le_max_right best bound

theorem tighten_eq (sense : ObjectiveSense) (best bound : ℚ) :
    tighten sense best bound = best ∨ tighten sense best bound = bound := by
  cases sense with
  | maximize => exact min_choice best bound
  | minimize => exact max_choice best bound

/-- `abs(bound - objective) / max(abs(objective), 1.0)` (`bounds.py`, line 49). -/
def relativeGap (bound objective : ℚ) : ℚ := |bound - objective| / max |objective| 1

theorem relativeGap_scale_pos (objective : ℚ) : 0 < max |objective| 1 :=
  lt_of_lt_of_le one_pos (le_max_right _ _)

/-- The gap to a bound beyond the optimum is at least the gap to the optimum. -/
theorem relativeGap_mono {sense : ObjectiveSense} {objective optimum bound : ℚ}
    (ho : Below sense objective optimum) (hb : Below sense optimum bound) :
    relativeGap optimum objective ≤ relativeGap bound objective := by
  unfold relativeGap
  refine div_le_div_of_nonneg_right ?_ (relativeGap_scale_pos objective).le
  cases sense with
  | maximize =>
    change objective ≤ optimum at ho
    change optimum ≤ bound at hb
    rw [abs_of_nonneg (by linarith), abs_of_nonneg (by linarith)]
    linarith
  | minimize =>
    change optimum ≤ objective at ho
    change bound ≤ optimum at hb
    rw [abs_of_nonpos (by linarith), abs_of_nonpos (by linarith)]
    linarith

theorem relativeGap_eq_zero_iff (bound objective : ℚ) :
    relativeGap bound objective = 0 ↔ bound = objective := by
  unfold relativeGap
  rw [div_eq_zero_iff, or_iff_left (relativeGap_scale_pos objective).ne', abs_eq_zero, sub_eq_zero]

/-! ## The tracker -/

/-- `BoundTracker` (`bounds.py`, lines 25–36). -/
structure BoundTracker where
  sense : ObjectiveSense
  bestBound : Option ℚ := none

/-- The bound after one more raw bound. -/
def BoundTracker.clamp (tracker : BoundTracker) (bound : ℚ) : ℚ :=
  match tracker.bestBound with
  | none => bound
  | some best => tighten tracker.sense best bound

/-- `BoundTracker.track` (lines 38–51). -/
def BoundTracker.track (tracker : BoundTracker) (incumbent : Incumbent) :
    BoundTracker × Incumbent :=
  match incumbent.bound with
  | none => (tracker, incumbent)
  | some raw =>
    let bound := tracker.clamp raw
    ({ tracker with bestBound := some bound },
      { incumbent with bound := some bound, gap := some (relativeGap bound incumbent.objective) })

/-- The incumbents of a stream, tracked in order. -/
def BoundTracker.trackAll (tracker : BoundTracker) : List Incumbent → List Incumbent
  | [] => []
  | i :: is => (tracker.track i).2 :: (tracker.track i).1.trackAll is

/-- `stream_incumbents` (`stream.py`, lines 41–57) on what the solver emits. -/
def streamIncumbents (sense : ObjectiveSense) (raw : List Incumbent) : List Incumbent :=
  BoundTracker.trackAll { sense := sense } raw

/-! ## What the tracker exposes -/

namespace BoundTracker

theorem track_none (tracker : BoundTracker) {i : Incumbent} (h : i.bound = none) :
    tracker.track i = (tracker, i) := by
  unfold track
  rw [h]

theorem track_some (tracker : BoundTracker) {i : Incumbent} {raw : ℚ} (h : i.bound = some raw) :
    tracker.track i = ({ tracker with bestBound := some (tracker.clamp raw) },
      { i with
        bound := some (tracker.clamp raw)
        gap := some (relativeGap (tracker.clamp raw) i.objective) }) := by
  unfold track
  rw [h]

theorem clamp_below (tracker : BoundTracker) (raw : ℚ) :
    Below tracker.sense (tracker.clamp raw) raw ∧
      ∀ best ∈ tracker.bestBound, Below tracker.sense (tracker.clamp raw) best := by
  unfold clamp
  cases tracker.bestBound with
  | none => exact ⟨Below.refl _ _, by simp⟩
  | some best =>
    refine ⟨tighten_below_right _ _ _, ?_⟩
    rintro _ ⟨⟩
    exact tighten_below_left _ _ _

theorem clamp_eq (tracker : BoundTracker) (raw : ℚ) :
    tracker.bestBound = some (tracker.clamp raw) ∨ tracker.clamp raw = raw := by
  unfold clamp
  cases tracker.bestBound with
  | none => exact .inr rfl
  | some best =>
    rcases tighten_eq tracker.sense best raw with h | h
    · exact .inl (congrArg some h.symm)
    · exact .inr h

/-- Objectives are exposed as they come. -/
theorem trackAll_objectives (tracker : BoundTracker) (raw : List Incumbent) :
    (tracker.trackAll raw).map Incumbent.objective = raw.map Incumbent.objective := by
  induction raw generalizing tracker with
  | nil => rfl
  | cons i is ih =>
    rw [trackAll, List.map_cons, List.map_cons, ih]
    cases hbound : i.bound with
    | none => rw [track_none tracker hbound]
    | some b => rw [track_some tracker hbound]

/-- An exposed incumbent is a raw one without a bound, or has the gap to its bound. -/
theorem trackAll_gap {tracker : BoundTracker} {raw : List Incumbent} {i : Incumbent}
    (hi : i ∈ tracker.trackAll raw) :
    (i.bound = none ∧ i ∈ raw) ∨
      ∃ b, i.bound = some b ∧ i.gap = some (relativeGap b i.objective) := by
  induction raw generalizing tracker with
  | nil => cases hi
  | cons j js ih =>
    rw [trackAll, List.mem_cons] at hi
    rcases hi with rfl | hi
    · cases hbound : j.bound with
      | none =>
        rw [track_none tracker hbound]
        exact .inl ⟨hbound, List.mem_cons_self⟩
      | some b =>
        rw [track_some tracker hbound]
        exact .inr ⟨_, rfl, rfl⟩
    · exact (ih hi).imp (fun h => ⟨h.1, List.mem_cons_of_mem _ h.2⟩) id

/-- Raw incumbents without a bound are exposed as they are. -/
theorem mem_trackAll_of_unbounded {tracker : BoundTracker} {raw : List Incumbent} {i : Incumbent}
    (hi : i ∈ raw) (hbound : i.bound = none) : i ∈ tracker.trackAll raw := by
  induction raw generalizing tracker with
  | nil => cases hi
  | cons j js ih =>
    rw [trackAll, List.mem_cons]
    rcases List.mem_cons.mp hi with rfl | hi
    · rw [track_none tracker hbound]
      exact .inl rfl
    · exact .inr (ih hi)

/-- An exposed bound lies between the objective of its incumbent and what it was clamped from, when
every raw bound and the bound before them is beyond the optimum. -/
theorem trackAll_valid {tracker : BoundTracker} {raw : List Incumbent} {optimum : ℚ}
    (hraw : ∀ i ∈ raw, ∀ b ∈ i.bound,
      Below tracker.sense i.objective optimum ∧ Below tracker.sense optimum b)
    (hbest : ∀ best ∈ tracker.bestBound, Below tracker.sense optimum best) :
    ∀ i ∈ tracker.trackAll raw, ∀ b ∈ i.bound,
      Below tracker.sense i.objective optimum ∧ Below tracker.sense optimum b := by
  induction raw generalizing tracker with
  | nil => simp [trackAll]
  | cons j js ih =>
    obtain ⟨hj, hjs⟩ := List.forall_mem_cons.mp hraw
    rw [trackAll, List.forall_mem_cons]
    cases hbound : j.bound with
    | none =>
      rw [track_none tracker hbound]
      exact ⟨hj, ih hjs hbest⟩
    | some b =>
      rw [track_some tracker hbound]
      obtain ⟨hobjective, hb⟩ := hj b hbound
      have hclamp : Below tracker.sense optimum (tracker.clamp b) := by
        rcases tracker.clamp_eq b with h | h
        · exact hbest _ h
        · rwa [h]
      refine ⟨?_, ih hjs ?_⟩
      · rintro _ ⟨⟩
        exact ⟨hobjective, hclamp⟩
      · rintro _ ⟨⟩
        exact hclamp

/-- The exposed bounds tighten, from the best bound before them on. -/
theorem trackAll_tightening (tracker : BoundTracker) (raw : List Incumbent) :
    ((tracker.trackAll raw).filterMap Incumbent.bound).Pairwise
        (fun b b' => Below tracker.sense b' b) ∧
      ∀ best ∈ tracker.bestBound, ∀ b ∈ (tracker.trackAll raw).filterMap Incumbent.bound,
        Below tracker.sense b best := by
  induction raw generalizing tracker with
  | nil => exact ⟨.nil, by simp [trackAll]⟩
  | cons i is ih =>
    rw [trackAll]
    cases hbound : i.bound with
    | none =>
      rw [track_none tracker hbound, List.filterMap_cons_none hbound]
      exact ih tracker
    | some raw =>
      rw [track_some tracker hbound,
        List.filterMap_cons_some (show Incumbent.bound _ = some (tracker.clamp raw) from rfl)]
      obtain ⟨hpair, hbest⟩ := ih { tracker with bestBound := some (tracker.clamp raw) }
      have hclamp := (tracker.clamp_below raw).2
      refine ⟨List.pairwise_cons.mpr ⟨fun b hb => hbest _ rfl b hb, hpair⟩, ?_⟩
      intro best hbest' b hb
      rcases List.mem_cons.mp hb with rfl | hb
      · exact hclamp best hbest'
      · exact (hbest _ rfl b hb).trans (hclamp best hbest')

/-- The last exposed incumbent is the last raw one, but for a bound that is one of the raw bounds
and no looser than any of them. -/
theorem trackAll_last {tracker : BoundTracker} {raw : List Incumbent} {j : Incumbent}
    (hj : raw.getLast? = some j) :
    ∃ i, (tracker.trackAll raw).getLast? = some i ∧ i.objective = j.objective ∧
      i.status = j.status ∧ (i.bound = none ↔ j.bound = none) ∧ ∀ b ∈ i.bound,
        (tracker.bestBound = some b ∨ ∃ k ∈ raw, k.bound = some b) ∧
        (∀ best ∈ tracker.bestBound, Below tracker.sense b best) ∧
        ∀ k ∈ raw, ∀ b' ∈ k.bound, Below tracker.sense b b' := by
  induction raw generalizing tracker with
  | nil => cases hj
  | cons k ks ih =>
    rw [List.getLast?_cons] at hj
    rw [trackAll]
    cases hlast : ks.getLast? with
    | none =>
      obtain rfl := List.getLast?_eq_none_iff.mp hlast
      obtain rfl := Option.some.inj hj
      refine ⟨(tracker.track k).2, rfl, ?_⟩
      cases hbound : k.bound with
      | none =>
        rw [track_none tracker hbound]
        simp [hbound]
      | some raw =>
        rw [track_some tracker hbound]
        refine ⟨rfl, rfl, by simp [hbound], ?_⟩
        rintro _ ⟨⟩
        refine ⟨(tracker.clamp_eq raw).imp id fun h => ⟨k, by simp, by rw [hbound, h]⟩,
          (tracker.clamp_below raw).2, ?_⟩
        simp only [List.mem_singleton, forall_eq, hbound]
        rintro _ ⟨⟩
        exact (tracker.clamp_below raw).1
    | some l =>
      rw [hlast] at hj
      obtain rfl := Option.some.inj hj
      obtain ⟨i, hi, hobj, hstatus, hnone, hb⟩ := @ih (tracker.track k).1 hlast
      refine ⟨i, by rw [List.getLast?_cons, hi]; rfl, hobj, hstatus, hnone, fun b hbi => ?_⟩
      obtain ⟨hfrom, hbest, hraw⟩ := hb b hbi
      cases hbound : k.bound with
      | none =>
        rw [track_none tracker hbound] at hfrom hbest hraw
        refine ⟨?_, hbest, ?_⟩
        · rcases hfrom with hfrom | ⟨k', hk', h⟩
          · exact .inl hfrom
          · exact .inr ⟨k', List.mem_cons_of_mem _ hk', h⟩
        · rw [List.forall_mem_cons]
          exact ⟨by simp [hbound], hraw⟩
      | some raw =>
        rw [track_some tracker hbound] at hfrom hbest hraw
        have hclamp := hbest _ rfl
        obtain ⟨hbelow, hbelow'⟩ := tracker.clamp_below raw
        refine ⟨?_, fun best hmem => hclamp.trans (hbelow' best hmem), ?_⟩
        · rcases hfrom with hfrom | ⟨k', hk', h⟩
          · obtain rfl := Option.some.inj hfrom
            exact (tracker.clamp_eq raw).imp id fun h =>
              ⟨k, List.mem_cons_self, by rw [hbound, h]⟩
          · exact .inr ⟨k', List.mem_cons_of_mem _ hk', h⟩
        · rw [List.forall_mem_cons]
          refine ⟨?_, hraw⟩
          rw [hbound]
          rintro _ ⟨⟩
          exact hclamp.trans hbelow

end BoundTracker

/-! ## An honest stream -/

/-- The law of an anytime stream: objectives improve, bounds tighten, a gap is the gap to the own
bound and no less than the gap to the optimum, and a proven optimum has none. -/
structure Honest (sense : ObjectiveSense) (optimum : ℚ) (stream : List Incumbent) : Prop where
  improving : (stream.map Incumbent.objective).Pairwise (Below sense)
  tightening : (stream.filterMap Incumbent.bound).Pairwise fun b b' => Below sense b' b
  gap : ∀ i ∈ stream, i.gap = i.bound.map fun b => relativeGap b i.objective
  suboptimality : ∀ i ∈ stream, ∀ g ∈ i.gap, relativeGap optimum i.objective ≤ g
  closed : ∀ i ∈ stream.getLast?, i.status = .optimal → ∀ b ∈ i.bound,
    b = i.objective ∧ i.gap = some 0

/-- The bounds of a raw stream are valid: each is beyond the optimum, and the incumbent that carries
it is a solution. -/
def ValidBounds (sense : ObjectiveSense) (optimum : ℚ) (raw : List Incumbent) : Prop :=
  ∀ i ∈ raw, ∀ b ∈ i.bound, Below sense i.objective optimum ∧ Below sense optimum b

/-- What makes a raw stream honest once it is tracked: its objectives improve, an incumbent without
a bound has no gap, and a proven optimum has met one of the bounds. -/
structure Proper (sense : ObjectiveSense) (raw : List Incumbent) : Prop where
  improving : (raw.map Incumbent.objective).Pairwise (Below sense)
  unbounded : ∀ i ∈ raw, i.bound = none → i.gap = none
  met : ∀ i ∈ raw.getLast?, i.status = .optimal → i.bound ≠ none →
    ∃ j ∈ raw, j.bound = some i.objective

/-- **Main theorem.** The stream exposed for valid bounds, in any order, is honest if and only if
the raw objectives improve, gaps come with bounds, and a proven optimum has met one of them. -/
theorem streamIncumbents_honest_iff {sense : ObjectiveSense} {optimum : ℚ} {raw : List Incumbent}
    (hvalid : ValidBounds sense optimum raw) :
    Honest sense optimum (streamIncumbents sense raw) ↔ Proper sense raw := by
  have hexposed : ValidBounds sense optimum (streamIncumbents sense raw) :=
    BoundTracker.trackAll_valid hvalid (by simp)
  constructor
  · rintro ⟨himproving, -, hgap, -, hclosed⟩
    refine ⟨?_, fun i hi hnone => ?_, fun j hj hopt hbound => ?_⟩
    · rwa [streamIncumbents, BoundTracker.trackAll_objectives] at himproving
    · rw [hgap i (BoundTracker.mem_trackAll_of_unbounded hi hnone), hnone]
      rfl
    · obtain ⟨i, hi, hobj, hstatus, hnone, hlast⟩ :=
        @BoundTracker.trackAll_last { sense := sense } raw j hj
      obtain ⟨b, hb⟩ := Option.ne_none_iff_exists'.mp (mt hnone.mp hbound)
      obtain ⟨heq, -⟩ := hclosed i hi (hstatus.trans hopt) b hb
      rcases (hlast b hb).1 with hbest | ⟨k, hk, hkb⟩
      · cases hbest
      · exact ⟨k, hk, by rw [hkb, heq, hobj]⟩
  · rintro ⟨himproving, hunbounded, hmet⟩
    have hgap : ∀ i ∈ streamIncumbents sense raw,
        i.gap = i.bound.map fun b => relativeGap b i.objective := by
      intro i hi
      rcases BoundTracker.trackAll_gap hi with ⟨hnone, hmem⟩ | ⟨b, hb, hg⟩
      · rw [hunbounded i hmem hnone, hnone]
        rfl
      · rw [hg, hb]
        rfl
    refine ⟨?_, (BoundTracker.trackAll_tightening { sense := sense } raw).1, hgap, fun i hi g hg => ?_,
      fun i hi hopt b hb => ?_⟩
    · rwa [streamIncumbents, BoundTracker.trackAll_objectives]
    · rw [hgap i hi] at hg
      obtain ⟨b, hb, rfl⟩ := Option.mem_map.mp hg
      obtain ⟨hobj, hbound⟩ := hexposed i hi b hb
      exact relativeGap_mono hobj hbound
    · have hmem := List.mem_of_getLast? hi
      have heq : b = i.objective := by
        obtain ⟨j, hj⟩ : ∃ j, raw.getLast? = some j := by
          cases hraw : raw.getLast? with
          | none =>
            rw [List.getLast?_eq_none_iff.mp hraw] at hi
            cases hi
          | some j => exact ⟨j, rfl⟩
        obtain ⟨i', hi', hobj, hstatus, hnone, hlast⟩ :=
          @BoundTracker.trackAll_last { sense := sense } raw j hj
        obtain rfl := Option.some.inj (hi.symm.trans hi')
        have hbound : j.bound ≠ none := by
          rw [Ne, ← hnone, hb]
          simp
        obtain ⟨k, hk, hkb⟩ := hmet j hj (hstatus.symm.trans hopt) hbound
        obtain ⟨hlo, hhi⟩ := hexposed i hmem b hb
        refine Below.antisymm ?_ (hlo.trans hhi)
        rw [hobj]
        exact (hlast b hb).2.2 k hk _ hkb
      refine ⟨heq, ?_⟩
      rw [hgap i hmem, hb, Option.map_some, (relativeGap_eq_zero_iff b i.objective).mpr heq]

/-- Three incumbents, the second with a looser bound than the first. -/
def regressingBounds : List Incumbent := [
  { objective := 4, bound := some 10, gap := none, plan := [], status := .feasible },
  { objective := 4, bound := some 12, gap := none, plan := [], status := .feasible },
  { objective := 5, bound := some 5, gap := some 0, plan := [], status := .optimal }]

theorem regressingBounds_honest :
    Honest .maximize 5 (streamIncumbents .maximize regressingBounds) := by
  have hvalid : ValidBounds .maximize 5 regressingBounds := by
    intro i hi b hb
    simp only [regressingBounds, List.mem_cons, List.not_mem_nil, or_false] at hi
    rcases hi with rfl | rfl | rfl <;> obtain rfl := Option.some.inj hb <;>
      constructor <;> simp only [Below] <;> norm_num
  refine (streamIncumbents_honest_iff hvalid).mpr ⟨?_, ?_, ?_⟩
  · simp [regressingBounds, Below]
    norm_num
  · simp [regressingBounds]
  · rintro i ⟨⟩ - -
    exact ⟨_, List.mem_of_getLast? rfl, rfl⟩

/-! ## The driver of the backend (`solvers/cpsat.py`) -/

/-- The status of a search. -/
inductive CpStatus where
  | optimal | feasible | infeasible | modelInvalid | unknown
  deriving DecidableEq, Repr

/-- What the reader of the backend shows: the values of the variables and `BestObjectiveBound`. -/
structure Reading where
  value : String → ℤ
  bestObjectiveBound : ℚ

/-- A search: the solutions its callback has seen, its status and its last solution. -/
structure Search where
  callbacks : List Reading
  status : CpStatus
  last : Reading

/-- `CpSatSolver` (lines 71–92). -/
structure CpSatSolver where
  taskKinds : Dict String TaskKind
  durations : Dict (String × String) ℚ
  timeScale : ℤ := defaultTimeScale
  objectiveScale : ℤ := defaultObjectiveScale

namespace CpSatSolver

variable (solver : CpSatSolver)

/-- The assignment of a solution (lines 233–236). -/
def assignmentOf (ir : AllocationIR) (reading : Reading) : Dict String String :=
  Dict.ofList (ir.decisionVariables.filterMap fun var =>
    if var.semantic = .assignment then do
      let taskId ← truthy var.taskRef
      let assetId ← truthy var.assetRef
      if reading.value var.id = 1 then some (taskId, assetId) else none
    else none)

/-- The starts of a solution (lines 237–238). -/
def startsOf (ir : AllocationIR) (reading : Reading) : Dict String ℚ :=
  Dict.ofList (ir.decisionVariables.filterMap fun var =>
    if var.semantic = .startTime then
      (truthy var.taskRef).map fun taskId => (taskId, reading.value var.id / solver.timeScale)
    else none)

/-- `_extract_incumbent` (lines 220–249). -/
def extractIncumbent (ir : AllocationIR) (compiled : CpSatModel) (status : AllocationStatus)
    (reading : Reading) : Except PlanError Incumbent := do
  let assignment := assignmentOf ir reading
  let objective := realizedObjective ir assignment
  let bound := if compiled.hasObjective then
    some (reading.bestObjectiveBound / compiled.objectiveScale) else none
  let plan ← buildPlan assignment (solver.startsOf ir reading) solver.taskKinds solver.durations
  return {
    objective := objective
    bound := bound
    gap := bound.map fun b => relativeGap b objective
    plan := plan
    status := status }

/-- `_map_terminal_status` (lines 64–68). -/
def mapTerminalStatus (status : CpStatus) : AllocationStatus :=
  if status = .infeasible then .infeasible else .unknown

/-- `_finalize` (lines 155–189). -/
def finalize (ir : AllocationIR) (compiled : CpSatModel) (status : CpStatus) (last : Reading)
    (stream : List Incumbent) : Except PlanError (List Incumbent) :=
  if status = .optimal ∨ status = .feasible then do
    let terminal ← solver.extractIncumbent ir compiled
      (if status = .optimal then .optimal else .feasible) last
    let terminal := if status = .optimal ∧ compiled.hasObjective = true then
      { terminal with gap := some 0 } else terminal
    return stream.dropLast ++ [terminal]
  else
    .ok [{
      objective := 0
      bound := none
      gap := none
      plan := []
      status := mapTerminalStatus status
      isFeasible := false }]

/-- `solve` (lines 101–123) over a search of the lowered model, the callback included
(lines 192–217). -/
def solve (ir : AllocationIR) (compiled : CpSatModel) (search : Search) :
    Except PlanError (List Incumbent) := do
  let stream ← search.callbacks.mapM (solver.extractIncumbent ir compiled .feasible)
  solver.finalize ir compiled search.status search.last stream

theorem extractIncumbent_gap {ir : AllocationIR} {compiled : CpSatModel} {status : AllocationStatus}
    {reading : Reading} {i : Incumbent}
    (h : solver.extractIncumbent ir compiled status reading = .ok i) :
    i.gap = i.bound.map (fun b => relativeGap b i.objective) ∧
      (i.bound = none ↔ compiled.hasObjective = false) := by
  simp only [extractIncumbent, bind_eq_ok] at h
  obtain ⟨plan, -, h⟩ := h
  cases h
  refine ⟨rfl, ?_⟩
  cases compiled.hasObjective <;> simp

/-- The incumbents of the driver have a gap only with a bound. -/
theorem solve_unbounded {ir : AllocationIR} {compiled : CpSatModel} {search : Search}
    {raw : List Incumbent} (h : solver.solve ir compiled search = .ok raw) :
    ∀ i ∈ raw, i.bound = none → i.gap = none := by
  simp only [solve, bind_eq_ok] at h
  obtain ⟨stream, hstream, h⟩ := h
  unfold finalize at h
  by_cases hstatus : search.status = .optimal ∨ search.status = .feasible
  · rw [if_pos hstatus, bind_eq_ok] at h
    obtain ⟨terminal, hterminal, h⟩ := h
    cases h
    intro i hi hnone
    rcases List.mem_append.mp hi with hi | hi
    · obtain ⟨reading, -, hr⟩ := (mem_of_mapM hstream i).mp (List.mem_of_mem_dropLast hi)
      rw [(solver.extractIncumbent_gap hr).1, hnone]
      rfl
    · obtain ⟨hgap, hbound⟩ := solver.extractIncumbent_gap hterminal
      obtain rfl := List.mem_singleton.mp hi
      split_ifs at hnone ⊢ with hopt
      · rw [hbound.mp hnone] at hopt
        exact absurd hopt.2 Bool.false_ne_true
      · rw [hgap, hnone]
        rfl
  · rw [if_neg hstatus] at h
    cases h
    simp

end CpSatSolver

/-! ## An optimum with a gap -/

/-- One task that is worth two thirds. -/
def thirdsRequest : AllocationRequest where
  tasks := [{ pointTask "survey" [] with valueMean := 2 / 3 }]
  assets := [rover]
  objective := ⟨.maximize, Dict.empty⟩
  tasks_ne_nil := by decide
  assets_ne_nil := rover_ne_nil
  taskIds_nodup := by decide
  assetIds_nodup := rover_nodup
  precedence_irrefl := by decide
  precedence_known := by decide
  precedence_acyclic := by decide +kernel

/-- The search that assigns the task and proves the optimum of the scaled objective. -/
def thirdsSearch : Search where
  callbacks := []
  status := .optimal
  last := { value := fun id => if id = "assign::survey::rover" then 1 else 0
            bestObjectiveBound := 666667 }

/-- The driver for the request. -/
def thirdsSolver : CpSatSolver where
  taskKinds := Dict.ofList [("survey", .sample)]
  durations := .empty

/-- The bound that closes the scaled objective is not the objective of the plan: the optimum is
exposed with a gap. -/
theorem thirdsStream_not_honest : ∃ ir compiled raw, compileRequest thirdsRequest = .ok ir ∧
    lowerToCpsat ir defaultTimeScale defaultObjectiveScale = .ok compiled ∧
    (compiled.objective.map fun o => linearValue thirdsSearch.last.value o.2) = some 666667 ∧
    thirdsSolver.solve ir compiled thirdsSearch = .ok raw ∧
    ValidBounds .maximize (2 / 3) raw ∧
    ¬ Honest .maximize (2 / 3) (streamIncumbents .maximize raw) := by
  have h : ((compileRequest thirdsRequest).toOption.any fun ir =>
      (lowerToCpsat ir defaultTimeScale defaultObjectiveScale).toOption.any fun compiled =>
        (thirdsSolver.solve ir compiled thirdsSearch).toOption.any fun raw =>
          decide ((compiled.objective.map fun o => linearValue thirdsSearch.last.value o.2) =
              some 666667 ∧
            raw.map (fun i => (i.objective, i.bound, i.status)) =
              [(2 / 3, some (666667 / 1000000), .optimal)])) = true := by
    decide +kernel
  obtain ⟨ir, hir, h⟩ := exists_ok_of_any h
  obtain ⟨compiled, hcompiled, h⟩ := exists_ok_of_any h
  obtain ⟨raw, hraw, h⟩ := exists_ok_of_any h
  obtain ⟨hscaled, hmap⟩ := of_decide_eq_true h
  obtain ⟨i, rest, rfl, hi, hrest⟩ := List.map_eq_cons_iff.mp hmap
  obtain rfl := List.map_eq_nil_iff.mp hrest
  simp only [Prod.mk.injEq] at hi
  obtain ⟨hobj, hbound, hstatus⟩ := hi
  refine ⟨ir, compiled, [i], hir, hcompiled, hscaled, hraw, ?_, fun hhonest => ?_⟩
  · intro j hj b hb
    obtain rfl := List.mem_singleton.mp hj
    obtain rfl := Option.some.inj (hbound.symm.trans hb)
    rw [hobj]
    constructor <;> simp only [Below] <;> norm_num
  · have hstream : streamIncumbents .maximize [i] =
        [(BoundTracker.track { sense := .maximize } i).2] := rfl
    rw [BoundTracker.track_some _ hbound] at hstream
    have hclosed := hhonest.closed
    rw [hstream] at hclosed
    obtain ⟨heq, -⟩ := hclosed _ rfl hstatus _ rfl
    dsimp only [BoundTracker.clamp] at heq
    rw [hobj] at heq
    norm_num at heq

end AstroMine.Allocate
