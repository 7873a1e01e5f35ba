import Mathlib.Data.Finset.Sort
import Mathlib.Data.String.Basic
import AstroMine.Lib.Instances
import AstroMine.Bench.Scoring
import AstroMine.Bench.SubmitHub

/-!
# Result collection (`bench/eval/_collect.py`)

`collect_submission` reads the metrics and the trace of each run result back from the artifact
store, keeps the values of those that pass its checks by metric and seed, and aggregates them into
a scorecard. A result that fails a check flags the submission. The store and the two decoders are
parameters (`Reader`), and an `int` cell stands for a `bool` one as well, as it does in Python.

The checks look at the first row of a result only, let one without a trace pass, and do not compare
results of one seed: the last value that is written stays.

Results:
* `absorb_all`: the variables after the loop, by the reports of the accepted results.
* `collect_eq_ok`: when the collection succeeds, and what scorecard it then gives.
-/

namespace AstroMine.Bench

open scoped Texts

/-! ## What is collected -/

/-- `RunResult` (`cloud/submission/result.py`, lines 25–40): whether it succeeded, and the content
addresses of its outputs. -/
structure RunResult where
  ok : Bool
  outputs : Dict String String

/-- A cell of a Parquet table, by its Python type. -/
inductive Cell (K : Type)
  | null
  | int (n : ℤ)
  | float (x : K)
  | str (s : String)
  | other
  deriving DecidableEq

/-- The artifact store with `read_metrics_parquet` (lines 46–53) and `_trace_seed` (lines 56–66): a
read fails, or gives the rows of a table and the seed in the provenance of a trace. -/
structure Reader (K ε : Type) where
  metrics : String → Except ε (List (Dict String (Cell K)))
  traceSeed : String → Except ε (Option ℤ)

/-- What the collection raises. -/
inductive CollectError (ε : Type)
  | unreadable (e : ε)
  | missingColumn (column : String)
  | noRollouts
  | mixedRunners (runners : List String)
  | scoring (e : ScoreError)

/-- `METRICS_OUTPUT` (`_plan.py`, line 59). -/
def metricsOutput : String := "metrics.parquet"

/-- `TRACE_OUTPUT` (line 61). -/
def traceOutput : String := "trace.mcap"

/-- What an accepted result reports: its seed, its runner, and the values of its rows. -/
structure Report (K : Type) where
  seed : ℤ
  runner : String
  values : List (String × Option K)

variable {K ε τ : Type}

/-- `row[column]`. -/
def column (row : Dict String (Cell K)) (name : String) : Except (CollectError ε) (Cell K) :=
  match row.get? name with
  | some cell => .ok cell
  | none => .error (.missingColumn name)

/-- The value of one row, if it has one (lines 117–120). -/
def rowValue (row : Dict String (Cell K)) :
    Except (CollectError ε) (Option (String × Option K)) := do
  let name ← column row "metric"
  let value ← column row "value"
  match name, value with
  | .str name, .null => return some (name, none)
  | .str name, .float x => return some (name, some x)
  | _, _ => return none

/-- `rows[0]["seed"] if rows else None`, where it is an `int` (lines 95 and 101). -/
def parquetSeed : List (Dict String (Cell K)) → Except (CollectError ε) (Option ℤ)
  | [] => .ok none
  | row :: _ => do
    match ← column row "seed" with
    | .int seed => return some seed
    | _ => return none

/-- `rows[0].get("runner") if rows else None`, where it is a `str` that is not empty (lines 106
and 107). -/
def seedRunner : List (Dict String (Cell K)) → Option String
  | [] => none
  | row :: _ =>
    match row.get? "runner" with
    | some (.str runner) => if runner = "" then none else some runner
    | _ => none

/-- The seed of the trace, if there is one (lines 96–100). -/
def readTraceSeed (reader : Reader K ε) (result : RunResult) :
    Except (CollectError ε) (Option ℤ) :=
  match result.outputs.get? traceOutput with
  | none => .ok none
  | some address => (reader.traceSeed address).mapError .unreadable

/-- One round of the loop up to the rows (lines 90–120): `none` where the submission is flagged. -/
def examine (reader : Reader K ε) (result : RunResult) :
    Except (CollectError ε) (Option (Report K)) :=
  match result.ok, result.outputs.get? metricsOutput with
  | true, some address => do
    let rows ← (reader.metrics address).mapError .unreadable
    let seed ← parquetSeed rows
    let traceSeed ← readTraceSeed reader result
    match seed, seedRunner rows with
    | some seed, some runner =>
      if traceSeed.any (· ≠ seed) then return none
      let values ← rows.mapM rowValue
      return some { seed, runner, values := values.filterMap id }
    | _, _ => return none
  | _, _ => .ok none

/-- The variables of the loop (lines 84–87). -/
structure Collecting (K : Type) where
  perSeedByMetric : Dict String (Dict ℤ (Option K))
  seedsSeen : Finset ℤ
  runnersSeen : Finset String
  integrity : Integrity

/-- Their values before it; every metric of the set has an entry. -/
def Collecting.init (metrics : List (Metric K τ)) : Collecting K where
  perSeedByMetric := Dict.ofList (metrics.map fun metric => (metric.name, .empty))
  seedsSeen := ∅
  runnersSeen := ∅
  integrity := .verified

/-- `per_seed_by_metric.setdefault(name, {})[parquet_seed] = value`. -/
def writeValue (seed : ℤ) (perSeed : Dict String (Dict ℤ (Option K))) (value : String × Option K) :
    Dict String (Dict ℤ (Option K)) :=
  perSeed.update value.1 fun old => (old.getD .empty).set seed value.2

/-- What a round does with what it found. -/
def Collecting.absorb (state : Collecting K) : Option (Report K) → Collecting K
  | none => { state with integrity := .flagged }
  | some report =>
    { perSeedByMetric := report.values.foldl (writeValue report.seed) state.perSeedByMetric
      seedsSeen := insert report.seed state.seedsSeen
      runnersSeen := insert report.runner state.runnersSeen
      integrity := state.integrity }

/-- `per_seed_by_metric.get(name, {}).get(seed)`. -/
def Collecting.value (state : Collecting K) (name : String) (seed : ℤ) : Option K :=
  ((state.perSeedByMetric.getD name .empty).get? seed).join

section Collect

variable [Field K] [LinearOrder K] [HasSqrt K]

/-- What follows the loop (lines 122–146), up to the scorecard and the integrity that are bound to
the request. -/
def Collecting.finish (state : Collecting K) (metrics : List (Metric K τ))
    (scenarioId : Option String) : Except (CollectError ε) (Scorecard K × Integrity) :=
  if state.seedsSeen = ∅ then .error .noRollouts
  else if 1 < state.runnersSeen.card then
    .error (.mixedRunners (state.runnersSeen.sort (· ≤ ·)))
  else
    let seeds := state.seedsSeen.sort (· ≤ ·)
    let perSeed := perSeedOf metrics seeds fun metric seed => state.value metric.name seed
    let runner := (state.runnersSeen.sort (· ≤ ·)).headD ""
    ((aggregateScores metrics perSeed seeds scenarioId runner).mapError .scoring).map
      fun card => (card, state.integrity)

/-- `collect_submission` (lines 69–149). -/
def collectScorecard (reader : Reader K ε) (metrics : List (Metric K τ))
    (scenarioId : Option String) (results : List RunResult) :
    Except (CollectError ε) (Scorecard K × Integrity) := do
  let state ← results.foldlM (fun state result => return state.absorb (← examine reader result))
    (Collecting.init metrics)
  state.finish metrics scenarioId

end Collect

/-! ## The loop -/

/-- The last value that a report gives a metric. -/
def Report.last (report : Report K) (name : String) : Option (Option K) :=
  ((report.values.filter fun value => value.1 = name).map Prod.snd).getLast?

/-- The value that is written for a metric at a seed, if any: the last one of the last report. -/
def lastWritten (reports : List (Report K)) (name : String) (seed : ℤ) : Option (Option K) :=
  reports.reverse.findSome? fun report => if report.seed = seed then report.last name else none

/-- What is written for a metric at a seed. -/
def Collecting.written (state : Collecting K) (name : String) (seed : ℤ) : Option (Option K) :=
  (state.perSeedByMetric.getD name .empty).get? seed

theorem getD_writeValue (seed : ℤ) (perSeed : Dict String (Dict ℤ (Option K)))
    (value : String × Option K) (name : String) :
    (writeValue seed perSeed value).getD name .empty =
      if name = value.1 then (perSeed.getD name .empty).set seed value.2
      else perSeed.getD name .empty := by
  simp only [writeValue, Dict.getD, Dict.get?_update]
  split_ifs with h
  · rw [h]
    rfl
  · rfl

/-- The values of one report, written in order. -/
theorem written_values (seed seed' : ℤ) (name : String) (values : List (String × Option K))
    (perSeed : Dict String (Dict ℤ (Option K))) :
    ((values.foldl (writeValue seed) perSeed).getD name .empty).get? seed' =
      (if seed = seed' then
        ((values.filter fun value => value.1 = name).map Prod.snd).getLast? else none).or
      ((perSeed.getD name .empty).get? seed') := by
  induction values using List.reverseRecOn with
  | nil => simp
  | append_singleton values value ih =>
    rw [List.foldl_append, List.foldl_cons, List.foldl_nil, getD_writeValue, List.filter_append]
    by_cases hname : name = value.1
    · rw [if_pos hname, Dict.get?_set]
      by_cases hseed : seed = seed'
      · simp [hname, hseed]
      · rw [if_neg (Ne.symm hseed), ih, if_neg hseed, if_neg hseed]
    · rw [if_neg hname, ih]
      simp [Ne.symm hname]

theorem written_absorb (state : Collecting K) (report : Report K) (name : String) (seed : ℤ) :
    (state.absorb (some report)).written name seed =
      (if report.seed = seed then report.last name else none).or (state.written name seed) :=
  written_values report.seed seed name report.values state.perSeedByMetric

theorem written_init (metrics : List (Metric K τ)) (name : String) (seed : ℤ) :
    (Collecting.init metrics).written name seed = none := by
  simp only [Collecting.written, Collecting.init, Dict.getD]
  cases h : (Dict.ofList (metrics.map fun metric =>
      (metric.name, (Dict.empty : Dict ℤ (Option K))))).get? name with
  | none => rfl
  | some d =>
    obtain ⟨metric, -, heq⟩ := List.mem_map.mp (Dict.get?_ofList_mem h)
    obtain ⟨-, rfl⟩ := Prod.mk.inj heq
    rfl

/-- The variables after the loop, by the reports of the accepted results. -/
theorem absorb_all (metrics : List (Metric K τ)) (reports : List (Option (Report K))) :
    let state := reports.foldl Collecting.absorb (Collecting.init metrics)
    let accepted := reports.filterMap id
    state.seedsSeen = (accepted.map Report.seed).toFinset ∧
      state.runnersSeen = (accepted.map Report.runner).toFinset ∧
      (state.integrity = .verified ↔ none ∉ reports) ∧
      ∀ name seed, state.written name seed = lastWritten accepted name seed := by
  induction reports using List.reverseRecOn with
  | nil =>
    exact ⟨rfl, rfl, by simp [Collecting.init], fun name seed => written_init metrics name seed⟩
  | append_singleton reports report ih =>
    obtain ⟨hseeds, hrunners, hintegrity, hwritten⟩ := ih
    simp only [List.foldl_append, List.foldl_cons, List.foldl_nil, List.filterMap_append]
    cases report with
    | none =>
      refine ⟨?_, ?_, ?_, ?_⟩
      · simpa [Collecting.absorb] using hseeds
      · simpa [Collecting.absorb] using hrunners
      · simp [Collecting.absorb]
      · simpa [Collecting.absorb, Collecting.written] using hwritten
    | some report =>
      refine ⟨?_, ?_, ?_, ?_⟩
      · simp only [Collecting.absorb, hseeds]
        ext seed
        simp
      · simp only [Collecting.absorb, hrunners]
        ext runner
        simp
      · simpa [Collecting.absorb] using hintegrity
      · intro name seed
        rw [written_absorb, hwritten]
        simp only [lastWritten, List.filterMap_cons_some (rfl : id (some report) = some report),
          List.filterMap_nil, List.reverse_append, List.reverse_cons, List.reverse_nil,
          List.nil_append, List.cons_append, List.findSome?_cons]
        cases (if report.seed = seed then report.last name else none) <;> rfl

section Outcome

variable [Field K] [LinearOrder K] [HasSqrt K] {reader : Reader K ε} {metrics : List (Metric K τ)}
  {scenarioId : Option String} {results : List RunResult}

/-- The scorecard of the accepted reports. -/
def cardOfReports (metrics : List (Metric K τ)) (scenarioId : Option String)
    (accepted : List (Report K)) : Scorecard K :=
  cardOf metrics ((accepted.map Report.seed).toFinset.sort (· ≤ ·))
    (fun metric seed => (lastWritten accepted metric.name seed).join) scenarioId
    (((accepted.map Report.runner).toFinset.sort (· ≤ ·)).headD "")

omit [Field K] [LinearOrder K] [HasSqrt K] in
/-- At most one runner was seen. -/
theorem card_runners_le_one (accepted : List (Report K)) :
    ¬1 < (accepted.map Report.runner).toFinset.card ↔
      ∀ r ∈ accepted, ∀ r' ∈ accepted, r.runner = r'.runner := by
  rw [not_lt, Finset.card_le_one]
  simp only [List.mem_toFinset, List.mem_map, forall_exists_index, and_imp,
    forall_apply_eq_imp_iff₂]

/-- The end of the loop, for a state that holds the reports of the accepted results. -/
theorem finish_eq {state : Collecting K} {accepted : List (Report K)}
    (hseeds : state.seedsSeen = (accepted.map Report.seed).toFinset)
    (hrunners : state.runnersSeen = (accepted.map Report.runner).toFinset)
    (hwritten : ∀ name seed, state.written name seed = lastWritten accepted name seed) :
    (state.finish metrics scenarioId : Except (CollectError ε) (Scorecard K × Integrity)) =
      if accepted = [] then .error .noRollouts
      else if 1 < (accepted.map Report.runner).toFinset.card then
        .error (.mixedRunners ((accepted.map Report.runner).toFinset.sort (· ≤ ·)))
      else .ok (cardOfReports metrics scenarioId accepted, state.integrity) := by
  have hempty : (accepted.map Report.seed).toFinset = ∅ ↔ accepted = [] := by
    rw [List.toFinset_eq_empty_iff, List.map_eq_nil_iff]
  have hvalue (name : String) (seed : ℤ) :
      state.value name seed = (lastWritten accepted name seed).join :=
    congrArg Option.join (hwritten name seed)
  have hcard (seeds : List ℤ) (runner : String) :
      aggregateScores metrics
        (perSeedOf metrics seeds fun metric seed => state.value metric.name seed) seeds scenarioId
        runner =
      .ok (cardOf metrics seeds (fun metric seed => (lastWritten accepted metric.name seed).join)
        scenarioId runner) := by
    simp only [hvalue]
    refine aggregateScores_eq (fun metric hmetric => get?_perSeedOf hmetric ?_) scenarioId runner
    intro m _ hname
    rw [hname]
  simp only [Collecting.finish, hseeds, hrunners, hempty, hcard]
  rfl

/-- **Spec.** The collection succeeds when every read does, some result is accepted and the
accepted ones name one runner; it gives the scorecard of their reports. -/
theorem collect_eq_ok {card : Scorecard K} {integrity : Integrity} :
    collectScorecard reader metrics scenarioId results = .ok (card, integrity) ↔
      ∃ reports, results.mapM (examine reader) = .ok reports ∧ reports.filterMap id ≠ [] ∧
        (∀ r ∈ reports.filterMap id, ∀ r' ∈ reports.filterMap id, r.runner = r'.runner) ∧
        card = cardOfReports metrics scenarioId (reports.filterMap id) ∧
        (integrity = .verified ↔ none ∉ reports) := by
  rw [collectScorecard, foldlM_eq_mapM]
  cases hreports : results.mapM (examine reader) with
  | error e =>
    constructor
    · intro h
      cases h
    · rintro ⟨reports, h, -⟩
      cases h
  | ok reports =>
    obtain ⟨hseeds, hrunners, hintegrity, hwritten⟩ := absorb_all metrics reports
    have hone := card_runners_le_one (reports.filterMap id)
    show Collecting.finish (reports.foldl Collecting.absorb (Collecting.init metrics)) metrics
      scenarioId = _ ↔ _
    rw [finish_eq hseeds hrunners hwritten]
    constructor
    · intro h
      split_ifs at h with hnone hmixed
      obtain ⟨rfl, rfl⟩ := Prod.mk.inj (Except.ok.inj h)
      exact ⟨reports, rfl, hnone, hone.mp hmixed, rfl, hintegrity⟩
    · rintro ⟨reports', heq, hnone, hrunner, rfl, hverified⟩
      obtain rfl : reports = reports' := Except.ok.inj heq
      rw [if_neg hnone, if_neg (hone.mpr hrunner)]
      have hsame : (reports.foldl Collecting.absorb (Collecting.init metrics)).integrity =
          integrity := by
        rw [← hverified] at hintegrity
        revert hintegrity
        cases (reports.foldl Collecting.absorb (Collecting.init metrics)).integrity <;>
          cases integrity <;> simp
      rw [hsame]

end Outcome

end AstroMine.Bench
