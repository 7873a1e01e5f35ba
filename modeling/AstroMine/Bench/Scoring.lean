import Mathlib.Algebra.BigOperators.Group.List.Basic
import Mathlib.Data.Rat.Floor
import AstroMine.Lib.Dict
import AstroMine.Lib.Except
import AstroMine.Lib.Flt
import AstroMine.Lib.Instances

/-!
# Scoring and aggregation (`bench/metrics/_score.py`)

`score` computes every metric on the trace of every seed and hands the values, in the order of the
seeds, to `aggregate_scores`, which combines those of each metric by its own rule. Values are exact
numbers of an ordered field, and the square root of the standard deviation is that of the field.
The content hash of a scorecard is left to its users.

Results:
* `aggregateScores_eq`: with as many values as seeds the aggregation gives the scorecard of these
  values.
* `score_eq`: scoring gives the scorecard of the computed values, by sorted seeds.
* `cardOf_inj`: a scorecard determines the values it was made of.
-/

namespace AstroMine.Bench

open scoped Numerals

/-- `MetricDirection` (`core/objective/enums.py`, lines 20–24). -/
inductive MetricDirection
  | higherBetter
  | lowerBetter
  deriving DecidableEq, Repr

/-- `MetricAggregation` (lines 27–38). -/
inductive MetricAggregation
  | mean
  | median
  | min
  | max
  | sum
  | p05
  | p95
  deriving DecidableEq, Repr

/-- `Metric` (`bench/metrics/_metric.py`, lines 62–81): its `compute` gives the value of a trace,
none where the metric does not apply. -/
structure Metric (K τ : Type) where
  name : String
  version : String
  unit : String
  direction : MetricDirection
  aggregation : MetricAggregation
  compute : τ → Option K

/-! ## Aggregation -/

section Aggregators

variable {K : Type} [Field K] [LinearOrder K]

/-- `statistics.fmean`. -/
def fmean (values : List K) : K := values.sum / values.length

/-- `statistics.median`. -/
def median (values : List K) : K :=
  let ordered := sortOn id values
  let half := ordered.length / 2
  if ordered.length % 2 = 1 then ordered.getD half 0
  else (ordered.getD (half - 1) 0 + ordered.getD half 0) / 2

/-- `_percentile` (lines 36–43). -/
def percentile (values : List K) (q : ℚ) : K :=
  let ordered := sortOn id values
  let pos := q * (ordered.length - 1)
  let low := ⌊pos⌋₊
  let high := Nat.min (low + 1) (ordered.length - 1)
  let frac := pos - low
  ordered.getD low 0 * ((1 - frac : ℚ) : K) + ordered.getD high 0 * (frac : K)

/-- `_AGGREGATORS` (lines 46–54). -/
def MetricAggregation.apply (aggregation : MetricAggregation) (values : List K) : K :=
  match aggregation with
  | .mean => fmean values
  | .median => Bench.median values
  | .min => (sortOn id values).getD 0 0
  | .max => (sortOn id values).getD (values.length - 1) 0
  | .sum => values.sum
  | .p05 => percentile values (5 / 100)
  | .p95 => percentile values (95 / 100)

/-- `statistics.stdev`. -/
def stdev [HasSqrt K] (values : List K) : K :=
  let mean := fmean values
  HasSqrt.sqrt ((values.map fun x => (x - mean) * (x - mean)).sum / (values.length - 1))

end Aggregators

/-- `AggregateScore` (lines 63–81). -/
structure AggregateScore (K : Type) where
  metric : String
  version : String
  unit : String
  direction : MetricDirection
  aggregation : MetricAggregation
  value : Option K
  dispersion : Option K
  n : ℕ
  seeds : List ℤ
  perSeed : List (Option K)
  deriving DecidableEq

/-- `Scorecard` (lines 84–103). -/
structure Scorecard (K : Type) where
  scenarioId : Option String
  runner : String
  metrics : List (AggregateScore K)
  deriving DecidableEq

/-- What the aggregation raises: a metric without values, or with another number of values than
there are seeds. -/
inductive ScoreError
  | missing (metric : String)
  | length (metric : String) (values seeds : ℕ)
  deriving DecidableEq

section Scores

variable {K τ : Type} [Field K] [LinearOrder K] [HasSqrt K]

/-- The aggregate of one metric (lines 136–152). -/
def aggregateOf (metric : Metric K τ) (seeds : List ℤ) (perSeed : List (Option K)) :
    AggregateScore K :=
  let applicable := perSeed.filterMap id
  { metric := metric.name
    version := metric.version
    unit := metric.unit
    direction := metric.direction
    aggregation := metric.aggregation
    value := if applicable = [] then none else some (metric.aggregation.apply applicable)
    dispersion := if 2 ≤ applicable.length then some (stdev applicable) else none
    n := applicable.length
    seeds
    perSeed }

/-- The checks of `aggregate_scores` on one metric (lines 129–135), and its aggregate. -/
def aggregateMetric (perSeedByMetric : Dict String (List (Option K))) (seeds : List ℤ)
    (metric : Metric K τ) : Except ScoreError (AggregateScore K) :=
  match perSeedByMetric.get? metric.name with
  | none => .error (.missing metric.name)
  | some perSeed =>
    if perSeed.length ≠ seeds.length then
      .error (.length metric.name perSeed.length seeds.length)
    else .ok (aggregateOf metric seeds perSeed)

/-- `aggregate_scores` (lines 106–153). -/
def aggregateScores (metrics : List (Metric K τ))
    (perSeedByMetric : Dict String (List (Option K))) (seeds : List ℤ) (scenarioId : Option String)
    (runner : String) : Except ScoreError (Scorecard K) := do
  let aggregates ← metrics.mapM (aggregateMetric perSeedByMetric seeds)
  return { scenarioId, runner, metrics := aggregates }

/-- `{metric.name: [value of the metric at each seed]}`. -/
def perSeedOf (metrics : List (Metric K τ)) (seeds : List ℤ)
    (value : Metric K τ → ℤ → Option K) : Dict String (List (Option K)) :=
  Dict.ofList (metrics.map fun metric => (metric.name, seeds.map (value metric)))

/-- `score` (lines 156–179). -/
def score (tracesBySeed : Dict ℤ τ) (metrics : List (Metric K τ)) (scenarioId : Option String)
    (runner : String) : Except ScoreError (Scorecard K) :=
  let seeds := sortOn id tracesBySeed.keys
  aggregateScores metrics
    (perSeedOf metrics seeds fun metric seed => (tracesBySeed.get? seed).bind metric.compute)
    seeds scenarioId runner

/-! ## The scorecard of given values -/

/-- The scorecard of the value of each metric at each seed. -/
def cardOf (metrics : List (Metric K τ)) (seeds : List ℤ) (value : Metric K τ → ℤ → Option K)
    (scenarioId : Option String) (runner : String) : Scorecard K where
  scenarioId
  runner
  metrics := metrics.map fun metric => aggregateOf metric seeds (seeds.map (value metric))

/-- With as many values as seeds the aggregation gives the scorecard of these values. -/
theorem aggregateScores_eq {metrics : List (Metric K τ)} {seeds : List ℤ}
    {value : Metric K τ → ℤ → Option K} {perSeedByMetric : Dict String (List (Option K))}
    (h : ∀ metric ∈ metrics, perSeedByMetric.get? metric.name = some (seeds.map (value metric)))
    (scenarioId : Option String) (runner : String) :
    aggregateScores metrics perSeedByMetric seeds scenarioId runner =
      .ok (cardOf metrics seeds value scenarioId runner) := by
  have hmap : metrics.mapM (aggregateMetric perSeedByMetric seeds) =
      .ok (metrics.map fun metric => aggregateOf metric seeds (seeds.map (value metric))) := by
    rw [mapM_eq_ok, List.forall₂_map_right_iff, List.forall₂_same]
    intro metric hmetric
    simp only [aggregateMetric, h metric hmetric, List.length_map, ne_eq, not_true_eq_false,
      if_false]
  rw [aggregateScores, hmap]
  rfl

omit [Field K] [LinearOrder K] [HasSqrt K] in
/-- A value that depends on the metric by its name only is found under that name. -/
theorem get?_perSeedOf {metrics : List (Metric K τ)} {seeds : List ℤ}
    {value : Metric K τ → ℤ → Option K} {metric : Metric K τ} (hmetric : metric ∈ metrics)
    (hname : ∀ m ∈ metrics, m.name = metric.name → seeds.map (value m) = seeds.map (value metric)) :
    (perSeedOf metrics seeds value).get? metric.name = some (seeds.map (value metric)) := by
  refine Dict.get?_ofList_of_forall (List.mem_map_of_mem hmetric) ?_
  rintro p hp heq
  obtain ⟨m, hm, rfl⟩ := List.mem_map.mp hp
  exact hname m hm heq

/-- Scoring gives the scorecard of the computed values, by sorted seeds, where metrics of one name
compute alike. -/
theorem score_eq {tracesBySeed : Dict ℤ τ} {metrics : List (Metric K τ)}
    (hname : ∀ m ∈ metrics, ∀ m' ∈ metrics, m.name = m'.name → ∀ seed trace,
      tracesBySeed.get? seed = some trace → m.compute trace = m'.compute trace)
    (scenarioId : Option String) (runner : String) :
    score tracesBySeed metrics scenarioId runner =
      .ok (cardOf metrics (sortOn id tracesBySeed.keys)
        (fun metric seed => (tracesBySeed.get? seed).bind metric.compute) scenarioId runner) := by
  refine aggregateScores_eq (fun metric hmetric => get?_perSeedOf hmetric ?_) scenarioId runner
  intro m hm heq
  refine List.map_congr_left fun seed _ => ?_
  cases htrace : tracesBySeed.get? seed with
  | none => rfl
  | some trace => exact hname m hm metric hmetric heq seed trace htrace

/-- A scorecard determines the values it was made of. -/
theorem cardOf_inj {metrics : List (Metric K τ)} {seeds seeds' : List ℤ}
    {value value' : Metric K τ → ℤ → Option K} {scenarioId : Option String}
    {runner runner' : String}
    (h : cardOf metrics seeds value scenarioId runner =
      cardOf metrics seeds' value' scenarioId runner') {metric : Metric K τ}
    (hmetric : metric ∈ metrics) : seeds.map (value metric) = seeds'.map (value' metric) := by
  have haggregates := congrArg Scorecard.metrics h
  have hone := List.map_inj_left.mp haggregates metric hmetric
  exact congrArg AggregateScore.perSeed hone

end Scores

end AstroMine.Bench
