import Mathlib.Algebra.Order.Ring.Star
import Mathlib.Data.Rat.Star
import AstroMine.Lib.Dict
import AstroMine.Lib.Recent
import AstroMine.Surrogate.Conformal

/-!
# Drift monitoring

`DriftMonitor` (`surrogate/drift/monitor.py`) under its `RevalidationPolicy`
(`surrogate/drift/policy.py`): three bounded queues over the live predictions, their statistics and
the trigger after each query. The queue of the margins skips the predictions that report none, so it
reaches back beyond the window. Floats are rationals; the sink receives what `observe` returns.

Results:
* `tracks_observeAll`: what the queues hold after any run.
* `worstMargin_iff`: when the worst margin is that of the window.
* `faithful_iff`: exactly when the statistics and the trigger are those of the window.
* `observe_window_iff`: the same over every run.
-/

namespace AstroMine.Surrogate

open Recent

/-! ## Predictions -/

/-- `Prediction` (`model.py`, lines 62–84), the fields that the monitor reads. -/
structure Prediction where
  uncertainty : Dict String ℚ
  inDomain : Bool
  oodMargin : Option ℚ := none
  fieldUncertainty : Dict String (List ℚ) := .empty

/-- `_representative_uncertainty` (lines 31–37). -/
def representativeUncertainty (prediction : Prediction) : ℚ :=
  let values := prediction.uncertainty.entries.map Prod.snd ++
    ((prediction.fieldUncertainty.entries.map Prod.snd).filter fun array => !array.isEmpty).map mean
  values.max?.getD 0

/-! ## The policy (`policy.py`) -/

/-- `DriftReason` (`events.py`, lines 26–36). -/
inductive DriftReason where
  | scheduled | oodRate | marginBreach | uncertaintyDrift
  deriving DecidableEq, Repr

/-- `RevalidationPolicy` (lines 20–46). -/
structure RevalidationPolicy where
  scheduleEvery : ℕ := 128
  maxOodRate : ℚ := 1 / 5
  minMargin : ℚ := 0
  maxUncertaintyRatio : ℚ := 2
  minWindow : ℕ := 8
  scheduleEvery_pos : 1 ≤ scheduleEvery := by decide
  maxOodRate_unit : 0 ≤ maxOodRate ∧ maxOodRate ≤ 1 := by norm_num
  maxUncertaintyRatio_pos : 0 < maxUncertaintyRatio := by norm_num
  minWindow_pos : 1 ≤ minWindow := by decide

/-- `evaluate` (lines 48–77). -/
def RevalidationPolicy.evaluate (policy : RevalidationPolicy) (queryIndex windowCount : ℕ)
    (oodRate worstMargin meanUncertainty baselineUncertainty : ℚ) : Option DriftReason :=
  if 0 < queryIndex ∧ queryIndex % policy.scheduleEvery = 0 then some .scheduled
  else if windowCount < policy.minWindow then none
  else if policy.maxOodRate < oodRate then some .oodRate
  else if worstMargin < policy.minMargin then some .marginBreach
  else if 0 < baselineUncertainty ∧
      policy.maxUncertaintyRatio * baselineUncertainty < meanUncertainty then
    some .uncertaintyDrift
  else none

/-! ## The monitor (`monitor.py`) -/

/-- `RevalidationTrigger` (`events.py`, lines 39–54). -/
structure RevalidationTrigger where
  reason : DriftReason
  queryIndex : ℕ
  windowOodRate : ℚ
  worstMargin : ℚ
  meanUncertainty : ℚ
  deriving DecidableEq, Repr

/-- `DriftMonitor` (lines 40–69). -/
structure DriftMonitor where
  policy : RevalidationPolicy
  baseline : ℚ
  window : ℕ
  window_pos : 1 ≤ window
  inDomain : List Bool := []
  margins : List ℚ := []
  uncertainty : List ℚ := []
  count : ℕ := 0

/-- The fraction of a queue that is outside of the domain (lines 105–107). -/
def rateOf (inDomain : List Bool) : ℚ :=
  if inDomain = [] then 0 else (inDomain.countP fun ok => !ok) / inDomain.length

/-- The least of the margins, `0` without any (line 112). -/
def worstOf (margins : List ℚ) : ℚ := margins.min?.getD 0

/-- The mean of a queue, `0` without entries (line 117). -/
def meanOf (uncertainty : List ℚ) : ℚ := if uncertainty = [] then 0 else mean uncertainty

namespace DriftMonitor

/-- `ood_rate` (lines 102–107). -/
def oodRate (monitor : DriftMonitor) : ℚ := rateOf monitor.inDomain

/-- `worst_margin` (lines 109–112). -/
def worstMargin (monitor : DriftMonitor) : ℚ := worstOf monitor.margins

/-- `mean_uncertainty` (lines 114–117). -/
def meanUncertainty (monitor : DriftMonitor) : ℚ := meanOf monitor.uncertainty

/-- The queues after a prediction (lines 73–77). -/
def record (monitor : DriftMonitor) (prediction : Prediction) : DriftMonitor :=
  { monitor with
    count := monitor.count + 1
    inDomain := push monitor.window monitor.inDomain prediction.inDomain
    margins := match prediction.oodMargin with
      | none => monitor.margins
      | some margin => push monitor.window monitor.margins margin
    uncertainty := push monitor.window monitor.uncertainty (representativeUncertainty prediction) }

/-- What the policy makes of the statistics (lines 78–95). -/
def trigger (monitor : DriftMonitor) : Option RevalidationTrigger :=
  (monitor.policy.evaluate monitor.count monitor.inDomain.length monitor.oodRate monitor.worstMargin
    monitor.meanUncertainty monitor.baseline).map fun reason =>
      ⟨reason, monitor.count, monitor.oodRate, monitor.worstMargin, monitor.meanUncertainty⟩

/-- `observe` (lines 71–98). -/
def observe (monitor : DriftMonitor) (prediction : Prediction) :
    DriftMonitor × Option RevalidationTrigger :=
  (monitor.record prediction, (monitor.record prediction).trigger)

/-- The monitor after a run of queries. -/
def observeAll (monitor : DriftMonitor) (predictions : List Prediction) : DriftMonitor :=
  predictions.foldl (fun monitor prediction => (monitor.observe prediction).1) monitor

end DriftMonitor

/-- The monitor as it is built (lines 51–69). -/
def DriftMonitor.start (policy : RevalidationPolicy) (baseline : ℚ) {window : ℕ}
    (hwindow : 1 ≤ window) : DriftMonitor where
  policy := policy
  baseline := baseline
  window := window
  window_pos := hwindow

/-! ## The statistics of a window -/

/-- The margins that predictions report. -/
def reported (predictions : List Prediction) : List ℚ := predictions.filterMap Prediction.oodMargin

/-- The out-of-domain rate of the predictions alone. -/
def windowOodRate (predictions : List Prediction) : ℚ := rateOf (predictions.map Prediction.inDomain)

/-- The worst margin of the predictions alone. -/
def windowWorstMargin (predictions : List Prediction) : ℚ := worstOf (reported predictions)

/-- The mean uncertainty of the predictions alone. -/
def windowMeanUncertainty (predictions : List Prediction) : ℚ :=
  meanOf (predictions.map representativeUncertainty)

/-- The trigger that the predictions of a window cause at a query: of what came before them only the
number of the query counts. -/
def windowTrigger (policy : RevalidationPolicy) (baseline : ℚ) (queryIndex : ℕ)
    (predictions : List Prediction) : Option RevalidationTrigger :=
  (policy.evaluate queryIndex predictions.length (windowOodRate predictions)
    (windowWorstMargin predictions) (windowMeanUncertainty predictions) baseline).map fun reason =>
      ⟨reason, queryIndex, windowOodRate predictions, windowWorstMargin predictions,
        windowMeanUncertainty predictions⟩

/-- After the run `ps` the statistics and the trigger are those of the last `window` predictions. -/
structure Faithful (policy : RevalidationPolicy) (baseline : ℚ) (window : ℕ) (ps : List Prediction)
    (outcome : DriftMonitor × Option RevalidationTrigger) : Prop where
  oodRate : outcome.1.oodRate = windowOodRate (ps.rtake window)
  worstMargin : outcome.1.worstMargin = windowWorstMargin (ps.rtake window)
  meanUncertainty : outcome.1.meanUncertainty = windowMeanUncertainty (ps.rtake window)
  trigger : outcome.2 = windowTrigger policy baseline ps.length (ps.rtake window)

/-- The margins of queries older than the window that are still in the queue. -/
def stale (window : ℕ) (ps : List Prediction) : List ℚ :=
  (reported (ps.rdrop window)).rtake (window - (reported (ps.rtake window)).length)

/-- No stale margin is worse than the window: none is below the worst margin that the window reports
and, when the window reports none, the least of them, if there is one, is `0`. -/
def Unspoiled (window : ℕ) (ps : List Prediction) : Prop :=
  if reported (ps.rtake window) = [] then worstOf (stale window ps) = 0
  else ∀ margin ∈ stale window ps, windowWorstMargin (ps.rtake window) ≤ margin

instance (window : ℕ) (ps : List Prediction) : Decidable (Unspoiled window ps) := by
  unfold Unspoiled
  infer_instance

/-! ## The queues of a run -/

/-- What the queues hold after the predictions `ps`. -/
structure Tracks (policy : RevalidationPolicy) (baseline : ℚ) (window : ℕ) (ps : List Prediction)
    (monitor : DriftMonitor) : Prop where
  policy_eq : monitor.policy = policy
  baseline_eq : monitor.baseline = baseline
  window_eq : monitor.window = window
  count_eq : monitor.count = ps.length
  inDomain_eq : monitor.inDomain = (ps.rtake window).map Prediction.inDomain
  margins_eq : monitor.margins = (reported ps).rtake window
  uncertainty_eq : monitor.uncertainty = (ps.rtake window).map representativeUncertainty

section Run

variable {policy : RevalidationPolicy} {baseline : ℚ} {window : ℕ} {ps : List Prediction}
  {monitor : DriftMonitor}

theorem map_rtake {α β : Type*} (f : α → β) (n : ℕ) (xs : List α) :
    (xs.rtake n).map f = (xs.map f).rtake n := by
  rw [List.rtake, List.rtake, List.map_drop, List.length_map]

theorem tracks_start (policy : RevalidationPolicy) (baseline : ℚ) (hwindow : 1 ≤ window) :
    Tracks policy baseline window [] (.start policy baseline hwindow) := by
  refine ⟨rfl, rfl, rfl, rfl, ?_, ?_, ?_⟩
  · rw [List.rtake_nil]
    rfl
  · exact (List.rtake_nil _).symm
  · rw [List.rtake_nil]
    rfl

/-- **Step.** One more prediction. -/
theorem Tracks.record (h : Tracks policy baseline window ps monitor) (p : Prediction) :
    Tracks policy baseline window (ps ++ [p]) (monitor.record p) where
  policy_eq := h.policy_eq
  baseline_eq := h.baseline_eq
  window_eq := h.window_eq
  count_eq := by
    show monitor.count + 1 = (ps ++ [p]).length
    rw [h.count_eq, List.length_append, List.length_singleton]
  inDomain_eq := by
    show push monitor.window monitor.inDomain p.inDomain = _
    rw [h.window_eq, h.inDomain_eq, map_rtake, push_rtake, map_rtake, List.map_append,
      List.map_singleton]
  margins_eq := by
    rw [reported, List.filterMap_append]
    show (match p.oodMargin with
      | none => monitor.margins
      | some margin => push monitor.window monitor.margins margin) = _
    cases hmargin : p.oodMargin with
    | none =>
      -- nothing is appended, so the queue stays where it was
      rw [List.filterMap_cons_none hmargin, List.filterMap_nil, List.append_nil]
      exact h.margins_eq
    | some margin =>
      rw [List.filterMap_cons_some hmargin, List.filterMap_nil, ← push_rtake]
      show push monitor.window monitor.margins margin = _
      rw [h.window_eq, h.margins_eq, reported]
  uncertainty_eq := by
    show push monitor.window monitor.uncertainty (representativeUncertainty p) = _
    rw [h.window_eq, h.uncertainty_eq, map_rtake, push_rtake, map_rtake, List.map_append,
      List.map_singleton]

/-- **Run.** Any number of predictions. -/
theorem tracks_observeAll (h : Tracks policy baseline window ps monitor) (qs : List Prediction) :
    Tracks policy baseline window (ps ++ qs) (monitor.observeAll qs) := by
  induction qs generalizing ps monitor with
  | nil => rwa [List.append_nil]
  | cons q qs ih =>
    have htail := ih (h.record q)
    rw [List.append_assoc, List.singleton_append] at htail
    exact htail

/-! ## The statistics against the window -/

/-- The margins in the queue: what is stale, then what the window reports. -/
theorem rtake_reported (window : ℕ) (ps : List Prediction) :
    (reported ps).rtake window = stale window ps ++ reported (ps.rtake window) := by
  have hlength : (reported (ps.rtake window)).length ≤ window := by
    refine (List.length_filterMap_le _ _).trans ?_
    rw [length_rtake]
    exact min_le_left _ _
  have hsplit : reported ps = reported (ps.rdrop window) ++ reported (ps.rtake window) := by
    rw [reported, reported, reported, ← List.filterMap_append, rdrop_append_rtake]
  rw [hsplit, rtake_append _ hlength, stale]

theorem worstOf_mem {xs : List ℚ} (h : xs ≠ []) : worstOf xs ∈ xs ∧ ∀ x ∈ xs, worstOf xs ≤ x := by
  obtain ⟨m, hm⟩ := Option.isSome_iff_exists.mp (List.isSome_min?_iff.mpr h)
  rw [worstOf, hm, Option.getD_some]
  exact List.min?_eq_some_iff.mp hm

/-- Earlier margins leave the worst one when none of them is below it. -/
theorem worstOf_append_iff (xs : List ℚ) {ys : List ℚ} (h : ys ≠ []) :
    worstOf (xs ++ ys) = worstOf ys ↔ ∀ x ∈ xs, worstOf ys ≤ x := by
  obtain ⟨hmem, hle⟩ := worstOf_mem h
  obtain ⟨hmem', hle'⟩ := worstOf_mem (List.append_ne_nil_of_right_ne_nil xs h)
  constructor
  · intro heq x hx
    rw [← heq]
    exact hle' x (List.mem_append_left _ hx)
  · intro hall
    refine le_antisymm (hle' _ (List.mem_append_right _ hmem)) ?_
    rcases List.mem_append.mp hmem' with hx | hy
    · exact hall _ hx
    · exact hle _ hy

/-- **Spec.** The worst margin is that of the window when nothing stale spoils it. -/
theorem worstMargin_iff (h : Tracks policy baseline window ps monitor) :
    monitor.worstMargin = windowWorstMargin (ps.rtake window) ↔ Unspoiled window ps := by
  rw [DriftMonitor.worstMargin, h.margins_eq, rtake_reported, Unspoiled]
  split_ifs with hnone
  · rw [windowWorstMargin, hnone, List.append_nil]
    exact Iff.rfl
  · exact worstOf_append_iff _ hnone

/-- **Spec.** The statistics and the trigger are those of the window when nothing stale spoils the
    worst margin. -/
theorem faithful_iff (h : Tracks policy baseline window ps monitor) (p : Prediction) :
    Faithful policy baseline window (ps ++ [p]) (monitor.observe p) ↔ Unspoiled window (ps ++ [p]) := by
  have hnext := h.record p
  rw [← worstMargin_iff hnext]
  refine ⟨fun hfaithful => hfaithful.worstMargin, fun hworst => ?_⟩
  have hrate : (monitor.record p).oodRate = windowOodRate ((ps ++ [p]).rtake window) := by
    rw [DriftMonitor.oodRate, hnext.inDomain_eq, windowOodRate]
  have hmean : (monitor.record p).meanUncertainty =
      windowMeanUncertainty ((ps ++ [p]).rtake window) := by
    rw [DriftMonitor.meanUncertainty, hnext.uncertainty_eq, windowMeanUncertainty]
  refine ⟨hrate, hworst, hmean, ?_⟩
  rw [DriftMonitor.observe, DriftMonitor.trigger, hrate, hworst, hmean, hnext.policy_eq,
    hnext.baseline_eq, hnext.count_eq, hnext.inDomain_eq, List.length_map, windowTrigger]

end Run

/-- **Main theorem.** For every window and every sequence of predictions: after each query the
    statistics and the trigger are those of the window, and so of the last predictions and the number
    of the query alone, if and only if after no query a stale margin is worse than the window. -/
theorem observe_window_iff (policy : RevalidationPolicy) (baseline : ℚ) {window : ℕ}
    (hwindow : 1 ≤ window) (predictions : List Prediction) :
    (∀ ps p, ps ++ [p] <+: predictions → Faithful policy baseline window (ps ++ [p])
        (((DriftMonitor.start policy baseline hwindow).observeAll ps).observe p)) ↔
      ∀ ps p, ps ++ [p] <+: predictions → Unspoiled window (ps ++ [p]) := by
  refine forall₃_congr fun ps p _ => ?_
  have htracks := tracks_observeAll (tracks_start policy baseline hwindow) ps
  exact faithful_iff htracks p

/-- A prediction with one uncertainty. -/
def livePrediction (inDomain : Bool) (oodMargin : Option ℚ) : Prediction where
  uncertainty := .empty
  inDomain := inDomain
  oodMargin := oodMargin

theorem observe_window_within :
    Faithful {} 0 2 [livePrediction true (some (3 / 10)), livePrediction true none,
        livePrediction true (some (1 / 10))]
      (((DriftMonitor.start {} 0 (by decide : 1 ≤ 2)).observeAll
        [livePrediction true (some (3 / 10)), livePrediction true none]).observe
          (livePrediction true (some (1 / 10)))) := by
  have hinits : ∀ qs ∈ [livePrediction true (some (3 / 10)), livePrediction true none,
      livePrediction true (some (1 / 10))].inits, Unspoiled 2 qs := by
    decide +kernel
  refine (observe_window_iff {} 0 (by decide : 1 ≤ 2) [livePrediction true (some (3 / 10)),
    livePrediction true none, livePrediction true (some (1 / 10))]).2 ?_
      [livePrediction true (some (3 / 10)), livePrediction true none]
      (livePrediction true (some (1 / 10))) List.prefix_rfl
  intro ps p hprefix
  exact hinits _ ((List.mem_inits _ _).2 hprefix)

/-- **Counterexample.** The window holds one query, which is inside of the domain and reports no
    margin: the monitor still has the margin of the query before it, and fires on it. -/
theorem observe_beyond_window :
    let policy : RevalidationPolicy := { minWindow := 1 }
    let excursion := livePrediction false (some (-1))
    let silent := livePrediction true none
    let outcome := ((DriftMonitor.start policy 0 (by decide : 1 ≤ 1)).observeAll [excursion]).observe
      silent
    [excursion, silent].rtake 1 = [silent] ∧ outcome.1.worstMargin = -1 ∧
      windowWorstMargin [silent] = 0 ∧ outcome.2 = some ⟨.marginBreach, 2, 0, -1, 0⟩ ∧
      windowTrigger policy 0 2 [silent] = none ∧ ¬ Faithful policy 0 1 [excursion, silent] outcome := by
  intro policy excursion silent outcome
  have hworst : outcome.1.worstMargin = -1 := by decide +kernel
  have hwindow : windowWorstMargin [silent] = 0 := by decide +kernel
  refine ⟨rfl, hworst, hwindow, by decide +kernel, by decide +kernel, fun h => ?_⟩
  have heq := h.worstMargin
  rw [hworst, show [excursion, silent].rtake 1 = [silent] from rfl, hwindow] at heq
  exact absurd heq (by decide +kernel)

end AstroMine.Surrogate
