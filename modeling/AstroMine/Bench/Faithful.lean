import Mathlib.Data.Int.ConditionallyCompleteOrder
import Mathlib.Data.List.Perm.Basic
import AstroMine.Bench.Collect

/-!
# Collecting what was scored

A collection is faithful to local scoring when it does not depend on the order of the run results,
gives the scorecard that `score` gives for traces that show the reported values, and calls the
submission verified only if every result is sound and no seed was reported with two values.

Two accepted results of one seed are not compared, so the order decides between their values; a
result without a trace, or with rows of another seed or runner behind the first, is accepted.

Results:
* `order_iff`: order independence is agreement of the last values.
* `scored_card`: a collected scorecard is the scored one.
* `collectsFaithfully_iff`: when a submission is collected as it is scored.
* `rerun_not_faithful`: the counterexample.
-/

namespace AstroMine.Bench

variable {K ε τ : Type}

/-! ## The law -/

/-- A result passes the checks of the collection, with this report. -/
def Reports (reader : Reader K ε) (result : RunResult) (report : Report K) : Prop :=
  examine reader result = .ok (some report)

/-- One of the results reports the value for a metric at a seed. -/
def Reported (reader : Reader K ε) (results : List RunResult) (seed : ℤ) (name : String)
    (value : Option K) : Prop :=
  ∃ result ∈ results, ∃ report, Reports reader result report ∧ report.seed = seed ∧
    (name, value) ∈ report.values

/-- No seed is reported with two values of one metric. -/
def ReportsAgree (reader : Reader K ε) (results : List RunResult) : Prop :=
  ∀ seed name value value', Reported reader results seed name value →
    Reported reader results seed name value' → value = value'

/-- A result that succeeded with both of its outputs, whose rows all bear one seed, that of its
trace, and name one runner. -/
def SoundResult (reader : Reader K ε) (result : RunResult) : Prop :=
  result.ok = true ∧ ∃ address rows trace traceSeed seed runner,
    result.outputs.get? metricsOutput = some address ∧ reader.metrics address = .ok rows ∧
    result.outputs.get? traceOutput = some trace ∧ reader.traceSeed trace = .ok traceSeed ∧
    rows ≠ [] ∧ runner ≠ "" ∧ (∀ s, traceSeed = some s → s = seed) ∧
    ∀ row ∈ rows, row.get? "seed" = some (.int seed) ∧ row.get? "runner" = some (.str runner)

/-- Traces of the successful seeds that show what was reported: each metric has the value reported
for it, and does not apply where none was. -/
structure ShowsReports (reader : Reader K ε) (metrics : List (Metric K τ))
    (results : List RunResult) (traces : Dict ℤ τ) (runner : String) : Prop where
  seeds : ∀ seed, seed ∈ traces.keys ↔
    ∃ result ∈ results, ∃ report, Reports reader result report ∧ report.seed = seed
  runner : ∀ result ∈ results, ∀ report, Reports reader result report → report.runner = runner
  shown : ∀ seed trace, traces.get? seed = some trace → ∀ metric ∈ metrics, ∀ value,
    Reported reader results seed metric.name value → metric.compute trace = value
  silent : ∀ seed trace, traces.get? seed = some trace → ∀ metric ∈ metrics,
    (∀ value, ¬Reported reader results seed metric.name value) → metric.compute trace = none

/-- Nothing is collected, in any order: a result cannot be read, none is accepted, or two of the
accepted ones name different runners. -/
def Unscorable (reader : Reader K ε) (results : List RunResult) : Prop :=
  (∃ result ∈ results, ∃ e, examine reader result = .error e) ∨
    (∀ result ∈ results, ∀ report, ¬Reports reader result report) ∨
    ∃ result ∈ results, ∃ result' ∈ results, ∃ report report', Reports reader result report ∧
      Reports reader result' report' ∧ report.runner ≠ report'.runner

/-- The last values that two accepted results give a metric of the set at one seed are the same. -/
def LastAgree (reader : Reader K ε) (metrics : List (Metric K τ)) (results : List RunResult) :
    Prop :=
  ∀ metric ∈ metrics, ∀ result ∈ results, ∀ result' ∈ results, ∀ report report',
    Reports reader result report → Reports reader result' report' → report.seed = report'.seed →
    ∀ value value', report.last metric.name = some value →
      report'.last metric.name = some value' → value = value'

section Law

variable [Field K] [LinearOrder K] [HasSqrt K]

/-- The collection is what scoring is. -/
structure CollectsFaithfully (reader : Reader K ε) (metrics : List (Metric K τ))
    (scenarioId : Option String) (results : List RunResult) : Prop where
  order : ∀ results', results'.Perm results →
    (collectScorecard reader metrics scenarioId results').toOption =
      (collectScorecard reader metrics scenarioId results).toOption
  scored : ∀ card integrity,
    collectScorecard reader metrics scenarioId results = .ok (card, integrity) →
    ∀ traces runner, ShowsReports reader metrics results traces runner →
      score traces metrics scenarioId runner = .ok card
  verified : ∀ card,
    collectScorecard reader metrics scenarioId results = .ok (card, .verified) →
    (∀ result ∈ results, SoundResult reader result) ∧ ReportsAgree reader results

end Law

/-! ## The reports of a list of results -/

section Lists

variable {reader : Reader K ε} {results : List RunResult} {reports : List (Option (Report K))}

theorem mem_accepted (h : results.mapM (examine reader) = .ok reports) (report : Report K) :
    report ∈ reports.filterMap id ↔ ∃ result ∈ results, Reports reader result report := by
  simp only [List.mem_filterMap, id_eq, exists_eq_right]
  exact mem_of_mapM h (some report)

/-- The results in another order report the same, in another order. -/
theorem mapM_perm {results' : List RunResult} (hperm : results'.Perm results)
    (h : results.mapM (examine reader) = .ok reports) :
    ∃ reports', results'.mapM (examine reader) = .ok reports' ∧ reports'.Perm reports := by
  obtain ⟨reports', hforall, hreports⟩ := List.perm_comp_forall₂ hperm (mapM_eq_ok.1 h)
  exact ⟨reports', mapM_eq_ok.2 hforall, hreports⟩

theorem lastWritten_eq_none {accepted : List (Report K)} {name : String} {seed : ℤ} :
    lastWritten accepted name seed = none ↔
      ∀ report ∈ accepted, report.seed = seed → report.last name = none := by
  rw [lastWritten, List.findSome?_eq_none_iff]
  simp only [List.mem_reverse]
  refine forall₂_congr fun report _ => ?_
  split_ifs with hseed
  · exact ⟨fun h _ => h, fun h => h hseed⟩
  · exact ⟨fun _ h => absurd h hseed, fun _ => rfl⟩

/-- What is written was the last value of a report. -/
theorem exists_of_lastWritten {accepted : List (Report K)} {name : String} {seed : ℤ}
    {value : Option K} (h : lastWritten accepted name seed = some value) :
    ∃ report ∈ accepted, report.seed = seed ∧ report.last name = some value := by
  obtain ⟨report, hreport, hlast⟩ := List.exists_of_findSome?_eq_some h
  split_ifs at hlast with hseed
  exact ⟨report, List.mem_reverse.mp hreport, hseed, hlast⟩

/-- The last report has the last word. -/
theorem lastWritten_append {accepted : List (Report K)} {report : Report K} {name : String}
    {value : Option K} (h : report.last name = some value) :
    lastWritten (accepted ++ [report]) name report.seed = some value := by
  simp only [lastWritten, List.reverse_append, List.reverse_cons, List.reverse_nil,
    List.nil_append, List.cons_append, List.findSome?_cons, if_true, h]

/-- Reports whose last values agree write the same in any order. -/
theorem lastWritten_perm {accepted accepted' : List (Report K)} (hperm : accepted'.Perm accepted)
    {name : String} {seed : ℤ}
    (hagree : ∀ r ∈ accepted, ∀ r' ∈ accepted, r.seed = r'.seed → ∀ value value',
      r.last name = some value → r'.last name = some value' → value = value') :
    lastWritten accepted' name seed = lastWritten accepted name seed := by
  cases h : lastWritten accepted name seed with
  | none =>
    rw [lastWritten_eq_none] at h ⊢
    exact fun report hreport => h report (hperm.mem_iff.mp hreport)
  | some value =>
    obtain ⟨r, hr, hseed, hlast⟩ := exists_of_lastWritten h
    cases h' : lastWritten accepted' name seed with
    | none =>
      have hnone := lastWritten_eq_none.1 h' r (hperm.mem_iff.mpr hr) hseed
      rw [hlast] at hnone
      cases hnone
    | some value' =>
      obtain ⟨r', hr', hseed', hlast'⟩ := exists_of_lastWritten h'
      rw [hagree r hr r' (hperm.mem_iff.mp hr') (hseed.trans hseed'.symm) value value' hlast hlast']

end Lists

/-! ## The three parts of the law -/

section Parts

variable [Field K] [LinearOrder K] [HasSqrt K] {reader : Reader K ε} {metrics : List (Metric K τ)}
  {scenarioId : Option String} {results : List RunResult}

/-- Where nothing can be scored, nothing is collected. -/
theorem collect_of_unscorable (h : Unscorable reader results) (card : Scorecard K)
    (integrity : Integrity) :
    collectScorecard reader metrics scenarioId results ≠ .ok (card, integrity) := by
  intro hok
  obtain ⟨reports, hreports, hnone, hrunner, -, -⟩ := collect_eq_ok.1 hok
  obtain ⟨result, hresult, e, he⟩ | hall | ⟨result, hresult, result', hresult', report, report',
    hreport, hreport', hne⟩ := h
  · obtain ⟨y, -, hy⟩ := exists_of_mapM hreports hresult
    rw [he] at hy
    cases hy
  · obtain ⟨report, hreport⟩ := List.exists_mem_of_ne_nil _ hnone
    obtain ⟨result, hresult, hreports'⟩ := (mem_accepted hreports report).mp hreport
    exact hall result hresult report hreports'
  · exact hne (hrunner report ((mem_accepted hreports report).mpr ⟨result, hresult, hreport⟩)
      report' ((mem_accepted hreports report').mpr ⟨result', hresult', hreport'⟩))

variable (metrics scenarioId) in
/-- Where something can be, it is. -/
theorem collect_of_scorable (h : ¬Unscorable reader results) :
    ∃ reports integrity, results.mapM (examine reader) = .ok reports ∧
      collectScorecard reader metrics scenarioId results =
        .ok (cardOfReports metrics scenarioId (reports.filterMap id), integrity) := by
  unfold Unscorable at h
  push Not at h
  obtain ⟨hread, hsome, hrunner⟩ := h
  obtain ⟨reports, hreports⟩ : ∃ reports, results.mapM (examine reader) = .ok reports := by
    refine mapM_exists fun result hresult => ?_
    cases hexamine : examine reader result with
    | error e => exact absurd hexamine (hread result hresult e)
    | ok report => exact ⟨report, rfl⟩
  obtain ⟨integrity, hintegrity⟩ : ∃ integrity : Integrity,
      (integrity = .verified ↔ none ∉ reports) := by
    by_cases hnone : none ∈ reports
    · exact ⟨.flagged, by simp [hnone]⟩
    · exact ⟨.verified, by simp [hnone]⟩
  refine ⟨reports, integrity, hreports,
    collect_eq_ok.2 ⟨reports, hreports, ?_, ?_, rfl, hintegrity⟩⟩
  · obtain ⟨result, hresult, report, hreport⟩ := hsome
    exact List.ne_nil_of_mem ((mem_accepted hreports report).mpr ⟨result, hresult, hreport⟩)
  · intro r hr r' hr'
    obtain ⟨result, hresult, hreport⟩ := (mem_accepted hreports r).mp hr
    obtain ⟨result', hresult', hreport'⟩ := (mem_accepted hreports r').mp hr'
    exact hrunner result hresult result' hresult' r r' hreport hreport'

omit [Field K] [LinearOrder K] [HasSqrt K] in
/-- An unscorable list is so in any order. -/
theorem unscorable_perm {results' : List RunResult} (hperm : results'.Perm results)
    (h : Unscorable reader results) : Unscorable reader results' := by
  obtain ⟨result, hresult, e, he⟩ | hall | ⟨result, hresult, result', hresult', hrest⟩ := h
  · exact Or.inl ⟨result, hperm.mem_iff.mpr hresult, e, he⟩
  · exact Or.inr (Or.inl fun result hresult => hall result (hperm.mem_iff.mp hresult))
  · exact Or.inr (Or.inr
      ⟨result, hperm.mem_iff.mpr hresult, result', hperm.mem_iff.mpr hresult', hrest⟩)

/-- Reports in another order make the same scorecard where their last values agree. -/
theorem cardOfReports_perm {accepted accepted' : List (Report K)}
    (hperm : accepted'.Perm accepted)
    (hagree : ∀ metric ∈ metrics, ∀ r ∈ accepted, ∀ r' ∈ accepted, r.seed = r'.seed →
      ∀ value value', r.last metric.name = some value → r'.last metric.name = some value' →
        value = value') :
    cardOfReports metrics scenarioId accepted' = cardOfReports metrics scenarioId accepted := by
  have hseeds : (accepted'.map Report.seed).toFinset = (accepted.map Report.seed).toFinset :=
    List.toFinset_eq_of_perm _ _ (hperm.map _)
  have hrunners : (accepted'.map Report.runner).toFinset = (accepted.map Report.runner).toFinset :=
    List.toFinset_eq_of_perm _ _ (hperm.map _)
  unfold cardOfReports cardOf
  rw [hseeds, hrunners]
  congr 1
  refine List.map_congr_left fun metric hmetric => ?_
  congr 1
  refine List.map_congr_left fun seed _ => ?_
  exact congrArg Option.join (lastWritten_perm hperm (hagree metric hmetric))

omit [Field K] [LinearOrder K] [HasSqrt K] in
/-- An accepted result can be put last, and then its values are the ones that stay. -/
theorem last_wins {reports : List (Option (Report K))}
    (hreports : results.mapM (examine reader) = .ok reports) {report : Report K}
    (hreport : report ∈ reports.filterMap id) :
    ∃ (results' : List RunResult) (reports' : List (Option (Report K))),
      results'.Perm results ∧ results'.mapM (examine reader) = .ok reports' ∧
      (reports'.filterMap id).Perm (reports.filterMap id) ∧
      ∀ name value, report.last name = some value →
        lastWritten (reports'.filterMap id) name report.seed = some value := by
  simp only [List.mem_filterMap, id_eq, exists_eq_right] at hreport
  obtain ⟨before, after, rfl⟩ := List.append_of_mem hreport
  have hmoved : (before ++ some report :: after).Perm (before ++ after ++ [some report]) :=
    List.perm_middle.trans (List.perm_append_singleton _ _).symm
  obtain ⟨results', hforall, hresults'⟩ :=
    List.perm_comp_forall₂ hmoved.symm (mapM_eq_ok.1 hreports).flip
  refine ⟨results', _, hresults', mapM_eq_ok.2 hforall.flip, hmoved.symm.filterMap id, ?_⟩
  intro name value hlast
  rw [List.filterMap_append]
  exact lastWritten_append hlast

variable (metrics scenarioId) in
/-- In another order the collection gives the scorecard of the reports in that order. -/
theorem collect_perm (h : ¬Unscorable reader results) {results' : List RunResult}
    (hperm : results'.Perm results) {reports reports' : List (Option (Report K))}
    (hreports : results.mapM (examine reader) = .ok reports)
    (hreports' : results'.mapM (examine reader) = .ok reports') :
    ∃ integrity,
      collectScorecard reader metrics scenarioId results =
        .ok (cardOfReports metrics scenarioId (reports.filterMap id), integrity) ∧
      collectScorecard reader metrics scenarioId results' =
        .ok (cardOfReports metrics scenarioId (reports'.filterMap id), integrity) := by
  obtain ⟨_, integrity, heq, hcollect⟩ := collect_of_scorable metrics scenarioId h
  obtain rfl : reports = _ := Except.ok.inj (hreports.symm.trans heq)
  refine ⟨integrity, hcollect, ?_⟩
  obtain ⟨_, heq', hnone, hrunner, -, hverified⟩ := collect_eq_ok.1 hcollect
  obtain rfl : reports = _ := Except.ok.inj (hreports.symm.trans heq')
  obtain ⟨_, heq'', hrperm⟩ := mapM_perm hperm hreports
  obtain rfl : reports' = _ := Except.ok.inj (hreports'.symm.trans heq'')
  have hmem := fun r => (hrperm.filterMap id).mem_iff (a := r)
  refine collect_eq_ok.2 ⟨reports', hreports', ?_, ?_, rfl, ?_⟩
  · exact fun hnil => hnone (List.perm_nil.mp (hnil ▸ (hrperm.filterMap id).symm))
  · exact fun r hr r' hr' => hrunner r ((hmem r).mp hr) r' ((hmem r').mp hr')
  · rw [hverified, hrperm.mem_iff]

/-- The value of a scorecard of reports at one of their seeds. -/
theorem lastWritten_of_cardOfReports {accepted accepted' : List (Report K)}
    (hperm : accepted'.Perm accepted)
    (h : cardOfReports metrics scenarioId accepted' = cardOfReports metrics scenarioId accepted)
    {metric : Metric K τ} (hmetric : metric ∈ metrics) {seed : ℤ}
    (hseed : seed ∈ accepted.map Report.seed) :
    (lastWritten accepted' metric.name seed).join = (lastWritten accepted metric.name seed).join := by
  have hseeds : (accepted'.map Report.seed).toFinset = (accepted.map Report.seed).toFinset :=
    List.toFinset_eq_of_perm _ _ (hperm.map _)
  have hvalues := cardOf_inj h hmetric
  rw [hseeds] at hvalues
  exact List.map_inj_left.mp hvalues seed (by rw [Finset.mem_sort, List.mem_toFinset]; exact hseed)

/-- **Order.** A collection that succeeds does so alike in any order exactly if the last values of
the accepted results agree. -/
theorem order_iff (h : ¬Unscorable reader results) :
    (∀ results', results'.Perm results →
      (collectScorecard reader metrics scenarioId results').toOption =
        (collectScorecard reader metrics scenarioId results).toOption) ↔
      LastAgree reader metrics results := by
  obtain ⟨reports, hreports⟩ : ∃ reports, results.mapM (examine reader) = .ok reports := by
    obtain ⟨reports, -, hreports, -⟩ := collect_of_scorable metrics scenarioId h
    exact ⟨reports, hreports⟩
  constructor
  · intro horder metric hmetric result hresult result' hresult' report report' hreport hreport'
      hseed value value' hvalue hvalue'
    have hmem := (mem_accepted hreports report).mpr ⟨result, hresult, hreport⟩
    have hmem' := (mem_accepted hreports report').mpr ⟨result', hresult', hreport'⟩
    -- each of the two put last: the scorecards are the same, and hold its value
    have hlast (r : Report K) (hr : r ∈ reports.filterMap id) (v : Option K)
        (hv : r.last metric.name = some v) :
        (lastWritten (reports.filterMap id) metric.name r.seed).join = v := by
      obtain ⟨results₁, reports₁, hperm₁, hreports₁, hrperm₁, hwins⟩ := last_wins hreports hr
      obtain ⟨integrity, hcollect, hcollect₁⟩ :=
        collect_perm metrics scenarioId h hperm₁ hreports hreports₁
      have heq := horder results₁ hperm₁
      rw [hcollect, hcollect₁] at heq
      have hcard := (Prod.mk.inj (Option.some.inj heq)).1
      rw [← lastWritten_of_cardOfReports hrperm₁ hcard hmetric (List.mem_map_of_mem hr),
        hwins metric.name v hv]
      rfl
    rw [← hlast report hmem value hvalue, hseed, hlast report' hmem' value' hvalue']
  · intro hagree results' hperm
    obtain ⟨reports', hreports', hrperm⟩ := mapM_perm hperm hreports
    obtain ⟨integrity, hcollect, hcollect'⟩ :=
      collect_perm metrics scenarioId h hperm hreports hreports'
    have hcard : cardOfReports metrics scenarioId (reports'.filterMap id) =
        cardOfReports metrics scenarioId (reports.filterMap id) := by
      refine cardOfReports_perm (hrperm.filterMap id) fun metric hmetric r hr r' hr' => ?_
      obtain ⟨result, hresult, hr⟩ := (mem_accepted hreports r).mp hr
      obtain ⟨result', hresult', hr'⟩ := (mem_accepted hreports r').mp hr'
      exact hagree metric hmetric result hresult result' hresult' r r' hr hr'
    rw [hcollect, hcollect', hcard]

omit [Field K] [LinearOrder K] [HasSqrt K] in
/-- A report that says nothing last of a metric says nothing of it. -/
theorem last_eq_none {report : Report K} {name : String} (h : report.last name = none)
    (value : Option K) : (name, value) ∉ report.values := by
  intro hvalue
  rw [Report.last, List.getLast?_eq_none_iff, List.map_eq_nil_iff, List.filter_eq_nil_iff] at h
  exact h _ hvalue (by simp)

omit [Field K] [LinearOrder K] [HasSqrt K] in
/-- The last value of a report is one of its values. -/
theorem mem_of_last {report : Report K} {name : String} {value : Option K}
    (h : report.last name = some value) : (name, value) ∈ report.values := by
  obtain ⟨p, hp, rfl⟩ := List.mem_map.mp (List.mem_of_getLast? h)
  rw [List.mem_filter, decide_eq_true_eq] at hp
  obtain ⟨hp, rfl⟩ := hp
  exact hp

omit [Field K] [LinearOrder K] [HasSqrt K] in
/-- Traces that show the reports compute what was written last. -/
theorem compute_of_shows {reports : List (Option (Report K))}
    (hreports : results.mapM (examine reader) = .ok reports) {traces : Dict ℤ τ} {runner : String}
    (hshows : ShowsReports reader metrics results traces runner) {metric : Metric K τ}
    (hmetric : metric ∈ metrics) {seed : ℤ} {trace : τ} (htrace : traces.get? seed = some trace) :
    metric.compute trace = (lastWritten (reports.filterMap id) metric.name seed).join := by
  cases hlast : lastWritten (reports.filterMap id) metric.name seed with
  | some value =>
    obtain ⟨report, hreport, hseed, hvalue⟩ := exists_of_lastWritten hlast
    obtain ⟨result, hresult, hreport⟩ := (mem_accepted hreports report).mp hreport
    exact hshows.shown seed trace htrace metric hmetric value
      ⟨result, hresult, report, hreport, hseed, mem_of_last hvalue⟩
  | none =>
    rw [lastWritten_eq_none] at hlast
    refine hshows.silent seed trace htrace metric hmetric ?_
    rintro value ⟨result, hresult, report, hreport, hseed, hvalue⟩
    have hmem := (mem_accepted hreports report).mpr ⟨result, hresult, hreport⟩
    exact last_eq_none (hlast report hmem hseed) value hvalue

omit [Field K] [LinearOrder K] [HasSqrt K] in
/-- Traces of the accepted seeds are scored in the order of the collection. -/
theorem seeds_of_shows {reports : List (Option (Report K))}
    (hreports : results.mapM (examine reader) = .ok reports) {traces : Dict ℤ τ} {runner : String}
    (hshows : ShowsReports reader metrics results traces runner) :
    sortOn id traces.keys =
      (((reports.filterMap id).map Report.seed).toFinset.sort (· ≤ ·)) := by
  refine ((sortOn_perm id traces.keys).trans ?_).eq_of_pairwise
    (fun a b _ _ hab hba => le_antisymm hab hba) (sortOn_pairwise id traces.keys)
    (Finset.pairwise_sort _ _)
  rw [List.perm_ext_iff_of_nodup traces.nodup_keys (Finset.sort_nodup _ _)]
  intro seed
  rw [hshows.seeds seed, Finset.mem_sort, List.mem_toFinset, List.mem_map]
  constructor
  · rintro ⟨result, hresult, report, hreport, hseed⟩
    exact ⟨report, (mem_accepted hreports report).mpr ⟨result, hresult, hreport⟩, hseed⟩
  · rintro ⟨report, hmem, hseed⟩
    obtain ⟨result, hresult, hreport⟩ := (mem_accepted hreports report).mp hmem
    exact ⟨result, hresult, report, hreport, hseed⟩

/-- A collected scorecard is the one that scoring gives for traces that show the reports. -/
theorem scored_card {card : Scorecard K} {integrity : Integrity}
    (h : collectScorecard reader metrics scenarioId results = .ok (card, integrity))
    {traces : Dict ℤ τ} {runner : String}
    (hshows : ShowsReports reader metrics results traces runner) :
    score traces metrics scenarioId runner = .ok card := by
  obtain ⟨reports, hreports, hnone, -, rfl, -⟩ := collect_eq_ok.1 h
  have hrunner : (((reports.filterMap id).map Report.runner).toFinset.sort (· ≤ ·)).headD "" =
      runner := by
    obtain ⟨report, hreport⟩ := List.exists_mem_of_ne_nil _ hnone
    have hset : ((reports.filterMap id).map Report.runner).toFinset = {runner} := by
      refine Finset.eq_singleton_iff_nonempty_unique_mem.mpr ⟨⟨report.runner, ?_⟩, ?_⟩
      · exact List.mem_toFinset.mpr (List.mem_map_of_mem hreport)
      · intro name hname
        obtain ⟨r, hr, rfl⟩ := List.mem_map.mp (List.mem_toFinset.mp hname)
        obtain ⟨result, hresult, hr⟩ := (mem_accepted hreports r).mp hr
        exact hshows.runner result hresult r hr
    rw [hset, Finset.sort_singleton]
    rfl
  have hname : ∀ m ∈ metrics, ∀ m' ∈ metrics, m.name = m'.name → ∀ seed trace,
      traces.get? seed = some trace → m.compute trace = m'.compute trace := by
    intro m hm m' hm' hname seed trace htrace
    rw [compute_of_shows hreports hshows hm htrace, compute_of_shows hreports hshows hm' htrace,
      hname]
  rw [score_eq hname, cardOfReports, hrunner, ← seeds_of_shows hreports hshows]
  unfold cardOf
  congr 2
  refine List.map_congr_left fun metric hmetric => ?_
  congr 1
  refine List.map_congr_left fun seed hseed => ?_
  rw [mem_sortOn, Dict.mem_keys, Option.isSome_iff_exists] at hseed
  obtain ⟨trace, htrace⟩ := hseed
  show (traces.get? seed).bind metric.compute = _
  rw [htrace, Option.bind_some]
  exact compute_of_shows hreports hshows hmetric htrace

/-! ## When a submission is collected as it is scored -/

omit [Field K] [LinearOrder K] [HasSqrt K] in
/-- Every result passes the checks. -/
theorem none_notMem {reports : List (Option (Report K))}
    (hreports : results.mapM (examine reader) = .ok reports) :
    none ∉ reports ↔ ¬∃ result ∈ results, examine reader result = .ok none := by
  rw [mem_of_mapM hreports]

/-- **Main theorem.** A submission is collected as it is scored exactly if nothing can be scored,
or accepted results of a seed agree in their last values and either a result fails the checks or
all results are sound and no seed has two values. -/
theorem collectsFaithfully_iff (reader : Reader K ε) (metrics : List (Metric K τ))
    (scenarioId : Option String) (results : List RunResult) :
    CollectsFaithfully reader metrics scenarioId results ↔
      Unscorable reader results ∨
        LastAgree reader metrics results ∧
          ((∃ result ∈ results, examine reader result = .ok none) ∨
            (∀ result ∈ results, SoundResult reader result) ∧ ReportsAgree reader results) := by
  by_cases h : Unscorable reader results
  · have hnone (results' : List RunResult) (hperm : results'.Perm results) :
        (collectScorecard reader metrics scenarioId results').toOption = none := by
      cases hcollect : collectScorecard reader metrics scenarioId results' with
      | error e => rfl
      | ok card => exact absurd hcollect (collect_of_unscorable (unscorable_perm hperm h) _ _)
    refine iff_of_true ⟨?_, ?_, ?_⟩ (Or.inl h)
    · intro results' hperm
      rw [hnone results' hperm, hnone results (List.Perm.refl results)]
    · exact fun card integrity hok => absurd hok (collect_of_unscorable h card integrity)
    · exact fun card hok => absurd hok (collect_of_unscorable h card .verified)
  · obtain ⟨reports, integrity, hreports, hcollect⟩ := collect_of_scorable metrics scenarioId h
    obtain ⟨reports', hreports', -, -, -, hverified⟩ := collect_eq_ok.1 hcollect
    obtain rfl : reports = reports' := Except.ok.inj (hreports.symm.trans hreports')
    rw [none_notMem hreports] at hverified
    constructor
    · rintro ⟨horder, -, hsound⟩
      refine Or.inr ⟨(order_iff h).mp horder, ?_⟩
      by_cases hflagged : ∃ result ∈ results, examine reader result = .ok none
      · exact Or.inl hflagged
      · rw [hverified.mpr hflagged] at hcollect
        exact Or.inr (hsound _ hcollect)
    · rintro (hun | ⟨hagree, hrest⟩)
      · exact absurd hun h
      · refine ⟨(order_iff h).mpr hagree, ?_, ?_⟩
        · intro card integrity hok traces runner hshows
          exact scored_card hok hshows
        · intro card hok
          rw [hcollect] at hok
          obtain ⟨-, rfl⟩ := Prod.mk.inj (Except.ok.inj hok)
          exact hrest.resolve_left (hverified.mp rfl)

end Parts

/-! ## A seed that was run twice -/

/-- The one row of seed 7, with this value. -/
def rerunRow (value : ℚ) : Dict String (Cell ℚ) :=
  Dict.ofList [("seed", .int 7), ("metric", .str "payload"), ("value", .float value),
    ("runner", .str "sim")]

/-- Two metric tables of seed 7 and their trace. -/
def rerunReader : Reader ℚ Unit where
  metrics address := if address = "first" then .ok [rerunRow 1] else .ok [rerunRow 2]
  traceSeed _ := .ok (some 7)

/-- A run of seed 7 with the metric table at the address. -/
def rerunResult (address : String) : RunResult where
  ok := true
  outputs := Dict.ofList [(metricsOutput, address), (traceOutput, "trace")]

/-- The metric of the rerun seed; its traces are its values. -/
def payload : Metric ℚ ℚ where
  name := "payload"
  version := "1"
  unit := "kg"
  direction := .higherBetter
  aggregation := .mean
  compute := some

/-- The values of the scorecard, in the order of the results. -/
def rerunValues (addresses : List String) : Option (List (List (Option ℚ))) :=
  (collectScorecard rerunReader [payload] none (addresses.map rerunResult)).toOption.map
    fun collected => collected.1.metrics.map AggregateScore.perSeed

/-- **Counterexample.** Seed 7 was run twice, with the values 1 and 2: the order of the results
decides which of them the scorecard has. -/
theorem rerun_not_faithful :
    ¬CollectsFaithfully rerunReader [payload] none [rerunResult "first", rerunResult "second"] := by
  intro h
  have horder := h.order [rerunResult "second", rerunResult "first"] (List.Perm.swap _ _ [])
  have hvalues : rerunValues ["second", "first"] = rerunValues ["first", "second"] := by
    simp only [rerunValues, List.map_cons, List.map_nil, horder]
  revert hvalues
  decide +kernel

end AstroMine.Bench
