import AstroMine.Guard.Detection

/-!
# Predicted violations while the windows fill

`Monitor::step` extrapolates the robustness of two consecutive ticks (`rust/src/monitors.rs:153-168`).
On a stream that never changes the extrapolation sees only the windows fill up: a window that
starts at age 1 or later is empty on the first ticks and reports its identity, and the step from
`+∞` to a finite robustness has slope `-∞`.

Results:
* `verdictOf_predicted_iff`: when two consecutive robustness values raise `predicted`.
* `Monitor.Tracks.run_verdicts`: the verdicts of a run, from the robustness of its ticks.
* `run_predicted_iff`: a constant stream raises no prediction if and only if the robustness of the
  formula never falls, while its windows fill, by as much as the extrapolation needs; it never falls
  in a formula whose windows start at the current tick wherever filling them can lower it.
* `prediction_not_meaningful`: `always[1, 1]` of a margin of 1 predicts a violation at tick 1.
-/

namespace AstroMine.Guard

open PastStl (Formula sem AllAtoms Polar GrowsOnly)
open CompiledNode

variable {K : Type} [Field K] [LinearOrder K]

/-! ## The extrapolation -/

/-- A line through `r` and, one tick later, `r'` falls and reaches zero at most `horizon` ticks
    after that. A fall from `+∞` does so at once. -/
def FallsWithin (horizon : ℕ) (r r' : Ext K) : Prop :=
  Ext.fin 0 ≤ r' ∧ r' < r ∧
    (r = ⊤ ∨ ∃ a b : K, r = Ext.fin a ∧ r' = Ext.fin b ∧ b ≤ horizon * (a - b))

/-- The branch of `verdictOf` that predicts. -/
theorem verdictOf_predicted (prev r : Flt K) (horizon : ℕ) :
    (verdictOf (some prev) r horizon).predicted = true ↔
      ¬ r < 0 ∧ r - prev < 0 ∧ r / -(r - prev) ≤ .fin (horizon : K) := by
  unfold verdictOf
  dsimp only
  split_ifs with h
  · rw [Bool.and_eq_true, Bool.not_eq_true', decide_eq_false_iff_not, decide_eq_true_eq] at h
    rw [decide_eq_true_eq]
    exact ⟨fun hle => ⟨h.1, h.2, hle⟩, fun hle => hle.2.2⟩
  · constructor
    · intro hf
      cases hf
    · rintro ⟨hr, hslope, -⟩
      refine absurd ?_ h
      rw [Bool.and_eq_true, Bool.not_eq_true', decide_eq_false_iff_not, decide_eq_true_eq]
      exact ⟨hr, hslope⟩

theorem verdictOf_robustness (prev : Option (Flt K)) (r : Flt K) (horizon : ℕ) :
    (verdictOf prev r horizon).robustness = r := by
  unfold verdictOf
  cases prev with
  | none => rfl
  | some prev =>
    dsimp only
    split_ifs <;> rfl

/-- **Spec.** The verdict of a tick is `predicted` when the robustness falls within the horizon. -/
theorem verdictOf_predicted_iff [IsStrictOrderedRing K] (horizon : ℕ) (r r' : Ext K) :
    (verdictOf (some r.toFlt) r'.toFlt horizon).predicted = true ↔ FallsWithin horizon r r' := by
  rw [verdictOf_predicted]
  obtain rfl | rfl | ⟨b, rfl⟩ := Ext.cases r'
  · -- the formula is violated already
    constructor
    · rintro ⟨h, -, -⟩
      exact absurd (show Flt.negInf < Flt.fin (0 : K) from nofun) h
    · rintro ⟨h, -, -⟩
      exact absurd h (not_le.mpr (Ext.bot_lt_fin 0))
  · constructor
    · rintro ⟨-, h, -⟩
      obtain rfl | rfl | ⟨a, rfl⟩ := Ext.cases r <;> exact h.elim
    · rintro ⟨-, h, -⟩
      exact absurd h not_top_lt
  · have hb : ¬ (Ext.fin b).toFlt < 0 ↔ Ext.fin 0 ≤ Ext.fin b := by
      rw [← not_lt, ← Ext.toFlt_lt_toFlt]
      rfl
    rw [hb]
    refine and_congr_right fun hb0 => ?_
    obtain rfl | rfl | ⟨a, rfl⟩ := Ext.cases r
    · constructor
      · rintro ⟨h, -⟩
        exact h.elim
      · rintro ⟨h, -⟩
        exact absurd h not_lt_bot
    · -- the slope is `-∞`, and the samples left are `b / ∞ = 0`
      refine ⟨fun _ => ⟨Ext.fin_lt_top b, .inl rfl⟩, fun _ => ⟨?_, ?_⟩⟩
      · exact (nofun : Flt.negInf < Flt.fin (0 : K))
      · show (Flt.fin 0 : Flt K) ≤ .fin (horizon : K)
        exact (Nat.cast_nonneg horizon : (0 : K) ≤ horizon)
    · have hlt : (Flt.fin b - Flt.fin a : Flt K) < 0 ↔ Ext.fin b < Ext.fin a := by
        rw [Flt.fin_sub, Flt.zero_def, Flt.fin_lt_fin, sub_neg, Ext.fin_lt_fin]
      show (Flt.fin b - Flt.fin a < 0 ∧ Flt.fin b / -(Flt.fin b - Flt.fin a) ≤ _) ↔ _
      rw [hlt]
      refine and_congr_right fun hba => ?_
      have hpos : 0 < a - b := sub_pos.mpr (Ext.fin_lt_fin.1 hba)
      rw [Flt.fin_sub, Flt.neg_fin, neg_sub, Flt.fin_div hpos.ne', Flt.fin_le_fin,
        div_le_iff₀ hpos]
      constructor
      · intro hle
        exact .inr ⟨a, b, rfl, rfl, hle⟩
      · rintro (htop | ⟨a', b', ha, hb', hle⟩)
        · exact absurd htop (Ext.fin_lt_top a).ne
        · cases Flt.fin.inj (congrArg Ext.toFlt ha)
          cases Flt.fin.inj (congrArg Ext.toFlt hb')
          exact hle

/-! ## The verdicts of a run -/

/-- A tick extrapolates from the robustness of the tick before, and keeps its own. -/
theorem Monitor.step_verdict {m m' : Monitor K} {pred : ℕ → Except Panic (Flt K)} {horizon : ℕ}
    {v : MonitorVerdict K} (h : m.step pred horizon = .ok (m', v)) :
    m'.prevRoot = some v.robustness ∧ v = verdictOf m.prevRoot v.robustness horizon := by
  unfold Monitor.step at h
  obtain ⟨nodes, -, h⟩ := bind_eq_ok.1 h
  obtain ⟨root, -, h⟩ := bind_eq_ok.1 h
  cases h
  rw [verdictOf_robustness]
  exact ⟨rfl, rfl⟩

/-- The robustness of the tick before tick `t`. -/
def robustnessBefore (s : ℕ → ℕ → Ext K) (φ : Formula ℕ Window) : ℕ → Option (Flt K)
  | 0 => none
  | t + 1 => some (robustnessAt s φ t)

/-- **Run.** A run that repeats the sample `x` reports at each tick the extrapolation of the
    robustness of that tick and the one before. -/
theorem Monitor.Tracks.run_verdicts {φ : Formula ℕ Window} {x : List (Ext K)} (horizon n : ℕ)
    {m : Monitor K} {k : ℕ} (h : m.Tracks (fun _ i => x.getD i ⊥) k φ (· < x.length))
    (hprev : m.prevRoot = robustnessBefore (fun _ i => x.getD i ⊥) φ k) :
    m.run horizon (List.replicate n (x.map Ext.toFlt)) =
      .ok ((List.range n).map fun t =>
        verdictOf (robustnessBefore (fun _ i => x.getD i ⊥) φ (k + t))
          (robustnessAt (fun _ i => x.getD i ⊥) φ (k + t)) horizon) := by
  induction n generalizing m k with
  | zero => rfl
  | succ n ih =>
    have hpred : ∀ a, a < x.length →
        index (x.map Ext.toFlt) a = .ok ((fun _ i => x.getD i ⊥ : ℕ → ℕ → Ext K) k a).toFlt := by
      intro a ha
      rw [index_eq_ok, List.getElem?_map, List.getElem?_eq_getElem ha]
      simp [ha]
    obtain ⟨m', v, hstep, hrob, hm'⟩ := h.step hpred horizon
    obtain ⟨hprev', hv⟩ := Monitor.step_verdict hstep
    rw [hrob] at hprev' hv
    rw [List.replicate_succ, Monitor.run, hstep]
    show (m'.run horizon _ >>= _) = _
    rw [ih hm' hprev', List.range_succ_eq_map, List.map_cons, List.map_map, hv, hprev]
    show Except.ok _ = Except.ok _
    congr 2
    refine List.map_congr_left fun t _ => ?_
    show verdictOf (robustnessBefore _ φ (k + 1 + t)) (robustnessAt _ φ (k + 1 + t)) horizon =
      verdictOf (robustnessBefore _ φ (k + (t + 1))) (robustnessAt _ φ (k + (t + 1))) horizon
    rw [Nat.add_right_comm, Nat.add_assoc]

/-! ## Constant streams -/

/-- The robustness of a formula at tick `t` of the stream that repeats the margins `x`. -/
def steady (x : List (Ext K)) (φ : Formula ℕ Window) (t : ℕ) : Ext K :=
  sem Ext.neg Window.contains (fun _ i => x.getD i ⊥) φ t

/-- Every `always` in positive and every `eventually` and `until` in negative position has a window
    that starts at the current tick. -/
def StartsNow (φ : Formula ℕ Window) : Prop :=
  Polar (fun w => w.lo = 0) (fun _ => True) true φ

theorem StartsNow.growsOnly {φ : Formula ℕ Window} (h : StartsNow φ) :
    GrowsOnly Window.contains true φ := by
  refine Polar.mono (fun w hw k hk => ?_) (fun _ _ => trivial) true φ h
  have hle := hk.2
  exact ⟨by rw [hw]; exact Nat.zero_le k, by omega⟩

/-- The verdicts of a constant run from a new monitor. -/
theorem new_run_verdicts {spec : MonitorAutomaton} {φ : Formula ℕ Window}
    (hφ : spec.root.formula = some φ) {x : List (Ext K)} (hatoms : AllAtoms (· < x.length) φ)
    (horizon n : ℕ) :
    (Monitor.new spec : Monitor K).run horizon (List.replicate n (x.map Ext.toFlt)) =
      .ok ((List.range n).map fun t =>
        verdictOf (robustnessBefore (fun _ i => x.getD i ⊥) φ t) (steady x φ t).toFlt horizon) := by
  have h := Monitor.Tracks.run_verdicts horizon n
    (Monitor.new_tracks hφ hatoms fun _ i => x.getD i ⊥) (k := 0) rfl
  simp only [Nat.zero_add] at h
  exact h

variable [IsStrictOrderedRing K]

/-- On a constant stream such a formula never falls. -/
theorem steady_le_succ {φ : Formula ℕ Window} (h : StartsNow φ) (x : List (Ext K)) (t : ℕ) :
    steady x φ t ≤ steady x φ (t + 1) :=
  PastStl.sem_le_succ Ext.neg Window.contains Ext.neg_antitone (fun _ => rfl) h.growsOnly t

/-- **Main theorem.** Take a monitor of an accepted model and a stream that repeats one vector of
    margins, with one for every predicate of the formula. No tick of the stream is `predicted` if
    and only if the robustness of the formula on the stream never falls from one tick to the next
    by as much as takes it to zero within the horizon (a fall from `+∞` always does). In a formula
    whose windows start at the current tick wherever filling them can lower the robustness, it
    never falls. -/
theorem run_predicted_iff {p : Proto.CompiledSafetyModel K} {cap : ℕ} {model : CompiledSafetyModel K}
    (hmodel : CompiledSafetyModel.fromProto p cap = .ok model) {spec : MonitorAutomaton}
    (hspec : spec ∈ model.monitors) {x : List (Ext K)} (hlookups : spec.root.PredicatesBelow x.length)
    (horizon : ℕ) :
    ∃ φ, spec.root.formula = some φ ∧
      ((∀ n, ∃ verdicts,
          (Monitor.new spec : Monitor K).run horizon (List.replicate n (x.map Ext.toFlt)) =
            .ok verdicts ∧ ∀ v ∈ verdicts, v.predicted = false) ↔
        ∀ t, ¬ FallsWithin horizon (steady x φ t) (steady x φ (t + 1))) ∧
      (StartsNow φ → ∀ t, ¬ FallsWithin horizon (steady x φ t) (steady x φ (t + 1))) := by
  have hchecked := (CompiledSafetyModel.fromProto_valid hmodel).monitors spec hspec
  obtain ⟨φ, hφ⟩ := Option.isSome_iff_exists.mp ((formula_isSome_iff spec.root).2 hchecked)
  have hatoms := (predicatesBelow_iff x.length hφ).1 hlookups
  refine ⟨φ, hφ, ⟨fun h t hfalls => ?_, fun h n => ?_⟩, fun hnow t hfalls => ?_⟩
  · -- the tick after the fall
    obtain ⟨verdicts, hrun, hquiet⟩ := h (t + 2)
    rw [new_run_verdicts hφ hatoms] at hrun
    cases hrun
    have hmem := hquiet _ (List.mem_map_of_mem (List.mem_range.mpr (Nat.lt_succ_self (t + 1))))
    have hpred := (verdictOf_predicted_iff horizon (steady x φ t) (steady x φ (t + 1))).2 hfalls
    exact Bool.noConfusion (hmem.symm.trans hpred)
  · refine ⟨_, new_run_verdicts hφ hatoms horizon n, fun v hv => ?_⟩
    obtain ⟨t, -, rfl⟩ := List.mem_map.mp hv
    cases t with
    | zero => rfl
    | succ t =>
      rw [Bool.eq_false_iff]
      exact fun hpred => h t ((verdictOf_predicted_iff horizon _ _).1 hpred)
  · exact absurd hfalls.2.1 (not_lt.mpr (steady_le_succ hnow x t))

/-- `oneMonitorProto` with the monitor `always[lo, 1] p₀`. -/
def delayedProto (lo : ℤ) : Proto.CompiledSafetyModel ℚ :=
  { SafetyCore.oneMonitorProto 0 with
    monitors := [
      { constraintId := "c", onUncertain := "hold"
        root := some (.mk "always" none (some lo) (some 1)
          [.mk "predicate" (some 0) none none []])
        historyWindowLen := 1, nodeCount := 2, predicateIndices := [0] }] }

/-- The monitor of `delayedProto`. -/
def delayedMonitor (lo : ℕ) : MonitorAutomaton where
  constraintId := "c"
  onUncertain := .hold
  root := .mk .always none (some lo) (some 1) [.mk .predicate (some 0) none none []]
  historyWindowLen := 1
  nodeCount := 2
  predicateIndices := [0]

theorem run_predicted_iff_undelayed :
    ∃ φ, (delayedMonitor 0).root.formula = some φ ∧
      ∀ n, ∃ verdicts, (Monitor.new (delayedMonitor 0) : Monitor ℚ).run 5
          (List.replicate n [Flt.fin 1]) = .ok verdicts ∧ ∀ v ∈ verdicts, v.predicted = false := by
  have hmodel : CompiledSafetyModel.fromProto (delayedProto 0) 1 =
      .ok { SafetyCore.oneMonitorModel 0 with monitors := [delayedMonitor 0] } := rfl
  have hlookups : (delayedMonitor 0).root.PredicatesBelow ([Ext.fin 1] : List (Ext ℚ)).length := by
    simp [delayedMonitor, PredicatesBelow, AllPredicatesBelow]
  obtain ⟨φ, hφ, hiff, hnow⟩ := run_predicted_iff hmodel (List.mem_singleton_self _) hlookups 5
  refine ⟨φ, hφ, hiff.2 (hnow ?_)⟩
  cases hφ
  exact ⟨rfl, trivial⟩

/-- **Counterexample.** `always[1, 1] p₀` with the margin of `p₀` constantly 1: the robustness is
    `+∞` at tick 0 and 1 from tick 1 on, and tick 1 is `predicted`. -/
theorem prediction_not_meaningful :
    ∃ model spec φ, CompiledSafetyModel.fromProto (delayedProto 1) 1 = .ok model ∧
      spec ∈ model.monitors ∧ spec.root.formula = some φ ∧
      (∀ t, Ext.fin 0 < steady ([Ext.fin 1] : List (Ext ℚ)) φ t) ∧
      ∃ verdicts, (Monitor.new spec : Monitor ℚ).run 5 (List.replicate 2 [Flt.fin 1]) =
          .ok verdicts ∧ ∃ v ∈ verdicts, v.predicted = true := by
  refine ⟨{ SafetyCore.oneMonitorModel 0 with monitors := [delayedMonitor 1] }, delayedMonitor 1,
    .always ⟨1, 1⟩ (.atom 0), rfl, by simp, rfl, fun t => ?_, ?_⟩
  · refine lt_of_lt_of_le (Ext.fin_lt_fin.2 one_pos) (PastStl.le_alwaysWithin fun k _ => ?_)
    exact le_rfl
  · have hany : ((Monitor.new (delayedMonitor 1) : Monitor ℚ).run 5
        (List.replicate 2 [Flt.fin 1])).toOption.any
          (fun verdicts => verdicts.any MonitorVerdict.predicted) = true := by
      decide +kernel
    obtain ⟨verdicts, hrun, hpred⟩ := exists_ok_of_any hany
    exact ⟨verdicts, hrun, List.any_eq_true.mp hpred⟩

end AstroMine.Guard
