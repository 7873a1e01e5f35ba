import AstroMine.Guard.Response
import AstroMine.Guard.SpecCompiler
import AstroMine.Guard.Detection

/-!
# The memory of the monitors (`rust/src/model.rs`, lines 355–366 and 534–563)

A monitor keeps two ring buffers for every node of its tree, sized by the upper bound of the node's
interval (`rust/src/monitors.rs`, lines 106–126). The decoder compares another number with the cap,
the history length that the automaton declares, and never looks at the bounds themselves.

Results:
* `run_capacities`: no run changes the capacity of a buffer.
* `flatten_capacity_iff`: the largest buffer of a plan has `horizon + 1` slots.
* `horizon_eq_lookBack`: the samples that the robustness of a formula depends on.
* `fromProto_history_iff`: an accepted model keeps within its cap and its declared histories exactly
  when each tree that was sent looks back no further than declared, and none of its other nodes
  carries an interval above the cap.
* `fromProto_history_of_historyWindow`: what the compiler declares is enough.
-/

namespace AstroMine.Guard

open PastStl (Formula)

/-! ## How far a tree looks back -/

/-- The operator reads a window of its past. -/
def TemporalOp.windowed : TemporalOp → Bool
  | .always | .eventually | .until => true
  | .predicate | .not | .and | .or => false

namespace CompiledNode

mutual

/-- `CompiledNode::horizon` (`model.rs:357-366`). -/
def horizon : CompiledNode → ℕ
  | mk _ _ _ hi args => max (hi.getD 0) (horizons args)

/-- The largest horizon of the `args`. -/
def horizons : List CompiledNode → ℕ
  | [] => 0
  | n :: ns => max (horizon n) (horizons ns)

end

mutual

/-- The samples a tree looks back over: the upper bounds of nested windows add up. -/
def lookBack : CompiledNode → ℕ
  | mk op _ _ hi args => (if op.windowed then hi.getD 0 else 0) + lookBacks args

/-- The furthest that one of the `args` looks back. -/
def lookBacks : List CompiledNode → ℕ
  | [] => 0
  | n :: ns => max (lookBack n) (lookBacks ns)

end

mutual

/-- The largest upper bound that a node without a window carries. -/
def strayHorizon : CompiledNode → ℕ
  | mk op _ _ hi args => max (if op.windowed then 0 else hi.getD 0) (strayHorizons args)

/-- The largest stray bound of the `args`. -/
def strayHorizons : List CompiledNode → ℕ
  | [] => 0
  | n :: ns => max (strayHorizon n) (strayHorizons ns)

end

mutual

/-- A bound in a tree belongs to a window, and adds to how far the tree looks back, or is stray. -/
theorem horizon_le_iff (k : ℕ) : ∀ n : CompiledNode, n.lookBack ≤ k →
    (n.horizon ≤ k ↔ n.strayHorizon ≤ k)
  | mk op pi lo hi args, h => by
    rw [lookBack] at h
    have ih := horizons_le_iff k args (by omega)
    rw [horizon, strayHorizon, max_le_iff, max_le_iff, ih]
    split_ifs at h ⊢
    · omega
    · exact Iff.rfl

theorem horizons_le_iff (k : ℕ) : ∀ ns : List CompiledNode, lookBacks ns ≤ k →
    (horizons ns ≤ k ↔ strayHorizons ns ≤ k)
  | [], _ => Iff.rfl
  | n :: ns, h => by
    rw [lookBacks, max_le_iff] at h
    rw [horizons, strayHorizons, max_le_iff, max_le_iff, horizon_le_iff k n h.1,
      horizons_le_iff k ns h.2]

end

theorem ofInterval_hi {lo hi : Option ℕ} {w : Window} (h : Window.ofInterval lo hi = some w) :
    hi.getD 0 = w.hi := by
  unfold Window.ofInterval at h
  split at h
  · split_ifs at h
    cases h
    rfl
  · cases h

mutual

/-- The samples that the robustness of the formula of a tree depends on. -/
theorem horizon_eq_lookBack : ∀ (n : CompiledNode) {φ : Formula ℕ Window}, n.formula = some φ →
    PastStl.horizon Window.hi φ = n.lookBack
  | mk op pi lo hi args, φ, h => by
    unfold formula at h
    cases hargs : formulas args with
    | none =>
      rw [hargs] at h
      cases h
    | some φs =>
      rw [hargs] at h
      have ih := horizons_eq_lookBacks args hargs
      rw [lookBack, ← ih]
      dsimp only at h
      split at h
      · obtain ⟨i, -, rfl⟩ := Option.map_eq_some_iff.mp h
        rfl
      · cases h
        simp [PastStl.horizon, PastStl.horizons, TemporalOp.windowed]
      · cases h
        simp [PastStl.horizon, TemporalOp.windowed]
      · cases h
        simp [PastStl.horizon, TemporalOp.windowed]
      · obtain ⟨w, hw, rfl⟩ := Option.map_eq_some_iff.mp h
        simp [PastStl.horizon, PastStl.horizons, TemporalOp.windowed, ofInterval_hi hw]
      · obtain ⟨w, hw, rfl⟩ := Option.map_eq_some_iff.mp h
        simp [PastStl.horizon, PastStl.horizons, TemporalOp.windowed, ofInterval_hi hw]
      · obtain ⟨w, hw, rfl⟩ := Option.map_eq_some_iff.mp h
        simp [PastStl.horizon, PastStl.horizons, TemporalOp.windowed, ofInterval_hi hw]
      · cases h

theorem horizons_eq_lookBacks : ∀ (ns : List CompiledNode) {φs : List (Formula ℕ Window)},
    formulas ns = some φs → PastStl.horizons Window.hi φs = lookBacks ns
  | [], φs, h => by
    cases h
    rfl
  | n :: ns, φs, h => by
    unfold formulas at h
    split at h
    · rename_i φ φs' hn hns
      cases h
      rw [PastStl.horizons, lookBacks, horizon_eq_lookBack n hn, horizons_eq_lookBacks ns hns]
    · cases h

end

end CompiledNode

/-! ## The trees on the wire -/

namespace Proto.CompiledNode

/-- The operators that read a window of their past, by their names. -/
def windowed (op : String) : Bool := op = "always" || op = "eventually" || op = "until"

mutual

/-- The samples a tree on the wire looks back over. -/
def lookBack : Proto.CompiledNode → ℤ
  | mk op _ _ hi args => (if windowed op then hi.getD 0 else 0) + lookBacks args

/-- The furthest that one of the `args` looks back. -/
def lookBacks : List Proto.CompiledNode → ℤ
  | [] => 0
  | n :: ns => max (lookBack n) (lookBacks ns)

end

mutual

/-- The largest upper bound that a node without a window carries. -/
def strayHorizon : Proto.CompiledNode → ℤ
  | mk op _ _ hi args => max (if windowed op then 0 else hi.getD 0) (strayHorizons args)

/-- The largest stray bound of the `args`. -/
def strayHorizons : List Proto.CompiledNode → ℤ
  | [] => 0
  | n :: ns => max (strayHorizon n) (strayHorizons ns)

end

end Proto.CompiledNode

theorem TemporalOp.parse_windowed {s : String} {op : TemporalOp}
    (h : TemporalOp.parse s = .ok op) : Proto.CompiledNode.windowed s = op.windowed := by
  unfold TemporalOp.parse at h
  split_ifs at h <;> cases h <;> subst_vars <;> rfl

theorem optUsize_getD {v : Option ℤ} {what : String} {r : Option ℕ}
    (h : optUsize v what = .ok r) : ((r.getD 0 : ℕ) : ℤ) = v.getD 0 := by
  cases v with
  | none =>
    cases h
    rfl
  | some x =>
    simp only [optUsize, map_eq_ok, toUsize] at h
    obtain ⟨n, hn, rfl⟩ := h
    split_ifs at hn with hx
    cases hn
    exact Int.toNat_of_nonneg hx

namespace CompiledNode

mutual

/-- A decoded tree has the bounds of the tree that was sent. -/
theorem fromProto_bounds : ∀ {p : Proto.CompiledNode} {n : CompiledNode},
    fromProto p = .ok n →
      (n.lookBack : ℤ) = p.lookBack ∧ (n.strayHorizon : ℤ) = p.strayHorizon
  | .mk op pi lo hi args, n, h => by
    simp only [fromProto, bind_eq_ok] at h
    obtain ⟨op', hop, pi', -, lo', -, hi', hhi, args', hargs, ⟨⟩, -, hn⟩ := h
    cases hn
    obtain ⟨hback, hstray⟩ := fromProtos_bounds hargs
    have hwin := TemporalOp.parse_windowed hop
    have hbound := optUsize_getD hhi
    rw [lookBack, strayHorizon, Proto.CompiledNode.lookBack, Proto.CompiledNode.strayHorizon,
      hwin]
    split_ifs <;> constructor <;> push_cast <;> omega

theorem fromProtos_bounds : ∀ {ps : List Proto.CompiledNode} {ns : List CompiledNode},
    fromProtos ps = .ok ns →
      (lookBacks ns : ℤ) = Proto.CompiledNode.lookBacks ps ∧
        (strayHorizons ns : ℤ) = Proto.CompiledNode.strayHorizons ps
  | [], ns, h => by
    cases h
    exact ⟨rfl, rfl⟩
  | p :: ps, ns, h => by
    simp only [fromProtos, bind_eq_ok] at h
    obtain ⟨n, hn, ns', hns, h⟩ := h
    cases h
    obtain ⟨hback, hstray⟩ := fromProto_bounds hn
    obtain ⟨hbacks, hstrays⟩ := fromProtos_bounds hns
    rw [lookBacks, strayHorizons, Proto.CompiledNode.lookBacks, Proto.CompiledNode.strayHorizons]
    constructor <;> push_cast <;> omega

end

mutual

/-- The sum of all bounds of a tree covers each of them, and the nested ones together. -/
theorem bounds_le_historyWindow : ∀ {p : Proto.CompiledNode} {n : CompiledNode},
    fromProto p = .ok n →
      (n.horizon : ℤ) ≤ historyWindow p ∧ (n.lookBack : ℤ) ≤ historyWindow p
  | .mk op pi lo hi args, n, h => by
    simp only [fromProto, bind_eq_ok] at h
    obtain ⟨op', -, pi', -, lo', -, hi', hhi, args', hargs, ⟨⟩, -, hn⟩ := h
    cases hn
    obtain ⟨hhorizon, hback⟩ := bounds_le_historyWindows hargs
    have hbound := optUsize_getD hhi
    rw [horizon, lookBack, historyWindow]
    split_ifs <;> constructor <;> push_cast <;> omega

theorem bounds_le_historyWindows : ∀ {ps : List Proto.CompiledNode} {ns : List CompiledNode},
    fromProtos ps = .ok ns → (horizons ns : ℤ) ≤ historyWindows ps ∧
      (lookBacks ns : ℤ) ≤ historyWindows ps
  | [], ns, h => by
    cases h
    exact ⟨le_rfl, le_rfl⟩
  | p :: ps, ns, h => by
    simp only [fromProtos, bind_eq_ok] at h
    obtain ⟨n, hn, ns', hns, h⟩ := h
    cases h
    obtain ⟨hhorizon, hback⟩ := bounds_le_historyWindow hn
    obtain ⟨hhorizons, hbacks⟩ := bounds_le_historyWindows hns
    rw [horizons, lookBacks, historyWindows]
    constructor <;> push_cast <;> omega

end

end CompiledNode

/-! ## The buffers of a plan -/

section Buffers

variable {K : Type} [Field K]

/-- The capacities of the buffers of a node. -/
def NodeEval.capacities (node : NodeEval K) : ℕ × ℕ := (node.bufA.cap, node.bufB.cap)

/-- The buffers of a node have at most `k` slots. -/
def NodeEval.Within (k : ℕ) (node : NodeEval K) : Prop :=
  node.capacities.1 ≤ k ∧ node.capacities.2 ≤ k

theorem ofCompiled_within_iff {k : ℕ} (op : TemporalOp) (pi lo hi : Option ℕ)
    (children : List ℕ) :
    (NodeEval.ofCompiled (K := K) op pi lo hi children).Within (k + 1) ↔ hi.getD 0 ≤ k := by
  unfold NodeEval.Within NodeEval.capacities NodeEval.ofCompiled
  simp

mutual

/-- Flattening a tree allocates buffers of at most `k + 1` slots exactly when its bounds are at
most `k`. -/
theorem flatten_capacity_iff {k : ℕ} : ∀ (n : CompiledNode) (out : List (NodeEval K)),
    (∀ node ∈ (flatten n out).2, node.Within (k + 1)) ↔
      (∀ node ∈ out, node.Within (k + 1)) ∧ n.horizon ≤ k
  | .mk op pi lo hi args, out => by
    have ih := flattenArgs_capacity_iff (k := k) args out
    simp only [flatten, List.forall_mem_append, List.forall_mem_singleton, ih,
      ofCompiled_within_iff, CompiledNode.horizon, max_le_iff]
    tauto

theorem flattenArgs_capacity_iff {k : ℕ} : ∀ (ns : List CompiledNode) (out : List (NodeEval K)),
    (∀ node ∈ (flattenArgs ns out).2, node.Within (k + 1)) ↔
      (∀ node ∈ out, node.Within (k + 1)) ∧ CompiledNode.horizons ns ≤ k
  | [], out => by simp [flattenArgs, CompiledNode.horizons]
  | n :: ns, out => by
    have ih := flattenArgs_capacity_iff (k := k) ns (flatten n out).2
    simp only [flattenArgs, ih, flatten_capacity_iff n out, CompiledNode.horizons, max_le_iff,
      and_assoc]

end

/-- The capacities of the buffers of a monitor. -/
def Monitor.capacities (m : Monitor K) : List (ℕ × ℕ) := m.nodes.map NodeEval.capacities

variable [LinearOrder K]

/-- **Spec.** Evaluating a node pushes onto its buffers and does not resize them. -/
theorem evalNode_capacities {pred : ℕ → Except Panic (Flt K)} {nodes : List (NodeEval K)}
    {node node' : NodeEval K} {v : Flt K} (h : evalNode pred nodes node = .ok (node', v)) :
    node'.capacities = node.capacities := by
  unfold evalNode at h
  cases hop : node.op
  all_goals
    rw [hop] at h
    simp only [evalWindow, evalUntil, bind_eq_ok] at h
  · obtain ⟨i, -, w, -, h⟩ := h
    cases h
    rfl
  iterate 5
    · obtain ⟨w, -, h⟩ := h
      cases h
      rfl
  · obtain ⟨phi, -, psi, -, h⟩ := h
    cases h
    rfl

theorem evalAt_capacities {pred : ℕ → Except Panic (Flt K)} {nodes nodes' : List (NodeEval K)}
    {i : ℕ} (h : evalAt pred nodes i = .ok nodes') :
    nodes'.map NodeEval.capacities = nodes.map NodeEval.capacities := by
  simp only [evalAt, bind_eq_ok, index_eq_ok] at h
  obtain ⟨node, hnode, ⟨node', v⟩, heval, h⟩ := h
  cases h
  obtain ⟨hi, rfl⟩ := List.getElem?_eq_some_iff.mp hnode
  have hsame := evalNode_capacities heval
  rw [List.map_set]
  show (nodes.map NodeEval.capacities).set i node'.capacities = _
  rw [hsame, ← List.getElem_map NodeEval.capacities (h := by simpa using hi),
    List.set_getElem_self]

theorem foldlM_evalAt_capacities {pred : ℕ → Except Panic (Flt K)} {is : List ℕ}
    {nodes nodes' : List (NodeEval K)} (h : is.foldlM (evalAt pred) nodes = .ok nodes') :
    nodes'.map NodeEval.capacities = nodes.map NodeEval.capacities := by
  induction is generalizing nodes with
  | nil =>
    cases h
    rfl
  | cons i is ih =>
    rw [List.foldlM_cons, bind_eq_ok] at h
    obtain ⟨nodes₁, hi, hrest⟩ := h
    rw [ih hrest, evalAt_capacities hi]

/-- **Step.** A sample does not change the capacity of a buffer. -/
theorem step_capacities {m m' : Monitor K} {pred : ℕ → Except Panic (Flt K)} {horizon : ℕ}
    {verdict : MonitorVerdict K} (h : m.step pred horizon = .ok (m', verdict)) :
    m'.capacities = m.capacities := by
  simp only [Monitor.step, bind_eq_ok] at h
  obtain ⟨nodes, hnodes, root, -, h⟩ := h
  cases h
  exact foldlM_evalAt_capacities hnodes

theorem stepMonitors_capacities {predRob : List (Flt K)} {horizon : ℕ} {ms ms' : List (Monitor K)}
    {mi : ℕ} {fired : Option (ℕ × OnUncertain)}
    (h : SafetyCore.stepMonitors predRob horizon ms mi = .ok (ms', fired)) :
    ms'.map Monitor.capacities = ms.map Monitor.capacities := by
  induction ms generalizing mi ms' fired with
  | nil =>
    cases h
    rfl
  | cons m ms ih =>
    simp only [SafetyCore.stepMonitors, bind_eq_ok] at h
    obtain ⟨⟨m₁, verdict⟩, hm, ⟨ms₁, rest⟩, hms, h⟩ := h
    cases h
    rw [List.map_cons, List.map_cons, ih hms, step_capacities hm]

namespace SafetyCore

variable [HasSqrt K]

theorem tick_capacities {core core' : SafetyCore K} {t : Tick K} {v : SafetyVerdict K}
    (h : core.tick t = .ok (core', v)) :
    core'.monitors.map Monitor.capacities = core.monitors.map Monitor.capacities := by
  obtain ⟨-, a, b, rfl⟩ | ⟨-, ms, hadv, a, b, rfl⟩ := tick_cases h
  · rfl
  · simp only [advance, bind_eq_ok] at hadv
    obtain ⟨predRob, -, ⟨ms', fired⟩, hstep, hadv⟩ := hadv
    cases hadv
    exact stepMonitors_capacities hstep

/-- **Run.** No run changes the capacity of a buffer. -/
theorem run_capacities {ticks : List (Tick K)} {core core' : SafetyCore K}
    {vs : List (SafetyVerdict K)} (h : core.run ticks = .ok (core', vs)) :
    core'.monitors.map Monitor.capacities = core.monitors.map Monitor.capacities := by
  induction ticks generalizing core vs with
  | nil =>
    cases h
    rfl
  | cons t ts ih =>
    simp only [run, bind_eq_ok] at h
    obtain ⟨⟨core₁, v⟩, hd, ⟨core₂, vs'⟩, hr, h⟩ := h
    cases h
    rw [ih hr, tick_capacities hd]

end SafetyCore

/-! ## The bound -/

open SafetyCore (fromModel Tick)

variable [HasSqrt K]

/-- The memory of a model is bounded: in every run each buffer has at most one slot more than the
cap, and no formula looks back over more samples than its automaton declares. -/
structure CompiledSafetyModel.HistoryLaw (m : CompiledSafetyModel K) (cap : ℕ) : Prop where
  buffers : ∀ (cfg : CoreConfig K) (ticks : List (Tick K)) (core : SafetyCore K)
    (vs : List (SafetyVerdict K)), (fromModel m cfg).run ticks = .ok (core, vs) →
      ∀ monitor ∈ core.monitors, ∀ node ∈ monitor.nodes, node.Within (cap + 1)
  lookBack : ∀ a ∈ m.monitors, ∀ φ, a.root.formula = some φ →
    PastStl.horizon Window.hi φ ≤ a.historyWindowLen ∧ a.historyWindowLen ≤ cap

/-- The buffers of every run are those of the plan. -/
theorem buffers_iff {m : CompiledSafetyModel K} {cap : ℕ} :
    (∀ (cfg : CoreConfig K) (ticks : List (Tick K)) (core : SafetyCore K)
      (vs : List (SafetyVerdict K)), (fromModel m cfg).run ticks = .ok (core, vs) →
        ∀ monitor ∈ core.monitors, ∀ node ∈ monitor.nodes, node.Within (cap + 1)) ↔
      ∀ a ∈ m.monitors, a.root.horizon ≤ cap := by
  have hplan : ∀ a : MonitorAutomaton,
      (∀ c ∈ (Monitor.new a : Monitor K).capacities, c.1 ≤ cap + 1 ∧ c.2 ≤ cap + 1) ↔
        a.root.horizon ≤ cap := by
    intro a
    have h := flatten_capacity_iff (K := K) (k := cap) a.root []
    simp only [List.not_mem_nil, false_implies, implies_true, true_and] at h
    rw [← h]
    exact List.forall_mem_map
  constructor
  · intro h a ha
    refine (hplan a).1 fun c hc => ?_
    obtain ⟨node, hnode, rfl⟩ := List.mem_map.mp hc
    exact h .default [] _ [] rfl (Monitor.new a) (List.mem_map_of_mem ha) node hnode
  · intro h cfg ticks core vs hrun monitor hmonitor node hnode
    have hmem := List.mem_map_of_mem (f := Monitor.capacities) hmonitor
    rw [SafetyCore.run_capacities hrun] at hmem
    obtain ⟨monitor₀, hmonitor₀, hcap⟩ := List.mem_map.mp hmem
    obtain ⟨a, ha, rfl⟩ := List.mem_map.mp hmonitor₀
    refine (hplan a).2 (h a ha) node.capacities ?_
    rw [hcap]
    exact List.mem_map_of_mem hnode

omit [HasSqrt K] in
/-- **Spec.** The automata of an accepted model are the decoded ones. -/
theorem fromProto_monitors {p : Proto.CompiledSafetyModel K} {cap : ℕ}
    {m : CompiledSafetyModel K} (h : CompiledSafetyModel.fromProto p cap = .ok m) :
    ∃ atomCount, p.monitors.mapM (decodeMonitor atomCount cap) = .ok m.monitors := by
  simp only [CompiledSafetyModel.fromProto, bind_eq_ok] at h
  obtain ⟨-, -, table, -, atoms, -, bounds, -, terms, -, dim, -, monitors, hmonitors, pose, -,
    limits, -, directives, -, rb, -, h⟩ := h
  cases h
  exact ⟨_, hmonitors⟩

/-- **Spec.** What the decoder checks of a declared history. -/
theorem decodeMonitor_history {atomCount cap : ℕ} {p : Proto.MonitorAutomaton}
    {a : MonitorAutomaton} (h : decodeMonitor atomCount cap p = .ok a) :
    (∃ root, p.root = some root ∧ CompiledNode.fromProto root = .ok a.root) ∧
      (a.historyWindowLen : ℤ) = p.historyWindowLen ∧ a.historyWindowLen ≤ cap := by
  simp only [decodeMonitor, bind_eq_ok, ensure_eq_ok, okOr_eq_ok, toUsize] at h
  obtain ⟨root, hroot, root', hroot', len, hlen, -, hcap, u, -, count, -, indices, -, h⟩ := h
  cases h
  split_ifs at hlen with hpos
  cases hlen
  exact ⟨⟨root, hroot, hroot'⟩, Int.toNat_of_nonneg hpos, hcap⟩

/-- The tree looks back no further than the automaton declares, and none of its nodes without a
window carries an upper bound above the cap. -/
def Proto.MonitorAutomaton.Bounded (cap : ℕ) (p : Proto.MonitorAutomaton) : Prop :=
  ∀ root, p.root = some root →
    root.lookBack ≤ p.historyWindowLen ∧ root.strayHorizon ≤ (cap : ℤ)

/-- A decoded automaton and the message it was decoded from are bounded alike. -/
theorem decodeMonitor_bounded_iff {atomCount cap : ℕ} {p : Proto.MonitorAutomaton}
    {a : MonitorAutomaton} (h : decodeMonitor atomCount cap p = .ok a) :
    p.Bounded cap ↔ a.root.horizon ≤ cap ∧ a.root.lookBack ≤ a.historyWindowLen := by
  obtain ⟨⟨root, hroot, hfrom⟩, hlen, hcap⟩ := decodeMonitor_history h
  obtain ⟨hback, hstray⟩ := CompiledNode.fromProto_bounds hfrom
  have hbounds : p.Bounded cap ↔
      a.root.lookBack ≤ a.historyWindowLen ∧ a.root.strayHorizon ≤ cap := by
    unfold Proto.MonitorAutomaton.Bounded
    simp only [hroot, Option.some.injEq, forall_eq']
    rw [← hback, ← hstray, ← hlen, Nat.cast_le, Nat.cast_le]
  rw [hbounds, and_comm]
  exact and_congr_left fun hle =>
    (CompiledNode.horizon_le_iff cap a.root (hle.trans hcap)).symm

/-- What the bound says of the decoded automata. -/
theorem historyLaw_iff {p : Proto.CompiledSafetyModel K} {cap : ℕ} {m : CompiledSafetyModel K}
    (h : CompiledSafetyModel.fromProto p cap = .ok m) : m.HistoryLaw cap ↔
      ∀ a ∈ m.monitors, a.root.horizon ≤ cap ∧ a.root.lookBack ≤ a.historyWindowLen := by
  obtain ⟨atomCount, hmonitors⟩ := fromProto_monitors h
  have hvalid := CompiledSafetyModel.fromProto_valid h
  constructor
  · intro hlaw a ha
    refine ⟨buffers_iff.1 hlaw.buffers a ha, ?_⟩
    obtain ⟨φ, hφ⟩ := Option.isSome_iff_exists.mp
      ((CompiledNode.formula_isSome_iff a.root).2 (hvalid.monitors a ha))
    rw [← CompiledNode.horizon_eq_lookBack a.root hφ]
    exact (hlaw.lookBack a ha φ hφ).1
  · intro hall
    refine ⟨buffers_iff.2 fun a ha => (hall a ha).1, fun a ha φ hφ => ?_⟩
    obtain ⟨p', -, hdecode⟩ := (mem_of_mapM hmonitors a).1 ha
    rw [CompiledNode.horizon_eq_lookBack a.root hφ]
    exact ⟨(hall a ha).2, (decodeMonitor_history hdecode).2.2⟩

/-- **Main theorem.** An accepted model keeps within its cap and its declared histories exactly when
every tree that was sent looks back no further than declared, and none of its nodes without a window
carries an upper bound above the cap. -/
theorem fromProto_history_iff {p : Proto.CompiledSafetyModel K} {cap : ℕ}
    {m : CompiledSafetyModel K} (h : CompiledSafetyModel.fromProto p cap = .ok m) :
    m.HistoryLaw cap ↔ ∀ a ∈ p.monitors, a.Bounded cap := by
  obtain ⟨atomCount, hmonitors⟩ := fromProto_monitors h
  rw [historyLaw_iff h]
  constructor
  · intro hall a ha
    obtain ⟨a', ha', hdecode⟩ := exists_of_mapM hmonitors ha
    exact (decodeMonitor_bounded_iff hdecode).2 (hall a' ha')
  · intro hall a ha
    obtain ⟨p', hp', hdecode⟩ := (mem_of_mapM hmonitors a).1 ha
    exact (decodeMonitor_bounded_iff hdecode).1 (hall p' hp')

/-- What the compiler declares covers the windows of a tree, however they are nested. -/
theorem fromProto_history_of_historyWindow {p : Proto.CompiledSafetyModel K} {cap : ℕ}
    {m : CompiledSafetyModel K} (h : CompiledSafetyModel.fromProto p cap = .ok m)
    (hdeclared : ∀ a ∈ p.monitors, ∀ root, a.root = some root →
      a.historyWindowLen = historyWindow root) : m.HistoryLaw cap := by
  obtain ⟨atomCount, hmonitors⟩ := fromProto_monitors h
  refine (historyLaw_iff h).2 fun a ha => ?_
  obtain ⟨p', hp', hdecode⟩ := (mem_of_mapM hmonitors a).1 ha
  obtain ⟨⟨root, hroot, hfrom⟩, hlen, hcap⟩ := decodeMonitor_history hdecode
  obtain ⟨hhorizon, hback⟩ := CompiledNode.bounds_le_historyWindow hfrom
  rw [← hdeclared p' hp' root hroot, ← hlen] at hhorizon hback
  exact ⟨(Int.ofNat_le.mp hhorizon).trans hcap, Int.ofNat_le.mp hback⟩

end Buffers

/-! ## A history that is not declared -/

open SafetyCore in
theorem fromProto_history_iff_oneMonitor :
    CompiledSafetyModel.fromProto (oneMonitorProto 0) 1 = .ok (oneMonitorModel 0) ∧
      ((oneMonitorModel 0).HistoryLaw 1 ↔ ∀ a ∈ (oneMonitorProto 0).monitors, a.Bounded 1) :=
  have h : CompiledSafetyModel.fromProto (oneMonitorProto 0) 1 = .ok (oneMonitorModel 0) := rfl
  ⟨h, fromProto_history_iff h⟩

/-- An automaton that declares no history and looks back over a million samples. -/
def undeclaredProto : Proto.CompiledSafetyModel ℚ :=
  { SafetyCore.oneMonitorProto 0 with
    monitors := [
      { constraintId := "c", onUncertain := "hold"
        root := some (.mk "always" none (some 0) (some 1000000)
          [.mk "predicate" (some 0) none none []])
        historyWindowLen := 0, nodeCount := 2, predicateIndices := [0] }] }

/-- The decoded form of `undeclaredProto`. -/
def undeclaredModel : CompiledSafetyModel ℚ :=
  { SafetyCore.oneMonitorModel 0 with
    monitors := [
      { constraintId := "c", onUncertain := .hold
        root := .mk .always none (some 0) (some 1000000) [.mk .predicate (some 0) none none []]
        historyWindowLen := 0, nodeCount := 2, predicateIndices := [0] }] }

/-- **Counterexample.** With a cap of no history at all the model is accepted, and its monitor
allocates two buffers of a million slots for a formula that looks back as far. -/
theorem undeclaredProto_accepted :
    ¬ ∀ (p : Proto.CompiledSafetyModel ℚ) (cap : ℕ) (m : CompiledSafetyModel ℚ),
      CompiledSafetyModel.fromProto p cap = .ok m → m.HistoryLaw cap := by
  intro hclaim
  have h : CompiledSafetyModel.fromProto undeclaredProto 0 = .ok undeclaredModel := rfl
  have hall := (historyLaw_iff h).1 (hclaim _ 0 _ h) _ List.mem_cons_self
  exact absurd hall.2 (by decide)

end AstroMine.Guard
