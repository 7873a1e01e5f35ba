import AstroMine.Lib.RingBuf
import AstroMine.Lib.PastStl
import AstroMine.Guard.Model

/-!
# STL runtime monitors

The online evaluation of a compiled formula tree (`rust/src/monitors.rs`): the tree is flattened
into a post-ordered array of nodes, each windowed node owns ring buffers of its children's past
robustness, and a tick walks the array once.

Results:
* `windowReduce_always`, `windowReduce_eventually` and `untilReduce_eq`: the window loops over the
  ring buffers compute the windowed minimum, maximum and `until` of the histories they hold.
-/

namespace AstroMine.Guard

section Code

variable {K : Type} [Field K] [LinearOrder K]

/-! ## Evaluation plan -/

/-- `NodeEval` (`monitors.rs:63-72`). -/
structure NodeEval (K : Type) where
  op : TemporalOp
  children : List ℕ
  predicateIndex : Option ℕ
  lo : ℕ
  hi : ℕ
  bufA : RingBuf (Flt K)
  bufB : RingBuf (Flt K)
  cur : Flt K

/-- `Monitor` (`monitors.rs:76-82`). -/
structure Monitor (K : Type) where
  constraintId : String
  onUncertain : OnUncertain
  nodes : List (NodeEval K)
  root : ℕ
  prevRoot : Option (Flt K)

/-- `MonitorVerdict` (`monitors.rs:86-95`). -/
structure MonitorVerdict (K : Type) where
  robustness : Flt K
  violated : Bool
  predicted : Bool
  timeToViolationSamples : Option (Flt K)

/-- `MonitorVerdict::fired`. -/
def MonitorVerdict.fired (v : MonitorVerdict K) : Bool := v.violated || v.predicted

/-- The node `flatten` pushes for a tree node whose children have the given indices. -/
def NodeEval.ofCompiled (op : TemporalOp) (pi lo hi : Option ℕ) (children : List ℕ) :
    NodeEval K :=
  let cap := hi.getD 0 + 1
  { op := op, children := children, predicateIndex := pi, lo := lo.getD 0, hi := hi.getD 0
    bufA := RingBuf.new 0 cap, bufB := RingBuf.new 0 cap, cur := 0 }

mutual

/-- `flatten` (`monitors.rs:106-126`): append the nodes of a tree to `out`, children first, and
    return the index of its root. -/
def flatten : CompiledNode → List (NodeEval K) → ℕ × List (NodeEval K)
  | .mk op pi lo hi args, out =>
    let (children, out) := flattenArgs args out
    (out.length, out ++ [NodeEval.ofCompiled op pi lo hi children])

/-- The `args` of a node, flattened in order. -/
def flattenArgs : List CompiledNode → List (NodeEval K) → List ℕ × List (NodeEval K)
  | [], out => ([], out)
  | a :: as, out =>
    let (i, out) := flatten a out
    let (is, out) := flattenArgs as out
    (i :: is, out)

end

/-- `Monitor::new` (`monitors.rs:129-139`). -/
def Monitor.new (spec : MonitorAutomaton) : Monitor K :=
  let (root, nodes) := flatten spec.root []
  { constraintId := spec.constraintId, onUncertain := spec.onUncertain, nodes := nodes
    root := root, prevRoot := none }

/-! ## One tick -/

/-- `child_cur` (`monitors.rs:207-209`). -/
def childCur (nodes : List (NodeEval K)) (node : NodeEval K) (which : ℕ) :
    Except Panic (Flt K) := do
  let c ← index node.children which
  let child ← index nodes c
  return child.cur

/-- `reduce_children` (`monitors.rs:211-216`). -/
def reduceChildren (nodes : List (NodeEval K)) (node : NodeEval K) (init : Flt K)
    (f : Flt K → Flt K → Flt K) : Except Panic (Flt K) :=
  node.children.foldlM (fun acc c => do
    let child ← index nodes c
    return f acc child.cur) init

/-- The loop body of `window_reduce`, on `(acc, any)`. -/
def windowStep (buf : RingBuf (Flt K)) (isMin : Bool) (st : Flt K × Bool) (k : ℕ) :
    Flt K × Bool :=
  match buf.ago k with
  | some v => (if isMin then Flt.min st.1 v else Flt.max st.1 v, true)
  | none => st

/-- `window_reduce` (`monitors.rs:220-241`). -/
def windowReduce (node : NodeEval K) (isMin : Bool) : Flt K :=
  let identity := if isMin then Flt.posInf else Flt.negInf
  let (acc, any) := (List.range' node.lo (node.hi + 1 - node.lo)).foldl
    (windowStep node.bufA isMin) (identity, false)
  if any then acc else identity

/-- The loop body of `until_reduce`, on `(best, phi_run)`. -/
def untilStep (node : NodeEval K) (st : Flt K × Flt K) (k : ℕ) : Flt K × Flt K :=
  let (best, phiRun) := st
  let best :=
    if node.lo ≤ k then
      match node.bufB.ago k with
      | some psiK => Flt.max best (Flt.min psiK phiRun)
      | none => best
    else best
  let phiRun :=
    match node.bufA.ago k with
    | some phiK => Flt.min phiRun phiK
    | none => phiRun
  (best, phiRun)

/-- `until_reduce` (`monitors.rs:245-262`). -/
def untilReduce (node : NodeEval K) : Flt K :=
  ((List.range (node.hi + 1)).foldl (untilStep node) (Flt.negInf, Flt.posInf)).1

/-- The `Always` and `Eventually` branches of `eval_node`. -/
def evalWindow (nodes : List (NodeEval K)) (node : NodeEval K) (isMin : Bool) :
    Except Panic (NodeEval K × Flt K) := do
  let v ← childCur nodes node 0
  let node := { node with bufA := node.bufA.push v }
  return (node, windowReduce node isMin)

/-- The `Until` branch of `eval_node`. -/
def evalUntil (nodes : List (NodeEval K)) (node : NodeEval K) :
    Except Panic (NodeEval K × Flt K) := do
  let phi ← childCur nodes node 0
  let psi ← childCur nodes node 1
  let node := { node with bufA := node.bufA.push phi, bufB := node.bufB.push psi }
  return (node, untilReduce node)

/-- `eval_node` (`monitors.rs:179-204`): the node with its buffers advanced, and its value. -/
def evalNode (pred : ℕ → Except Panic (Flt K)) (nodes : List (NodeEval K)) (node : NodeEval K) :
    Except Panic (NodeEval K × Flt K) :=
  match node.op with
  | .predicate => do
    let i ← expect node.predicateIndex
    let v ← pred i
    return (node, v)
  | .not => do
    let v ← childCur nodes node 0
    return (node, -v)
  | .and => do
    let v ← reduceChildren nodes node .posInf Flt.min
    return (node, v)
  | .or => do
    let v ← reduceChildren nodes node .negInf Flt.max
    return (node, v)
  | .always => evalWindow nodes node true
  | .eventually => evalWindow nodes node false
  | .until => evalUntil nodes node

/-- The loop body of `step`: evaluate node `i` and store its value. -/
def evalAt (pred : ℕ → Except Panic (Flt K)) (nodes : List (NodeEval K)) (i : ℕ) :
    Except Panic (List (NodeEval K)) := do
  let node ← index nodes i
  let (node, cur) ← evalNode pred nodes node
  return nodes.set i { node with cur := cur }

/-- The verdict of `step` (`monitors.rs:153-176`): linear extrapolation of the robustness. -/
def verdictOf (prevRoot : Option (Flt K)) (robustness : Flt K) (predictiveHorizon : ℕ) :
    MonitorVerdict K :=
  let violated : Bool := decide (robustness < 0)
  match prevRoot with
  | none =>
    { robustness := robustness, violated := violated, predicted := false
      timeToViolationSamples := none }
  | some prev =>
    let slope := robustness - prev
    if !violated && decide (slope < 0) then
      let samples := robustness / -slope
      { robustness := robustness, violated := violated
        predicted := decide (samples ≤ .fin (predictiveHorizon : K))
        timeToViolationSamples := some samples }
    else
      { robustness := robustness, violated := violated, predicted := false
        timeToViolationSamples := none }

/-- `Monitor::step` (`monitors.rs:143-177`). -/
def Monitor.step (m : Monitor K) (pred : ℕ → Except Panic (Flt K)) (predictiveHorizon : ℕ) :
    Except Panic (Monitor K × MonitorVerdict K) := do
  let nodes ← (List.range m.nodes.length).foldlM (evalAt pred) m.nodes
  let root ← index nodes m.root
  return ({ m with nodes := nodes, prevRoot := some root.cur },
    verdictOf m.prevRoot root.cur predictiveHorizon)

end Code

/-! ## The window loops -/

section Loops

variable {K : Type} {buf : RingBuf (Flt K)} {node : NodeEval K} {f g : ℕ → Ext K} {t : ℕ}

/-- A buffer that holds the robustness `f` of ticks `0, …, t` reads `f (t - k)` at age `k`. -/
theorem ago_of_holds (hbuf : buf.Holds (fun u => (f u).toFlt) (t + 1)) {k : ℕ}
    (hk : k < buf.cap) : buf.ago k = if k ≤ t then some (f (t - k)).toFlt else none := by
  rw [hbuf.ago]
  by_cases hkt : k ≤ t
  · rw [if_pos ⟨by omega, hk⟩, if_pos hkt]
    congr 2
  · rw [if_neg (by omega), if_neg hkt]

variable [LinearOrder K]

/-- The operation of the window loop on the values that are not NaN. -/
def extremum (isMin : Bool) : Ext K → Ext K → Ext K := if isMin then min else max

theorem foldl_windowStep (hbuf : buf.Holds (fun u => (f u).toFlt) (t + 1)) (isMin : Bool)
    {ks : List ℕ} (hks : ∀ k ∈ ks, k < buf.cap) (a : Ext K) (any : Bool) :
    (ks.foldl (windowStep buf isMin) (a.toFlt, any)).1 =
      (((ks.filter (· ≤ t)).map fun k => f (t - k)).foldl (extremum isMin) a).toFlt := by
  induction ks generalizing a any with
  | nil => rfl
  | cons k ks ih =>
    have hk := ago_of_holds hbuf (hks k (by simp))
    have hks' : ∀ j ∈ ks, j < buf.cap := fun j hj => hks j (by simp [hj])
    rw [List.foldl_cons]
    by_cases hkt : k ≤ t
    · rw [if_pos hkt] at hk
      have hstep : windowStep buf isMin (a.toFlt, any) k =
          ((extremum isMin a (f (t - k))).toFlt, true) := by
        cases isMin <;> simp [windowStep, hk, extremum, Ext.toFlt_min, Ext.toFlt_max]
      rw [hstep, ih hks', List.filter_cons_of_pos (by simpa using hkt), List.map_cons,
        List.foldl_cons]
    · rw [if_neg hkt] at hk
      have hstep : windowStep buf isMin (a.toFlt, any) k = (a.toFlt, any) := by
        simp [windowStep, hk]
      rw [hstep, ih hks', List.filter_cons_of_neg (by simpa using hkt)]

/-- A window loop that has seen no value still has its first accumulator. -/
theorem foldl_windowStep_any (isMin : Bool) (ks : List ℕ) (st : Flt K × Bool)
    (h : (ks.foldl (windowStep buf isMin) st).2 = false) :
    st.2 = false ∧ (ks.foldl (windowStep buf isMin) st).1 = st.1 := by
  induction ks generalizing st with
  | nil => exact ⟨h, rfl⟩
  | cons k ks ih =>
    rw [List.foldl_cons] at h ⊢
    obtain ⟨hany, hacc⟩ := ih _ h
    cases hk : buf.ago k with
    | none =>
      simp only [windowStep, hk] at hany hacc ⊢
      exact ⟨hany, hacc⟩
    | some v => simp [windowStep, hk] at hany

theorem windowReduce_eq_foldl (hbuf : node.bufA.Holds (fun u => (f u).toFlt) (t + 1))
    (hcap : node.bufA.cap = node.hi + 1) (isMin : Bool) :
    windowReduce node isMin =
      ((((List.range' node.lo (node.hi + 1 - node.lo)).filter (· ≤ t)).map
        fun k => f (t - k)).foldl (extremum isMin) (if isMin then ⊤ else ⊥)).toFlt := by
  have hks : ∀ k ∈ List.range' node.lo (node.hi + 1 - node.lo), k < node.bufA.cap := by
    intro k hk
    rw [List.mem_range'_1] at hk
    omega
  have hid : (if isMin then Flt.posInf else Flt.negInf : Flt K) =
      (if isMin then ⊤ else ⊥ : Ext K).toFlt := by
    cases isMin <;> rfl
  rw [← foldl_windowStep hbuf isMin hks _ false, ← hid]
  unfold windowReduce
  dsimp only
  by_cases hany : ((List.range' node.lo (node.hi + 1 - node.lo)).foldl
      (windowStep node.bufA isMin) (if isMin then Flt.posInf else Flt.negInf, false)).2 = true
  · rw [if_pos hany]
  · rw [if_neg hany]
    exact ((foldl_windowStep_any isMin _ _ (by simpa using hany)).2).symm

/-- The ages `lo, …, hi` of a window of the sampled monitor. -/
def inWindow (lo hi k : ℕ) : Prop := lo ≤ k ∧ k ≤ hi

instance (lo hi : ℕ) : DecidablePred (inWindow lo hi) := fun k => by
  unfold inWindow
  infer_instance

theorem toFinset_window (lo hi t : ℕ) :
    ((List.range' lo (hi + 1 - lo)).filter (· ≤ t)).toFinset =
      PastStl.ages (inWindow lo hi) t := by
  ext k
  simp only [List.mem_toFinset, List.mem_filter, List.mem_range'_1, PastStl.mem_ages, inWindow,
    decide_eq_true_eq]
  omega

/-- `window_reduce` of an `always` node. -/
theorem windowReduce_always (hbuf : node.bufA.Holds (fun u => (f u).toFlt) (t + 1))
    (hcap : node.bufA.cap = node.hi + 1) :
    windowReduce node true =
      (PastStl.alwaysWithin (inWindow node.lo node.hi) f t).toFlt := by
  rw [windowReduce_eq_foldl hbuf hcap, PastStl.alwaysWithin, ← toFinset_window]
  simp only [extremum, if_true]
  rw [PastStl.foldl_min_eq_inf]

/-- `window_reduce` of an `eventually` node. -/
theorem windowReduce_eventually (hbuf : node.bufA.Holds (fun u => (f u).toFlt) (t + 1))
    (hcap : node.bufA.cap = node.hi + 1) :
    windowReduce node false =
      (PastStl.eventuallyWithin (inWindow node.lo node.hi) f t).toFlt := by
  rw [windowReduce_eq_foldl hbuf hcap, PastStl.eventuallyWithin, ← toFinset_window]
  simp only [extremum, Bool.false_eq_true, if_false]
  rw [PastStl.foldl_max_eq_sup]

/-- After the ages below `m`, `phi_run` is the worst of `φ` over them and `best` the best age. -/
theorem foldl_untilStep (hA : node.bufA.Holds (fun u => (f u).toFlt) (t + 1))
    (hB : node.bufB.Holds (fun u => (g u).toFlt) (t + 1)) (hcapA : node.bufA.cap = node.hi + 1)
    (hcapB : node.bufB.cap = node.hi + 1) (m : ℕ) (hm : m ≤ node.hi + 1) :
    (List.range m).foldl (untilStep node) (Flt.negInf, Flt.posInf) =
      ((((Finset.range m).filter fun k => node.lo ≤ k ∧ k ≤ t).sup fun k =>
          min (g (t - k)) ((Finset.range k).inf fun j => f (t - j))).toFlt,
        (((Finset.range m).filter (· ≤ t)).inf fun j => f (t - j)).toFlt) := by
  induction m with
  | zero => rfl
  | succ m ih =>
    have hkA := ago_of_holds hA (k := m) (by omega)
    have hkB := ago_of_holds hB (k := m) (by omega)
    rw [List.range_succ, List.foldl_append, ih (by omega), List.foldl_cons, List.foldl_nil,
      Finset.range_add_one, Finset.filter_insert, Finset.filter_insert]
    by_cases hmt : m ≤ t
    · -- all the younger ages exist, so `phi_run` ranges over every `j < m`
      have hall : (Finset.range m).filter (· ≤ t) = Finset.range m := by
        refine Finset.filter_true_of_mem fun j hj => ?_
        have := Finset.mem_range.mp hj
        omega
      rw [if_pos hmt] at hkA hkB
      rw [if_pos hmt, Finset.inf_insert, hall]
      by_cases hlo : node.lo ≤ m
      · rw [if_pos ⟨hlo, hmt⟩, Finset.sup_insert]
        simp only [untilStep, hkA, hkB, hlo, if_true, Ext.toFlt_min, Ext.toFlt_max]
        rw [max_comm, min_comm ((Finset.range m).inf _)]
      · rw [if_neg (fun h => hlo h.1)]
        simp only [untilStep, hkA, hlo, if_false, Ext.toFlt_min]
        rw [min_comm]
    · rw [if_neg hmt] at hkA hkB
      rw [if_neg hmt, if_neg (fun h => hmt h.2)]
      simp only [untilStep, hkA, hkB, ite_self]

/-- `until_reduce`. -/
theorem untilReduce_eq (hA : node.bufA.Holds (fun u => (f u).toFlt) (t + 1))
    (hB : node.bufB.Holds (fun u => (g u).toFlt) (t + 1)) (hcapA : node.bufA.cap = node.hi + 1)
    (hcapB : node.bufB.cap = node.hi + 1) :
    untilReduce node = (PastStl.untilWithin (inWindow node.lo node.hi) f g t).toFlt := by
  unfold untilReduce
  rw [foldl_untilStep hA hB hcapA hcapB _ le_rfl]
  have hages : (Finset.range (node.hi + 1)).filter (fun k => node.lo ≤ k ∧ k ≤ t) =
      PastStl.ages (inWindow node.lo node.hi) t := by
    ext k
    simp only [Finset.mem_filter, Finset.mem_range, PastStl.mem_ages, inWindow]
    omega
  rw [hages]
  rfl

end Loops

end AstroMine.Guard
