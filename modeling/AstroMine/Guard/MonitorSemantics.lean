import AstroMine.Guard.Monitors

/-!
# The monitor computes the past-time semantics

A checked tree denotes a past-time STL formula over sample windows. The flattened plan keeps, for
every node, the formula it computes; the invariant of a run is that every ring buffer holds the
robustness of the child's formula at all the ticks so far.

Results:
* `CompiledNode.formula_isSome_iff`: the trees that denote a formula are the checked ones.
* `evalNode_spec`, `foldlM_evalAt`, `Inv.step`: one node, one pass over the plan, one tick.
* `Monitor.robustness_eq_sem`: the robustness reported at every tick of every stream is the
  declarative semantics of the formula on the samples so far, and depends on the last
  `horizon + 1` of them only.
-/

namespace AstroMine.Guard

open PastStl (Formula sem sems AllAtoms AllAtomss)

/-! ## The formula of a tree -/

/-- A window of sample ages `lo, …, hi`. -/
structure Window where
  lo : ℕ
  hi : ℕ
  deriving DecidableEq

/-- The ages of a window. -/
def Window.contains (w : Window) : ℕ → Prop := inWindow w.lo w.hi

instance (w : Window) : DecidablePred w.contains :=
  inferInstanceAs (DecidablePred (inWindow w.lo w.hi))

/-- The window of a node with a valid interval. -/
def Window.ofInterval (lo hi : Option ℕ) : Option Window :=
  match lo, hi with
  | some lo, some hi => if lo ≤ hi then some ⟨lo, hi⟩ else none
  | _, _ => none

namespace CompiledNode

mutual

/-- The formula a tree denotes. -/
def formula : CompiledNode → Option (Formula ℕ Window)
  | mk op pi lo hi args =>
    match formulas args with
    | none => none
    | some φs =>
      match op, φs with
      | .predicate, [] => pi.map .atom
      | .not, [φ] => some (.not φ)
      | .and, φ :: φs => some (.and (φ :: φs))
      | .or, φ :: φs => some (.or (φ :: φs))
      | .always, [φ] => (Window.ofInterval lo hi).map (.always · φ)
      | .eventually, [φ] => (Window.ofInterval lo hi).map (.eventually · φ)
      | .until, [φ, ψ] => (Window.ofInterval lo hi).map (.until · φ ψ)
      | _, _ => none

/-- The formulas of a list of trees. -/
def formulas : List CompiledNode → Option (List (Formula ℕ Window))
  | [] => some []
  | n :: ns =>
    match formula n, formulas ns with
    | some φ, some φs => some (φ :: φs)
    | _, _ => none

end

theorem requireInterval_eq_ok {op : TemporalOp} {pi lo hi : Option ℕ} {args : List CompiledNode} :
    (mk op pi lo hi args).requireInterval = .ok () ↔ (Window.ofInterval lo hi).isSome = true := by
  cases lo with
  | none => exact ⟨fun h => (by cases h), fun h => (by cases h)⟩
  | some lo =>
    cases hi with
    | none => exact ⟨fun h => (by cases h), fun h => (by cases h)⟩
    | some hi =>
      simp only [requireInterval, intervalLoSamples, intervalHiSamples, ensure_eq_ok,
        Window.ofInterval]
      split_ifs with h <;> simp [h]

theorem formulas_length : ∀ {ns : List CompiledNode} {φs : List (Formula ℕ Window)},
    formulas ns = some φs → φs.length = ns.length
  | [], φs, h => by
    cases h
    rfl
  | n :: ns, φs, h => by
    rw [formulas] at h
    split at h
    · rename_i φ φs' _ hφs
      cases h
      simp [formulas_length hφs]
    · cases h

theorem formula_isSome_of_args {op : TemporalOp} {pi lo hi : Option ℕ} {args : List CompiledNode}
    {φs : List (Formula ℕ Window)} (hφs : formulas args = some φs) :
    (formula (mk op pi lo hi args)).isSome = true ↔ (mk op pi lo hi args).validate = .ok () := by
  have hlen := formulas_length hφs
  unfold formula
  rw [hφs]
  cases op
  all_goals
    simp only [validate, CompiledNode.op, bind_eq_ok, ensure_eq_ok, requireInterval_eq_ok]
    simp only [CompiledNode.args, CompiledNode.predicateIndex, ← hlen]
    rcases φs with _ | ⟨φ, _ | ⟨ψ, _ | ⟨χ, φs⟩⟩⟩ <;> simp

mutual

/-- The trees that denote a formula are those checked at every node. -/
theorem formula_isSome_iff : ∀ n : CompiledNode, (formula n).isSome = true ↔ n.Checked
  | mk op pi lo hi args => by
    have ih := formulas_isSome_iff args
    unfold Checked
    cases hφs : formulas args with
    | none =>
      rw [hφs] at ih
      unfold formula
      rw [hφs]
      simpa using fun _ => ih
    | some φs =>
      rw [hφs] at ih
      rw [formula_isSome_of_args hφs]
      simpa using fun _ => ih

theorem formulas_isSome_iff : ∀ ns : List CompiledNode,
    (formulas ns).isSome = true ↔ CheckedAll ns
  | [] => by simp [formulas, CheckedAll]
  | n :: ns => by
    have hn := formula_isSome_iff n
    have hns := formulas_isSome_iff ns
    unfold formulas CheckedAll
    rw [← hn, ← hns]
    cases formula n <;> cases formulas ns <;> simp

end

end CompiledNode

/-! ## What each node of a plan computes -/

section Plan

variable {K : Type}

/-- `node` computes the formula when its children are the nodes that compute the formulas `fs`. -/
def Computes (fs : List (Formula ℕ Window)) (node : NodeEval K) : Formula ℕ Window → Prop
  | .atom i => node.op = .predicate ∧ node.predicateIndex = some i
  | .not φ => node.op = .not ∧ ∃ c, node.children = [c] ∧ fs[c]? = some φ
  | .and φs => node.op = .and ∧ List.Forall₂ (fun c φ => fs[c]? = some φ) node.children φs
  | .or φs => node.op = .or ∧ List.Forall₂ (fun c φ => fs[c]? = some φ) node.children φs
  | .always w φ => node.op = .always ∧ node.lo = w.lo ∧ node.hi = w.hi ∧
      ∃ c, node.children = [c] ∧ fs[c]? = some φ
  | .eventually w φ => node.op = .eventually ∧ node.lo = w.lo ∧ node.hi = w.hi ∧
      ∃ c, node.children = [c] ∧ fs[c]? = some φ
  | .until w φ ψ => node.op = .until ∧ node.lo = w.lo ∧ node.hi = w.hi ∧
      ∃ c d, node.children = [c, d] ∧ fs[c]? = some φ ∧ fs[d]? = some ψ

/-- The buffers of `node` hold the values `h` of its children's formulas at ticks `0, …, n - 1`,
    and have the capacity its window needs. -/
def Buffers (h : Formula ℕ Window → ℕ → Flt K) (n : ℕ) (node : NodeEval K) :
    Formula ℕ Window → Prop
  | .always _ φ => node.bufA.Holds (h φ) n ∧ node.bufA.cap = node.hi + 1
  | .eventually _ φ => node.bufA.Holds (h φ) n ∧ node.bufA.cap = node.hi + 1
  | .until _ φ ψ => (node.bufA.Holds (h φ) n ∧ node.bufA.cap = node.hi + 1) ∧
      node.bufB.Holds (h ψ) n ∧ node.bufB.cap = node.hi + 1
  | _ => True

/-- The `i`-th node of the plan computes the `i`-th formula from earlier nodes. -/
def Wired (nodes : List (NodeEval K)) (fs : List (Formula ℕ Window)) : Prop :=
  nodes.length = fs.length ∧
    ∀ i node φ, nodes[i]? = some node → fs[i]? = some φ → Computes (fs.take i) node φ

theorem Wired.snoc {nodes : List (NodeEval K)} {fs : List (Formula ℕ Window)} {node : NodeEval K}
    {φ : Formula ℕ Window} (h : Wired nodes fs) (hnode : Computes fs node φ) :
    Wired (nodes ++ [node]) (fs ++ [φ]) := by
  obtain ⟨hlen, hall⟩ := h
  refine ⟨by simp [hlen], ?_⟩
  intro i node' φ' hi hi'
  obtain hlt | rfl | hgt := lt_trichotomy i nodes.length
  · rw [List.getElem?_append_left hlt] at hi
    rw [List.getElem?_append_left (hlen ▸ hlt)] at hi'
    rw [List.take_append_of_le_length (hlen ▸ hlt.le)]
    exact hall i node' φ' hi hi'
  · rw [List.getElem?_concat_length] at hi
    rw [hlen, List.getElem?_concat_length] at hi'
    cases hi
    cases hi'
    rw [List.take_left' hlen.symm]
    exact hnode
  · rw [List.getElem?_eq_none (by simp; omega)] at hi
    cases hi

/-- Every node of a plan that has not run yet holds empty buffers. -/
def Fresh (nodes : List (NodeEval K)) : Prop :=
  ∀ node ∈ nodes, ∀ hist : ℕ → Flt K,
    (node.bufA.Holds hist 0 ∧ node.bufA.cap = node.hi + 1) ∧
      node.bufB.Holds hist 0 ∧ node.bufB.cap = node.hi + 1

variable [Field K]

theorem ofCompiled_fresh (op : TemporalOp) (pi lo hi : Option ℕ) (children : List ℕ)
    (hist : ℕ → Flt K) :
    let node := NodeEval.ofCompiled (K := K) op pi lo hi children
    (node.bufA.Holds hist 0 ∧ node.bufA.cap = node.hi + 1) ∧
      node.bufB.Holds hist 0 ∧ node.bufB.cap = node.hi + 1 := by
  have h := RingBuf.new_holds (0 : Flt K) (hi.getD 0 + 1) hist
  have hcap : (RingBuf.new (0 : Flt K) (hi.getD 0 + 1)).cap = hi.getD 0 + 1 := by simp
  exact ⟨⟨h, hcap⟩, h, hcap⟩

/-- The node of a tree computes the tree's formula from the nodes of its arguments. -/
theorem ofCompiled_computes {op : TemporalOp} {pi lo hi : Option ℕ} {args : List CompiledNode}
    {φ : Formula ℕ Window} {φs fs : List (Formula ℕ Window)} {children : List ℕ}
    (hφ : (CompiledNode.mk op pi lo hi args).formula = some φ)
    (hφs : CompiledNode.formulas args = some φs)
    (hc : List.Forall₂ (fun c φ => fs[c]? = some φ) children φs) :
    Computes fs (NodeEval.ofCompiled (K := K) op pi lo hi children) φ := by
  unfold CompiledNode.formula at hφ
  rw [hφs] at hφ
  have hwin : ∀ w, Window.ofInterval lo hi = some w → lo.getD 0 = w.lo ∧ hi.getD 0 = w.hi := by
    intro w hw
    unfold Window.ofInterval at hw
    split at hw
    · split_ifs at hw
      cases hw
      exact ⟨rfl, rfl⟩
    · cases hw
  dsimp only at hφ
  split at hφ
  · obtain ⟨i, hi, rfl⟩ := Option.map_eq_some_iff.mp hφ
    exact ⟨rfl, hi⟩
  · cases hφ
    obtain ⟨c, cs, hc₀, h0, rfl⟩ := List.forall₂_cons_right_iff.mp hc
    cases h0
    exact ⟨rfl, c, rfl, hc₀⟩
  · cases hφ
    exact ⟨rfl, hc⟩
  · cases hφ
    exact ⟨rfl, hc⟩
  · obtain ⟨w, hw, rfl⟩ := Option.map_eq_some_iff.mp hφ
    obtain ⟨c, cs, hc₀, h0, rfl⟩ := List.forall₂_cons_right_iff.mp hc
    cases h0
    exact ⟨rfl, (hwin w hw).1, (hwin w hw).2, c, rfl, hc₀⟩
  · obtain ⟨w, hw, rfl⟩ := Option.map_eq_some_iff.mp hφ
    obtain ⟨c, cs, hc₀, h0, rfl⟩ := List.forall₂_cons_right_iff.mp hc
    cases h0
    exact ⟨rfl, (hwin w hw).1, (hwin w hw).2, c, rfl, hc₀⟩
  · obtain ⟨w, hw, rfl⟩ := Option.map_eq_some_iff.mp hφ
    obtain ⟨c, cs, hc₀, h1, rfl⟩ := List.forall₂_cons_right_iff.mp hc
    obtain ⟨d, ds, hd, h0, rfl⟩ := List.forall₂_cons_right_iff.mp h1
    cases h0
    exact ⟨rfl, (hwin w hw).1, (hwin w hw).2, c, d, rfl, hc₀, hd⟩
  · cases hφ

/-- The atoms of a tree's formula are its own, at a predicate node, and its arguments'. -/
theorem formula_allAtoms {P : ℕ → Prop} {op : TemporalOp} {pi lo hi : Option ℕ}
    {args : List CompiledNode} {φ : Formula ℕ Window} {φs : List (Formula ℕ Window)}
    (hφ : (CompiledNode.mk op pi lo hi args).formula = some φ)
    (hφs : CompiledNode.formulas args = some φs) :
    AllAtoms P φ ↔ AllAtomss P φs ∧ ∀ a, φ = .atom a → P a := by
  unfold CompiledNode.formula at hφ
  rw [hφs] at hφ
  dsimp only at hφ
  split at hφ
  · obtain ⟨a, -, rfl⟩ := Option.map_eq_some_iff.mp hφ
    simp [AllAtoms, AllAtomss]
  · cases hφ
    simp [AllAtoms, AllAtomss]
  · cases hφ
    simp [AllAtoms]
  · cases hφ
    simp [AllAtoms]
  · obtain ⟨w, -, rfl⟩ := Option.map_eq_some_iff.mp hφ
    simp [AllAtoms, AllAtomss]
  · obtain ⟨w, -, rfl⟩ := Option.map_eq_some_iff.mp hφ
    simp [AllAtoms, AllAtomss]
  · obtain ⟨w, -, rfl⟩ := Option.map_eq_some_iff.mp hφ
    simp [AllAtoms, AllAtomss]
  · cases hφ

mutual

/-- Flattening a tree extends a wired plan by nodes that compute subformulas of the tree's
    formula, its atoms among them. -/
theorem flatten_wired : ∀ (n : CompiledNode) {φ : Formula ℕ Window}
    {out : List (NodeEval K)} {fs : List (Formula ℕ Window)}, n.formula = some φ →
      Wired out fs → Fresh out →
      ∃ gs, Wired (flatten n out).2 (fs ++ gs) ∧ Fresh (flatten n out).2 ∧
        (fs ++ gs)[(flatten n out).1]? = some φ ∧
        ∀ P : ℕ → Prop, AllAtoms P φ ↔ ∀ a, .atom a ∈ gs → P a
  | .mk op pi lo hi args, φ, out, fs, hφ, hw, hf => by
    have hargs : ∃ φs, CompiledNode.formulas args = some φs := by
      unfold CompiledNode.formula at hφ
      cases hφs : CompiledNode.formulas args with
      | none => rw [hφs] at hφ; cases hφ
      | some φs => exact ⟨φs, rfl⟩
    obtain ⟨φs, hφs⟩ := hargs
    obtain ⟨gs, hw', hf', hc, hatoms⟩ := flattenArgs_wired args hφs hw hf
    have hnode := ofCompiled_computes (K := K) hφ hφs hc
    refine ⟨gs ++ [φ], ?_, ?_, ?_, ?_⟩
    · rw [← List.append_assoc]
      exact hw'.snoc hnode
    · intro node hmem hist
      obtain hmem | hmem := List.mem_append.mp hmem
      · exact hf' node hmem hist
      · rw [List.mem_singleton.mp hmem]
        exact ofCompiled_fresh op pi lo hi _ hist
    · rw [← List.append_assoc]
      simp only [flatten]
      rw [hw'.1, List.getElem?_concat_length]
    · intro P
      rw [formula_allAtoms hφ hφs, hatoms]
      simp only [List.mem_append, List.mem_singleton, or_imp, forall_and, eq_comm]

theorem flattenArgs_wired : ∀ (ns : List CompiledNode) {φs : List (Formula ℕ Window)}
    {out : List (NodeEval K)} {fs : List (Formula ℕ Window)},
    CompiledNode.formulas ns = some φs → Wired out fs → Fresh out →
      ∃ gs, Wired (flattenArgs ns out).2 (fs ++ gs) ∧ Fresh (flattenArgs ns out).2 ∧
        List.Forall₂ (fun c φ => (fs ++ gs)[c]? = some φ) (flattenArgs ns out).1 φs ∧
        ∀ P : ℕ → Prop, AllAtomss P φs ↔ ∀ a, .atom a ∈ gs → P a
  | [], φs, out, fs, hφs, hw, hf => by
    cases hφs
    refine ⟨[], ?_, hf, .nil, by simp [AllAtomss]⟩
    rw [List.append_nil]
    exact hw
  | n :: ns, φs, out, fs, hφs, hw, hf => by
    rw [CompiledNode.formulas] at hφs
    split at hφs
    · rename_i φ φs' hφ hφs'
      cases hφs
      obtain ⟨gs, hw₁, hf₁, hc, hatoms⟩ := flatten_wired n hφ hw hf
      obtain ⟨gs', hw₂, hf₂, hcs, hatoms'⟩ := flattenArgs_wired ns hφs' hw₁ hf₁
      refine ⟨gs ++ gs', ?_, hf₂, ?_, ?_⟩
      · rw [← List.append_assoc]
        exact hw₂
      · rw [← List.append_assoc]
        refine .cons ?_ hcs
        rw [List.getElem?_append_left (List.getElem?_eq_some_iff.mp hc).1]
        exact hc
      · intro P
        unfold AllAtomss
        rw [hatoms, hatoms']
        simp only [List.mem_append, or_imp, forall_and]
    · cases hφs

end

end Plan

/-! ## One node -/

section Children

variable {K : Type}

/-- The current value of node `c` of the plan is `v`. -/
def HasValue (nodes : List (NodeEval K)) (c : ℕ) (v : Flt K) : Prop :=
  ∃ child : NodeEval K, nodes[c]? = some child ∧ child.cur = v

theorem childCur_eq {nodes : List (NodeEval K)} {node : NodeEval K} (which : ℕ) {c : ℕ} {v : Flt K}
    (hc : node.children[which]? = some c) (hv : HasValue nodes c v) :
    childCur nodes node which = .ok v := by
  obtain ⟨child, hchild, rfl⟩ := hv
  unfold childCur
  rw [index_eq_ok.2 hc]
  show (index nodes c >>= fun child => pure child.cur) = _
  rw [index_eq_ok.2 hchild]
  rfl

/-- `reduce_children` folds the values of the children. -/
theorem reduceChildren_eq {nodes : List (NodeEval K)} {node : NodeEval K}
    {op : Ext K → Ext K → Ext K} {f : Flt K → Flt K → Flt K}
    (hop : ∀ a b, f a.toFlt b.toFlt = (op a b).toFlt) {vs : List (Ext K)}
    (hvs : List.Forall₂ (fun c v => HasValue nodes c (Ext.toFlt v)) node.children vs) (a : Ext K) :
    reduceChildren nodes node a.toFlt f = .ok (vs.foldl op a).toFlt := by
  unfold reduceChildren
  generalize node.children = cs at hvs
  induction hvs generalizing a with
  | nil => rfl
  | @cons c v cs vs hc _ ih =>
    obtain ⟨child, hchild, hcur⟩ := hc
    rw [List.foldlM_cons, index_eq_ok.2 hchild]
    show (cs.foldlM _ (f a.toFlt child.cur)) = _
    rw [hcur, hop, ih, List.foldl_cons]

theorem evalWindow_eq [LinearOrder K] {nodes : List (NodeEval K)} {node : NodeEval K} {c : ℕ}
    {v : Flt K} (isMin : Bool) (hch : node.children = [c]) (hv : HasValue nodes c v) :
    evalWindow nodes node isMin = .ok ({ node with bufA := node.bufA.push v },
      windowReduce { node with bufA := node.bufA.push v } isMin) := by
  unfold evalWindow
  rw [childCur_eq 0 (by rw [hch]; rfl) hv]
  rfl

theorem evalUntil_eq [LinearOrder K] {nodes : List (NodeEval K)} {node : NodeEval K} {c d : ℕ}
    {v w : Flt K} (hch : node.children = [c, d]) (hv : HasValue nodes c v)
    (hw : HasValue nodes d w) :
    evalUntil nodes node =
      .ok ({ node with bufA := node.bufA.push v, bufB := node.bufB.push w },
        untilReduce { node with bufA := node.bufA.push v, bufB := node.bufB.push w }) := by
  unfold evalUntil
  rw [childCur_eq 0 (by rw [hch]; rfl) hv,
    childCur_eq 1 (by rw [hch]; rfl) hw]
  rfl

end Children

section Tick

variable {K : Type} [Field K] [LinearOrder K]

/-- The robustness of a formula on a trace of margins, as the float a monitor reports. -/
def robustnessAt (s : ℕ → ℕ → Ext K) (φ : Formula ℕ Window) (t : ℕ) : Flt K :=
  (sem Ext.neg Window.contains s φ t).toFlt

/-- The values of the nodes before `i` are the robustness of their formulas at tick `n`. -/
def Evaluated (s : ℕ → ℕ → Ext K) (n i : ℕ) (nodes : List (NodeEval K))
    (fs : List (Formula ℕ Window)) : Prop :=
  ∀ (c : ℕ) (φ : Formula ℕ Window), (fs.take i)[c]? = some φ →
    HasValue nodes c (robustnessAt s φ n)

theorem Evaluated.forall₂ {s : ℕ → ℕ → Ext K} {n i : ℕ} {nodes : List (NodeEval K)}
    {fs φs : List (Formula ℕ Window)} {cs : List ℕ} (h : Evaluated s n i nodes fs)
    (hcs : List.Forall₂ (fun c φ => (fs.take i)[c]? = some φ) cs φs) :
    List.Forall₂ (fun c v => HasValue nodes c (Ext.toFlt v)) cs
      (sems Ext.neg Window.contains s φs n) := by
  rw [PastStl.sems_eq_map]
  induction hcs with
  | nil => exact .nil
  | cons hc _ ih => exact .cons (h _ _ hc) ih

/-- One node: its value is the robustness of its formula, and its buffers advance by one tick. -/
theorem evalNode_spec {s : ℕ → ℕ → Ext K} {n i : ℕ} {nodes : List (NodeEval K)}
    {fs : List (Formula ℕ Window)} {node : NodeEval K} {φ : Formula ℕ Window}
    {pred : ℕ → Except Panic (Flt K)} (hc : Computes (fs.take i) node φ)
    (hb : Buffers (robustnessAt s) n node φ) (hev : Evaluated s n i nodes fs)
    (hpred : ∀ a, φ = .atom a → pred a = .ok (s n a).toFlt) :
    ∃ node', evalNode pred nodes node = .ok (node', robustnessAt s φ n) ∧
      Computes (fs.take i) node' φ ∧ Buffers (robustnessAt s) (n + 1) node' φ := by
  unfold evalNode
  cases φ with
  | atom a =>
    obtain ⟨hop, hpi⟩ := hc
    refine ⟨node, ?_, ⟨hop, hpi⟩, trivial⟩
    rw [hop, hpi]
    show (pred a >>= fun v => pure (node, v)) = _
    rw [hpred a rfl]
    simp only [robustnessAt, sem]
    rfl
  | not φ =>
    obtain ⟨hop, c, hch, hcφ⟩ := hc
    refine ⟨node, ?_, ⟨hop, c, hch, hcφ⟩, trivial⟩
    rw [hop]
    dsimp only
    rw [childCur_eq 0 (by rw [hch]; rfl) (hev c φ hcφ)]
    simp only [robustnessAt, sem]
    rw [← Ext.toFlt_neg]
    rfl
  | and φs =>
    obtain ⟨hop, hcs⟩ := hc
    refine ⟨node, ?_, ⟨hop, hcs⟩, trivial⟩
    rw [hop]
    dsimp only
    rw [← Ext.toFlt_top, reduceChildren_eq Ext.toFlt_min (hev.forall₂ hcs)]
    simp only [robustnessAt, sem]
    rw [List.foldl_eq_foldr]
    rfl
  | or φs =>
    obtain ⟨hop, hcs⟩ := hc
    refine ⟨node, ?_, ⟨hop, hcs⟩, trivial⟩
    rw [hop]
    dsimp only
    rw [← Ext.toFlt_bot, reduceChildren_eq Ext.toFlt_max (hev.forall₂ hcs)]
    simp only [robustnessAt, sem]
    rw [List.foldl_eq_foldr]
    rfl
  | always w φ =>
    obtain ⟨hop, hlo, hhi, c, hch, hcφ⟩ := hc
    obtain ⟨hA, hcap⟩ := hb
    have hA' := hA.push
    let node' := { node with bufA := node.bufA.push (robustnessAt s φ n) }
    have hval : windowReduce node' true = robustnessAt s (.always w φ) n := by
      rw [show windowReduce node' true = _ from
        windowReduce_always (f := sem Ext.neg Window.contains s φ) (t := n) hA' hcap]
      simp only [node', robustnessAt, sem, hlo, hhi]
      rfl
    refine ⟨node', ?_, ⟨hop, hlo, hhi, c, hch, hcφ⟩, hA', hcap⟩
    rw [hop, ← hval]
    exact evalWindow_eq true hch (hev c φ hcφ)
  | eventually w φ =>
    obtain ⟨hop, hlo, hhi, c, hch, hcφ⟩ := hc
    obtain ⟨hA, hcap⟩ := hb
    have hA' := hA.push
    let node' := { node with bufA := node.bufA.push (robustnessAt s φ n) }
    have hval : windowReduce node' false = robustnessAt s (.eventually w φ) n := by
      rw [show windowReduce node' false = _ from
        windowReduce_eventually (f := sem Ext.neg Window.contains s φ) (t := n) hA' hcap]
      simp only [node', robustnessAt, sem, hlo, hhi]
      rfl
    refine ⟨node', ?_, ⟨hop, hlo, hhi, c, hch, hcφ⟩, hA', hcap⟩
    rw [hop, ← hval]
    exact evalWindow_eq false hch (hev c φ hcφ)
  | «until» w φ ψ =>
    obtain ⟨hop, hlo, hhi, c, d, hch, hcφ, hdψ⟩ := hc
    obtain ⟨⟨hA, hcapA⟩, hB, hcapB⟩ := hb
    have hA' := hA.push
    have hB' := hB.push
    let node' := { node with bufA := node.bufA.push (robustnessAt s φ n)
                             bufB := node.bufB.push (robustnessAt s ψ n) }
    have hval : untilReduce node' = robustnessAt s (.until w φ ψ) n := by
      rw [show untilReduce node' = _ from untilReduce_eq (f := sem Ext.neg Window.contains s φ)
        (g := sem Ext.neg Window.contains s ψ) (t := n) hA' hB' hcapA hcapB]
      simp only [node', robustnessAt, sem, hlo, hhi]
      rfl
    refine ⟨node', ?_, ⟨hop, hlo, hhi, c, d, hch, hcφ, hdψ⟩, ⟨hA', hcapA⟩, hB', hcapB⟩
    rw [hop, ← hval]
    exact evalUntil_eq hch (hev c φ hcφ) (hev d ψ hdψ)

/-! ## One tick -/

/-- In the middle of tick `n`, before node `i`: the nodes before `i` have advanced. -/
structure Inv (s : ℕ → ℕ → Ext K) (n i : ℕ) (nodes : List (NodeEval K))
    (fs : List (Formula ℕ Window)) : Prop where
  wired : Wired nodes fs
  buffers : ∀ (j : ℕ) (node : NodeEval K) (φ : Formula ℕ Window), nodes[j]? = some node →
    fs[j]? = some φ → Buffers (robustnessAt s) (if j < i then n + 1 else n) node φ
  evaluated : Evaluated s n i nodes fs

/-- The margins of tick `n` are what `pred` supplies to the atoms of the plan. -/
def Supplies (s : ℕ → ℕ → Ext K) (n : ℕ) (pred : ℕ → Except Panic (Flt K))
    (fs : List (Formula ℕ Window)) : Prop :=
  ∀ a, .atom a ∈ fs → pred a = .ok (s n a).toFlt

/-- One pass of the loop over the plan. -/
theorem evalAt_spec {s : ℕ → ℕ → Ext K} {n i : ℕ} {nodes : List (NodeEval K)}
    {fs : List (Formula ℕ Window)} {pred : ℕ → Except Panic (Flt K)} (h : Inv s n i nodes fs)
    (hi : i < nodes.length) (hpred : Supplies s n pred fs) :
    ∃ nodes', evalAt pred nodes i = .ok nodes' ∧ nodes'.length = nodes.length ∧
      Inv s n (i + 1) nodes' fs := by
  obtain ⟨hlen, hwired⟩ := h.wired
  have hnode : nodes[i]? = some nodes[i] := List.getElem?_eq_getElem hi
  have hφ : fs[i]? = some fs[i] := List.getElem?_eq_getElem (hlen ▸ hi)
  have hb := h.buffers i _ _ hnode hφ
  rw [if_neg (lt_irrefl i)] at hb
  obtain ⟨node', heval, hc', hb'⟩ := evalNode_spec (hwired i _ _ hnode hφ) hb h.evaluated
    fun a ha => hpred a (ha ▸ List.getElem_mem _)
  refine ⟨nodes.set i { node' with cur := robustnessAt s fs[i] n }, ?_, by simp, ?_⟩
  · unfold evalAt
    rw [index_eq_ok.2 hnode]
    show (evalNode pred nodes nodes[i] >>= _) = _
    rw [heval]
    rfl
  -- the node at `i` is the updated one, every other node is the old one
  have hset : ∀ (j : ℕ) (node : NodeEval K),
      (nodes.set i { node' with cur := robustnessAt s fs[i] n })[j]? = some node →
        (j = i ∧ node = { node' with cur := robustnessAt s fs[i] n }) ∨
          j ≠ i ∧ nodes[j]? = some node := by
    intro j node hj
    by_cases hji : j = i
    · subst hji
      rw [List.getElem?_set_self hi] at hj
      exact .inl ⟨rfl, (Option.some.inj hj).symm⟩
    · rw [List.getElem?_set_ne (Ne.symm hji)] at hj
      exact .inr ⟨hji, hj⟩
  refine ⟨⟨by simp [hlen], ?_⟩, ?_, ?_⟩
  · intro j node φ hj hjφ
    obtain ⟨rfl, rfl⟩ | ⟨-, hj⟩ := hset j node hj
    · rw [hφ] at hjφ
      cases hjφ
      cases hfi : fs[j] <;> rw [hfi] at hc' <;> exact hc'
    · exact hwired j node φ hj hjφ
  · intro j node φ hj hjφ
    obtain ⟨rfl, rfl⟩ | ⟨hji, hj⟩ := hset j node hj
    · rw [hφ] at hjφ
      cases hjφ
      rw [if_pos (Nat.lt_succ_self j)]
      cases hfi : fs[j] <;> rw [hfi] at hb' <;> exact hb'
    · have := h.buffers j node φ hj hjφ
      have hiff : j < i + 1 ↔ j < i := by omega
      simpa only [hiff] using this
  · intro c φ hc
    by_cases hci : c = i
    · subst hci
      rw [List.getElem?_take_of_lt (Nat.lt_succ_self c), hφ] at hc
      cases hc
      exact ⟨_, List.getElem?_set_self hi, rfl⟩
    · have hlt : c < i := by
        have := (List.getElem?_eq_some_iff.mp hc).1
        rw [List.length_take] at this
        omega
      rw [List.getElem?_take_of_lt (by omega)] at hc
      obtain ⟨child, hchild, hcur⟩ := h.evaluated c φ (by rw [List.getElem?_take_of_lt hlt, hc])
      exact ⟨child, by rw [List.getElem?_set_ne (Ne.symm hci), hchild], hcur⟩

/-- The loop over the first `m` nodes of the plan. -/
theorem foldlM_evalAt {s : ℕ → ℕ → Ext K} {n : ℕ} {nodes : List (NodeEval K)}
    {fs : List (Formula ℕ Window)} {pred : ℕ → Except Panic (Flt K)} (h : Inv s n 0 nodes fs)
    (hpred : Supplies s n pred fs) (m : ℕ) (hm : m ≤ nodes.length) :
    ∃ nodes', (List.range m).foldlM (evalAt pred) nodes = .ok nodes' ∧
      nodes'.length = nodes.length ∧ Inv s n m nodes' fs := by
  induction m with
  | zero => exact ⟨nodes, rfl, rfl, h⟩
  | succ m ih =>
    obtain ⟨nodes', heq, hlen, hinv⟩ := ih (by omega)
    obtain ⟨nodes'', heq', hlen', hinv'⟩ := evalAt_spec hinv (by omega) hpred
    refine ⟨nodes'', ?_, by omega, hinv'⟩
    rw [List.range_succ, List.foldlM_append, heq]
    show ([m].foldlM (evalAt pred) nodes') = _
    rw [List.foldlM_cons, heq']
    rfl

/-- Between two ticks every node is where tick `n` starts. -/
theorem Inv.next {s : ℕ → ℕ → Ext K} {n : ℕ} {nodes : List (NodeEval K)}
    {fs : List (Formula ℕ Window)} (h : Inv s n nodes.length nodes fs) :
    Inv s (n + 1) 0 nodes fs := by
  refine ⟨h.wired, ?_, ?_⟩
  · intro j node φ hj hjφ
    have := h.buffers j node φ hj hjφ
    rw [if_pos (List.getElem?_eq_some_iff.mp hj).1] at this
    exact this
  · intro c φ hc
    simp at hc

/-- The invariant of a run: the plan after `n` ticks on the trace `s` of a monitor for `φ`. -/
def Monitor.Tracks (m : Monitor K) (s : ℕ → ℕ → Ext K) (n : ℕ) (φ : Formula ℕ Window)
    (P : ℕ → Prop) : Prop :=
  ∃ fs, Inv s n 0 m.nodes fs ∧ fs[m.root]? = some φ ∧ ∀ a, .atom a ∈ fs → P a

/-- One tick reports the robustness of the formula. -/
theorem Monitor.Tracks.step {m : Monitor K} {s : ℕ → ℕ → Ext K} {n : ℕ} {φ : Formula ℕ Window}
    {P : ℕ → Prop} (h : m.Tracks s n φ P) {pred : ℕ → Except Panic (Flt K)}
    (hpred : ∀ a, P a → pred a = .ok (s n a).toFlt) (horizon : ℕ) :
    ∃ m' v, m.step pred horizon = .ok (m', v) ∧ v.robustness = robustnessAt s φ n ∧
      m'.Tracks s (n + 1) φ P := by
  obtain ⟨fs, hinv, hroot, hP⟩ := h
  have hsup : Supplies s n pred fs := fun a ha => hpred a (hP a ha)
  obtain ⟨nodes', heq, hlen, hinv'⟩ := foldlM_evalAt hinv hsup _ le_rfl
  rw [← hlen] at hinv'
  have hlt : m.root < nodes'.length := by
    rw [hinv'.wired.1]
    exact (List.getElem?_eq_some_iff.mp hroot).1
  obtain ⟨child, hchild, hcur⟩ := hinv'.evaluated m.root φ (by
    rw [List.getElem?_take_of_lt hlt, hroot])
  refine ⟨{ m with nodes := nodes', prevRoot := some child.cur },
    verdictOf m.prevRoot child.cur horizon, ?_, ?_, fs, hinv'.next, hroot, hP⟩
  · unfold Monitor.step
    rw [heq]
    show (index nodes' m.root >>= _) = _
    rw [index_eq_ok.2 hchild]
    rfl
  · rw [← hcur]
    unfold verdictOf
    cases m.prevRoot with
    | none => rfl
    | some prev =>
      dsimp only
      split_ifs <;> rfl

end Tick

/-! ## Runs -/

section Run

variable {K : Type} [Field K] [LinearOrder K]

/-- Feed a stream of margin vectors, one tick each. -/
def Monitor.run (m : Monitor K) (predictiveHorizon : ℕ) :
    List (List (Flt K)) → Except Panic (List (MonitorVerdict K))
  | [] => .ok []
  | v :: vs => do
    let (m, verdict) ← m.step (index v) predictiveHorizon
    let verdicts ← m.run predictiveHorizon vs
    return verdict :: verdicts

/-- A finite stream of margin vectors as a trace. -/
def traceOf (stream : List (List (Ext K))) (t i : ℕ) : Ext K := (stream.getD t []).getD i ⊥

/-- A new monitor has seen no tick of any trace. -/
theorem Monitor.new_tracks {spec : MonitorAutomaton} {φ : Formula ℕ Window} {P : ℕ → Prop}
    (hφ : spec.root.formula = some φ) (hP : AllAtoms P φ) (s : ℕ → ℕ → Ext K) :
    (Monitor.new spec : Monitor K).Tracks s 0 φ P := by
  have hw : Wired ([] : List (NodeEval K)) [] := ⟨rfl, by simp⟩
  have hf : Fresh ([] : List (NodeEval K)) := by simp [Fresh]
  obtain ⟨gs, hw', hf', hroot, hatoms⟩ := flatten_wired spec.root hφ hw hf
  refine ⟨[] ++ gs, ⟨hw', ?_, ?_⟩, hroot, (hatoms P).mp hP⟩
  · intro j node ψ hj _
    have hfresh := hf' node (List.mem_of_getElem? hj)
    rw [if_neg (Nat.not_lt_zero j)]
    cases ψ <;> first | trivial | exact (hfresh _).1 | exact ⟨(hfresh _).1, (hfresh _).2⟩
  · intro c ψ hc
    simp at hc

/-- A run from the state after `n` ticks reports the robustness of the ticks that follow. -/
theorem Monitor.Tracks.run {s : ℕ → ℕ → Ext K} {φ : Formula ℕ Window} {N : ℕ} (horizon : ℕ)
    (vs : List (List (Ext K))) {m : Monitor K} {n : ℕ} (h : m.Tracks s n φ (· < N))
    (hlen : ∀ v ∈ vs, v.length = N)
    (hs : ∀ t v, vs[t]? = some v → ∀ i, s (n + t) i = v.getD i ⊥) :
    ∃ verdicts, m.run horizon (vs.map (List.map Ext.toFlt)) = .ok verdicts ∧
      verdicts.map MonitorVerdict.robustness =
        (List.range vs.length).map fun t => robustnessAt s φ (n + t) := by
  induction vs generalizing m n with
  | nil => exact ⟨[], rfl, rfl⟩
  | cons v vs ih =>
    have hpred : ∀ a, a < N → index (v.map Ext.toFlt) a = .ok (s n a).toFlt := by
      intro a ha
      have hav : a < v.length := by rw [hlen v (by simp)]; exact ha
      have hsa := hs 0 v rfl a
      rw [Nat.add_zero, List.getD_eq_getElem?_getD, List.getElem?_eq_getElem hav] at hsa
      rw [index_eq_ok, List.getElem?_map, List.getElem?_eq_getElem hav, hsa]
      rfl
    obtain ⟨m', verdict, hstep, hrob, hm'⟩ := h.step hpred horizon
    obtain ⟨verdicts, hrun, hrobs⟩ := ih hm' (fun w hw => hlen w (by simp [hw])) (by
      intro t w hw i
      rw [Nat.add_right_comm]
      exact hs (t + 1) w hw i)
    refine ⟨verdict :: verdicts, ?_, ?_⟩
    · rw [List.map_cons, Monitor.run, hstep]
      show (m'.run horizon _ >>= _) = _
      rw [hrun]
      rfl
    · rw [List.map_cons, hrob, hrobs, List.length_cons, List.range_succ_eq_map, List.map_cons,
        List.map_map]
      congr 1
      refine List.map_congr_left fun t _ => ?_
      show robustnessAt s φ (n + 1 + t) = robustnessAt s φ (n + (t + 1))
      rw [Nat.add_right_comm]
      rfl

theorem Window.contains_le (w : Window) (k : ℕ) (h : w.contains k) : k ≤ w.hi := h.2

/-- The robustness at `t` is that of the samples `0, …, t`. -/
theorem robustnessAt_take (stream : List (List (Ext K))) (φ : Formula ℕ Window) (t : ℕ) :
    robustnessAt (traceOf stream) φ t = robustnessAt (traceOf (stream.take (t + 1))) φ t := by
  unfold robustnessAt
  rw [PastStl.sem_congr Ext.neg Window.contains Window.contains_le φ]
  intro u hu
  funext i
  simp only [traceOf, List.getD_eq_getElem?_getD]
  rw [List.getElem?_take_of_lt (by omega)]

/-- The robustness depends on the last `horizon + 1` samples, not on how many came before. -/
theorem robustnessAt_shift {stream stream' : List (List (Ext K))} {φ : Formula ℕ Window} {t u : ℕ}
    (ht : PastStl.horizon Window.hi φ ≤ t) (hu : PastStl.horizon Window.hi φ ≤ u)
    (h : ∀ k ≤ PastStl.horizon Window.hi φ, stream[t - k]? = stream'[u - k]?) :
    robustnessAt (traceOf stream) φ t = robustnessAt (traceOf stream') φ u := by
  unfold robustnessAt
  rw [PastStl.sem_shift Ext.neg Window.contains Window.contains_le φ ht hu]
  intro k hk
  funext i
  simp only [traceOf, List.getD_eq_getElem?_getD]
  rw [h k hk]

/-- **Main theorem.** On every stream of margin vectors a monitor reports at each tick `t` the
    past-time semantics of its formula on the prefix `0, …, t`; past the horizon of the formula
    the report is the same for all streams that end in the same `horizon + 1` samples. -/
theorem Monitor.robustness_eq_sem {spec : MonitorAutomaton} {φ : Formula ℕ Window}
    (hφ : spec.root.formula = some φ) {N : ℕ} (hatoms : AllAtoms (· < N) φ)
    (predictiveHorizon : ℕ) (stream : List (List (Ext K))) (hlen : ∀ v ∈ stream, v.length = N) :
    ∃ verdicts,
      (Monitor.new spec : Monitor K).run predictiveHorizon (stream.map (List.map Ext.toFlt)) =
        .ok verdicts ∧
      verdicts.length = stream.length ∧
      (∀ t, t < stream.length → (verdicts[t]?).map MonitorVerdict.robustness =
        some (sem Ext.neg Window.contains (traceOf (stream.take (t + 1))) φ t).toFlt) ∧
      ∀ (stream' : List (List (Ext K))) (t u : ℕ), t < stream.length → u < stream'.length →
        PastStl.horizon Window.hi φ ≤ t → PastStl.horizon Window.hi φ ≤ u →
        (∀ k ≤ PastStl.horizon Window.hi φ, stream[t - k]? = stream'[u - k]?) →
        (verdicts[t]?).map MonitorVerdict.robustness =
          some (sem Ext.neg Window.contains (traceOf (stream'.take (u + 1))) φ u).toFlt := by
  obtain ⟨verdicts, hrun, hrobs⟩ := (Monitor.new_tracks hφ hatoms (traceOf stream)).run
    predictiveHorizon stream hlen (by
      intro t v hv i
      simp [traceOf, hv])
  have hat : ∀ t, t < stream.length → (verdicts[t]?).map MonitorVerdict.robustness =
      some (robustnessAt (traceOf stream) φ t) := by
    intro t ht
    rw [← List.getElem?_map, hrobs, List.getElem?_map, List.getElem?_range ht]
    simp
  refine ⟨verdicts, hrun, ?_, ?_, ?_⟩
  · simpa using congrArg List.length hrobs
  · intro t ht
    rw [hat t ht, robustnessAt_take]
    rfl
  · intro stream' t u ht _ hht hhu hagree
    rw [hat t ht, robustnessAt_shift hht hhu hagree, robustnessAt_take]
    rfl

/-- `until[1, 2] (always[0, 1] p₀) (not p₁)`. -/
def sampleMonitor : MonitorAutomaton where
  constraintId := "c"
  onUncertain := .fallback
  root := .mk .until none (some 1) (some 2)
    [.mk .always none (some 0) (some 1) [.mk .predicate (some 0) none none []],
      .mk .not none none none [.mk .predicate (some 1) none none []]]
  historyWindowLen := 2
  nodeCount := 5
  predicateIndices := [0, 1]

theorem Monitor.robustness_eq_sem_sample :
    ∃ verdicts, (Monitor.new sampleMonitor : Monitor ℚ).run 5
        ([[.fin 2, .fin (-3)], [.fin 1, .posInf], [.fin 4, .fin 0]] : List (List (Flt ℚ))) =
          .ok verdicts ∧
      (verdicts[2]?).map MonitorVerdict.robustness = some (.fin 1) := by
  have hroot : sampleMonitor.root.formula = some _ := rfl
  obtain ⟨verdicts, hrun, -, hat, -⟩ := Monitor.robustness_eq_sem (K := ℚ) hroot (N := 2)
    (by simp [AllAtoms]) 5
    [[Ext.fin 2, Ext.fin (-3)], [Ext.fin 1, ⊤], [Ext.fin 4, Ext.fin 0]] (by simp)
  refine ⟨verdicts, hrun, (hat 2 (by decide)).trans ?_⟩
  decide +kernel

end Run

end AstroMine.Guard
