import AstroMine.Guard.Arbiter
import AstroMine.Guard.MonitorSemantics

/-!
# The detect layer over runs of the arbiter

Two questions about the monitors of a running core: can a tick look up a predicate that does not
exist, and can the proposals of the policy influence the monitors.

Results:
* `Monitor.step_cases`: a step over a wired plan succeeds when all the atoms of the plan exist,
  and otherwise panics on a predicate lookup.
* `SafetyCore.run_lookups_in_range_iff`: no run of an accepted model panics on a lookup iff every
  predicate index in its monitor trees is a declared atom.
* `SafetyCore.monitors_eq_feed`: the monitors after a run are the initial ones fed with the
  samples of the ticks that pass the input checks.
* `SafetyCore.monitors_independent_of_proposals`: two runs in the same environment have the same
  monitors after every tick when every proposal passes the setpoint check.
-/

namespace AstroMine.Guard

open PastStl (Formula AllAtoms)

/-! ## The atoms of a tree -/

namespace CompiledNode

mutual

/-- Every predicate node of the tree looks up an atom below `n`. -/
def PredicatesBelow (n : ℕ) : CompiledNode → Prop
  | mk op pi _ _ args => (op = .predicate → ∀ i, pi = some i → i < n) ∧ AllPredicatesBelow n args

/-- `PredicatesBelow` of every tree of a list. -/
def AllPredicatesBelow (n : ℕ) : List CompiledNode → Prop
  | [] => True
  | t :: ts => PredicatesBelow n t ∧ AllPredicatesBelow n ts

end

/-- A tree denotes an atom exactly when it is a predicate node. -/
theorem formula_eq_atom_iff {op : TemporalOp} {pi lo hi : Option ℕ} {args : List CompiledNode}
    {φ : Formula ℕ Window} (hφ : (mk op pi lo hi args).formula = some φ) (a : ℕ) :
    φ = .atom a ↔ op = .predicate ∧ pi = some a := by
  unfold formula at hφ
  cases hφs : formulas args with
  | none => rw [hφs] at hφ; cases hφ
  | some φs =>
    rw [hφs] at hφ
    dsimp only at hφ
    split at hφ
    · obtain ⟨i, hi, rfl⟩ := Option.map_eq_some_iff.mp hφ
      simp [hi]
    · cases hφ
      simp
    · cases hφ
      simp
    · cases hφ
      simp
    · obtain ⟨w, -, rfl⟩ := Option.map_eq_some_iff.mp hφ
      simp
    · obtain ⟨w, -, rfl⟩ := Option.map_eq_some_iff.mp hφ
      simp
    · obtain ⟨w, -, rfl⟩ := Option.map_eq_some_iff.mp hφ
      simp
    · cases hφ

mutual

theorem predicatesBelow_iff (n : ℕ) : ∀ {t : CompiledNode} {φ : Formula ℕ Window},
    t.formula = some φ → (t.PredicatesBelow n ↔ AllAtoms (· < n) φ)
  | mk op pi lo hi args, φ, hφ => by
    have hatom := formula_eq_atom_iff hφ
    cases hφs : formulas args with
    | none =>
      unfold formula at hφ
      rw [hφs] at hφ
      cases hφ
    | some φs =>
      rw [formula_allAtoms hφ hφs, ← allPredicatesBelow_iff n hφs]
      unfold PredicatesBelow
      rw [and_comm]
      simp only [hatom, and_imp]
      constructor
      · rintro ⟨h, h'⟩
        exact ⟨h, fun a hop hpi => h' hop a hpi⟩
      · rintro ⟨h, h'⟩
        exact ⟨h, fun hop a hpi => h' a hop hpi⟩

theorem allPredicatesBelow_iff (n : ℕ) : ∀ {ts : List CompiledNode} {φs : List (Formula ℕ Window)},
    formulas ts = some φs → (AllPredicatesBelow n ts ↔ PastStl.AllAtomss (· < n) φs)
  | [], φs, h => by
    cases h
    exact Iff.rfl
  | t :: ts, φs, h => by
    rw [formulas] at h
    split at h
    · rename_i φ φs' hφ hφs
      cases h
      unfold AllPredicatesBelow PastStl.AllAtomss
      rw [predicatesBelow_iff n hφ, allPredicatesBelow_iff n hφs]
    · cases h

end

end CompiledNode

/-! ## Failing in one way -/

section FailsIf

variable {α β : Type} {e : Panic} {C : Prop}

/-- A computation that succeeds, or fails with `e` under the condition `C`. -/
def FailsIf (e : Panic) (C : Prop) (x : Except Panic α) : Prop :=
  (∃ a, x = .ok a) ∨ x = .error e ∧ C

theorem failsIf_ok (a : α) : FailsIf e C (.ok a : Except Panic α) := .inl ⟨a, rfl⟩

theorem FailsIf.bind {x : Except Panic α} {f : α → Except Panic β} (hx : FailsIf e C x)
    (hf : ∀ a, x = .ok a → FailsIf e C (f a)) : FailsIf e C (x >>= f) := by
  obtain ⟨a, rfl⟩ | ⟨rfl, hC⟩ := hx
  · exact hf a rfl
  · exact .inr ⟨rfl, hC⟩

theorem failsIf_mapM {f : α → Except Panic β} (xs : List α) (hf : ∀ x, FailsIf e C (f x)) :
    FailsIf e C (xs.mapM f) := by
  induction xs with
  | nil => exact failsIf_ok []
  | cons x xs ih =>
    rw [List.mapM_cons]
    exact (hf x).bind fun _ _ => ih.bind fun _ _ => failsIf_ok _

theorem failsIf_index (xs : List α) (i : ℕ) : FailsIf .index True (index xs i) := by
  unfold index FailsIf
  cases xs[i]? <;> simp

end FailsIf

/-! ## Panics of one monitor step -/

section Step

variable {K : Type}

/-- `childCur` of a child that exists. -/
theorem childCur_ok {nodes : List (NodeEval K)} {node : NodeEval K} (which : ℕ) {c : ℕ}
    (hc : node.children[which]? = some c) (hlt : c < nodes.length) :
    childCur nodes node which = .ok nodes[c].cur :=
  childCur_eq which hc ⟨nodes[c], List.getElem?_eq_getElem hlt, rfl⟩

theorem reduceChildren_ok {nodes : List (NodeEval K)} {node : NodeEval K} (init : Flt K)
    (f : Flt K → Flt K → Flt K) (h : ∀ c ∈ node.children, c < nodes.length) :
    ∃ v, reduceChildren nodes node init f = .ok v := by
  unfold reduceChildren
  generalize node.children = cs at h
  induction cs generalizing init with
  | nil => exact ⟨init, rfl⟩
  | cons c cs ih =>
    have hlt : c < nodes.length := h c (by simp)
    have hc : index nodes c = .ok nodes[c] := index_eq_ok.2 (List.getElem?_eq_getElem hlt)
    obtain ⟨v, hv⟩ := ih (f init nodes[c].cur) fun c' hc' => h c' (by simp [hc'])
    refine ⟨v, ?_⟩
    rw [List.foldlM_cons, hc]
    exact hv

/-- Two nodes that differ in their buffers and their value only. -/
structure SameShape (node node' : NodeEval K) : Prop where
  op : node'.op = node.op
  children : node'.children = node.children
  predicateIndex : node'.predicateIndex = node.predicateIndex
  lo : node'.lo = node.lo
  hi : node'.hi = node.hi

theorem Computes.congr {fs : List (Formula ℕ Window)} {node node' : NodeEval K}
    {φ : Formula ℕ Window} (h : Computes fs node φ) (hs : SameShape node node') :
    Computes fs node' φ := by
  cases φ <;> simpa only [Computes, hs.op, hs.children, hs.predicateIndex, hs.lo, hs.hi] using h

/-- Storing a node of the same shape keeps a plan wired. -/
theorem Wired.set {nodes : List (NodeEval K)} {fs : List (Formula ℕ Window)} {i : ℕ}
    {node node' : NodeEval K} (h : Wired nodes fs) (hi : nodes[i]? = some node)
    (hs : SameShape node node') : Wired (nodes.set i node') fs := by
  obtain ⟨hlen, hall⟩ := h
  refine ⟨by simp [hlen], ?_⟩
  intro j node₂ φ hj hjφ
  by_cases hji : j = i
  · subst hji
    rw [List.getElem?_set_self (List.getElem?_eq_some_iff.mp hi).1] at hj
    cases hj
    exact (hall j node φ hi hjφ).congr hs
  · rw [List.getElem?_set_ne (Ne.symm hji)] at hj
    exact hall j node₂ φ hj hjφ

/-- The children of a node that computes a compound formula are earlier nodes. -/
theorem Computes.children_lt {fs : List (Formula ℕ Window)} {i : ℕ} {node : NodeEval K}
    {φ : Formula ℕ Window} (h : Computes (fs.take i) node φ) (hφ : ∀ a, φ ≠ .atom a) :
    ∀ c ∈ node.children, c < fs.length := by
  have hlt : ∀ {c : ℕ} {ψ : Formula ℕ Window}, (fs.take i)[c]? = some ψ → c < fs.length := by
    intro c ψ hc
    have := (List.getElem?_eq_some_iff.mp hc).1
    rw [List.length_take] at this
    omega
  have hall : ∀ {cs : List ℕ} {φs : List (Formula ℕ Window)},
      List.Forall₂ (fun c φ => (fs.take i)[c]? = some φ) cs φs → ∀ c ∈ cs, c < fs.length := by
    intro cs φs hcs
    induction hcs with
    | nil => simp
    | cons hc _ ih =>
      intro c hmem
      obtain rfl | hmem := List.mem_cons.mp hmem
      · exact hlt hc
      · exact ih c hmem
  cases φ with
  | atom a => exact absurd rfl (hφ a)
  | not φ =>
    obtain ⟨-, c, hch, hc⟩ := h
    rw [hch]
    simpa using hlt hc
  | and φs => exact hall h.2
  | or φs => exact hall h.2
  | always w φ =>
    obtain ⟨-, -, -, c, hch, hc⟩ := h
    rw [hch]
    simpa using hlt hc
  | eventually w φ =>
    obtain ⟨-, -, -, c, hch, hc⟩ := h
    rw [hch]
    simpa using hlt hc
  | «until» w φ ψ =>
    obtain ⟨-, -, -, c, d, hch, hc, hd⟩ := h
    rw [hch]
    simpa using ⟨hlt hc, hlt hd⟩

variable [Field K] [LinearOrder K]

theorem evalNode_shape {pred : ℕ → Except Panic (Flt K)} {nodes : List (NodeEval K)}
    {node node' : NodeEval K} {v : Flt K} (h : evalNode pred nodes node = .ok (node', v)) :
    SameShape node node' := by
  unfold evalNode at h
  split at h
  · simp only [bind_eq_ok] at h
    obtain ⟨i, -, w, -, h⟩ := h
    cases h
    exact ⟨rfl, rfl, rfl, rfl, rfl⟩
  · obtain ⟨w, -, h⟩ := bind_eq_ok.1 h
    cases h
    exact ⟨rfl, rfl, rfl, rfl, rfl⟩
  · obtain ⟨w, -, h⟩ := bind_eq_ok.1 h
    cases h
    exact ⟨rfl, rfl, rfl, rfl, rfl⟩
  · obtain ⟨w, -, h⟩ := bind_eq_ok.1 h
    cases h
    exact ⟨rfl, rfl, rfl, rfl, rfl⟩
  · obtain ⟨w, -, h⟩ := bind_eq_ok.1 h
    cases h
    exact ⟨rfl, rfl, rfl, rfl, rfl⟩
  · obtain ⟨w, -, h⟩ := bind_eq_ok.1 h
    cases h
    exact ⟨rfl, rfl, rfl, rfl, rfl⟩
  · simp only [evalUntil, bind_eq_ok] at h
    obtain ⟨w, -, w', -, h⟩ := h
    cases h
    exact ⟨rfl, rfl, rfl, rfl, rfl⟩

/-- One node of a wired plan: it fails on a lookup only, it succeeds when its atom exists, and a
    success shows that its atom exists. -/
theorem evalNode_cases {pred : ℕ → Except Panic (Flt K)} (hpred : ∀ a, FailsIf .index True (pred a))
    {nodes : List (NodeEval K)} {fs : List (Formula ℕ Window)} {i : ℕ} {node : NodeEval K}
    {φ : Formula ℕ Window} (hlen : nodes.length = fs.length)
    (hc : Computes (fs.take i) node φ) :
    ((∃ r, evalNode pred nodes node = .ok r) ∧ ∀ a, φ = .atom a → ∃ v, pred a = .ok v) ∨
      evalNode pred nodes node = .error .index ∧ ∃ a, φ = .atom a ∧ ¬ ∃ v, pred a = .ok v := by
  have hlt := hc.children_lt
  rw [← hlen] at hlt
  unfold evalNode
  cases φ with
  | atom a =>
    obtain ⟨hop, hpi⟩ := hc
    clear hlt
    rw [hop, hpi]
    obtain ⟨v, hv⟩ | ⟨herr, -⟩ := hpred a
    · refine .inl ⟨⟨(node, v), ?_⟩, ?_⟩
      · show (pred a >>= _) = _
        rw [hv]
        rfl
      · rintro _ ⟨⟩
        exact ⟨v, hv⟩
    · refine .inr ⟨?_, a, rfl, ?_⟩
      · show (pred a >>= _) = _
        rw [herr]
        rfl
      · rintro ⟨v, hv⟩
        rw [hv] at herr
        cases herr
  | not φ =>
    obtain ⟨hop, c, hch, -⟩ := hc
    rw [hop]
    have hcn : c < nodes.length := hlt (by simp) c (by simp [hch])
    have hc0 : childCur nodes node 0 = .ok nodes[c].cur := childCur_ok 0 (by rw [hch]; rfl) hcn
    refine .inl ⟨⟨(node, -nodes[c].cur), ?_⟩, by simp⟩
    dsimp only
    rw [hc0]
    rfl
  | and φs =>
    obtain ⟨v, hv⟩ := reduceChildren_ok (K := K) .posInf Flt.min (hlt (by simp))
    rw [hc.1]
    refine .inl ⟨⟨(node, v), ?_⟩, by simp⟩
    dsimp only
    rw [hv]
    rfl
  | or φs =>
    obtain ⟨v, hv⟩ := reduceChildren_ok (K := K) .negInf Flt.max (hlt (by simp))
    rw [hc.1]
    refine .inl ⟨⟨(node, v), ?_⟩, by simp⟩
    dsimp only
    rw [hv]
    rfl
  | always w φ =>
    obtain ⟨hop, -, -, c, hch, -⟩ := hc
    rw [hop]
    refine .inl ⟨⟨_, evalWindow_eq true hch
      ⟨_, List.getElem?_eq_getElem (hlt (by simp) c (by simp [hch])), rfl⟩⟩, by simp⟩
  | eventually w φ =>
    obtain ⟨hop, -, -, c, hch, -⟩ := hc
    rw [hop]
    refine .inl ⟨⟨_, evalWindow_eq false hch
      ⟨_, List.getElem?_eq_getElem (hlt (by simp) c (by simp [hch])), rfl⟩⟩, by simp⟩
  | «until» w φ ψ =>
    obtain ⟨hop, -, -, c, d, hch, -, -⟩ := hc
    rw [hop]
    refine .inl ⟨⟨_, evalUntil_eq hch
      ⟨_, List.getElem?_eq_getElem (hlt (by simp) c (by simp [hch])), rfl⟩
      ⟨_, List.getElem?_eq_getElem (hlt (by simp) d (by simp [hch])), rfl⟩⟩, by simp⟩

/-- The loop over the first `m` nodes of a wired plan: it fails on a lookup only, and it succeeds
    when and only when the atoms of these nodes exist. -/
theorem foldlM_evalAt_cases {pred : ℕ → Except Panic (Flt K)} (hpred : ∀ a, FailsIf .index True (pred a))
    {nodes : List (NodeEval K)} {fs : List (Formula ℕ Window)} (hw : Wired nodes fs) (m : ℕ)
    (hm : m ≤ nodes.length) :
    (∃ nodes', (List.range m).foldlM (evalAt pred) nodes = .ok nodes' ∧ Wired nodes' fs ∧
        ∀ a, .atom a ∈ fs.take m → ∃ v, pred a = .ok v) ∨
      (List.range m).foldlM (evalAt pred) nodes = .error .index ∧
        ∃ a, .atom a ∈ fs.take m ∧ ¬ ∃ v, pred a = .ok v := by
  induction m with
  | zero => exact .inl ⟨nodes, rfl, hw, by simp⟩
  | succ m ih =>
    have hmf : m < fs.length := by
      rw [← hw.1]
      omega
    have hmem : ∀ a, .atom a ∈ fs.take (m + 1) ↔ .atom a ∈ fs.take m ∨ fs[m] = .atom a := by
      intro a
      rw [List.take_succ_eq_append_getElem hmf, List.mem_append, List.mem_singleton]
      exact or_congr Iff.rfl eq_comm
    rw [List.range_succ, List.foldlM_append]
    obtain ⟨nodes', heq, hw', hatoms⟩ | ⟨herr, a, ha, hna⟩ := ih (by omega)
    · have hmn : m < nodes'.length := hw'.1 ▸ hmf
      have hnode : nodes'[m]? = some nodes'[m] := List.getElem?_eq_getElem hmn
      rw [heq]
      show (∃ nodes'', [m].foldlM (evalAt pred) nodes' = .ok nodes'' ∧ _) ∨
        [m].foldlM (evalAt pred) nodes' = .error .index ∧ _
      have hone : [m].foldlM (evalAt pred) nodes' = evalAt pred nodes' m := by
        rw [List.foldlM_cons]
        cases evalAt pred nodes' m <;> rfl
      rw [hone]
      unfold evalAt
      rw [index_eq_ok.2 hnode]
      obtain ⟨⟨⟨node'', v⟩, hev⟩, hatom⟩ | ⟨hev, a, ha, hna⟩ := evalNode_cases hpred hw'.1
        (hw'.2 m _ _ hnode (List.getElem?_eq_getElem hmf))
      · refine .inl ⟨nodes'.set m { node'' with cur := v }, ?_, ?_, ?_⟩
        · show (evalNode pred nodes' _ >>= _) = _
          rw [hev]
          rfl
        · obtain ⟨h₁, h₂, h₃, h₄, h₅⟩ := evalNode_shape hev
          exact hw'.set hnode ⟨h₁, h₂, h₃, h₄, h₅⟩
        · intro a ha
          obtain ha | ha := (hmem a).mp ha
          · exact hatoms a ha
          · exact hatom a ha
      · refine .inr ⟨?_, a, (hmem a).mpr (.inr ha), hna⟩
        show (evalNode pred nodes' _ >>= _) = _
        rw [hev]
        rfl
    · refine .inr ⟨?_, a, (hmem a).mpr (.inl ha), hna⟩
      rw [herr]
      rfl

/-- The plan of a monitor, whatever its buffers hold: the formulas its nodes compute, and the
    atoms they look up. -/
def Monitor.Planned (m : Monitor K) (fs : List (Formula ℕ Window)) : Prop :=
  Wired m.nodes fs ∧ m.root < m.nodes.length

/-- **Main theorem.** A step over a planned monitor succeeds when all its atoms exist, and panics
    on a predicate lookup when one does not. -/
theorem Monitor.step_cases {m : Monitor K} {fs : List (Formula ℕ Window)} (h : m.Planned fs)
    {pred : ℕ → Except Panic (Flt K)} (hpred : ∀ a, FailsIf .index True (pred a)) (horizon : ℕ) :
    ((∃ m' v, m.step pred horizon = .ok (m', v) ∧ m'.Planned fs) ∧
        ∀ a, .atom a ∈ fs → ∃ v, pred a = .ok v) ∨
      m.step pred horizon = .error .index ∧ ∃ a, .atom a ∈ fs ∧ ¬ ∃ v, pred a = .ok v := by
  obtain ⟨hw, hroot⟩ := h
  have htake : fs.take m.nodes.length = fs := List.take_of_length_le hw.1.ge
  unfold Monitor.step
  obtain ⟨nodes', heq, hw', hatoms⟩ | ⟨herr, hatom⟩ := foldlM_evalAt_cases hpred hw _ le_rfl
  · rw [htake] at hatoms
    have hroot' : m.root < nodes'.length := by rw [hw'.1, ← hw.1]; exact hroot
    refine .inl ⟨⟨{ m with nodes := nodes', prevRoot := some nodes'[m.root].cur },
      verdictOf m.prevRoot nodes'[m.root].cur horizon, ?_, hw', hroot'⟩, hatoms⟩
    rw [heq]
    show (index nodes' m.root >>= _) = _
    rw [index_eq_ok.2 (List.getElem?_eq_getElem hroot')]
    rfl
  · rw [htake] at hatom
    refine .inr ⟨?_, hatom⟩
    rw [herr]
    rfl

end Step

/-! ## Panics of one tick -/

section Tick

variable {K : Type} [Field K] [LinearOrder K]

variable [HasSqrt K]

/-- A symmetric box that `clamp` rejects. -/
def BadBox (limit : Flt K) : Prop := ¬ -limit ≤ limit

omit [HasSqrt K] in
theorem failsIf_clampOrPanic (x limit : Flt K) :
    FailsIf .clamp (BadBox limit) (clampOrPanic x (-limit) limit) := by
  unfold clampOrPanic
  split_ifs with h
  · exact failsIf_ok _
  · exact .inr ⟨rfl, h⟩

omit [HasSqrt K] in
theorem Backup.failsIf_brake (b : Backup K) (v : List (Flt K)) :
    FailsIf .clamp (BadBox b.uMax) (b.brake v) :=
  failsIf_mapM _ fun _ => failsIf_clampOrPanic _ _

theorem Backup.failsIf_guardedMove (b : Backup K) (g p v : List (Flt K)) :
    FailsIf .clamp (BadBox b.uMax) (b.guardedMove g p v) := by
  unfold guardedMove
  dsimp only
  split_ifs
  · exact b.failsIf_brake v
  · refine (failsIf_mapM _ fun _ => failsIf_clampOrPanic _ _).bind fun action _ => ?_
    split_ifs
    · exact failsIf_ok action
    · exact b.failsIf_brake v

theorem Backup.failsIf_control (b : Backup K) (kind : BackupKind) (mode : ControlMode)
    (p v : List (Flt K)) (hold : Option (List (Flt K))) :
    FailsIf .clamp (BadBox b.uMax) (b.control kind mode p v hold) := by
  unfold control
  dsimp only
  split
  · exact b.failsIf_brake v
  · exact b.failsIf_guardedMove _ p v
  · exact failsIf_ok _
  · exact failsIf_ok _
  · exact failsIf_ok _
  · exact failsIf_ok _

theorem Shield.failsIf_projectKinematic (s : Shield K) (mode : ControlMode) (p y : List (Flt K)) :
    FailsIf .clamp (BadBox s.uMax) (s.projectKinematic mode p y) := by
  cases mode with
  | effort => exact failsIf_mapM y fun yi => failsIf_clampOrPanic yi s.uMax
  | velocity => exact failsIf_ok _
  | position => exact failsIf_ok _

theorem Shield.failsIf_dykstraLoop (s : Shield K) (mode : ControlMode) (p : List (Flt K))
    (rows : List (BarrierRow K)) (n : ℕ) (corr : List (Flt K)) (corrs : List (List (Flt K)))
    (x : List (Flt K)) : FailsIf .clamp (BadBox s.uMax) (s.dykstraLoop mode p rows n corr corrs x) := by
  induction n generalizing corr corrs x with
  | zero => exact failsIf_ok x
  | succ n ih =>
    unfold dykstraLoop
    refine (s.failsIf_projectKinematic mode p _).bind fun x' _ => ?_
    dsimp only
    split_ifs
    · exact failsIf_ok _
    · exact ih _ _ _

theorem Shield.failsIf_solveMode (s : Shield K) (mode : ControlMode) (p v x0 : List (Flt K)) :
    FailsIf .clamp (BadBox s.uMax) (s.solveMode mode p v x0) := by
  unfold solveMode
  dsimp only
  split_ifs
  · exact failsIf_ok _
  · exact failsIf_ok _
  · exact (s.failsIf_dykstraLoop mode _ _ _ _ _ _).bind fun x _ => failsIf_ok _

namespace SafetyCore

theorem failsIf_emitBackup (core : SafetyCore K) (input : SafetyInput K) (kind : BackupKind)
    (reason : Reason) (fired : List ℕ) (minH : Flt K) :
    FailsIf .clamp (BadBox core.backup.uMax) (core.emitBackup input kind reason fired minH) := by
  obtain ⟨a, b, hlatch⟩ := latchHold_eq core input kind
  unfold emitBackup
  dsimp only
  rw [hlatch]
  exact (Backup.failsIf_control core.backup kind _ _ _ _).bind fun _ _ => failsIf_ok _

theorem failsIf_emitWatchdog (core : SafetyCore K) (input : SafetyInput K) :
    FailsIf .clamp (BadBox core.backup.uMax) (core.emitWatchdog input) :=
  (Backup.failsIf_control core.backup _ _ _ _ _).bind fun _ _ => failsIf_ok _

theorem failsIf_gateAndShield (core : SafetyCore K) (input : SafetyInput K)
    (hs : ∀ s, core.shield = some s → s.uMax = core.backup.uMax) :
    FailsIf .clamp (BadBox core.backup.uMax) (core.gateAndShield input) := by
  unfold gateAndShield
  dsimp only
  split
  · split_ifs
    · exact failsIf_ok _
    · exact core.failsIf_emitBackup _ _ _ _ _
  · split
    · exact failsIf_ok _
    · rename_i s hcore
      rw [← hs s hcore]
      refine (s.failsIf_solveMode _ _ _ _).bind fun out _ => ?_
      rw [hs s hcore]
      split_ifs
      · exact failsIf_ok _
      · exact core.failsIf_emitBackup _ _ _ _ _

omit [HasSqrt K] in
/-- A scalar bound of an existing atom can be looked up. -/
theorem scalarHit_ok (predRob : List (Flt K)) {bounds : List ScalarBound}
    (h : ∀ b ∈ bounds, b.atomIndex < predRob.length) (bi : ℕ) :
    ∃ hit, scalarHit predRob bounds bi = .ok hit := by
  induction bounds generalizing bi with
  | nil => exact ⟨none, rfl⟩
  | cons b bs ih =>
    have hlt : b.atomIndex < predRob.length := h b (by simp)
    have hb : index predRob b.atomIndex = .ok predRob[b.atomIndex] :=
      index_eq_ok.2 (List.getElem?_eq_getElem hlt)
    obtain ⟨hit, hhit⟩ := ih (fun b' hb' => h b' (by simp [hb'])) (bi + 1)
    unfold scalarHit
    rw [hb]
    simp only [bind, Except.bind]
    split_ifs
    · exact ⟨_, rfl⟩
    · exact ⟨hit, hhit⟩

omit [LinearOrder K] [HasSqrt K] in
theorem predicates_ok (core : SafetyCore K) {signals : List (Flt K)}
    (h : ∀ a ∈ core.model.atoms, a.signalIndex < signals.length) :
    ∃ predRob, core.predicates signals = .ok predRob ∧
      predRob.length = core.model.atoms.length := by
  unfold predicates
  generalize core.model.atoms = atoms at h
  induction atoms with
  | nil => exact ⟨[], rfl, rfl⟩
  | cons a as ih =>
    obtain ⟨rest, hrest, hlen⟩ := ih fun b hb => h b (by simp [hb])
    have hlt : a.signalIndex < signals.length := h a (by simp)
    have ha : index signals a.signalIndex = .ok signals[a.signalIndex] :=
      index_eq_ok.2 (List.getElem?_eq_getElem hlt)
    refine ⟨a.op.robustness signals[a.signalIndex] a.threshold :: rest, ?_, by simp [hlen]⟩
    rw [List.mapM_cons, ha, hrest]
    rfl

/-- An atom some monitor looks up and the predicate table does not have. -/
def Missing (n : ℕ) (fss : List (List (Formula ℕ Window))) : Prop :=
  ∃ fs ∈ fss, ∃ a, .atom a ∈ fs ∧ n ≤ a

omit [HasSqrt K] in
/-- All the monitors advance when no atom is missing, and the first that looks up a missing atom
    panics. -/
theorem stepMonitors_cases (predRob : List (Flt K)) {ms : List (Monitor K)}
    {fss : List (List (Formula ℕ Window))} (h : List.Forall₂ Monitor.Planned ms fss)
    (horizon mi : ℕ) :
    ((∃ ms' fired, stepMonitors predRob horizon ms mi = .ok (ms', fired) ∧
        List.Forall₂ Monitor.Planned ms' fss) ∧ ¬ Missing predRob.length fss) ∨
      stepMonitors predRob horizon ms mi = .error .index ∧ Missing predRob.length fss := by
  have hexists : ∀ a, (∃ v, index predRob a = .ok v) ↔ a < predRob.length := by
    intro a
    constructor
    · rintro ⟨v, hv⟩
      exact (List.getElem?_eq_some_iff.mp (index_eq_ok.1 hv)).1
    · intro ha
      exact ⟨predRob[a], index_eq_ok.2 (List.getElem?_eq_getElem ha)⟩
  induction h generalizing mi with
  | nil => exact .inl ⟨⟨[], none, rfl, .nil⟩, by simp [Missing]⟩
  | @cons m fs ms fss hm _ ih =>
    unfold stepMonitors
    obtain ⟨⟨m', v, hstep, hm'⟩, hatoms⟩ | ⟨hstep, a, ha, hna⟩ :=
      Monitor.step_cases hm (failsIf_index predRob) horizon
    · rw [hstep]
      obtain ⟨⟨ms', fired, hms, hplanned⟩, hmiss⟩ | ⟨hms, fs', hfs', a, ha, hna⟩ := ih (mi + 1)
      · refine .inl ⟨⟨m' :: ms', if v.fired then some (mi, m.onUncertain) else fired, ?_,
          .cons hm' hplanned⟩, ?_⟩
        · show (stepMonitors predRob horizon ms (mi + 1) >>= _) = _
          rw [hms]
          rfl
        · rintro ⟨fs', hfs', a, ha, hna⟩
          obtain rfl | hfs' := List.mem_cons.mp hfs'
          · exact absurd ((hexists a).mp (hatoms a ha)) (by omega)
          · exact hmiss ⟨fs', hfs', a, ha, hna⟩
      · refine .inr ⟨?_, fs', by simp [hfs'], a, ha, hna⟩
        show (stepMonitors predRob horizon ms (mi + 1) >>= _) = _
        rw [hms]
        rfl
    · refine .inr ⟨?_, fs, by simp, a, ha, ?_⟩
      · rw [hstep]
        rfl
      · rw [hexists] at hna
        omega

/-- What the panics of a tick depend on: the plans of the monitors and the valid indices. -/
structure Ready (core : SafetyCore K) (fss : List (List (Formula ℕ Window))) : Prop where
  planned : List.Forall₂ Monitor.Planned core.monitors fss
  atoms : ∀ a ∈ core.model.atoms, a.signalIndex < core.model.signals.length
  bounds : ∀ b ∈ core.model.scalarBounds, b.atomIndex < core.model.atoms.length
  uMax : ∀ s, core.shield = some s → s.uMax = core.backup.uMax

/-- A tick either succeeds, or panics in `clamp` for a bad box, or panics on a lookup because an
    atom is missing and the tick reached the monitors. -/
theorem decide_outcome {core : SafetyCore K} {fss : List (List (Formula ℕ Window))}
    (fw : Bool) (h : core.Ready fss) {input : SafetyInput K}
    (hlen : input.signals.length = core.model.signals.length) :
    (FailsIf .clamp (BadBox core.backup.uMax) (core.decide input fw) ∧
        (core.passes input fw = true → ¬ Missing core.model.atoms.length fss) ∧
        ∀ core' v, core.decide input fw = .ok (core', v) → core'.Ready fss) ∨
      core.decide input fw = .error .index ∧ Missing core.model.atoms.length fss := by
  obtain ⟨predRob, hpred, hpredlen⟩ := predicates_ok core (fun a ha => hlen ▸ h.atoms a ha)
  have hready : ∀ {core' : SafetyCore K} {v : SafetyVerdict K},
      core.decide input fw = .ok (core', v) → List.Forall₂ Monitor.Planned core'.monitors fss →
        core'.Ready fss := by
    intro core' v hd hp
    obtain ⟨hm, -, -, hs, hb, -⟩ := decide_static hd
    exact ⟨hp, hm ▸ h.atoms, hm ▸ h.bounds, by rw [hs, hb]; exact h.uMax⟩
  cases hpass : core.passes input fw with
  | false =>
    refine .inl ⟨?_, by simp, ?_⟩
    · unfold SafetyCore.decide
      unfold passes at hpass
      cases fw with
      | true => exact core.failsIf_emitWatchdog input
      | false =>
        rw [if_neg (by simp), if_pos]
        · exact core.failsIf_emitBackup _ _ _ _ _
        · revert hpass
          cases core.goodSignals input <;> cases core.goodState input <;>
            cases core.goodCommand input <;> simp
    · intro core' v hd
      refine hready hd ?_
      obtain ⟨-, a, b, rfl⟩ | ⟨hp, -⟩ := decide_cases hd
      · exact h.planned
      · rw [hpass] at hp
        cases hp
  | true =>
    have hd : core.decide input fw = (stepMonitors predRob core.cfg.predictiveHorizonSamples
        core.monitors 0 >>= fun r => { core with monitors := r.1 }.arbitrate input predRob r.2) := by
      unfold SafetyCore.decide
      unfold passes at hpass
      cases fw with
      | true => simp at hpass
      | false =>
        rw [if_neg (by simp), if_neg]
        · show (core.predicates input.signals >>= _) = _
          rw [hpred]
          rfl
        · revert hpass
          cases core.goodSignals input <;> cases core.goodState input <;>
            cases core.goodCommand input <;> simp
    rw [← hpredlen]
    obtain ⟨⟨ms, fired, hms, hplanned⟩, hmiss⟩ | ⟨hms, hmiss⟩ :=
      stepMonitors_cases predRob h.planned core.cfg.predictiveHorizonSamples 0
    · refine .inl ⟨?_, fun _ => hmiss, ?_⟩
      · rw [hd, hms]
        obtain ⟨hit, hhit⟩ := scalarHit_ok predRob (by rw [hpredlen]; exact h.bounds) 0
        show FailsIf _ _ ({ core with monitors := ms }.arbitrate input predRob fired)
        unfold arbitrate
        rw [hhit]
        cases hit with
        | some hit => exact failsIf_emitBackup { core with monitors := ms } _ _ _ _ _
        | none =>
          cases fired with
          | some fired => exact failsIf_emitBackup { core with monitors := ms } _ _ _ _ _
          | none => exact failsIf_gateAndShield { core with monitors := ms } input h.uMax
      · intro core' v hok
        refine hready hok ?_
        rw [hd, hms] at hok
        obtain ⟨a, b, rfl⟩ := arbitrate_core hok
        exact hplanned
    · refine .inr ⟨?_, hmiss⟩
      rw [hd, hms]
      rfl

/-- `decide_outcome` for every kind of tick. -/
theorem tick_outcome {core : SafetyCore K} {fss : List (List (Formula ℕ Window))}
    (h : core.Ready fss) {t : Tick K} (hlen : t.1.signals.length = core.model.signals.length) :
    (FailsIf .clamp (BadBox core.backup.uMax) (core.tick t) ∧
        (core.reaches t = true → ¬ Missing core.model.atoms.length fss) ∧
        ∀ core' v, core.tick t = .ok (core', v) → core'.Ready fss) ∨
      core.tick t = .error .index ∧ Missing core.model.atoms.length fss := by
  obtain ⟨input, w⟩ := t
  cases w with
  | idle => exact decide_outcome false h hlen
  | forced => exact decide_outcome true h hlen
  | expired =>
    unfold tick
    obtain ⟨hclamp, hmiss, hready⟩ | ⟨herr, hmiss⟩ := decide_outcome false h hlen
    · refine .inl ⟨hclamp.bind ?_, hmiss, ?_⟩
      · rintro ⟨core', v⟩ hd
        rw [← (decide_static hd).backup]
        exact core'.failsIf_emitWatchdog input
      · intro core' v hok
        obtain ⟨⟨core₁, v₁⟩, hd, hw⟩ := bind_eq_ok.1 hok
        obtain ⟨a, b, rfl⟩ := emitWatchdog_core hw
        obtain ⟨h₁, h₂, h₃, h₄⟩ := hready core₁ v₁ hd
        exact ⟨h₁, h₂, h₃, h₄⟩
    · refine .inr ⟨?_, hmiss⟩
      show (core.decide input false >>= _) = _
      rw [herr]
      rfl

/-! ## Panics of a run -/

omit [LinearOrder K] [HasSqrt K] in
/-- The plan of a new monitor looks up the atoms of its tree. -/
theorem new_planned {spec : MonitorAutomaton} (h : spec.root.Checked) (n : ℕ) :
    ∃ fs, (Monitor.new spec : Monitor K).Planned fs ∧
      (spec.root.PredicatesBelow n ↔ ∀ a, .atom a ∈ fs → a < n) := by
  obtain ⟨φ, hφ⟩ := Option.isSome_iff_exists.mp ((CompiledNode.formula_isSome_iff _).mpr h)
  have hw : Wired ([] : List (NodeEval K)) [] := ⟨rfl, by simp⟩
  have hf : Fresh ([] : List (NodeEval K)) := by simp [Fresh]
  obtain ⟨gs, hw', -, hroot, hatoms⟩ := flatten_wired spec.root hφ hw hf
  refine ⟨gs, ⟨hw', ?_⟩, ?_⟩
  · have := (List.getElem?_eq_some_iff.mp hroot).1
    rw [← hw'.1] at this
    exact this
  · rw [CompiledNode.predicatesBelow_iff n hφ]
    exact hatoms _

omit [LinearOrder K] [HasSqrt K] in
theorem new_all_planned (n : ℕ) {specs : List MonitorAutomaton}
    (h : ∀ spec ∈ specs, spec.root.Checked) :
    ∃ fss, List.Forall₂ Monitor.Planned (specs.map Monitor.new : List (Monitor K)) fss ∧
      (Missing n fss ↔ ¬ ∀ spec ∈ specs, spec.root.PredicatesBelow n) := by
  induction specs with
  | nil => exact ⟨[], .nil, by simp [Missing]⟩
  | cons spec specs ih =>
    obtain ⟨fs, hp, hfs⟩ := new_planned (K := K) (h spec (by simp)) n
    obtain ⟨fss, hps, hfss⟩ := ih fun s hs => h s (by simp [hs])
    refine ⟨fs :: fss, .cons hp hps, ?_⟩
    have hsplit : Missing n (fs :: fss) ↔ (¬ ∀ a, .atom a ∈ fs → a < n) ∨ Missing n fss := by
      simp [Missing]
    rw [hsplit, hfss, ← hfs, List.forall_mem_cons]
    tauto

/-- A new core of a valid model is ready. -/
theorem fromModel_ready {model : CompiledSafetyModel K} (hv : model.Valid) (cfg : CoreConfig K) :
    ∃ fss, (fromModel model cfg).Ready fss ∧ (Missing model.atoms.length fss ↔
      ¬ ∀ m ∈ model.monitors, m.root.PredicatesBelow model.atoms.length) := by
  obtain ⟨fss, hp, hmiss⟩ := new_all_planned (K := K) model.atoms.length hv.monitors
  refine ⟨fss, ⟨hp, fun a ha => (hv.atoms a ha).1, hv.scalarBounds, ?_⟩, hmiss⟩
  intro s hs
  simp only [fromModel] at hs
  split_ifs at hs
  cases hs
  rfl

/-- The outcome of a run: as for one tick, and a lookup panic needs a missing atom. -/
theorem run_outcome {ticks : List (Tick K)} {core : SafetyCore K}
    {fss : List (List (Formula ℕ Window))} (h : core.Ready fss)
    (hlen : ∀ t ∈ ticks, t.1.signals.length = core.model.signals.length) :
    FailsIf .clamp (BadBox core.backup.uMax) (core.run ticks) ∨
      core.run ticks = .error .index ∧ Missing core.model.atoms.length fss := by
  induction ticks generalizing core with
  | nil => exact .inl (failsIf_ok _)
  | cons t ts ih =>
    unfold run
    obtain ⟨hclamp, -, hready⟩ | ⟨herr, hmiss⟩ :=
      tick_outcome h (hlen t (by simp))
    · obtain ⟨⟨core', v⟩, hd⟩ | ⟨herr, hbad⟩ := hclamp
      · obtain ⟨hm, -, -, -, hb, -⟩ := tick_static hd
        have hts := ih (hready core' v hd) (fun t' ht' => by
          rw [hm]
          exact hlen t' (by simp [ht']))
        rw [hm, hb] at hts
        rw [hd]
        obtain ⟨⟨r, hr⟩ | ⟨herr, hbad⟩⟩ | ⟨herr, hmiss⟩ := hts
        · refine .inl (.inl ⟨(r.1, v :: r.2), ?_⟩)
          show (core'.run ts >>= _) = _
          rw [hr]
          rfl
        · refine .inl (.inr ⟨?_, hbad⟩)
          show (core'.run ts >>= _) = _
          rw [herr]
          rfl
        · refine .inr ⟨?_, hmiss⟩
          show (core'.run ts >>= _) = _
          rw [herr]
          rfl
      · rw [herr]
        exact .inl (.inr ⟨rfl, hbad⟩)
    · rw [herr]
      exact .inr ⟨rfl, hmiss⟩

/-- A tick that every model of the core's dimensions lets through to the monitors. -/
def probe (core : SafetyCore K) : SafetyInput K where
  signals := List.replicate core.model.signals.length 0
  position := List.replicate core.dim 0
  velocity := List.replicate core.dim 0
  proposed := .opaqueCommand

omit [LinearOrder K] [HasSqrt K] in
theorem passes_probe (core : SafetyCore K) : core.passes core.probe false = true := by
  simp [passes, probe, goodSignals, goodState, goodCommand, ProposedAction.controlMode,
    Flt.isFinite]

/-- A missing atom makes the probe panic. -/
theorem decide_probe {core : SafetyCore K} {fss : List (List (Formula ℕ Window))}
    (h : core.Ready fss) (hmiss : Missing core.model.atoms.length fss) :
    core.run [(core.probe, .idle)] = .error .index := by
  obtain ⟨-, hno, -⟩ | ⟨herr, -⟩ := tick_outcome h (t := (core.probe, .idle)) (by simp [probe])
  · exact absurd hmiss (hno core.passes_probe)
  · unfold run
    rw [herr]
    rfl

omit [HasSqrt K] in
theorem badBox_tighten [IsStrictOrderedRing K] {limits : ActionLimits K} {u : Flt K}
    (hu : ¬ BadBox u)
    (hl : ∀ x, limits.maxAccelMps2 = some x → ∃ y : K, 0 < y ∧ x = .fin y) :
    ¬ BadBox (tighten u limits.maxAccelMps2) := by
  cases hx : limits.maxAccelMps2 with
  | none => exact hu
  | some x =>
    obtain ⟨y, hy, rfl⟩ := hl x hx
    unfold tighten
    dsimp only
    rw [if_pos ⟨rfl, hy⟩]
    have hyb : ¬ BadBox (Flt.fin y) := by
      unfold BadBox
      rw [not_not, Flt.neg_fin, Flt.fin_le_fin]
      exact (neg_nonpos.mpr hy.le).trans hy.le
    cases u with
    | nan => exact hyb
    | negInf => exact hu
    | posInf => exact hyb
    | fin z =>
      simp only [Flt.min, Flt.fin_lt_fin]
      split_ifs
      · exact hyb
      · exact hu

/-- A valid model whose trees look up declared atoms never panics in a usable box. -/
theorem run_ok [IsStrictOrderedRing K] {model : CompiledSafetyModel K} (hv : model.Valid)
    {cfg : CoreConfig K} (hbox : -cfg.shield.uMax ≤ cfg.shield.uMax)
    (hbelow : ∀ m ∈ model.monitors, m.root.PredicatesBelow model.atoms.length)
    {ticks : List (Tick K)} (hlen : ∀ t ∈ ticks, t.1.signals.length = model.signals.length) :
    ∃ r, (fromModel model cfg).run ticks = .ok r := by
  obtain ⟨fss, hready, hmiss⟩ := fromModel_ready hv cfg
  obtain ⟨hr | ⟨-, hbad⟩⟩ | ⟨-, hm⟩ := run_outcome hready hlen
  · exact hr
  · exact absurd hbad (badBox_tighten (not_not.mpr hbox) fun x hx => hv.limits x (.inr hx))
  · exact absurd hbelow (hmiss.mp hm)

/-- **Main theorem.** No run of an accepted model panics on a predicate lookup, and with a usable
    acceleration box no run panics at all, iff every predicate node of every monitor tree looks up
    a declared atom. -/
theorem run_lookups_in_range_iff [IsStrictOrderedRing K] {p : Proto.CompiledSafetyModel K}
    {model : CompiledSafetyModel K} {cfg : CoreConfig K}
    (h : CompiledSafetyModel.fromProto p cfg.maxHistoryCap = .ok model) :
    ((∀ ticks : List (Tick K), (∀ t ∈ ticks, t.1.signals.length = model.signals.length) →
        (fromModel model cfg).run ticks ≠ .error .index) ↔
      ∀ m ∈ model.monitors, m.root.PredicatesBelow model.atoms.length) ∧
    (-cfg.shield.uMax ≤ cfg.shield.uMax →
      ((∀ ticks : List (Tick K), (∀ t ∈ ticks, t.1.signals.length = model.signals.length) →
          ∃ r, (fromModel model cfg).run ticks = .ok r) ↔
        ∀ m ∈ model.monitors, m.root.PredicatesBelow model.atoms.length)) := by
  have hv := CompiledSafetyModel.fromProto_valid h
  obtain ⟨fss, hready, hmiss⟩ := fromModel_ready hv cfg
  have hprobe : ∀ t ∈ [((fromModel model cfg).probe, Watchdog.idle)],
      t.1.signals.length = model.signals.length := by
    simp [probe, fromModel]
  refine ⟨⟨?_, ?_⟩, fun hbox => ⟨?_, fun hbelow ticks hlen => run_ok hv hbox hbelow hlen⟩⟩
  · intro hno
    by_contra hbad
    exact hno _ hprobe (decide_probe hready (hmiss.mpr hbad))
  · intro hbelow ticks hlen herr
    obtain ⟨⟨r, hr⟩ | ⟨hr, -⟩⟩ | ⟨-, hm⟩ := run_outcome hready hlen
    · rw [hr] at herr
      cases herr
    · rw [hr] at herr
      cases herr
    · exact hmiss.mp hm hbelow
  · intro hno
    by_contra hbad
    obtain ⟨r, hr⟩ := hno _ hprobe
    rw [decide_probe hready (hmiss.mpr hbad)] at hr
    cases hr

/-- A wire model with one signal, one atom and one monitor, whose tree looks up atom `i` and
    whose declared list of predicate indices is `[0]`. -/
def oneMonitorProto (i : ℤ) : Proto.CompiledSafetyModel ℚ where
  compiledVersion := "0.1"
  specId := "s"
  specContentHash := "sha256:x"
  samplePeriodS := .fin 1
  predicateTable := some
    { signals := ["soc"], atoms := [{ op := "ge", signalIndex := 0, threshold := .fin 20 }] }
  scalarBounds := []
  keepOutTerms := []
  monitors := [
    { constraintId := "c", onUncertain := "hold"
      root := some (.mk "always" none (some 0) (some 1) [.mk "predicate" (some i) none none []])
      historyWindowLen := 1, nodeCount := 2, predicateIndices := [0] }]
  resourceBounds := none
  safePose := none
  actionLimits := none
  admissibleDirectives := none

/-- The decoded form of `oneMonitorProto`. -/
def oneMonitorModel (i : ℕ) : CompiledSafetyModel ℚ where
  compiledVersion := "0.1"
  specId := "s"
  specContentHash := "sha256:x"
  samplePeriodS := .fin 1
  signals := ["soc"]
  atoms := [{ op := .ge, signalIndex := 0, threshold := .fin 20 }]
  scalarBounds := []
  keepOutTerms := []
  monitors := [
    { constraintId := "c", onUncertain := .hold
      root := .mk .always none (some 0) (some 1) [.mk .predicate (some i) none none []]
      historyWindowLen := 1, nodeCount := 2, predicateIndices := [0] }]
  resourceBounds := ⟨0, 0, 0, 0, 0, 0⟩
  actionLimits := {}
  spatialDim := none
  safePose := none
  admissibleDirectives := none

theorem run_lookups_in_range_iff_oneMonitor :
    (∀ m ∈ (oneMonitorModel 0).monitors, m.root.PredicatesBelow (oneMonitorModel 0).atoms.length) ∧
      ∀ ticks : List (Tick ℚ), (∀ t ∈ ticks, t.1.signals.length = 1) →
        ∃ r, (fromModel (oneMonitorModel 0) CoreConfig.default).run ticks = .ok r := by
  have hmodel : CompiledSafetyModel.fromProto (oneMonitorProto 0)
      (CoreConfig.default : CoreConfig ℚ).maxHistoryCap = .ok (oneMonitorModel 0) := rfl
  have h := run_lookups_in_range_iff hmodel
  have hbelow : ∀ m ∈ (oneMonitorModel 0).monitors,
      m.root.PredicatesBelow (oneMonitorModel 0).atoms.length := by
    simp [oneMonitorModel, CompiledNode.PredicatesBelow, CompiledNode.AllPredicatesBelow]
  refine ⟨hbelow, (h.2 ?_).mpr hbelow⟩
  decide

/-- The decoder accepts a monitor whose tree looks up atom 7 of a table of one atom, and the first
    tick with one finite signal panics on the lookup. -/
theorem run_lookups_not_always_in_range :
    ¬ ∀ (p : Proto.CompiledSafetyModel ℚ) (model : CompiledSafetyModel ℚ) (cfg : CoreConfig ℚ),
      CompiledSafetyModel.fromProto p cfg.maxHistoryCap = .ok model →
      ∀ ticks : List (Tick ℚ), (∀ t ∈ ticks, t.1.signals.length = model.signals.length) →
        (fromModel model cfg).run ticks ≠ .error .index := by
  intro h
  refine h (oneMonitorProto 7) (oneMonitorModel 7) CoreConfig.default rfl
    [({ signals := [.fin 50], position := [], velocity := [], proposed := .effort [.fin 0] },
      .idle)] ?_ rfl
  simp [oneMonitorModel]

/-! ## Independence of the proposals -/

/-- Two ticks that differ in the proposed action only. -/
structure SameEnvironment (t t' : Tick K) : Prop where
  signals : t'.1.signals = t.1.signals
  position : t'.1.position = t.1.position
  velocity : t'.1.velocity = t.1.velocity
  watchdog : t'.2 = t.2

/-- Whether the environment of a tick lets it through: a watchdog that does not pre-empt the
    decision, good signals and a good state. -/
def goodEnvironment (core : SafetyCore K) (t : Tick K) : Bool :=
  !Decidable.decide (t.2 = .forced) && core.goodSignals t.1 && core.goodState t.1

/-- The monitors after a list of signal samples, one at a time. -/
def feed (core : SafetyCore K) (samples : List (List (Flt K))) : Except Panic (List (Monitor K)) :=
  samples.foldlM (fun ms signals => { core with monitors := ms }.advance signals) core.monitors

/-- The samples of the ticks that satisfy `p`. -/
def samples (p : Tick K → Bool) (ticks : List (Tick K)) : List (List (Flt K)) :=
  (ticks.filter p).map fun t => t.1.signals

omit [Field K] [LinearOrder K] [HasSqrt K] in
theorem reaches_eq (core : SafetyCore K) (t : Tick K) :
    core.reaches t = (core.goodEnvironment t && core.goodCommand t.1) := rfl

omit [Field K] [LinearOrder K] [HasSqrt K] in
theorem SameStatic.reaches {core core' : SafetyCore K} (h : SameStatic core core') :
    core'.reaches = core.reaches := by
  funext t
  unfold SafetyCore.reaches passes goodSignals goodState goodCommand
  rw [h.model, h.dim]

omit [HasSqrt K] in
/-- Feeding depends on the monitors, the predicate table and the configuration only. -/
theorem SameStatic.feed {core core' : SafetyCore K} (h : SameStatic core core')
    (samples : List (List (Flt K))) :
    core'.feed samples = { core with monitors := core'.monitors }.feed samples := by
  unfold SafetyCore.feed
  congr 1
  funext ms signals
  unfold advance predicates
  dsimp only
  rw [h.model, h.cfg]

/-- The monitors after a run are the initial ones fed with the samples of the ticks that reach
    them. -/
theorem monitors_eq_feed {ticks : List (Tick K)} {core core' : SafetyCore K}
    {vs : List (SafetyVerdict K)} (h : core.run ticks = .ok (core', vs)) :
    core.feed (samples core.reaches ticks) = .ok core'.monitors := by
  induction ticks generalizing core vs with
  | nil =>
    cases h
    rfl
  | cons t ts ih =>
    simp only [run, bind_eq_ok] at h
    obtain ⟨⟨core₁, v⟩, hd, ⟨core₂, vs'⟩, hr, h⟩ := h
    cases h
    have hstatic := tick_static hd
    have hts := ih hr
    rw [hstatic.feed, hstatic.reaches] at hts
    unfold samples at hts ⊢
    obtain ⟨hp, a, b, rfl⟩ | ⟨hp, ms, hadv, a, b, rfl⟩ := tick_cases hd
    · rw [List.filter_cons_of_neg (by simp [hp])]
      exact hts
    · rw [List.filter_cons_of_pos hp, List.map_cons]
      unfold feed
      rw [List.foldlM_cons]
      show (core.advance t.1.signals >>= _) = _
      rw [hadv]
      exact hts

omit [Field K] [LinearOrder K] [HasSqrt K] in
theorem SameEnvironment.goodEnvironment {t t' : Tick K} (h : SameEnvironment t t')
    (core : SafetyCore K) : core.goodEnvironment t' = core.goodEnvironment t := by
  unfold SafetyCore.goodEnvironment goodSignals goodState
  rw [h.signals, h.position, h.velocity, h.watchdog]

omit [Field K] [LinearOrder K] [HasSqrt K] in
/-- When every proposal passes the setpoint check, the ticks that reach the monitors are those of
    a good environment. -/
theorem samples_reaches {core : SafetyCore K} {ticks : List (Tick K)}
    (h : ∀ t ∈ ticks, core.goodEnvironment t = true → core.goodCommand t.1 = true) :
    samples core.reaches ticks = samples core.goodEnvironment ticks := by
  unfold samples
  congr 1
  refine List.filter_congr fun t ht => ?_
  rw [reaches_eq]
  cases henv : core.goodEnvironment t with
  | false => rfl
  | true => rw [h t ht henv, Bool.and_self]

omit [Field K] [LinearOrder K] [HasSqrt K] in
/-- Ticks in the same environment have the same samples. -/
theorem samples_goodEnvironment {core : SafetyCore K} {ticks ticks' : List (Tick K)}
    (h : List.Forall₂ SameEnvironment ticks ticks') :
    samples core.goodEnvironment ticks' = samples core.goodEnvironment ticks := by
  unfold samples
  induction h with
  | nil => rfl
  | @cons t t' ts ts' ht _ ih =>
    rw [List.filter_cons, List.filter_cons, ht.goodEnvironment core]
    split_ifs
    · rw [List.map_cons, List.map_cons, ih, ht.signals]
    · exact ih

/-- **Main theorem.** Two runs in the same environment have the same monitors after every tick,
    when every proposal they make in a good environment passes the setpoint check; each monitor
    has then advanced by exactly one sample for every tick of a good environment. -/
theorem monitors_independent_of_proposals {model : CompiledSafetyModel K} {cfg : CoreConfig K}
    {ticks ticks' : List (Tick K)} (henv : List.Forall₂ SameEnvironment ticks ticks')
    (hgood : ∀ t ∈ ticks ++ ticks', (fromModel model cfg).goodEnvironment t = true →
      (fromModel model cfg).goodCommand t.1 = true)
    (n : ℕ) {core core' : SafetyCore K} {vs vs' : List (SafetyVerdict K)}
    (h : (fromModel model cfg).run (ticks.take n) = .ok (core, vs))
    (h' : (fromModel model cfg).run (ticks'.take n) = .ok (core', vs')) :
    core.monitors = core'.monitors ∧
      (fromModel model cfg).feed
        (samples (fromModel model cfg).goodEnvironment (ticks.take n)) = .ok core.monitors := by
  have hm := monitors_eq_feed h
  have hm' := monitors_eq_feed h'
  rw [samples_reaches fun t ht => hgood t (by simp [List.mem_of_mem_take ht])] at hm
  rw [samples_reaches fun t ht => hgood t (by simp [List.mem_of_mem_take ht]),
    samples_goodEnvironment (List.forall₂_take n henv), hm] at hm'
  exact ⟨Except.ok.inj hm', hm⟩

/-- A tick of `oneMonitorModel` that proposes an effort. -/
def effortTick (signal setpoint : Flt ℚ) : Tick ℚ :=
  ({ signals := [signal], position := [], velocity := [], proposed := .effort [setpoint] }, .idle)

theorem oneMonitor_run_ok (ticks : List (Tick ℚ)) (hlen : ∀ t ∈ ticks, t.1.signals.length = 1) :
    ∃ r, (fromModel (oneMonitorModel 0) CoreConfig.default).run ticks = .ok r := by
  have hmodel : CompiledSafetyModel.fromProto (oneMonitorProto 0) 1 = .ok (oneMonitorModel 0) := rfl
  refine run_ok (CompiledSafetyModel.fromProto_valid hmodel) ?_ ?_ hlen
  · decide
  · simp [oneMonitorModel, CompiledNode.PredicatesBelow, CompiledNode.AllPredicatesBelow]

theorem monitors_independent_of_proposals_oneMonitor :
    ∃ core core' vs vs',
      (fromModel (oneMonitorModel 0) CoreConfig.default).run
        [effortTick (.fin 50) (.fin 1)] = .ok (core, vs) ∧
      (fromModel (oneMonitorModel 0) CoreConfig.default).run
        [effortTick (.fin 50) (.fin 2)] = .ok (core', vs') ∧
      core.monitors = core'.monitors := by
  obtain ⟨⟨core, vs⟩, h⟩ := oneMonitor_run_ok [effortTick (.fin 50) (.fin 1)]
    (by simp [effortTick])
  obtain ⟨⟨core', vs'⟩, h'⟩ := oneMonitor_run_ok [effortTick (.fin 50) (.fin 2)]
    (by simp [effortTick])
  have henv : List.Forall₂ SameEnvironment [effortTick (.fin 50) (.fin 1)]
      [effortTick (.fin 50) (.fin 2)] := .cons ⟨rfl, rfl, rfl, rfl⟩ .nil
  exact ⟨core, core', vs, vs', h, h',
    (monitors_independent_of_proposals henv (by decide) 1 h h').1⟩

/-- The last robustness of every monitor after a run. -/
def lastRobustness (core : SafetyCore ℚ) (ticks : List (Tick ℚ)) : List (Option (Flt ℚ)) :=
  match core.run ticks with
  | .ok r => r.1.monitors.map Monitor.prevRoot
  | .error _ => []

/-- A setpoint that is NaN keeps the monitors from advancing: the same environment leaves two
    different monitor states. -/
theorem monitors_depend_on_proposals :
    ¬ ∀ (model : CompiledSafetyModel ℚ) (cfg : CoreConfig ℚ) (ticks ticks' : List (Tick ℚ)),
      List.Forall₂ SameEnvironment ticks ticks' →
      ∀ (core core' : SafetyCore ℚ) (vs vs' : List (SafetyVerdict ℚ)),
        (fromModel model cfg).run ticks = .ok (core, vs) →
        (fromModel model cfg).run ticks' = .ok (core', vs') → core.monitors = core'.monitors := by
  intro hclaim
  obtain ⟨⟨core, vs⟩, h⟩ := oneMonitor_run_ok [effortTick (.fin 50) (.fin 1)]
    (by simp [effortTick])
  obtain ⟨⟨core', vs'⟩, h'⟩ := oneMonitor_run_ok [effortTick (.fin 50) .nan]
    (by simp [effortTick])
  have heq := hclaim _ _ [effortTick (.fin 50) (.fin 1)] [effortTick (.fin 50) .nan]
    (.cons ⟨rfl, rfl, rfl, rfl⟩ .nil) core core' vs vs' h h'
  have hlast : lastRobustness (fromModel (oneMonitorModel 0) CoreConfig.default)
      [effortTick (.fin 50) (.fin 1)] = [some (.fin 30)] := by decide +kernel
  have hlast' : lastRobustness (fromModel (oneMonitorModel 0) CoreConfig.default)
      [effortTick (.fin 50) .nan] = [none] := by decide +kernel
  unfold lastRobustness at hlast hlast'
  rw [h] at hlast
  rw [h'] at hlast'
  dsimp only at hlast hlast'
  rw [heq, hlast'] at hlast
  cases hlast

end SafetyCore

end Tick

end AstroMine.Guard
