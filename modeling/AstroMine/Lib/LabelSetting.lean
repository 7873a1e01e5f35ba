import Mathlib.Data.Prod.Lex
import Mathlib.Data.Finset.Card
import AstroMine.Lib.Dict

/-!
# Label-setting search in a network whose edges take time

A traveller moves along edges; an edge taken at time `t` arrives at `hop e t`, if it can be taken at
all. The search keeps the best known arrival of each node, the node it came from, and a heap of
pending arrivals; it pops the earliest one, skips it when a better one is known, stops at the
destination, and otherwise relaxes the node's edges.

The edges only have to arrive no earlier than they start. When they also never overtake (a later
start arrives no earlier), the label of the destination is its earliest arrival.

Results:
* `search_returns`: the search ends.
* `Final.travels`: the label of the destination is the arrival of the path the predecessors tell.
* `Final.earliest`: without overtaking, no journey arrives earlier.
* `search_congr`: networks that agree on the hops at first arrivals have the same search.
-/

namespace AstroMine

variable {N T E : Type}

/-! ## Networks and journeys -/

/-- A network: the edges at a node, where an edge leads from it, and when it arrives. -/
structure TimedNet (N T E : Type) where
  edges : N → List E
  head : N → E → N
  hop : E → T → Option T

namespace TimedNet

variable (net : TimedNet N T E)

/-- A journey from `s` at `t₀`: the node and the time it gets to, and the nodes it visits. -/
inductive Travels (s : N) (t₀ : T) : N → T → List N → Prop
  | start : Travels s t₀ s t₀ [s]
  | hop {u t p e t'} : Travels s t₀ u t p → e ∈ net.edges u → net.hop e t = some t' →
      Travels s t₀ (net.head u e) t' (p ++ [net.head u e])

/-- No edge arrives before it starts. -/
def Causal [LE T] : Prop :=
  ∀ u, ∀ e ∈ net.edges u, ∀ t t', net.hop e t = some t' → t ≤ t'

variable {net} in
/-- Without an edge that arrives before it starts, neither does a journey. -/
theorem Travels.start_le [Preorder T] (hcausal : net.Causal) {s v : N} {t₀ t : T} {p : List N}
    (h : net.Travels s t₀ v t p) : t₀ ≤ t := by
  induction h with
  | start => exact le_rfl
  | hop _ he hop ih => exact ih.trans (hcausal _ _ he _ _ hop)

/-- An edge that can be taken at `t` can be taken, or could have been taken, earlier, and then
arrives no later. -/
def NoOvertaking [LE T] : Prop :=
  ∀ e t t₁ t', t₁ ≤ t → net.hop e t = some t' → ∃ t₁', net.hop e t₁ = some t₁' ∧ t₁' ≤ t'

end TimedNet

/-! ## The search -/

/-- The maps and the heap of the search. -/
structure SearchState (N T : Type) where
  best : Dict N T
  prev : Dict N N
  heap : List (T × N)

section Heap

variable [LinearOrder T] [LinearOrder N]

/-- The least pair of a list, first by time and then by node, with a first candidate. -/
def leastEntry (x : T × N) (xs : List (T × N)) : T × N :=
  xs.foldl (fun m y => if toLex y < toLex m then y else m) x

/-- The least pair of a heap, and the heap without it. -/
def popLeast : List (T × N) → Option ((T × N) × List (T × N))
  | [] => none
  | x :: xs => some (leastEntry x xs, (x :: xs).erase (leastEntry x xs))

theorem leastEntry_mem (x : T × N) (xs : List (T × N)) : leastEntry x xs ∈ x :: xs := by
  induction xs generalizing x with
  | nil => simp [leastEntry]
  | cons y ys ih =>
    rw [leastEntry, List.foldl_cons]
    split_ifs
    · exact List.mem_cons_of_mem _ (ih y)
    · rcases List.mem_cons.mp (ih x) with h | h
      · rw [leastEntry] at h
        rw [h]
        exact List.mem_cons_self
      · exact List.mem_cons_of_mem _ (List.mem_cons_of_mem _ h)

theorem leastEntry_le (x : T × N) (xs : List (T × N)) :
    ∀ y ∈ x :: xs, toLex (leastEntry x xs) ≤ toLex y := by
  induction xs generalizing x with
  | nil => simp [leastEntry]
  | cons z zs ih =>
    rw [leastEntry, List.foldl_cons]
    split_ifs with hlt
    · intro y hy
      rcases List.mem_cons.mp hy with rfl | hy
      · exact (ih z z List.mem_cons_self).trans hlt.le
      · exact ih z y hy
    · intro y hy
      rcases List.mem_cons.mp hy with rfl | hy
      · exact ih y y List.mem_cons_self
      · rcases List.mem_cons.mp hy with rfl | hy
        · exact (ih x x List.mem_cons_self).trans (not_lt.mp hlt)
        · exact ih x y (List.mem_cons_of_mem _ hy)

theorem popLeast_eq_none {h : List (T × N)} : popLeast h = none ↔ h = [] := by
  cases h <;> simp [popLeast]

theorem popLeast_eq_some {h rest : List (T × N)} {m : T × N} (hp : popLeast h = some (m, rest)) :
    m ∈ h ∧ (∀ y ∈ h, m.1 ≤ y.1) ∧ rest = h.erase m := by
  cases h with
  | nil => cases hp
  | cons x xs =>
    obtain ⟨rfl, rfl⟩ := Prod.mk.inj (Option.some.inj hp)
    refine ⟨leastEntry_mem x xs, fun y hy => ?_, rfl⟩
    exact Prod.Lex.monotone_fst _ _ (leastEntry_le x xs y hy)

end Heap

section Search

variable [LinearOrder T] [LinearOrder N]

/-- One edge of the loop over the edges of `u`, reached at `t`. -/
def relaxEdge (net : TimedNet N T E) (u : N) (t : T) (st : SearchState N T) (e : E) :
    SearchState N T :=
  match net.hop e t with
  | none => st
  | some arrival =>
    let v := net.head u e
    if (st.best.get? v).all (fun b => arrival < b) then
      { best := st.best.set v arrival
        prev := st.prev.set v u
        heap := st.heap ++ [(arrival, v)] }
    else st

/-- The loop of the search, with at most `fuel` passes. -/
def search (net : TimedNet N T E) (dest : N) : ℕ → SearchState N T → Option (SearchState N T)
  | 0, _ => none
  | fuel + 1, st =>
    match popLeast st.heap with
    | none => some st
    | some ((t, u), rest) =>
      if (st.best.get? u).any (fun b => b < t) then search net dest fuel { st with heap := rest }
      else if u = dest then some { st with heap := rest }
      else search net dest fuel
        ((net.edges u).foldl (relaxEdge net u t) { st with heap := rest })

/-- The state the search starts from. -/
def searchStart (s : N) (t₀ : T) : SearchState N T where
  best := Dict.empty.set s t₀
  prev := .empty
  heap := [(t₀, s)]

/-- The nodes from the source to a node, read backwards off the predecessors. -/
def predPath (prev : Dict N N) (s : N) : ℕ → N → Option (List N)
  | 0, _ => none
  | fuel + 1, v =>
    if v = s then some [s]
    else (prev.get? v).bind fun u => (predPath prev s fuel u).map fun p => p ++ [v]

/-! ## The path the predecessors tell -/

/-- The predecessors lead from `v` back to `s`, over the nodes of `p` in reverse. -/
inductive PredPath (prev : Dict N N) (s : N) : N → List N → Prop
  | start : PredPath prev s s [s]
  | step {u v p} : v ≠ s → prev.get? v = some u → PredPath prev s u p → PredPath prev s v (p ++ [v])

theorem predPath_of_predPath {prev : Dict N N} {s v : N} {p : List N} (h : PredPath prev s v p) :
    ∀ fuel, p.length ≤ fuel → predPath prev s fuel v = some p := by
  induction h with
  | start =>
    intro fuel hf
    obtain ⟨n, rfl⟩ : ∃ n, fuel = n + 1 := ⟨fuel - 1, by simp at hf; omega⟩
    rw [predPath, if_pos rfl]
  | @step u v p hne hprev _ ih =>
    intro fuel hf
    rw [List.length_append, List.length_singleton] at hf
    obtain ⟨n, rfl⟩ : ∃ n, fuel = n + 1 := ⟨fuel - 1, by omega⟩
    rw [predPath, if_neg hne, hprev, Option.bind_some, ih n (by omega), Option.map_some]

/-- A write at a node off the path changes nothing. -/
theorem PredPath.set {prev : Dict N N} {s v : N} {p : List N} (h : PredPath prev s v p) {w u : N}
    (hw : w ∉ p) : PredPath (prev.set w u) s v p := by
  induction h with
  | start => exact .start
  | @step u' v p hne hprev hp ih =>
    rw [List.mem_append, not_or, List.mem_singleton] at hw
    refine .step hne ?_ (ih hw.1)
    rw [Dict.get?_set, if_neg (Ne.symm hw.2)]
    exact hprev

/-! ## The invariant -/

variable {net : TimedNet N T E} {s : N} {t₀ : T}

/-- The state between two pops, or between two edges of a node: `done` are the expanded nodes, `rel`
the edges relaxed so far, `now` the time of the last pop. -/
structure SearchInv (net : TimedNet N T E) (s : N) (t₀ : T) (done : Finset N) (rel : N → E → Prop)
    (now : T) (st : SearchState N T) : Prop where
  source : st.best.get? s = some t₀
  start_le : t₀ ≤ now
  path : ∀ v b, st.best.get? v = some b → ∃ p, PredPath st.prev s v p ∧
    net.Travels s t₀ v b p ∧ ∀ x ∈ p, x ≠ v → x ∈ done
  heap_best : ∀ t v, (t, v) ∈ st.heap → ∃ b, st.best.get? v = some b ∧ b ≤ t
  heap_nodup : st.heap.Nodup
  pending : ∀ v b, st.best.get? v = some b → v ∉ done → (b, v) ∈ st.heap
  settled : ∀ u ∈ done, ∃ b, st.best.get? u = some b ∧ b ≤ now ∧ ∀ t, (t, u) ∈ st.heap → b < t
  now_le : ∀ t v, (t, v) ∈ st.heap → now ≤ t
  relaxed : ∀ u ∈ done, ∀ t, st.best.get? u = some t → ∀ e ∈ net.edges u, rel u e →
    ∀ t', net.hop e t = some t' → ∃ b, st.best.get? (net.head u e) = some b ∧ b ≤ t'

theorem searchInv_start (net : TimedNet N T E) (s : N) (t₀ : T) :
    SearchInv net s t₀ ∅ (fun _ _ => True) t₀ (searchStart s t₀) := by
  have hbest : ∀ v b, (searchStart s t₀).best.get? v = some b → v = s ∧ b = t₀ := by
    intro v b hv
    rw [searchStart, Dict.get?_set] at hv
    split_ifs at hv with hvs
    · exact ⟨hvs, (Option.some.inj hv).symm⟩
    · simp at hv
  have hs : (searchStart s t₀).best.get? s = some t₀ := by
    rw [searchStart, Dict.get?_set, if_pos rfl]
  refine ⟨hs, le_rfl, ?_, ?_, List.nodup_singleton _, ?_, by simp, ?_, by simp⟩
  · intro v b hv
    obtain ⟨rfl, rfl⟩ := hbest v b hv
    exact ⟨[v], .start, .start, by simp⟩
  · intro t v hm
    obtain ⟨rfl, rfl⟩ := Prod.mk.inj (List.mem_singleton.mp hm)
    exact ⟨t, hs, le_rfl⟩
  · intro v b hv _
    obtain ⟨rfl, rfl⟩ := hbest v b hv
    exact List.mem_singleton.mpr rfl
  · intro t v hm
    obtain ⟨rfl, -⟩ := Prod.mk.inj (List.mem_singleton.mp hm)
    exact le_rfl

/-! ## Relaxing -/

section Relax

variable {done : Finset N} {rel : N → E → Prop} {now arrival : T} {st : SearchState N T} {u v : N}
  {e : E}

/-- An edge counts as relaxed once its head is labelled in time. -/
theorem SearchInv.addEdge (h : SearchInv net s t₀ done rel now st)
    (hbu : st.best.get? u = some now) (hhead : ∀ t', net.hop e now = some t' →
      ∃ b, st.best.get? (net.head u e) = some b ∧ b ≤ t') :
    SearchInv net s t₀ done (fun w f => rel w f ∨ w = u ∧ f = e) now st := by
  refine { h with relaxed := ?_ }
  rintro w hw t hbw f hf (hrel | ⟨rfl, rfl⟩) t' ht'
  · exact h.relaxed w hw t hbw f hf hrel t' ht'
  · obtain rfl := Option.some.inj (hbu.symm.trans hbw)
    exact hhead t' ht'

/-- No label of an expanded node is improved, -/
theorem SearchInv.notMem_of_improves (h : SearchInv net s t₀ done rel now st)
    (hle : now ≤ arrival) (hlt : ∀ b, st.best.get? v = some b → arrival < b) : v ∉ done := by
  intro hv
  obtain ⟨b, hb, hbn, -⟩ := h.settled v hv
  exact absurd (hlt b hb) (not_lt.mpr (hbn.trans hle))

/-- nor is that of the source. -/
theorem SearchInv.ne_of_improves (h : SearchInv net s t₀ done rel now st) (hle : now ≤ arrival)
    (hlt : ∀ b, st.best.get? v = some b → arrival < b) : v ≠ s := by
  rintro rfl
  exact absurd (hlt t₀ h.source) (not_lt.mpr (h.start_le.trans hle))

/-- The improved node is reached over the node expanded last, and every other node as before. -/
theorem SearchInv.path_improve (h : SearchInv net s t₀ done rel now st) (hu : u ∈ done)
    (hbu : st.best.get? u = some now) (he : e ∈ net.edges u) (hop : net.hop e now = some arrival)
    (hv : net.head u e ∉ done) (hvs : net.head u e ≠ s) {w : N} {b : T}
    (hw : (st.best.set (net.head u e) arrival).get? w = some b) :
    ∃ p, PredPath (st.prev.set (net.head u e) u) s w p ∧ net.Travels s t₀ w b p ∧
      ∀ x ∈ p, x ≠ w → x ∈ done := by
  rw [Dict.get?_set] at hw
  split_ifs at hw with hwv
  · subst hwv
    obtain rfl := Option.some.inj hw
    obtain ⟨p, hp, htr, hdone⟩ := h.path u now hbu
    have hpdone : ∀ x ∈ p, x ∈ done := fun x hx => by
      by_cases hxu : x = u
      · exact hxu ▸ hu
      · exact hdone x hx hxu
    refine ⟨p ++ [net.head u e], .step hvs ?_ (hp.set fun hm => hv (hpdone _ hm)),
      .hop htr he hop, fun x hx hxv => ?_⟩
    · rw [Dict.get?_set, if_pos rfl]
    · rcases List.mem_append.mp hx with hx | hx
      · exact hpdone x hx
      · exact absurd (List.mem_singleton.mp hx) hxv
  · obtain ⟨p, hp, htr, hdone⟩ := h.path w b hw
    exact ⟨p, hp.set fun hm => hv (hdone _ hm (Ne.symm hwv)), htr, hdone⟩

/-- A better label for the head of an edge keeps the invariant. -/
theorem SearchInv.improve (h : SearchInv net s t₀ done rel now st) (hu : u ∈ done)
    (hbu : st.best.get? u = some now) (he : e ∈ net.edges u) (hop : net.hop e now = some arrival)
    (hle : now ≤ arrival) (hlt : ∀ b, st.best.get? (net.head u e) = some b → arrival < b) :
    SearchInv net s t₀ done rel now
      { best := st.best.set (net.head u e) arrival
        prev := st.prev.set (net.head u e) u
        heap := st.heap ++ [(arrival, net.head u e)] } := by
  have hv : net.head u e ∉ done := h.notMem_of_improves hle hlt
  have hvs : net.head u e ≠ s := h.ne_of_improves hle hlt
  have hself : (st.best.set (net.head u e) arrival).get? (net.head u e) = some arrival := by
    rw [Dict.get?_set, if_pos rfl]
  have hother : ∀ {w}, w ≠ net.head u e →
      (st.best.set (net.head u e) arrival).get? w = st.best.get? w := fun hw => by
    rw [Dict.get?_set, if_neg hw]
  have hexpanded : ∀ w ∈ done, w ≠ net.head u e := fun w hw heq => hv (heq ▸ hw)
  have hold : ∀ t, (t, net.head u e) ∈ st.heap → arrival < t := by
    intro t hm
    obtain ⟨b, hb, hbt⟩ := h.heap_best t _ hm
    exact (hlt b hb).trans_le hbt
  refine ⟨?_, h.start_le, fun w b => h.path_improve hu hbu he hop hv hvs, ?_, ?_, ?_, ?_, ?_, ?_⟩
  · rw [hother (Ne.symm hvs)]
    exact h.source
  · intro t w hm
    rcases List.mem_append.mp hm with hm | hm
    · by_cases hwv : w = net.head u e
      · subst hwv
        exact ⟨arrival, hself, (hold t hm).le⟩
      · rw [hother hwv]
        exact h.heap_best t w hm
    · obtain ⟨rfl, rfl⟩ := Prod.mk.inj (List.mem_singleton.mp hm)
      exact ⟨t, hself, le_rfl⟩
  · refine List.nodup_append.mpr ⟨h.heap_nodup, List.nodup_singleton _, ?_⟩
    intro a ha b hb hab
    rw [List.mem_singleton.mp hb] at hab
    rw [hab] at ha
    exact lt_irrefl _ (hold _ ha)
  · intro w b hw hwd
    by_cases hwv : w = net.head u e
    · subst hwv
      obtain rfl := Option.some.inj (hself.symm.trans hw)
      exact List.mem_append_right _ (List.mem_singleton.mpr rfl)
    · rw [hother hwv] at hw
      exact List.mem_append_left _ (h.pending w b hw hwd)
  · intro w hw
    obtain ⟨b, hb, hbn, hheap⟩ := h.settled w hw
    refine ⟨b, by rw [hother (hexpanded w hw)]; exact hb, hbn, fun t hm => ?_⟩
    rcases List.mem_append.mp hm with hm | hm
    · exact hheap t hm
    · exact absurd (Prod.mk.inj (List.mem_singleton.mp hm)).2 (hexpanded w hw)
  · intro t w hm
    rcases List.mem_append.mp hm with hm | hm
    · exact h.now_le t w hm
    · obtain ⟨rfl, -⟩ := Prod.mk.inj (List.mem_singleton.mp hm)
      exact hle
  · intro w hw t hbw f hf hrel t' ht'
    rw [hother (hexpanded w hw)] at hbw
    obtain ⟨b, hb, hbt⟩ := h.relaxed w hw t hbw f hf hrel t' ht'
    by_cases hfv : net.head w f = net.head u e
    · rw [hfv] at hb ⊢
      exact ⟨arrival, hself, (hlt b hb).le.trans hbt⟩
    · exact ⟨b, by rw [hother hfv]; exact hb, hbt⟩

/-- Relaxing one edge of the node expanded last. -/
theorem SearchInv.relaxEdge (hcausal : net.Causal) (h : SearchInv net s t₀ done rel now st)
    (hu : u ∈ done) (hbu : st.best.get? u = some now) (he : e ∈ net.edges u) :
    SearchInv net s t₀ done (fun w f => rel w f ∨ w = u ∧ f = e) now (relaxEdge net u now st e) ∧
      (AstroMine.relaxEdge net u now st e).best.get? u = some now := by
  rw [AstroMine.relaxEdge]
  cases hop : net.hop e now with
  | none =>
    refine ⟨h.addEdge hbu fun t' ht' => ?_, hbu⟩
    rw [hop] at ht'
    cases ht'
  | some arrival =>
    have hle : now ≤ arrival := hcausal u e he now arrival hop
    have harrival : ∀ t', net.hop e now = some t' → arrival = t' :=
      fun t' ht' => Option.some.inj (hop.symm.trans ht')
    simp only
    split_ifs with hall
    · have hlt : ∀ b, st.best.get? (net.head u e) = some b → arrival < b := by
        intro b hb
        rw [hb, Option.all_some, decide_eq_true_eq] at hall
        exact hall
      have hne : u ≠ net.head u e := fun heq => h.notMem_of_improves hle hlt (heq ▸ hu)
      have hbu' : (st.best.set (net.head u e) arrival).get? u = some now := by
        rw [Dict.get?_set, if_neg hne]
        exact hbu
      refine ⟨(h.improve hu hbu he hop hle hlt).addEdge hbu' fun t' ht' => ?_, hbu'⟩
      obtain rfl := harrival t' ht'
      exact ⟨arrival, by rw [Dict.get?_set, if_pos rfl], le_rfl⟩
    · refine ⟨h.addEdge hbu fun t' ht' => ?_, hbu⟩
      obtain rfl := harrival t' ht'
      cases hb : st.best.get? (net.head u e) with
      | none => simp [hb] at hall
      | some b =>
        rw [hb, Option.all_some, decide_eq_true_eq] at hall
        exact ⟨b, rfl, not_lt.mp hall⟩

end Relax

/-- Relaxing edges of the node expanded last, one after the other. -/
theorem SearchInv.foldl_relaxEdge (hcausal : net.Causal) {done : Finset N} {now : T} {u : N}
    (hu : u ∈ done) (es : List E) (hes : ∀ e ∈ es, e ∈ net.edges u) {rel : N → E → Prop}
    {st : SearchState N T} (h : SearchInv net s t₀ done rel now st)
    (hbu : st.best.get? u = some now) :
    SearchInv net s t₀ done (fun w f => rel w f ∨ w = u ∧ f ∈ es) now
      (es.foldl (AstroMine.relaxEdge net u now) st) := by
  induction es generalizing rel st with
  | nil =>
    refine { h with relaxed := ?_ }
    rintro w hw t hbw f hf (hrel | ⟨-, hf'⟩)
    · exact h.relaxed w hw t hbw f hf hrel
    · cases hf'
  | cons e es ih =>
    obtain ⟨h₁, hbu₁⟩ := h.relaxEdge hcausal hu hbu (hes e (by simp))
    have h₂ := ih (fun f hf => hes f (List.mem_cons_of_mem _ hf)) h₁ hbu₁
    refine { h₂ with relaxed := ?_ }
    rintro w hw t hbw f hf (hrel | ⟨hwu, hf'⟩)
    · exact h₂.relaxed w hw t hbw f hf (Or.inl (Or.inl hrel))
    · rcases List.mem_cons.mp hf' with hfe | hf'
      · exact h₂.relaxed w hw t hbw f hf (Or.inl (Or.inr ⟨hwu, hfe⟩))
      · exact h₂.relaxed w hw t hbw f hf (Or.inr ⟨hwu, hf'⟩)

/-! ## Popping -/

section Pop

variable {done : Finset N} {now : T} {st : SearchState N T} {t : T} {u : N} {rest : List (T × N)}

/-- An entry other than the popped one is still there. -/
theorem mem_rest {heap : List (T × N)} (hp : popLeast heap = some ((t, u), rest)) {e : T × N}
    (he : e ∈ heap) (hne : e ≠ (t, u)) : e ∈ rest := by
  obtain ⟨-, -, rfl⟩ := popLeast_eq_some hp
  exact (List.mem_erase_of_ne hne).mpr he

theorem mem_of_mem_rest {heap : List (T × N)} (hp : popLeast heap = some ((t, u), rest))
    {e : T × N} (he : e ∈ rest) : e ∈ heap := by
  obtain ⟨-, -, rfl⟩ := popLeast_eq_some hp
  exact List.mem_of_mem_erase he

/-- A popped entry with a better label is dropped. -/
theorem SearchInv.pop_stale (h : SearchInv net s t₀ done (fun _ _ => True) now st)
    (hp : popLeast st.heap = some ((t, u), rest)) {b : T} (hb : st.best.get? u = some b)
    (hlt : b < t) : SearchInv net s t₀ done (fun _ _ => True) now { st with heap := rest } where
  source := h.source
  start_le := h.start_le
  path := h.path
  heap_best t' v hm := h.heap_best t' v (mem_of_mem_rest hp hm)
  heap_nodup := by
    obtain ⟨-, -, rfl⟩ := popLeast_eq_some hp
    exact h.heap_nodup.erase _
  pending v b' hv hvd := by
    refine mem_rest hp (h.pending v b' hv hvd) ?_
    rintro heq
    obtain ⟨rfl, rfl⟩ := Prod.mk.inj heq
    obtain rfl := Option.some.inj (hb.symm.trans hv)
    exact lt_irrefl _ hlt
  settled w hw := by
    obtain ⟨b', hb', hbn, hheap⟩ := h.settled w hw
    exact ⟨b', hb', hbn, fun t' hm => hheap t' (mem_of_mem_rest hp hm)⟩
  now_le t' v hm := h.now_le t' v (mem_of_mem_rest hp hm)
  relaxed := h.relaxed

/-- A popped entry that is not stale carries its node's label, and the node is not expanded. -/
theorem SearchInv.pop_fresh (h : SearchInv net s t₀ done (fun _ _ => True) now st)
    (hp : popLeast st.heap = some ((t, u), rest))
    (hfresh : ¬ (st.best.get? u).any (fun b => b < t) = true) :
    st.best.get? u = some t ∧ u ∉ done := by
  have hm := (popLeast_eq_some hp).1
  obtain ⟨b, hb, hbt⟩ := h.heap_best t u hm
  have hlabel : st.best.get? u = some t := by
    rw [hb, Option.any_some, decide_eq_true_eq] at hfresh
    rw [hb, le_antisymm hbt (not_lt.mp hfresh)]
  refine ⟨hlabel, fun hu => ?_⟩
  obtain ⟨b', hb', -, hheap⟩ := h.settled u hu
  obtain rfl := Option.some.inj (hlabel.symm.trans hb')
  exact lt_irrefl _ (hheap t hm)

/-- A popped entry that is not stale: its node counts as expanded, its edges not yet relaxed. -/
theorem SearchInv.pop_expand (h : SearchInv net s t₀ done (fun _ _ => True) now st)
    (hp : popLeast st.heap = some ((t, u), rest)) (hbu : st.best.get? u = some t) :
    SearchInv net s t₀ (insert u done) (fun w _ => w ≠ u) t { st with heap := rest } := by
  obtain ⟨hm, hleast, hrest⟩ := popLeast_eq_some hp
  have hnow : now ≤ t := h.now_le t u hm
  refine ⟨h.source, h.start_le.trans hnow, ?_, fun t' v hv => h.heap_best t' v
    (mem_of_mem_rest hp hv), ?_, ?_, ?_, fun t' v hv => hleast _ (mem_of_mem_rest hp hv), ?_⟩
  · intro v b hv
    obtain ⟨p, hpath, htr, hdone⟩ := h.path v b hv
    exact ⟨p, hpath, htr, fun x hx hxv => Finset.mem_insert_of_mem (hdone x hx hxv)⟩
  · show rest.Nodup
    rw [hrest]
    exact h.heap_nodup.erase _
  · intro v b hv hvd
    rw [Finset.mem_insert, not_or] at hvd
    refine mem_rest hp (h.pending v b hv hvd.2) ?_
    rintro heq
    exact hvd.1 (Prod.mk.inj heq).2
  · intro w hw
    rcases Finset.mem_insert.mp hw with rfl | hw
    · refine ⟨t, hbu, le_rfl, fun t' hm' => lt_of_le_of_ne (hleast _ (mem_of_mem_rest hp hm')) ?_⟩
      rintro rfl
      have hm'' : (t, w) ∈ rest := hm'
      rw [hrest] at hm''
      exact h.heap_nodup.not_mem_erase hm''
    · obtain ⟨b, hb, hbn, hheap⟩ := h.settled w hw
      exact ⟨b, hb, hbn.trans hnow, fun t' hm' => hheap t' (mem_of_mem_rest hp hm')⟩
  · intro w hw t' hbw f hf hne
    exact h.relaxed w (Finset.mem_of_mem_insert_of_ne hw hne) t' hbw f hf trivial

/-- One expansion of the search. -/
theorem SearchInv.expand (hcausal : net.Causal)
    (h : SearchInv net s t₀ done (fun _ _ => True) now st)
    (hp : popLeast st.heap = some ((t, u), rest)) (hbu : st.best.get? u = some t) :
    SearchInv net s t₀ (insert u done) (fun _ _ => True) t
      ((net.edges u).foldl (AstroMine.relaxEdge net u t) { st with heap := rest }) := by
  have h₁ := (h.pop_expand hp hbu).foldl_relaxEdge hcausal (Finset.mem_insert_self u done)
    (net.edges u) (fun _ he => he) hbu
  refine { h₁ with relaxed := ?_ }
  intro w hw t' hbw f hf _
  by_cases hwu : w = u
  · exact h₁.relaxed w hw t' hbw f hf (Or.inr ⟨hwu, hwu ▸ hf⟩)
  · exact h₁.relaxed w hw t' hbw f hf (Or.inl hwu)

end Pop

/-! ## The search ends -/

/-- How the search ends: the heap is empty and the destination was never reached, or the
destination was popped with its label. -/
inductive Final (net : TimedNet N T E) (s : N) (t₀ : T) (dest : N) (st : SearchState N T) : Prop
  | exhausted (done : Finset N) (now : T) (inv : SearchInv net s t₀ done (fun _ _ => True) now st)
      (heap : st.heap = []) (dest_done : dest ∉ done)
  | popped (done : Finset N) (now t : T) (heap : List (T × N))
      (inv : SearchInv net s t₀ done (fun _ _ => True) now { st with heap := heap })
      (label : st.best.get? dest = some t) (least : ∀ t' v, (t', v) ∈ heap → t ≤ t')
      (dest_done : dest ∉ done)

omit [LinearOrder T] [LinearOrder N] in
theorem travels_mem {V : Finset N} (hs : s ∈ V)
    (hV : ∀ u ∈ V, ∀ e ∈ net.edges u, net.head u e ∈ V) {v : N} {t : T} {p : List N}
    (h : net.Travels s t₀ v t p) : v ∈ V := by
  induction h with
  | start => exact hs
  | hop _ he _ ih => exact hV _ ih _ he

theorem search_of_inv (hcausal : net.Causal) {dest : N} {V : Finset N} (hs : s ∈ V)
    (hV : ∀ u ∈ V, ∀ e ∈ net.edges u, net.head u e ∈ V) :
    ∀ (k len : ℕ) (done : Finset N) (now : T) (st : SearchState N T), (V \ done).card = k →
      st.heap.length = len → SearchInv net s t₀ done (fun _ _ => True) now st → dest ∉ done →
      ∃ fuel₀ st', (∀ fuel, fuel₀ ≤ fuel → search net dest fuel st = some st') ∧
        Final net s t₀ dest st' := by
  intro k
  induction k using Nat.strong_induction_on with
  | h k ihk =>
    intro len
    induction len with
    | zero =>
      intro done now st _ hlen h hd
      have hnil := List.length_eq_zero_iff.mp hlen
      refine ⟨1, st, fun fuel hf => ?_, .exhausted done now h hnil hd⟩
      obtain ⟨n, rfl⟩ : ∃ n, fuel = n + 1 := ⟨fuel - 1, by omega⟩
      rw [search, hnil]
      rfl
    | succ len ihlen =>
      intro done now st hk hlen h hd
      cases hp : popLeast st.heap with
      | none =>
        rw [popLeast_eq_none.1 hp] at hlen
        cases hlen
      | some q =>
        obtain ⟨⟨t, u⟩, rest⟩ := q
        obtain ⟨hm, hleast, hrest⟩ := popLeast_eq_some hp
        by_cases hstale : (st.best.get? u).any (fun b => b < t) = true
        · -- a stale entry: the heap shrinks
          obtain ⟨b, hb, hlt⟩ := (Option.any_eq_true _ _).mp hstale
          have hlen' : rest.length = len := by
            rw [hrest, List.length_erase_of_mem hm, hlen]
            rfl
          obtain ⟨fuel₀, st', hrun, hfin⟩ := ihlen done now { st with heap := rest } hk hlen'
            (h.pop_stale hp hb (of_decide_eq_true hlt)) hd
          refine ⟨fuel₀ + 1, st', fun fuel hf => ?_, hfin⟩
          obtain ⟨n, rfl⟩ : ∃ n, fuel = n + 1 := ⟨fuel - 1, by omega⟩
          rw [search, hp]
          simp only [if_pos hstale]
          exact hrun n (by omega)
        · obtain ⟨hbu, hud⟩ := h.pop_fresh hp hstale
          by_cases hdest : u = dest
          · subst hdest
            refine ⟨1, { st with heap := rest }, fun fuel hf => ?_,
              .popped done now t st.heap h hbu (fun t' v hm' => hleast _ hm') hd⟩
            obtain ⟨n, rfl⟩ : ∃ n, fuel = n + 1 := ⟨fuel - 1, by omega⟩
            rw [search, hp]
            simp only [if_neg hstale, if_pos]
          · -- an expansion: one node fewer to expand
            have hinv := h.expand hcausal hp hbu
            obtain ⟨p, -, htr, -⟩ := h.path u t hbu
            have hlt : (V \ insert u done).card < k := by
              rw [← hk]
              apply Finset.card_lt_card
              refine ⟨Finset.sdiff_subset_sdiff le_rfl (Finset.subset_insert u done), ?_⟩
              intro hsub
              have hu := hsub (Finset.mem_sdiff.mpr ⟨travels_mem hs hV htr, hud⟩)
              exact (Finset.mem_sdiff.mp hu).2 (Finset.mem_insert_self u done)
            have hd' : dest ∉ insert u done := by
              rw [Finset.mem_insert, not_or]
              exact ⟨fun heq => hdest heq.symm, hd⟩
            obtain ⟨fuel₀, st', hrun, hfin⟩ := ihk _ hlt _ (insert u done) t _ rfl rfl hinv hd'
            refine ⟨fuel₀ + 1, st', fun fuel hf => ?_, hfin⟩
            obtain ⟨n, rfl⟩ : ∃ n, fuel = n + 1 := ⟨fuel - 1, by omega⟩
            rw [search, hp]
            simp only [if_neg hstale, if_neg hdest]
            exact hrun n (by omega)

/-- The search ends when a finite set of nodes holds the source and is closed under the edges. -/
theorem search_returns (hcausal : net.Causal) (dest : N) {V : Finset N} (hs : s ∈ V)
    (hV : ∀ u ∈ V, ∀ e ∈ net.edges u, net.head u e ∈ V) :
    ∃ fuel₀ st, (∀ fuel, fuel₀ ≤ fuel → search net dest fuel (searchStart s t₀) = some st) ∧
      Final net s t₀ dest st :=
  search_of_inv hcausal hs hV _ _ ∅ t₀ _ rfl rfl (searchInv_start net s t₀) (by simp)

/-! ## What the end says -/

/-- The label of the destination is the arrival of the journey the predecessors tell. -/
theorem Final.travels {dest : N} {st : SearchState N T} (h : Final net s t₀ dest st) {t : T}
    (ht : st.best.get? dest = some t) :
    ∃ p, PredPath st.prev s dest p ∧ net.Travels s t₀ dest t p := by
  cases h with
  | exhausted done now inv heap dest_done =>
    obtain ⟨p, hp, htr, -⟩ := inv.path dest t ht
    exact ⟨p, hp, htr⟩
  | popped done now t' heap inv label least dest_done =>
    obtain ⟨p, hp, htr, -⟩ := inv.path dest t ht
    exact ⟨p, hp, htr⟩

/-- Without overtaking, a journey arrives no earlier than anything on the heap, or ends at an
expanded node with a label no later. -/
theorem SearchInv.le_or_done (hfifo : net.NoOvertaking) (hcausal : net.Causal) {done : Finset N}
    {now : T} {st : SearchState N T} (inv : SearchInv net s t₀ done (fun _ _ => True) now st) {b : T}
    (least : ∀ t' v, (t', v) ∈ st.heap → b ≤ t') {v : N} {t : T} {p : List N}
    (htr : net.Travels s t₀ v t p) :
    b ≤ t ∨ v ∈ done ∧ ∃ b', st.best.get? v = some b' ∧ b' ≤ t := by
  have hcase : ∀ v b' t, st.best.get? v = some b' → b' ≤ t →
      b ≤ t ∨ v ∈ done ∧ ∃ b', st.best.get? v = some b' ∧ b' ≤ t := fun v b' t hb' hle => by
    by_cases hv : v ∈ done
    · exact Or.inr ⟨hv, b', hb', hle⟩
    · exact Or.inl ((least b' v (inv.pending v b' hb' hv)).trans hle)
  induction htr with
  | start => exact hcase s t₀ t₀ inv.source le_rfl
  | @hop u t p e t' _ he hop ih =>
    rcases ih with hle | ⟨hu, b', hb', hbt⟩
    · exact Or.inl (hle.trans (hcausal u e he t t' hop))
    · obtain ⟨t₁', h₁, h₁'⟩ := hfifo e t b' t' hbt hop
      obtain ⟨b₂, hb₂, hbt₂⟩ := inv.relaxed u hu b' hb' e he trivial t₁' h₁
      exact hcase _ b₂ t' hb₂ (hbt₂.trans h₁')

/-- Without overtaking, every journey to the destination arrives no earlier than its label. -/
theorem Final.earliest (hfifo : net.NoOvertaking) (hcausal : net.Causal) {dest : N}
    {st : SearchState N T} (h : Final net s t₀ dest st) {t : T} {p : List N}
    (htr : net.Travels s t₀ dest t p) : ∃ b, st.best.get? dest = some b ∧ b ≤ t := by
  cases h with
  | exhausted done now inv heap dest_done =>
    -- every journey stays among the expanded nodes
    have hall : ∀ {v t p}, net.Travels s t₀ v t p →
        v ∈ done ∧ ∃ b, st.best.get? v = some b ∧ b ≤ t := by
      have hdone : ∀ v b, st.best.get? v = some b → v ∈ done := fun v b hb => by
        by_contra hv
        have hm := inv.pending v b hb hv
        rw [heap] at hm
        cases hm
      intro v t p htr
      induction htr with
      | start => exact ⟨hdone s t₀ inv.source, t₀, inv.source, le_rfl⟩
      | @hop u t p e t' _ he hop ih =>
        obtain ⟨hu, b, hb, hbt⟩ := ih
        obtain ⟨t₁', h₁, h₁'⟩ := hfifo e t b t' hbt hop
        obtain ⟨b', hb', hbt'⟩ := inv.relaxed u hu b hb e he trivial t₁' h₁
        exact ⟨hdone _ b' hb', b', hb', hbt'.trans h₁'⟩
    exact absurd (hall htr).1 dest_done
  | popped done now b heap inv label least dest_done =>
    rcases inv.le_or_done hfifo hcausal least htr with hle | ⟨hd, -⟩
    · exact ⟨b, label, hle⟩
    · exact absurd hd dest_done

/-! ## Two networks with one search -/

/-- No journey gets to `v` before `t`. -/
def TimedNet.NotBefore (net : TimedNet N T E) (s : N) (t₀ : T) (v : N) (t : T) : Prop :=
  ∀ t' p, net.Travels s t₀ v t' p → t ≤ t'

theorem foldl_relaxEdge_congr {net' : TimedNet N T E} {u : N} {t : T}
    (hhead : ∀ e, net'.head u e = net.head u e) (es : List E)
    (hhop : ∀ e ∈ es, net'.hop e t = net.hop e t) (st : SearchState N T) :
    es.foldl (AstroMine.relaxEdge net' u t) st = es.foldl (AstroMine.relaxEdge net u t) st := by
  induction es generalizing st with
  | nil => rfl
  | cons e es ih =>
    have hstep : AstroMine.relaxEdge net' u t st e = AstroMine.relaxEdge net u t st e := by
      rw [AstroMine.relaxEdge, AstroMine.relaxEdge, hhop e (by simp), hhead e]
    rw [List.foldl_cons, List.foldl_cons, hstep]
    exact ih (fun f hf => hhop f (List.mem_cons_of_mem _ hf)) _

/-- A network without overtaking has the search of any other one that agrees with it on the hops
at first arrivals, as far as these are not after all arrivals at the destination. -/
theorem search_congr {net' : TimedNet N T E} (hcausal : net.Causal) (hfifo : net.NoOvertaking)
    {dest : N} (hedges : ∀ u, net'.edges u = net.edges u)
    (hhead : ∀ u e, net'.head u e = net.head u e)
    (hhop : ∀ u t p, net.Travels s t₀ u t p → net.NotBefore s t₀ u t → net.NotBefore s t₀ dest t →
      ∀ e ∈ net.edges u, net'.hop e t = net.hop e t) :
    ∀ (fuel : ℕ) (done : Finset N) (now : T) (st : SearchState N T),
      SearchInv net s t₀ done (fun _ _ => True) now st → dest ∉ done →
      search net' dest fuel st = search net dest fuel st := by
  intro fuel
  induction fuel with
  | zero => intro done now st _ _; rfl
  | succ fuel ih =>
    intro done now st h hd
    rw [search, search]
    cases hp : popLeast st.heap with
    | none => rfl
    | some q =>
      obtain ⟨⟨t, u⟩, rest⟩ := q
      simp only
      by_cases hstale : (st.best.get? u).any (fun b => b < t) = true
      · obtain ⟨b, hb, hlt⟩ := (Option.any_eq_true _ _).mp hstale
        rw [if_pos hstale, if_pos hstale]
        exact ih done now _ (h.pop_stale hp hb (of_decide_eq_true hlt)) hd
      · rw [if_neg hstale, if_neg hstale]
        by_cases hdest : u = dest
        · rw [if_pos hdest, if_pos hdest]
        · rw [if_neg hdest, if_neg hdest]
          obtain ⟨hbu, hud⟩ := h.pop_fresh hp hstale
          obtain ⟨-, hleast, -⟩ := popLeast_eq_some hp
          have hnot : ∀ v, v ∉ done → net.NotBefore s t₀ v t := by
            intro v hv t' p htr
            rcases h.le_or_done hfifo hcausal (fun t' w hm => hleast _ hm) htr with hle | ⟨hv', -⟩
            · exact hle
            · exact absurd hv' hv
          obtain ⟨p, -, htr, -⟩ := h.path u t hbu
          have hsame := foldl_relaxEdge_congr (hhead u) (net.edges u)
            (hhop u t p htr (hnot u hud) (hnot dest hd)) { st with heap := rest }
          rw [hedges u, hsame]
          have hd' : dest ∉ insert u done := by
            rw [Finset.mem_insert, not_or]
            exact ⟨fun heq => hdest heq.symm, hd⟩
          exact ih (insert u done) t _ (h.expand hcausal hp hbu) hd'

end Search

end AstroMine
