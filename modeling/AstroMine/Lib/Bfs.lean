import Mathlib.Data.Finset.Card

/-!
# Breadth-first search with a path

The search keeps a queue of nodes, each with the path it was found on and a label summed along it,
and the nodes seen. It ends at the first target it finds.

Results:
* `bfs_returns`: over a finite closed set of nodes the search ends; a path it returns leads from
  the source to a target, and when it returns none, no path does.
* `bfs_shortest`: a path it returns visits no node twice, and no path to a target is shorter.
-/

namespace AstroMine

variable {N L : Type} [DecidableEq N]

/-- The paths from `s`: the node one leads to, its nodes, and the sum of its labels. -/
inductive PathTo [Add L] (adj : N → List (N × L)) (s : N) (l₀ : L) : N → List N → L → Prop
  | start : PathTo adj s l₀ s [s] l₀
  | step {u p l v l'} : PathTo adj s l₀ u p l → (v, l') ∈ adj u →
      PathTo adj s l₀ v (p ++ [v]) (l + l')

variable [Add L]

/-- The loop over the neighbours of a node: the first target, or the queue and the nodes seen after
it. -/
def bfsExpand (isTarget : N → Bool) (path : List N) (label : L) :
    List (N × L) → List (N × List N × L) → List N →
      (N × List N × L) ⊕ (List (N × List N × L) × List N)
  | [], queue, seen => .inr (queue, seen)
  | (v, l) :: ns, queue, seen =>
    if v ∈ seen then bfsExpand isTarget path label ns queue seen
    else if isTarget v then .inl (v, path ++ [v], label + l)
    else bfsExpand isTarget path label ns (queue ++ [(v, path ++ [v], label + l)]) (v :: seen)

/-- The search, with at most `fuel` nodes taken off the queue. -/
def bfs (adj : N → List (N × L)) (isTarget : N → Bool) :
    ℕ → List (N × List N × L) → List N → Option (Option (N × List N × L))
  | 0, _, _ => none
  | _ + 1, [], _ => some none
  | fuel + 1, (u, path, label) :: queue, seen =>
    match bfsExpand isTarget path label (adj u) queue seen with
    | .inl found => some (some found)
    | .inr (queue', seen') => bfs adj isTarget fuel queue' seen'

/-! ## The invariant -/

/-- The queue holds nodes seen, each with a path to it; the neighbours of a node seen that is not in
the queue, nor `skip`, are seen; no target is seen. -/
structure BfsInv (adj : N → List (N × L)) (isTarget : N → Bool) (s : N) (l₀ : L) (skip : Option N)
    (queue : List (N × List N × L)) (seen : List N) : Prop where
  source : s ∈ seen
  path : ∀ q ∈ queue, PathTo adj s l₀ q.1 q.2.1 q.2.2
  queued : ∀ q ∈ queue, q.1 ∈ seen
  closed : ∀ v ∈ seen, some v ≠ skip → v ∉ queue.map Prod.fst → ∀ e ∈ adj v, e.1 ∈ seen
  no_target : ∀ v ∈ seen, isTarget v = false
  reached : ∀ v ∈ seen, ∃ p l, PathTo adj s l₀ v p l

variable {adj : N → List (N × L)} {isTarget : N → Bool} {s : N} {l₀ : L}

/-- What the loop over the neighbours of `u` keeps, and what it adds. -/
theorem bfsExpand_spec {u : N} {path : List N} {label : L} (hu : PathTo adj s l₀ u path label) :
    ∀ (ns : List (N × L)), (∀ e ∈ ns, e ∈ adj u) → ∀ queue seen,
      BfsInv adj isTarget s l₀ (some u) queue seen →
      match bfsExpand isTarget path label ns queue seen with
      | .inl found => isTarget found.1 = true ∧ PathTo adj s l₀ found.1 found.2.1 found.2.2
      | .inr (queue', seen') => BfsInv adj isTarget s l₀ (some u) queue' seen' ∧
          (∀ v ∈ seen, v ∈ seen') ∧ (∀ e ∈ ns, e.1 ∈ seen') ∧
          (seen' = seen ∧ queue' = queue ∨ ∃ v ∈ seen', v ∉ seen) := by
  intro ns
  induction ns with
  | nil =>
    intro _ queue seen h
    exact ⟨h, fun _ hv => hv, by simp, Or.inl ⟨rfl, rfl⟩⟩
  | cons e ns ih =>
    obtain ⟨v, l⟩ := e
    intro hns queue seen h
    have hns' : ∀ e ∈ ns, e ∈ adj u := fun e he => hns e (List.mem_cons_of_mem _ he)
    have hpath : PathTo adj s l₀ v (path ++ [v]) (label + l) := .step hu (hns (v, l) (by simp))
    rw [bfsExpand]
    by_cases hseen : v ∈ seen
    · rw [if_pos hseen]
      have hrest := ih hns' queue seen h
      cases hx : bfsExpand isTarget path label ns queue seen with
      | inl found => rwa [hx] at hrest
      | inr q =>
        rw [hx] at hrest
        obtain ⟨hinv, hmono, hall, hnew⟩ := hrest
        exact ⟨hinv, hmono, by simpa using ⟨hmono v hseen, fun a b hab => hall (a, b) hab⟩, hnew⟩
    · rw [if_neg hseen]
      by_cases htarget : isTarget v = true
      · rw [if_pos htarget]
        exact ⟨htarget, hpath⟩
      · rw [if_neg htarget]
        have hinv : BfsInv adj isTarget s l₀ (some u)
            (queue ++ [(v, path ++ [v], label + l)]) (v :: seen) := by
          refine ⟨List.mem_cons_of_mem _ h.source, ?_, ?_, ?_, ?_, ?_⟩
          · intro q hq
            rcases List.mem_append.mp hq with hq | hq
            · exact h.path q hq
            · rw [List.mem_singleton.mp hq]
              exact hpath
          · intro q hq
            rcases List.mem_append.mp hq with hq | hq
            · exact List.mem_cons_of_mem _ (h.queued q hq)
            · rw [List.mem_singleton.mp hq]
              exact List.mem_cons_self
          · intro w hw hskip hqueue e he
            rw [List.map_append, List.mem_append, not_or] at hqueue
            rcases List.mem_cons.mp hw with rfl | hw
            · exact absurd (by simp) hqueue.2
            · exact List.mem_cons_of_mem _ (h.closed w hw hskip hqueue.1 e he)
          · intro w hw
            rcases List.mem_cons.mp hw with rfl | hw
            · exact Bool.eq_false_iff.mpr htarget
            · exact h.no_target w hw
          · intro w hw
            rcases List.mem_cons.mp hw with rfl | hw
            · exact ⟨_, _, hpath⟩
            · exact h.reached w hw
        have hrest := ih hns' _ _ hinv
        cases hx : bfsExpand isTarget path label ns (queue ++ [(v, path ++ [v], label + l)])
            (v :: seen) with
        | inl found => rwa [hx] at hrest
        | inr q =>
          rw [hx] at hrest
          obtain ⟨hinv', hmono, hall, -⟩ := hrest
          have hv : v ∈ q.2 := hmono v List.mem_cons_self
          exact ⟨hinv', fun w hw => hmono w (List.mem_cons_of_mem _ hw),
            by simpa using ⟨hv, fun a b hab => hall (a, b) hab⟩, Or.inr ⟨v, hv, hseen⟩⟩

omit [DecidableEq N] in
/-- The node at the head of the queue is taken off. -/
theorem BfsInv.pop {u : N} {path : List N} {label : L} {queue : List (N × List N × L)}
    {seen : List N} (h : BfsInv adj isTarget s l₀ none ((u, path, label) :: queue) seen) :
    BfsInv adj isTarget s l₀ (some u) queue seen := by
  refine ⟨h.source, fun q hq => h.path q (List.mem_cons_of_mem _ hq),
    fun q hq => h.queued q (List.mem_cons_of_mem _ hq), ?_, h.no_target, h.reached⟩
  intro v hv hvu hvq
  refine h.closed v hv (by simp) ?_
  rw [List.map_cons, List.mem_cons, not_or]
  exact ⟨fun heq => hvu (congrArg some heq), hvq⟩

omit [DecidableEq N] in
/-- A node is done when all its neighbours are seen. -/
theorem BfsInv.done {u : N} {queue : List (N × List N × L)} {seen : List N}
    (h : BfsInv adj isTarget s l₀ (some u) queue seen) (hu : ∀ e ∈ adj u, e.1 ∈ seen) :
    BfsInv adj isTarget s l₀ none queue seen := by
  refine ⟨h.source, h.path, h.queued, fun v hv _ hvq e he => ?_, h.no_target, h.reached⟩
  by_cases hvu : v = u
  · exact hu e (hvu ▸ he)
  · exact h.closed v hv (fun heq => hvu (Option.some.inj heq)) hvq e he

omit [DecidableEq N] in
theorem PathTo.mem_of_closed {V : Finset N} (hs : s ∈ V) (hV : ∀ u ∈ V, ∀ e ∈ adj u, e.1 ∈ V)
    {v : N} {p : List N} {l : L} (h : PathTo adj s l₀ v p l) : v ∈ V := by
  induction h with
  | start => exact hs
  | step _ he ih => exact hV _ ih _ he

/-- What a search says: a path to a target it found, or that there is none. -/
def BfsAnswer (adj : N → List (N × L)) (isTarget : N → Bool) (s : N) (l₀ : L) :
    Option (N × List N × L) → Prop
  | some found => isTarget found.1 = true ∧ PathTo adj s l₀ found.1 found.2.1 found.2.2
  | none => ∀ v p l, PathTo adj s l₀ v p l → isTarget v = false

theorem bfs_of_inv {V : Finset N} (hs : s ∈ V) (hV : ∀ u ∈ V, ∀ e ∈ adj u, e.1 ∈ V) :
    ∀ (k len : ℕ) (queue : List (N × List N × L)) (seen : List N),
      (V \ seen.toFinset).card = k → queue.length = len →
      BfsInv adj isTarget s l₀ none queue seen →
      ∃ fuel₀ answer, (∀ fuel, fuel₀ ≤ fuel → bfs adj isTarget fuel queue seen = some answer) ∧
        BfsAnswer adj isTarget s l₀ answer := by
  intro k
  induction k using Nat.strong_induction_on with
  | h k ihk =>
    intro len
    induction len with
    | zero =>
      intro queue seen _ hlen h
      obtain rfl := List.length_eq_zero_iff.mp hlen
      refine ⟨1, none, fun fuel hf => ?_, fun v p l hp => ?_⟩
      · obtain ⟨n, rfl⟩ : ∃ n, fuel = n + 1 := ⟨fuel - 1, by omega⟩
        rw [bfs]
      · have hseen : v ∈ seen := by
          induction hp with
          | start => exact h.source
          | step _ he ih => exact h.closed _ ih (by simp) (by simp) _ he
        exact h.no_target v hseen
    | succ len ihlen =>
      intro queue seen hk hlen h
      cases queue with
      | nil => cases hlen
      | cons q queue =>
        obtain ⟨u, path, label⟩ := q
        have hu := h.path (u, path, label) (by simp)
        have hspec := bfsExpand_spec hu (adj u) (fun _ he => he) queue seen h.pop
        cases hx : bfsExpand isTarget path label (adj u) queue seen with
        | inl found =>
          rw [hx] at hspec
          refine ⟨1, some found, fun fuel hf => ?_, hspec⟩
          obtain ⟨n, rfl⟩ : ∃ n, fuel = n + 1 := ⟨fuel - 1, by omega⟩
          rw [bfs, hx]
        | inr r =>
          obtain ⟨queue', seen'⟩ := r
          rw [hx] at hspec
          obtain ⟨hinv, hmono, hall, hnew⟩ := hspec
          have hnone := hinv.done hall
          have hrec : ∃ fuel₀ answer, (∀ fuel, fuel₀ ≤ fuel →
              bfs adj isTarget fuel queue' seen' = some answer) ∧
                BfsAnswer adj isTarget s l₀ answer := by
            rcases hnew with ⟨rfl, rfl⟩ | ⟨v, hv, hvseen⟩
            · exact ihlen queue' seen' hk (by simpa using hlen) hnone
            · have hlt : (V \ seen'.toFinset).card < k := by
                rw [← hk]
                apply Finset.card_lt_card
                refine ⟨fun w hw => ?_, fun hsub => ?_⟩
                · rw [Finset.mem_sdiff, List.mem_toFinset] at hw ⊢
                  exact ⟨hw.1, fun hws => hw.2 (hmono w hws)⟩
                · obtain ⟨p, l, hp⟩ := hinv.reached v hv
                  have hvV := hp.mem_of_closed hs hV
                  have hmem := hsub (Finset.mem_sdiff.mpr ⟨hvV, by simpa using hvseen⟩)
                  rw [Finset.mem_sdiff, List.mem_toFinset] at hmem
                  exact hmem.2 hv
              exact ihk _ hlt _ queue' seen' rfl rfl hnone
          obtain ⟨fuel₀, answer, hrun, hans⟩ := hrec
          refine ⟨fuel₀ + 1, answer, fun fuel hf => ?_, hans⟩
          obtain ⟨n, rfl⟩ : ∃ n, fuel = n + 1 := ⟨fuel - 1, by omega⟩
          rw [bfs, hx]
          exact hrun n (by omega)

omit [DecidableEq N] in
theorem bfsInv_init (htarget : isTarget s = false) :
    BfsInv adj isTarget s l₀ none [(s, [s], l₀)] [s] where
  source := List.mem_singleton_self s
  path := by
    simp only [List.mem_singleton, forall_eq]
    exact .start
  queued := by simp
  closed := fun v hv _ hvq => absurd (by simpa using hv) (by simpa using hvq)
  no_target := by simpa using htarget
  reached := by
    simp only [List.mem_singleton, forall_eq]
    exact ⟨_, _, .start⟩

/-- The search from a source that is not a target. -/
theorem bfs_returns (isTarget : N → Bool) (l₀ : L) {V : Finset N} (hs : s ∈ V)
    (hV : ∀ u ∈ V, ∀ e ∈ adj u, e.1 ∈ V) (htarget : isTarget s = false) :
    ∃ fuel₀ answer,
      (∀ fuel, fuel₀ ≤ fuel → bfs adj isTarget fuel [(s, [s], l₀)] [s] = some answer) ∧
        BfsAnswer adj isTarget s l₀ answer :=
  bfs_of_inv hs hV _ _ _ _ rfl rfl (bfsInv_init htarget)

/-! ## Layers -/

/-- The queue is a layer of paths of `depth` nodes followed by a part of the next layer. Paths visit
no node twice, and nodes that are seen. Whatever a path of `depth` nodes leads to is seen, and not in
the next layer. -/
structure Layered (adj : N → List (N × L)) (s : N) (l₀ : L) (depth : ℕ)
    (layer next : List (N × List N × L)) (seen : List N) : Prop where
  layer_length : ∀ q ∈ layer, q.2.1.length = depth
  next_length : ∀ q ∈ next, q.2.1.length = depth + 1
  simple : ∀ q ∈ layer ++ next, q.2.1.Nodup ∧ ∀ v ∈ q.2.1, v ∈ seen
  within : ∀ v p l, PathTo adj s l₀ v p l → p.length ≤ depth → v ∈ seen
  next_new : ∀ q ∈ next, ∀ p l, PathTo adj s l₀ q.1 p l → depth < p.length

omit [DecidableEq N] in
theorem PathTo.length_pos {v : N} {p : List N} {l : L} (h : PathTo adj s l₀ v p l) :
    0 < p.length := by
  cases h <;> simp

omit [DecidableEq N] in
theorem layered_init (adj : N → List (N × L)) (s : N) (l₀ : L) :
    Layered adj s l₀ 1 [(s, [s], l₀)] [] [s] where
  layer_length := by simp
  next_length := by simp
  simple := by simp
  within := by
    intro v p l h hle
    cases h with
    | start => exact List.mem_singleton_self s
    | step h' _ =>
      have hpos := h'.length_pos
      rw [List.length_append, List.length_singleton] at hle
      omega
  next_new := by simp

/-- The loop over the neighbours of a node of the layer adds to the next layer. -/
theorem bfsExpand_layered (isTarget : N → Bool) (label : L) {depth : ℕ} {path : List N}
    (hlen : path.length = depth) (hnodup : path.Nodup) (ns : List (N × L))
    {layer next : List (N × List N × L)} {seen : List N} (hpath : ∀ v ∈ path, v ∈ seen)
    (h : Layered adj s l₀ depth layer next seen) :
    match bfsExpand isTarget path label ns (layer ++ next) seen with
    | .inl found => found.2.1.length = depth + 1 ∧ found.2.1.Nodup
    | .inr (queue', seen') =>
      ∃ next', queue' = layer ++ next' ∧ Layered adj s l₀ depth layer next' seen' := by
  induction ns generalizing next seen with
  | nil => exact ⟨next, rfl, h⟩
  | cons e ns ih =>
    obtain ⟨v, l⟩ := e
    rw [bfsExpand]
    by_cases hseen : v ∈ seen
    · rw [if_pos hseen]
      exact ih hpath h
    · rw [if_neg hseen]
      have hlen' : (path ++ [v]).length = depth + 1 := by
        rw [List.length_append, hlen, List.length_singleton]
      have hnodup' : (path ++ [v]).Nodup := by
        refine List.nodup_append.mpr ⟨hnodup, List.nodup_singleton v, ?_⟩
        rintro w hw x hx rfl
        exact hseen (List.mem_singleton.mp hx ▸ hpath w hw)
      by_cases htarget : isTarget v = true
      · rw [if_pos htarget]
        exact ⟨hlen', hnodup'⟩
      · rw [if_neg htarget, List.append_assoc]
        refine ih (fun w hw => List.mem_cons_of_mem _ (hpath w hw)) ⟨h.layer_length, ?_, ?_, ?_, ?_⟩
        · intro q hq
          rcases List.mem_append.mp hq with hq | hq
          · exact h.next_length q hq
          · rw [List.mem_singleton.mp hq]
            exact hlen'
        · intro q hq
          rw [← List.append_assoc] at hq
          rcases List.mem_append.mp hq with hq | hq
          · exact ⟨(h.simple q hq).1, fun w hw => List.mem_cons_of_mem _ ((h.simple q hq).2 w hw)⟩
          · rw [List.mem_singleton.mp hq]
            refine ⟨hnodup', fun w hw => ?_⟩
            rcases List.mem_append.mp hw with hw | hw
            · exact List.mem_cons_of_mem _ (hpath w hw)
            · exact List.mem_cons.mpr (Or.inl (List.mem_singleton.mp hw))
        · intro w p l hw hle
          exact List.mem_cons_of_mem _ (h.within w p l hw hle)
        · intro q hq
          rcases List.mem_append.mp hq with hq | hq
          · exact h.next_new q hq
          · rw [List.mem_singleton.mp hq]
            exact fun p l hp => not_le.mp fun hle => hseen (h.within v p l hp hle)

omit [DecidableEq N] in
/-- When a layer is done, the next one is complete. -/
theorem Layered.advance {depth : ℕ} {next : List (N × List N × L)} {seen : List N}
    (h : Layered adj s l₀ depth [] next seen)
    (hinv : BfsInv adj isTarget s l₀ none next seen) :
    Layered adj s l₀ (depth + 1) next [] seen where
  layer_length := h.next_length
  next_length := by simp
  simple := by simpa using h.simple
  within := by
    intro v p l hp hle
    cases hp with
    | start => exact hinv.source
    | @step u p l v l' hu he =>
      rw [List.length_append, List.length_singleton] at hle
      have hle' : p.length ≤ depth := by omega
      refine hinv.closed u (h.within u p l hu hle') (by simp) ?_ _ he
      intro hmem
      obtain ⟨q, hq, rfl⟩ := List.mem_map.mp hmem
      exact absurd (h.next_new q hq p l hu) (not_lt.mpr hle')
  next_new := by simp

omit [DecidableEq N] in
theorem Layered.tail {depth : ℕ} {q : N × List N × L} {layer next : List (N × List N × L)}
    {seen : List N} (h : Layered adj s l₀ depth (q :: layer) next seen) :
    Layered adj s l₀ depth layer next seen :=
  ⟨fun r hr => h.layer_length r (List.mem_cons_of_mem _ hr), h.next_length,
    fun r hr => h.simple r (List.mem_cons_of_mem _ hr), h.within, h.next_new⟩

/-- A path to a target that visits no node twice, and no path to a target is shorter. -/
def Shortest (adj : N → List (N × L)) (isTarget : N → Bool) (s : N) (l₀ : L)
    (found : N × List N × L) : Prop :=
  found.2.1.Nodup ∧ ∀ v p l, isTarget v = true → PathTo adj s l₀ v p l →
    found.2.1.length ≤ p.length

/-- **Run.** What a search in layers finds is shortest. -/
theorem shortest_of_layered (fuel : ℕ) {depth : ℕ} {layer next : List (N × List N × L)}
    {seen : List N} {found : N × List N × L}
    (hinv : BfsInv adj isTarget s l₀ none (layer ++ next) seen)
    (h : Layered adj s l₀ depth layer next seen)
    (hrun : bfs adj isTarget fuel (layer ++ next) seen = some (some found)) :
    Shortest adj isTarget s l₀ found := by
  induction fuel generalizing depth layer next seen with
  | zero => cases hrun
  | succ fuel ih =>
    -- a layer with a node in it
    have hnode : ∀ {depth q layer next}, BfsInv adj isTarget s l₀ none (q :: layer ++ next) seen →
        Layered adj s l₀ depth (q :: layer) next seen →
        bfs adj isTarget (fuel + 1) (q :: layer ++ next) seen = some (some found) →
        Shortest adj isTarget s l₀ found := by
      rintro depth ⟨u, path, label⟩ layer next hinv h hrun
      have hhead := h.simple (u, path, label) (by simp)
      have hlayered := bfsExpand_layered isTarget label
        (h.layer_length (u, path, label) (by simp)) hhead.1 (adj u) hhead.2 h.tail
      have hspec := bfsExpand_spec (hinv.path (u, path, label) (by simp)) (adj u) (fun _ he => he)
        (layer ++ next) seen hinv.pop
      rw [List.cons_append, bfs] at hrun
      cases hx : bfsExpand isTarget path label (adj u) (layer ++ next) seen with
      | inl f =>
        rw [hx] at hrun hlayered
        cases hrun
        refine ⟨hlayered.2, fun v p l hv hp => ?_⟩
        rw [hlayered.1]
        by_contra hlt
        have hfalse := hinv.no_target v (h.within v p l hp (by omega))
        rw [hv] at hfalse
        cases hfalse
      | inr r =>
        obtain ⟨queue', seen'⟩ := r
        rw [hx] at hrun hlayered hspec
        obtain ⟨next', rfl, h'⟩ := hlayered
        exact ih (hspec.1.done hspec.2.2.1) h' hrun
    cases layer with
    | cons q layer => exact hnode hinv h hrun
    | nil =>
      have h' := h.advance hinv
      cases next with
      | nil => simp [bfs] at hrun
      | cons q next =>
        rw [List.nil_append, ← List.append_nil (q :: next)] at hinv hrun
        exact hnode hinv h' hrun

/-- The search from a source that is not a target finds a shortest path. -/
theorem bfs_shortest (isTarget : N → Bool) (htarget : isTarget s = false) {fuel : ℕ}
    {found : N × List N × L}
    (hrun : bfs adj isTarget fuel [(s, [s], l₀)] [s] = some (some found)) :
    Shortest adj isTarget s l₀ found :=
  shortest_of_layered fuel (bfsInv_init htarget) (layered_init adj s l₀) hrun

end AstroMine
