import Mathlib.Data.String.Basic
import Mathlib.Logic.Relation
import AstroMine.Lib.Bfs
import AstroMine.Link.Delivery

/-!
# Contemporaneous reachability (`link/constellation/_reach.py`)

`reachable_route` searches the links open at an epoch, breadth first, for a path to a target.

Results:
* `mem_adjacency`: the neighbours of a node are its open links.
* `reachableRoute_returns`: the search ends, with a route exactly when open links lead to a target.
* `reachableRoute_shortest`: the route visits no node twice, no path to a target is shorter, and its
  latency is that of its links.
-/

namespace AstroMine.Link

open AstroMine.Core

variable {K : Type}

/-- `LinkState` (`link/products/_sampler.py`, lines 39–52). -/
structure LinkState (K : Type) where
  reachable : Bool
  rateBps : Option K := none
  latencyS : Option K := none
  marginDb : Option K := none

/-- `_pair_key` (lines 55–57). -/
def pairKey (a b : String) : String × String := if a ≤ b then (a, b) else (b, a)

/-- What `reachable_route` raises. -/
inductive LinkConstellationError
  | unknownSource (source : String)
  deriving DecidableEq

section Adjacency

variable [LinearOrder K] [Zero K]

/-- The links of a snapshot, each from both ends (`_adjacency`, lines 46–52). -/
def linkEnds (connectivity : Dict (String × String) (LinkState K)) : List (String × String × K) :=
  (connectivity.entries.filter fun p => p.2.reachable).flatMap fun p =>
    [(p.1.1, p.1.2, p.2.latencyS.getD 0), (p.1.2, p.1.1, p.2.latencyS.getD 0)]

/-- `_adjacency` (lines 44–55): the neighbours of a node, sorted. -/
def adjacency (connectivity : Dict (String × String) (LinkState K)) (node : String) :
    List (String × K) :=
  ((Dict.group (linkEnds connectivity)).mapValues
    (sortOn fun e : String × K => (toLex e : String ×ₗ K))).getD node []

/-- The two nodes are the ends of a link that is open. -/
def Linked (connectivity : Dict (String × String) (LinkState K)) (u v : String) : Prop :=
  ∃ state, state.reachable = true ∧
    (connectivity.get? (u, v) = some state ∨ connectivity.get? (v, u) = some state)

omit [LinearOrder K] in
/-- The ends of the open links, with their latencies. -/
theorem mem_linkEnds (connectivity : Dict (String × String) (LinkState K)) (u v : String) (l : K) :
    (u, v, l) ∈ linkEnds connectivity ↔ ∃ state, state.reachable = true ∧
      (connectivity.get? (u, v) = some state ∨ connectivity.get? (v, u) = some state) ∧
      l = state.latencyS.getD 0 := by
  constructor
  · intro hm
    obtain ⟨⟨⟨a, b⟩, state⟩, hp, hends⟩ := List.mem_flatMap.mp hm
    obtain ⟨hp, hr⟩ := List.mem_filter.mp hp
    have hget := (Dict.get?_eq_some_iff connectivity (a, b) state).mpr hp
    rcases List.mem_cons.mp hends with heq | hends
    · obtain ⟨rfl, hvl⟩ := Prod.mk.inj heq
      obtain ⟨rfl, rfl⟩ := Prod.mk.inj hvl
      exact ⟨state, hr, Or.inl hget, rfl⟩
    · obtain ⟨rfl, hvl⟩ := Prod.mk.inj (List.mem_singleton.mp hends)
      obtain ⟨rfl, rfl⟩ := Prod.mk.inj hvl
      exact ⟨state, hr, Or.inr hget, rfl⟩
  · rintro ⟨state, hr, hget | hget, rfl⟩
    · have hp := (Dict.get?_eq_some_iff connectivity _ state).mp hget
      exact List.mem_flatMap.mpr ⟨((u, v), state), List.mem_filter.mpr ⟨hp, hr⟩, List.mem_cons_self⟩
    · have hp := (Dict.get?_eq_some_iff connectivity _ state).mp hget
      exact List.mem_flatMap.mpr ⟨((v, u), state), List.mem_filter.mpr ⟨hp, hr⟩,
        List.mem_cons_of_mem _ List.mem_cons_self⟩

omit [LinearOrder K] in
theorem exists_mem_linkEnds (connectivity : Dict (String × String) (LinkState K)) (u v : String) :
    (∃ l, (u, v, l) ∈ linkEnds connectivity) ↔ Linked connectivity u v := by
  simp only [mem_linkEnds, Linked]
  constructor
  · rintro ⟨l, state, hr, hget, -⟩
    exact ⟨state, hr, hget⟩
  · rintro ⟨state, hr, hget⟩
    exact ⟨_, state, hr, hget, rfl⟩

theorem mem_adjacency (connectivity : Dict (String × String) (LinkState K)) (u v : String) (l : K) :
    (v, l) ∈ adjacency connectivity u ↔ (u, v, l) ∈ linkEnds connectivity := by
  have hgroup : (v, l) ∈ adjacency connectivity u ↔
      (v, l) ∈ (Dict.group (linkEnds connectivity)).getD u [] := by
    rw [adjacency, Dict.getD, Dict.get?_mapValues, Dict.getD]
    cases (Dict.group (linkEnds connectivity)).get? u with
    | none => simp
    | some es => simp
  rw [hgroup, Dict.getD_group, List.mem_map]
  constructor
  · rintro ⟨⟨w, e⟩, hm, rfl⟩
    obtain ⟨hm, hw⟩ := List.mem_filter.mp hm
    rw [decide_eq_true_eq] at hw
    rwa [← hw]
  · intro hm
    exact ⟨(u, v, l), List.mem_filter.mpr ⟨hm, by simp⟩, rfl⟩

/-- The ends of the links are finitely many. -/
theorem exists_closed_ends (connectivity : Dict (String × String) (LinkState K)) (source : String) :
    ∃ V : Finset String, source ∈ V ∧ ∀ u ∈ V, ∀ e ∈ adjacency connectivity u, e.1 ∈ V := by
  refine ⟨insert source ((linkEnds connectivity).map fun e => e.2.1).toFinset,
    Finset.mem_insert_self _ _, fun u _ e he => ?_⟩
  rw [Finset.mem_insert, List.mem_toFinset]
  exact Or.inr (List.mem_map.mpr ⟨(u, e.1, e.2), (mem_adjacency connectivity u e.1 e.2).mp he, rfl⟩)

end Adjacency

section Route

variable [Field K] [LinearOrder K]

/-- The route from a source that is a target (lines 78–86). -/
def selfRoute (source : String) (epoch : Epoch K) : Route K where
  source := source
  dest := source
  hops := [source]
  totalLatencyS := some 0
  earliestDeliveryTdbS := some epoch.tdbSeconds
  storeAndForward := false

/-- The route to the target a search found (lines 98–105). -/
def foundRoute (source : String) (epoch : Epoch K) (found : String × List String × K) : Route K where
  source := source
  dest := found.1
  hops := found.2.1
  totalLatencyS := some found.2.2
  earliestDeliveryTdbS := some (epoch.tdbSeconds + found.2.2)
  storeAndForward := false

/-- `reachable_route` (lines 58–107), with at most `fuel` nodes taken off the queue; `nodes` and
`connectivity` are what it asks of the sampler. -/
def reachableRoute (fuel : ℕ) (nodes : List String)
    (connectivity : Dict (String × String) (LinkState K)) (source : String) (targets : List String)
    (epoch : Epoch K) : Option (Except LinkConstellationError (Option (Route K))) :=
  if source ∉ nodes then some (.error (.unknownSource source))
  else if source ∈ targets then some (.ok (some (selfRoute source epoch)))
  else (bfs (adjacency connectivity) (fun v => decide (v ∈ targets)) fuel [(source, [source], 0)]
      [source]).map fun answer => .ok (answer.map (foundRoute source epoch))

theorem reflTransGen_of_pathTo {connectivity : Dict (String × String) (LinkState K)}
    {source v : String} {p : List String} {l₀ l : K}
    (h : PathTo (adjacency connectivity) source l₀ v p l) :
    Relation.ReflTransGen (Linked connectivity) source v := by
  induction h with
  | start => exact .refl
  | @step u p l v l' _ he ih =>
    exact ih.tail ((exists_mem_linkEnds connectivity u v).mp
      ⟨l', (mem_adjacency connectivity u v l').mp he⟩)

theorem exists_pathTo {connectivity : Dict (String × String) (LinkState K)} {source v : String}
    (l₀ : K) (h : Relation.ReflTransGen (Linked connectivity) source v) :
    ∃ p l, PathTo (adjacency connectivity) source l₀ v p l := by
  induction h with
  | refl => exact ⟨_, _, .start⟩
  | @tail u w _ hlink ih =>
    obtain ⟨p, l, hp⟩ := ih
    obtain ⟨l', hm⟩ := (exists_mem_linkEnds connectivity u w).mpr hlink
    exact ⟨_, _, hp.step ((mem_adjacency connectivity u w l').mpr hm)⟩

/-- The search from a node of the plan ends, and finds a route exactly when open links lead from
the source to a target. -/
theorem reachableRoute_returns {nodes : List String}
    (connectivity : Dict (String × String) (LinkState K)) {source : String}
    (hsource : source ∈ nodes) (targets : List String) (epoch : Epoch K) :
    ∃ fuel₀ r, (∀ fuel, fuel₀ ≤ fuel →
        reachableRoute fuel nodes connectivity source targets epoch = some (.ok r)) ∧
      (r.isSome = true ↔
        ∃ v ∈ targets, Relation.ReflTransGen (Linked connectivity) source v) := by
  by_cases htarget : source ∈ targets
  · refine ⟨0, some (selfRoute source epoch), fun fuel _ => ?_, iff_of_true rfl ⟨source, htarget, .refl⟩⟩
    rw [reachableRoute, if_neg (not_not.mpr hsource), if_pos htarget]
  · obtain ⟨V, hs, hV⟩ := exists_closed_ends connectivity source
    obtain ⟨fuel₀, answer, hrun, hans⟩ := bfs_returns (fun v => decide (v ∈ targets)) (0 : K) hs hV
      (decide_eq_false htarget)
    refine ⟨fuel₀, answer.map (foundRoute source epoch), fun fuel hf => ?_, ?_⟩
    · rw [reachableRoute, if_neg (not_not.mpr hsource), if_neg htarget, hrun fuel hf,
        Option.map_some]
    · cases answer with
      | none =>
        refine iff_of_false (by simp) ?_
        rintro ⟨v, hv, hreach⟩
        obtain ⟨p, l, hp⟩ := exists_pathTo 0 hreach
        exact of_decide_eq_false (hans v p l hp) hv
      | some found =>
        refine iff_of_true rfl ⟨found.1, of_decide_eq_true hans.1, reflTransGen_of_pathTo hans.2⟩

/-! ## Fewest hops -/

/-- A path over open links: the node it leads to, the nodes it visits, and the sum of the latencies
of its links, where an unknown latency counts as zero. -/
inductive OpenPath (connectivity : Dict (String × String) (LinkState K)) (source : String) :
    String → List String → K → Prop
  | start : OpenPath connectivity source source [source] 0
  | hop {u v : String} {p : List String} {l : K} {state : LinkState K} :
      OpenPath connectivity source u p l → state.reachable = true →
      (connectivity.get? (u, v) = some state ∨ connectivity.get? (v, u) = some state) →
      OpenPath connectivity source v (p ++ [v]) (l + state.latencyS.getD 0)

/-- The paths of the search are the paths over open links. -/
theorem pathTo_iff {connectivity : Dict (String × String) (LinkState K)} {source v : String}
    {p : List String} {l : K} :
    PathTo (adjacency connectivity) source 0 v p l ↔ OpenPath connectivity source v p l := by
  constructor
  · intro h
    induction h with
    | start => exact .start
    | @step u p l v l' _ he ih =>
      obtain ⟨state, hr, hget, rfl⟩ :=
        (mem_linkEnds connectivity u v l').mp ((mem_adjacency connectivity u v l').mp he)
      exact ih.hop hr hget
  · intro h
    induction h with
    | start => exact .start
    | @hop u v p l state _ hr hget ih =>
      exact ih.step ((mem_adjacency connectivity u v _).mpr
        ((mem_linkEnds connectivity u v _).mpr ⟨state, hr, hget, rfl⟩))

/-- A route with the fewest hops of all paths over open links to a target. -/
structure FewestHops (connectivity : Dict (String × String) (LinkState K)) (source : String)
    (targets : List String) (epoch : Epoch K) (route : Route K) : Prop where
  source_eq : route.source = source
  dest_mem : route.dest ∈ targets
  simple : route.hops.Nodup
  path : ∃ l, OpenPath connectivity source route.dest route.hops l ∧ route.totalLatencyS = some l ∧
    route.earliestDeliveryTdbS = some (epoch.tdbSeconds + l)
  fewest : ∀ v ∈ targets, ∀ p l, OpenPath connectivity source v p l →
    route.hops.length ≤ p.length

theorem selfRoute_fewestHops {connectivity : Dict (String × String) (LinkState K)} {source : String}
    {targets : List String} (epoch : Epoch K) (htarget : source ∈ targets) :
    FewestHops connectivity source targets epoch (selfRoute source epoch) where
  source_eq := rfl
  dest_mem := htarget
  simple := List.nodup_singleton source
  path := ⟨0, .start, rfl, by rw [add_zero]; rfl⟩
  fewest := fun _ _ _ _ h => (pathTo_iff.mpr h).length_pos

/-- **Main theorem.** The search from a node of the plan ends. It finds nothing exactly when no path
    over open links leads to a target, and otherwise a path with the fewest hops. -/
theorem reachableRoute_shortest {nodes : List String}
    (connectivity : Dict (String × String) (LinkState K)) {source : String}
    (hsource : source ∈ nodes) (targets : List String) (epoch : Epoch K) :
    ∃ fuel₀ r, (∀ fuel, fuel₀ ≤ fuel →
        reachableRoute fuel nodes connectivity source targets epoch = some (.ok r)) ∧
      (r = none ↔ ∀ v ∈ targets, ∀ p l, ¬ OpenPath connectivity source v p l) ∧
      ∀ route, r = some route → FewestHops connectivity source targets epoch route := by
  by_cases htarget : source ∈ targets
  · refine ⟨0, some (selfRoute source epoch), fun fuel _ => ?_, iff_of_false (by simp) ?_, ?_⟩
    · rw [reachableRoute, if_neg (not_not.mpr hsource), if_pos htarget]
    · exact fun h => h source htarget _ _ .start
    · rintro route hroute
      obtain rfl := Option.some.inj hroute
      exact selfRoute_fewestHops epoch htarget
  · obtain ⟨V, hs, hV⟩ := exists_closed_ends connectivity source
    obtain ⟨fuel₀, answer, hrun, hans⟩ :=
      bfs_returns (fun v => decide (v ∈ targets)) (0 : K) hs hV
      (decide_eq_false htarget)
    refine ⟨fuel₀, answer.map (foundRoute source epoch), fun fuel hf => ?_, ?_, ?_⟩
    · rw [reachableRoute, if_neg (not_not.mpr hsource), if_neg htarget, hrun fuel hf,
        Option.map_some]
    · cases answer with
      | none =>
        refine iff_of_true rfl fun v hv p l hp => ?_
        exact of_decide_eq_false (hans v p l (pathTo_iff.mpr hp)) hv
      | some found =>
        refine iff_of_false (by simp) fun h => ?_
        exact h found.1 (of_decide_eq_true hans.1) _ _ (pathTo_iff.mp hans.2)
    · intro route hroute
      obtain ⟨found, rfl, rfl⟩ := Option.map_eq_some_iff.mp hroute
      obtain ⟨hsimple, hshort⟩ := bfs_shortest (fun v => decide (v ∈ targets))
        (decide_eq_false htarget) (hrun fuel₀ le_rfl)
      refine ⟨rfl, of_decide_eq_true hans.1, hsimple, ⟨_, pathTo_iff.mp hans.2, rfl, rfl⟩, ?_⟩
      exact fun v hv p l hp => hshort v p l (decide_eq_true hv) (pathTo_iff.mpr hp)

end Route

/-- A lander and a relay in view of each other, and the relay of the ground; the lander's own link to
the ground is closed. -/
def relayLinks : Dict (String × String) (LinkState ℚ) :=
  Dict.ofList [(("L", "R"), { reachable := true, latencyS := some 1 }),
    (("G", "R"), { reachable := true, latencyS := some 2 }), (("G", "L"), { reachable := false })]

theorem reachableRoute_shortest_relay : ∃ fuel₀ r, (∀ fuel, fuel₀ ≤ fuel →
      reachableRoute fuel ["L", "R", "G"] relayLinks "L" ["G"] ⟨0, .tdb⟩ = some (.ok r)) ∧
    (r = none ↔ ∀ v ∈ ["G"], ∀ p l, ¬ OpenPath relayLinks "L" v p l) ∧
    ∀ route, r = some route → FewestHops relayLinks "L" ["G"] ⟨0, .tdb⟩ route :=
  reachableRoute_shortest relayLinks (by decide) ["G"] ⟨0, .tdb⟩

end AstroMine.Link
