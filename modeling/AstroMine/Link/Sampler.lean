import Mathlib.Data.String.Basic
import Mathlib.Data.Rat.Defs
import Mathlib.Algebra.Order.Ring.Rat
import AstroMine.Core.Units
import AstroMine.Lib.Except
import AstroMine.Lib.Windows

/-!
# Connectivity samplers (`link/products/_sampler.py`, `sim/comms/__init__.py`)

Two samplers answer which peers of a node are reachable at an epoch. Link's sorts the intervals of
a pair by start and bisects; Sim's reference scans them in the order of the plan. The times and the
link figures are the elements of a linear order (a NaN, which compares with nothing, is not one).
The content hashes of the samplers are left out.

Results:
* `ReferenceConnectivitySampler.reachable_iff`: the reference finds a peer reachable exactly when an
  interval of the pair covers the epoch.
* `masks_agree_iff`: the plans of which both samplers make the same masks.
-/

namespace AstroMine.Link.Sampler

open AstroMine.Core AstroMine.Windows

variable {K : Type}

/-! ## Plans and masks -/

/-- `NodeRole` (`core/messages/enums.py`, lines 98–103). -/
inductive NodeRole
  | space
  | ground
  deriving DecidableEq

/-- `ContactNode` (`core/messages/model.py`, lines 332–337), without its `kind`. -/
structure ContactNode where
  id : String
  role : NodeRole
  deriving DecidableEq

/-- `ContactInterval` (lines 340–357): what the samplers read. -/
structure ContactInterval (K : Type) where
  nodeA : String
  nodeB : String
  startTdbS : K
  endTdbS : K
  maxRateBps : Option K := none
  minLatencyS : Option K := none
  meanLatencyS : Option K := none
  marginDb : Option K := none
  deriving DecidableEq

/-- `ContactPlan` (lines 373–380). -/
structure ContactPlan (K : Type) where
  nodes : List ContactNode
  intervals : List (ContactInterval K)

/-- `PeerLink` (lines 150–157). -/
structure PeerLink (K : Type) where
  peer : String
  reachable : Bool
  rateBps : Option K
  latencyS : Option K
  marginDb : Option K
  deriving DecidableEq

/-- `CommsObservationMask` (lines 160–167). -/
structure CommsObservationMask (K : Type) where
  agentId : String
  links : List (PeerLink K)
  earthContact : Bool
  deriving DecidableEq

/-- `MessagesValidationError` of an interval that ends before it starts. -/
structure EndPrecedesStart (K : Type) where
  index : ℕ
  endTdbS : K
  startTdbS : K
  deriving DecidableEq

/-- The loop of `_check_contact_plan_semantics` from the interval of the given index on. -/
def checkIntervals [LT K] [DecidableLT K] (index : ℕ) :
    List (ContactInterval K) → Except (EndPrecedesStart K) Unit
  | [] => .ok ()
  | interval :: rest =>
    if interval.endTdbS < interval.startTdbS then
      .error { index, endTdbS := interval.endTdbS, startTdbS := interval.startTdbS }
    else checkIntervals (index + 1) rest

/-- `_check_contact_plan_semantics` (`core/messages/loader.py`, lines 145–151). -/
def checkContactPlanSemantics [LT K] [DecidableLT K] (plan : ContactPlan K) :
    Except (EndPrecedesStart K) Unit := checkIntervals 0 plan.intervals

section Samplers

/-- `_pair_key` (`_sampler.py`, lines 55–57, and `sim/comms/__init__.py`, lines 75–77). -/
def pairKey (a b : String) : String × String := if a ≤ b then (a, b) else (b, a)

/-- `_latency` (`_sampler.py`, lines 60–64) and `_representative_latency` (`sim/comms/__init__.py`,
lines 80–84). -/
def latency (interval : ContactInterval K) : Option K :=
  interval.meanLatencyS.or interval.minLatencyS

/-- `LinkState` (`_sampler.py`, lines 40–52). -/
structure LinkState (K : Type) where
  reachable : Bool
  rateBps : Option K := none
  latencyS : Option K := none
  marginDb : Option K := none
  deriving DecidableEq

/-- The roles of the nodes; a later node replaces one of the same id. -/
def roles (plan : ContactPlan K) : Dict String NodeRole :=
  .ofList (plan.nodes.map fun node => (node.id, node.role))

/-- The intervals of each pair, in the order of the plan. -/
def byPair (plan : ContactPlan K) : Dict (String × String) (List (ContactInterval K)) :=
  .group (plan.intervals.map fun interval => (pairKey interval.nodeA interval.nodeB, interval))

/-- The mask of an agent, from the state of its link to each of the other nodes. -/
def peerMask (roles : Dict String NodeRole) (agentId : String) (state : String → LinkState K) :
    CommsObservationMask K where
  agentId
  links := (roles.keys.filter fun peer => peer ≠ agentId).map fun peer =>
    { peer, reachable := (state peer).reachable, rateBps := (state peer).rateBps,
      latencyS := (state peer).latencyS, marginDb := (state peer).marginDb }
  earthContact := (roles.keys.filter fun peer => peer ≠ agentId).any fun peer =>
    (state peer).reachable && roles.get? peer = some .ground

/-! ## The intervals of a pair -/

/-- The interval is one of the pair, in either order of its endpoints. -/
def Joins (interval : ContactInterval K) (a b : String) : Prop :=
  interval.nodeA = a ∧ interval.nodeB = b ∨ interval.nodeA = b ∧ interval.nodeB = a

instance (interval : ContactInterval K) (a b : String) : Decidable (Joins interval a b) :=
  inferInstanceAs (Decidable (_ ∨ _))

/-- The intervals of a pair, in the order of the plan. -/
def between (plan : ContactPlan K) (a b : String) : List (ContactInterval K) :=
  plan.intervals.filter fun interval => Joins interval a b

theorem pairKey_eq_iff (a b c d : String) :
    pairKey a b = pairKey c d ↔ a = c ∧ b = d ∨ a = d ∧ b = c := by
  unfold pairKey
  constructor
  · intro h
    split_ifs at h <;> simp only [Prod.mk.injEq] at h
    · exact .inl h
    · exact .inr h
    · exact .inr ⟨h.2, h.1⟩
    · exact .inl ⟨h.2, h.1⟩
  · rintro (⟨rfl, rfl⟩ | ⟨rfl, rfl⟩)
    · rfl
    · rcases le_total a b with hab | hba
      · by_cases heq : b ≤ a
        · rw [le_antisymm hab heq]
        · rw [if_pos hab, if_neg heq]
      · by_cases heq : a ≤ b
        · rw [le_antisymm heq hba]
        · rw [if_neg heq, if_pos hba]

theorem getD_byPair (plan : ContactPlan K) (a b : String) :
    (byPair plan).getD (pairKey a b) [] = between plan a b := by
  rw [byPair, Dict.getD_group, List.filter_map, List.map_map, between]
  have hkey : ∀ interval ∈ plan.intervals,
      ((fun p : (String × String) × ContactInterval K => decide (p.1 = pairKey a b)) ∘
        fun interval => (pairKey interval.nodeA interval.nodeB, interval)) interval =
      decide (Joins interval a b) := by
    intro interval _
    rw [Function.comp_apply, decide_eq_decide, pairKey_eq_iff, Joins]
  rw [List.filter_congr hkey]
  exact List.map_id _

/-! ## Links and masks -/

/-- The link to a peer, of the interval that is open or not (lines 140–150). -/
def linkState : Option (ContactInterval K) → LinkState K
  | none => { reachable := false }
  | some interval =>
    { reachable := true, rateBps := interval.maxRateBps, latencyS := latency interval,
      marginDb := interval.marginDb }

/-- What a mask shows of an interval that is open. -/
def quality (interval : ContactInterval K) : Option K × Option K × Option K :=
  (interval.maxRateBps, latency interval, interval.marginDb)

/-- Two answers give one link exactly if they have one quality. -/
theorem linkState_eq_iff (x y : Option (ContactInterval K)) :
    linkState x = linkState y ↔ x.map quality = y.map quality := by
  cases x <;> cases y <;> simp [linkState, quality]

theorem mem_keys_roles (plan : ContactPlan K) (id : String) :
    id ∈ (roles plan).keys ↔ ∃ node ∈ plan.nodes, node.id = id := by
  rw [Dict.mem_keys, roles]
  constructor
  · intro h
    by_contra hne
    push Not at hne
    rw [Dict.get?_ofList_eq_none] at h
    · cases h
    · intro p hp
      obtain ⟨node, hn, rfl⟩ := List.mem_map.mp hp
      exact hne node hn
  · rintro ⟨node, hn, rfl⟩
    exact Dict.isSome_get?_ofList (List.mem_map_of_mem hn)

/-- Two masks are the same exactly if the link to every peer is. -/
theorem peerMask_eq_iff (rs : Dict String NodeRole) (agentId : String)
    (state state' : String → LinkState K) :
    peerMask rs agentId state = peerMask rs agentId state' ↔
      ∀ peer ∈ rs.keys, peer ≠ agentId → state peer = state' peer := by
  constructor
  · intro h peer hpeer hne
    have hlinks := congrArg CommsObservationMask.links h
    have hlink := List.map_inj_left.mp hlinks peer
      (List.mem_filter.mpr ⟨hpeer, by simpa using hne⟩)
    simp only [PeerLink.mk.injEq, true_and] at hlink
    cases hs : state peer
    cases hs' : state' peer
    rw [hs, hs'] at hlink
    simp only at hlink
    simp only [LinkState.mk.injEq]
    exact hlink
  · intro h
    have hall : ∀ peer ∈ rs.keys.filter fun peer => peer ≠ agentId, state peer = state' peer := by
      intro peer hpeer
      obtain ⟨hm, hne⟩ := List.mem_filter.mp hpeer
      exact h peer hm (by simpa using hne)
    unfold peerMask
    congr 1
    · refine List.map_congr_left fun peer hpeer => ?_
      rw [hall peer hpeer]
    · rw [Bool.eq_iff_iff, List.any_eq_true, List.any_eq_true]
      refine exists_congr fun peer => and_congr_right fun hpeer => ?_
      rw [hall peer hpeer]

/-! ## The two samplers -/

variable [LinearOrder K]

namespace ConnectivitySampler

/-- `_by_pair` (`_sampler.py`, lines 79–84): the intervals of each pair, sorted by start. -/
def sortedByPair (plan : ContactPlan K) : Dict (String × String) (List (ContactInterval K)) :=
  (byPair plan).mapValues (sortOn ContactInterval.startTdbS)

/-- `ConnectivitySampler.reachable` (lines 108–130). -/
def reachable (plan : ContactPlan K) (nodeA nodeB : String) (epoch : Epoch K) : LinkState K :=
  match (sortedByPair plan).get? (pairKey nodeA nodeB) with
  | none => { reachable := false }
  | some intervals =>
    match bisectRight (intervals.map ContactInterval.startTdbS) epoch.tdbSeconds with
    | 0 => { reachable := false }
    | idx + 1 =>
      match intervals[idx]? with
      | none => { reachable := false }
      | some interval =>
        if interval.endTdbS ≤ epoch.tdbSeconds then { reachable := false }
        else
          { reachable := true, rateBps := interval.maxRateBps, latencyS := latency interval,
            marginDb := interval.marginDb }

/-- `ConnectivitySampler.comms_mask` (lines 140–169); the error is that of an unknown agent. -/
def commsMask (plan : ContactPlan K) (agentId : String) (epoch : Epoch K) :
    Except String (CommsObservationMask K) :=
  if agentId ∈ (roles plan).keys then
    .ok (peerMask (roles plan) agentId fun peer => reachable plan agentId peer epoch)
  else .error agentId

end ConnectivitySampler

namespace ReferenceConnectivitySampler

/-- `_open_interval` (`sim/comms/__init__.py`, lines 120–126). -/
def openInterval (plan : ContactPlan K) (nodeA nodeB : String) (epoch : Epoch K) :
    Option (ContactInterval K) :=
  ((byPair plan).getD (pairKey nodeA nodeB) []).find? fun interval =>
    interval.startTdbS ≤ epoch.tdbSeconds ∧ epoch.tdbSeconds < interval.endTdbS

/-- `ReferenceConnectivitySampler.comms_mask` (lines 128–154). -/
def commsMask (plan : ContactPlan K) (agentId : String) (epoch : Epoch K) :
    Except String (CommsObservationMask K) :=
  if agentId ∈ (roles plan).keys then
    .ok (peerMask (roles plan) agentId fun peer => linkState (openInterval plan agentId peer epoch))
  else .error agentId

end ReferenceConnectivitySampler

/-! ## What they answer -/

namespace ConnectivitySampler

/-- The bisecting sampler answers with the interval that started last, if it is still open. -/
theorem reachable_eq (plan : ContactPlan K) (a b : String) (epoch : Epoch K) :
    reachable plan a b epoch = linkState
      (lastOpen ContactInterval.startTdbS ContactInterval.endTdbS (between plan a b)
        epoch.tdbSeconds) := by
  rw [reachable, sortedByPair, Dict.get?_mapValues, ← getD_byPair, Dict.getD]
  cases (byPair plan).get? (pairKey a b) with
  | none => rfl
  | some intervals =>
    have hlast : ∀ (none' : LinkState K) (some' : ContactInterval K → LinkState K),
        (match bisectRight ((sortOn ContactInterval.startTdbS intervals).map
            ContactInterval.startTdbS) epoch.tdbSeconds with
          | 0 => none'
          | idx + 1 =>
            match (sortOn ContactInterval.startTdbS intervals)[idx]? with
            | none => none'
            | some interval => some' interval) =
        match lastStarted ContactInterval.startTdbS intervals epoch.tdbSeconds with
        | none => none'
        | some interval => some' interval := by
      intro none' some'
      rw [lastStarted]
      cases bisectRight ((sortOn ContactInterval.startTdbS intervals).map
        ContactInterval.startTdbS) epoch.tdbSeconds <;> rfl
    simp only [Option.map_some, Option.getD_some, hlast, lastOpen]
    cases hj : lastStarted ContactInterval.startTdbS intervals epoch.tdbSeconds with
    | none => rfl
    | some interval =>
      have hstart := (mem_of_lastStarted hj).2
      by_cases hclosed : interval.endTdbS ≤ epoch.tdbSeconds
      · rw [Option.filter_some, if_neg (by rw [openAt_iff]; exact fun h => not_lt.mpr hclosed h.2)]
        simp only [if_pos hclosed]
        rfl
      · rw [Option.filter_some, if_pos (openAt_iff.2 ⟨hstart, not_le.mp hclosed⟩)]
        simp only [if_neg hclosed]
        rfl

end ConnectivitySampler

namespace ReferenceConnectivitySampler

/-- The reference answers with the first interval of the pair that is open. -/
theorem openInterval_eq (plan : ContactPlan K) (a b : String) (epoch : Epoch K) :
    openInterval plan a b epoch = firstOpen ContactInterval.startTdbS ContactInterval.endTdbS
      (between plan a b) epoch.tdbSeconds := by
  rw [openInterval, getD_byPair]
  rfl

/-- The reference finds a peer reachable exactly when an interval of the pair covers the epoch. -/
theorem reachable_iff (plan : ContactPlan K) (a b : String) (epoch : Epoch K) :
    (linkState (openInterval plan a b epoch)).reachable = true ↔
      ∃ interval ∈ plan.intervals, Joins interval a b ∧
        interval.startTdbS ≤ epoch.tdbSeconds ∧ epoch.tdbSeconds < interval.endTdbS := by
  have hopen : (linkState (openInterval plan a b epoch)).reachable = true ↔
      (openInterval plan a b epoch).isSome := by
    cases openInterval plan a b epoch <;> simp [linkState]
  rw [hopen, openInterval_eq, firstOpen_isSome_iff]
  constructor
  · rintro ⟨interval, hm, ho⟩
    obtain ⟨hi, hj⟩ := List.mem_filter.mp hm
    exact ⟨interval, hi, of_decide_eq_true hj, openAt_iff.1 ho⟩
  · rintro ⟨interval, hi, hj, ho⟩
    exact ⟨interval, List.mem_filter.mpr ⟨hi, decide_eq_true hj⟩, openAt_iff.2 ho⟩

end ReferenceConnectivitySampler

/-! ## Masks -/

open ReferenceConnectivitySampler (openInterval)

theorem start_le_end_of_checkIntervals {index : ℕ} {intervals : List (ContactInterval K)}
    (h : checkIntervals index intervals = .ok ()) :
    ∀ interval ∈ intervals, interval.startTdbS ≤ interval.endTdbS := by
  induction intervals generalizing index with
  | nil => intro interval hi; cases hi
  | cons first rest ih =>
    rw [checkIntervals] at h
    split_ifs at h with hlt
    intro interval hi
    rcases List.mem_cons.mp hi with rfl | hi
    · exact not_lt.mp hlt
    · exact ih h interval hi

/-- Both samplers make one mask for every node at every epoch, and it shows a peer as reachable
exactly when an interval of the pair covers the epoch. -/
def MasksAgree (plan : ContactPlan K) : Prop :=
  ∀ agent ∈ plan.nodes, ∀ epoch : Epoch K, ∃ mask : CommsObservationMask K,
    ConnectivitySampler.commsMask plan agent.id epoch = .ok mask ∧
    ReferenceConnectivitySampler.commsMask plan agent.id epoch = .ok mask ∧
    ∀ link ∈ mask.links, link.reachable = true ↔
      ∃ interval ∈ plan.intervals, Joins interval agent.id link.peer ∧
        interval.startTdbS ≤ epoch.tdbSeconds ∧ epoch.tdbSeconds < interval.endTdbS

/-- No interval of two nodes outlasts a later one of theirs, unless a third starts by the time that
one ends; and intervals of theirs that are open together agree on rate, latency and margin, as far
as they are the first listed and the last started. -/
def Settled (plan : ContactPlan K) : Prop :=
  ∀ a ∈ plan.nodes, ∀ b ∈ plan.nodes, b.id ≠ a.id →
    NoneOutlasts ContactInterval.startTdbS ContactInterval.endTdbS (between plan a.id b.id) ∧
    SameValue ContactInterval.startTdbS ContactInterval.endTdbS quality (between plan a.id b.id)

/-- **Main theorem.** Of a plan that the loader accepts, the two samplers make the same masks,
which show what the intervals cover, exactly if the plan is settled. -/
theorem masks_agree_iff (plan : ContactPlan K) (h : checkContactPlanSemantics plan = .ok ()) :
    MasksAgree plan ↔ Settled plan := by
  have hvalid : ∀ a b, ∀ w ∈ between plan a b, w.startTdbS ≤ w.endTdbS := fun a b w hw =>
    start_le_end_of_checkIntervals h w (List.mem_filter.mp hw).1
  have hstates : ∀ a b : String, (∀ epoch : Epoch K,
      ConnectivitySampler.reachable plan a b epoch = linkState (openInterval plan a b epoch)) ↔
      NoneOutlasts ContactInterval.startTdbS ContactInterval.endTdbS (between plan a b) ∧
      SameValue ContactInterval.startTdbS ContactInterval.endTdbS quality (between plan a b) := by
    intro a b
    rw [← answers_agree_iff quality (hvalid a b)]
    constructor
    · intro hall t
      have := hall ⟨t, .tdb⟩
      rw [ConnectivitySampler.reachable_eq, ReferenceConnectivitySampler.openInterval_eq,
        linkState_eq_iff] at this
      exact this
    · intro hall epoch
      rw [ConnectivitySampler.reachable_eq, ReferenceConnectivitySampler.openInterval_eq,
        linkState_eq_iff]
      exact hall epoch.tdbSeconds
  have hkey : ∀ agent ∈ plan.nodes, agent.id ∈ (roles plan).keys := fun agent ha =>
    (mem_keys_roles plan agent.id).mpr ⟨agent, ha, rfl⟩
  constructor
  · intro hagree a ha b hb hne
    refine (hstates a.id b.id).mp fun epoch => ?_
    obtain ⟨mask, hlink, href, -⟩ := hagree a ha epoch
    rw [ConnectivitySampler.commsMask, if_pos (hkey a ha)] at hlink
    rw [ReferenceConnectivitySampler.commsMask, if_pos (hkey a ha)] at href
    have hmask := Except.ok.inj (hlink.trans href.symm)
    exact (peerMask_eq_iff _ _ _ _).mp hmask b.id (hkey b hb) hne
  · intro hsettled a ha epoch
    have hmask : peerMask (roles plan) a.id
        (fun peer => ConnectivitySampler.reachable plan a.id peer epoch) =
        peerMask (roles plan) a.id fun peer => linkState (openInterval plan a.id peer epoch) := by
      refine (peerMask_eq_iff _ _ _ _).mpr fun peer hpeer hne => ?_
      obtain ⟨b, hb, rfl⟩ := (mem_keys_roles plan peer).mp hpeer
      exact (hstates a.id b.id).mpr (hsettled a ha b hb hne) epoch
    refine ⟨_, by rw [ConnectivitySampler.commsMask, if_pos (hkey a ha), hmask],
      by rw [ReferenceConnectivitySampler.commsMask, if_pos (hkey a ha)], ?_⟩
    intro link hl
    obtain ⟨peer, -, rfl⟩ := List.mem_map.mp hl
    exact ReferenceConnectivitySampler.reachable_iff plan a.id peer epoch

end Samplers

/-! ## A window inside another -/

/-- A lander and a ground station with the given windows. -/
def stationPlan (windows : List (ℚ × ℚ)) : ContactPlan ℚ where
  nodes := [{ id := "lander", role := .space }, { id := "dsn", role := .ground }]
  intervals := windows.map fun w =>
    { nodeA := "lander", nodeB := "dsn", startTdbS := w.1, endTdbS := w.2 }

/-- Two windows that touch: the samplers agree. -/
theorem stationPlan_agrees : MasksAgree (stationPlan [(0, 10), (10, 20)]) := by
  refine (masks_agree_iff (stationPlan [(0, 10), (10, 20)]) (by decide +kernel)).mpr ?_
  have hpairs : ∀ a ∈ (stationPlan [(0, 10), (10, 20)]).nodes,
      ∀ b ∈ (stationPlan [(0, 10), (10, 20)]).nodes,
      (∀ w ∈ between (stationPlan [(0, 10), (10, 20)]) a.id b.id, w.startTdbS < w.endTdbS) ∧
      (between (stationPlan [(0, 10), (10, 20)]) a.id b.id).Pairwise fun v w =>
        v.endTdbS ≤ w.startTdbS ∨ w.endTdbS ≤ v.startTdbS := by decide +kernel
  intro a ha b hb _
  obtain ⟨hne, hdisjoint⟩ := hpairs a ha b hb
  exact ⟨noneOutlasts_of_disjoint hne hdisjoint, sameValue_of_disjoint hdisjoint quality⟩

/-- **Counterexample.** A short window inside a long one: after it the bisecting sampler finds the
station out of reach, while the long window is open. -/
theorem nestedWindow_not_agree :
    checkContactPlanSemantics (stationPlan [(0, 100), (10, 20)]) = .ok () ∧
      ¬ MasksAgree (stationPlan [(0, 100), (10, 20)]) := by
  refine ⟨by decide +kernel, fun h => ?_⟩
  obtain ⟨mask, hlink, href, -⟩ := h { id := "lander", role := .space } (by decide) ⟨50, .tdb⟩
  have hne : ConnectivitySampler.commsMask (stationPlan [(0, 100), (10, 20)]) "lander" ⟨50, .tdb⟩ ≠
      ReferenceConnectivitySampler.commsMask (stationPlan [(0, 100), (10, 20)]) "lander"
        ⟨50, .tdb⟩ := by decide +kernel
  exact hne (hlink.trans href.symm)

end AstroMine.Link.Sampler
