import Mathlib.Data.Prod.Lex
import Mathlib.Algebra.Order.Ring.Defs
import AstroMine.Core.Units
import AstroMine.Lib.Dict

/-!
# The contact graph (`link/network/_contactgraph.py`)

The contacts of a plan, indexed by node: every node has the contacts it is an endpoint of, sorted
by their windows.

Results:
* `ContactGraph.mem_contactsFrom`: the contacts of a node.
* `Contact.other_isSome_iff`: the nodes that a contact has a far endpoint for.
-/

namespace AstroMine.Link

open AstroMine.Core

variable {K : Type}

/-- What `link/network` raises. -/
inductive LinkNetworkError (K : Type)
  | unknownNode (label endpoint : String)
  | negativeSize (sizeBits : K)
  | notEndpoint (node : String)
  | emptyWindow (startTdbS endTdbS : K)
  deriving DecidableEq

section Contact

variable [LT K]

/-- `Contact` (lines 38–51). -/
structure Contact (K : Type) [LT K] where
  nodeA : String
  nodeB : String
  window : EpochWindow K
  rateBps : Option K := none
  latencyS : Option K := none

/-- `Contact.other` (lines 53–61); `none` when it raises. -/
def Contact.other (c : Contact K) (node : String) : Option String :=
  if node = c.nodeA then some c.nodeB
  else if node = c.nodeB then some c.nodeA
  else none

/-- The node is an endpoint of the contact. -/
def Contact.Touches (c : Contact K) (node : String) : Prop :=
  node = c.nodeA ∨ node = c.nodeB

theorem Contact.other_isSome_iff (c : Contact K) (node : String) :
    (c.other node).isSome ↔ c.Touches node := by
  rw [Contact.other, Contact.Touches]
  split_ifs <;> simp [*]

/-- The contact joins the two nodes. -/
def Contact.Joins (c : Contact K) (u v : String) : Prop :=
  c.nodeA = u ∧ c.nodeB = v ∨ c.nodeB = u ∧ c.nodeA = v

theorem Contact.joins_of_other {c : Contact K} {u v : String} (h : c.other u = some v) :
    c.Joins u v := by
  rw [Contact.other] at h
  split_ifs at h with hA hB
  · exact Or.inl ⟨hA.symm, Option.some.inj h⟩
  · exact Or.inr ⟨hB.symm, Option.some.inj h⟩

/-- From an endpoint, the far endpoint is the node the contact joins it with. -/
theorem Contact.other_of_joins {c : Contact K} {u v : String} (h : c.Joins u v) :
    c.other u = some v := by
  rw [Contact.other]
  rcases h with ⟨rfl, rfl⟩ | ⟨rfl, rfl⟩
  · rw [if_pos rfl]
  · by_cases hA : c.nodeB = c.nodeA
    · rw [if_pos hA, hA]
    · rw [if_neg hA, if_pos rfl]

end Contact

section Graph

variable [LinearOrder K]

/-- `Contact.open_at` (lines 63–66). -/
def Contact.openAt (c : Contact K) (epoch : Epoch K) : Bool :=
  decide (c.window.start.tdbSeconds ≤ epoch.tdbSeconds) &&
    decide (epoch.tdbSeconds < c.window.stop.tdbSeconds)

/-- `ContactGraph` (lines 69–89): the contacts in construction order, and the declared nodes. -/
structure ContactGraph (K : Type) [LinearOrder K] where
  contacts : List (Contact K)
  declared : Option (List String) := none

namespace ContactGraph

/-- The key the contacts of a node are sorted by (line 84). -/
def windowKey (c : Contact K) : K ×ₗ K :=
  toLex (c.window.start.tdbSeconds, c.window.stop.tdbSeconds)

/-- `_by_node` (lines 79–85). -/
def byNode (g : ContactGraph K) : Dict String (List (Contact K)) :=
  (Dict.group (g.contacts.flatMap fun c => [(c.nodeA, c), (c.nodeB, c)])).mapValues
    (sortOn windowKey)

/-- `nodes` (lines 110–113). -/
def nodes (g : ContactGraph K) : List String := g.byNode.keys

/-- `node_ids` (lines 115–118). -/
def nodeIds (g : ContactGraph K) : List String := g.declared.getD g.nodes

/-- `contacts_from` (lines 125–127). -/
def contactsFrom (g : ContactGraph K) (node : String) : List (Contact K) :=
  g.byNode.getD node []

/-- The contacts of a node are those that touch it. -/
theorem mem_contactsFrom (g : ContactGraph K) (node : String) (c : Contact K) :
    c ∈ g.contactsFrom node ↔ c ∈ g.contacts ∧ c.Touches node := by
  have hgroup : c ∈ g.contactsFrom node ↔
      c ∈ (Dict.group (g.contacts.flatMap fun c => [(c.nodeA, c), (c.nodeB, c)])).getD node [] := by
    rw [contactsFrom, Dict.getD, byNode, Dict.get?_mapValues, Dict.getD]
    cases (Dict.group (g.contacts.flatMap fun c => [(c.nodeA, c), (c.nodeB, c)])).get? node with
    | none => simp
    | some cs => simp
  rw [hgroup, Dict.getD_group, List.mem_map]
  constructor
  · rintro ⟨⟨n, c'⟩, hm, rfl⟩
    rw [List.mem_filter, List.mem_flatMap] at hm
    obtain ⟨⟨c'', hc'', hp⟩, hn⟩ := hm
    rw [decide_eq_true_eq] at hn
    rcases List.mem_cons.mp hp with heq | hp
    · obtain ⟨rfl, rfl⟩ := Prod.mk.inj heq
      exact ⟨hc'', Or.inl hn.symm⟩
    · obtain ⟨rfl, rfl⟩ := Prod.mk.inj (List.mem_singleton.mp hp)
      exact ⟨hc'', Or.inr hn.symm⟩
  · rintro ⟨hc, hn⟩
    refine ⟨(node, c), List.mem_filter.mpr ⟨List.mem_flatMap.mpr ⟨c, hc, ?_⟩, by simp⟩, rfl⟩
    rcases hn with rfl | rfl
    · exact List.mem_cons_self
    · exact List.mem_cons_of_mem _ List.mem_cons_self

/-- The nodes are the endpoints of the contacts. -/
theorem mem_nodes (g : ContactGraph K) (u : String) :
    u ∈ g.nodes ↔ ∃ c ∈ g.contacts, c.Touches u := by
  rw [nodes, byNode, Dict.keys_mapValues, Dict.mem_keys_group]
  simp only [List.mem_flatMap, List.mem_cons, List.not_mem_nil, or_false]
  constructor
  · rintro ⟨p, ⟨c, hc, rfl | rfl⟩, rfl⟩
    · exact ⟨c, hc, Or.inl rfl⟩
    · exact ⟨c, hc, Or.inr rfl⟩
  · rintro ⟨c, hc, rfl | rfl⟩
    · exact ⟨(c.nodeA, c), ⟨c, hc, Or.inl rfl⟩, rfl⟩
    · exact ⟨(c.nodeB, c), ⟨c, hc, Or.inr rfl⟩, rfl⟩

end ContactGraph

/-! ## Plans -/

/-- `ContactInterval` of a plan (`core/messages/model.py`): what the graph reads of it. -/
structure ContactInterval (K : Type) [LT K] where
  nodeA : String
  nodeB : String
  startTdbS : K
  endTdbS : K
  window : Option (EpochWindow K) := none
  maxRateBps : Option K := none
  meanLatencyS : Option K := none
  minLatencyS : Option K := none

/-- `ContactPlan`: the ids of its nodes, and its intervals. -/
structure ContactPlan (K : Type) [LT K] where
  nodes : List String
  intervals : List (ContactInterval K)

/-- `_interval_window` (lines 23–35). -/
def intervalWindow (interval : ContactInterval K) :
    Except (LinkNetworkError K) (EpochWindow K) :=
  match interval.window with
  | some w => .ok w
  | none =>
    if h : interval.startTdbS < interval.endTdbS then
      .ok ⟨⟨interval.startTdbS, .tdb⟩, ⟨interval.endTdbS, .tdb⟩, h⟩
    else .error (.emptyWindow interval.startTdbS interval.endTdbS)

/-- `ContactGraph.from_plan` (lines 91–108). -/
def ContactGraph.fromPlan (plan : ContactPlan K) :
    Except (LinkNetworkError K) (ContactGraph K) := do
  let contacts ← plan.intervals.mapM fun interval => do
    let window ← intervalWindow interval
    .ok (⟨interval.nodeA, interval.nodeB, window, interval.maxRateBps,
      interval.meanLatencyS.or interval.minLatencyS⟩ : Contact K)
  .ok ⟨contacts, if plan.nodes.isEmpty then none else some plan.nodes⟩

end Graph

end AstroMine.Link
