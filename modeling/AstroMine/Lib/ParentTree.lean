import Mathlib.Data.List.Chain
import Mathlib.Tactic.Common

/-!
# Trees as lists of parents

Nodes are numbered in the order they are added, and each but the root has a parent with a smaller
number, to which it stands in a relation. The root has the parent `-1`.

Results:
* `Rooted.grow`: a node added below another keeps the tree.
* `walkBack_of_rooted`: the walk along the parents ends at the root, along related nodes.
-/

namespace AstroMine

variable {α : Type} {R : α → α → Prop} {root : α} {nodes : List α} {parents : List ℤ} {n : ℕ}

/-- The first `n` nodes are a tree under `root`, each related to its parent. -/
structure Rooted (R : α → α → Prop) (root : α) (nodes : List α) (parents : List ℤ) (n : ℕ) :
    Prop where
  root_node : nodes[0]? = some root
  root_parent : parents[0]? = some (-1)
  edge : ∀ i, 0 < i → i < n → ∃ j a b, j < i ∧ parents[i]? = some (j : ℤ) ∧ nodes[j]? = some a ∧
    nodes[i]? = some b ∧ R a b

theorem rooted_singleton (R : α → α → Prop) (root : α) : Rooted R root [root] [-1] 1 where
  root_node := rfl
  root_parent := rfl
  edge i hpos hlt := by omega

/-- What comes after the nodes of a tree is no matter to it. -/
theorem Rooted.append (h : Rooted R root nodes parents n) (nodes' : List α) (parents' : List ℤ) :
    Rooted R root (nodes ++ nodes') (parents ++ parents') n where
  root_node := List.getElem?_append_left (List.getElem?_eq_some_iff.mp h.root_node).1 ▸ h.root_node
  root_parent :=
    List.getElem?_append_left (List.getElem?_eq_some_iff.mp h.root_parent).1 ▸ h.root_parent
  edge i hpos hlt := by
    obtain ⟨j, a, b, hj, hparent, ha, hb, hR⟩ := h.edge i hpos hlt
    refine ⟨j, a, b, hj, ?_, ?_, ?_, hR⟩
    · rw [List.getElem?_append_left (List.getElem?_eq_some_iff.mp hparent).1, hparent]
    · rw [List.getElem?_append_left (List.getElem?_eq_some_iff.mp ha).1, ha]
    · rw [List.getElem?_append_left (List.getElem?_eq_some_iff.mp hb).1, hb]

/-- **Step.** A node added below another. -/
theorem Rooted.grow (h : Rooted R root nodes parents nodes.length)
    (hlength : parents.length = nodes.length) {j : ℕ} {a b : α} (ha : nodes[j]? = some a)
    (hR : R a b) : Rooted R root (nodes ++ [b]) (parents ++ [(j : ℤ)]) (nodes ++ [b]).length := by
  have happend := h.append [b] [(j : ℤ)]
  refine ⟨happend.root_node, happend.root_parent, fun i hpos hlt => ?_⟩
  rw [List.length_append, List.length_singleton] at hlt
  rcases Nat.lt_succ_iff_lt_or_eq.mp hlt with hlt | rfl
  · exact happend.edge i hpos hlt
  · have hj := (List.getElem?_eq_some_iff.mp ha).1
    refine ⟨j, a, b, hj, ?_, ?_, List.getElem?_concat_length, hR⟩
    · rw [← hlength, List.getElem?_concat_length]
    · rw [List.getElem?_append_left hj, ha]

/-! ## The walk to the root -/

/-- `while index != -1: chain.append(nodes[index]); index = parents[index]`, with at most `fuel`
iterations; `none` when they do not suffice or an index is missing. -/
def walkBack (nodes : List α) (parents : List ℤ) : ℕ → ℤ → List α → Option (List α)
  | fuel, index, chain =>
    if index = -1 then some chain
    else if index < 0 then none
    else
      match fuel with
      | 0 => none
      | fuel + 1 =>
        match nodes[index.toNat]?, parents[index.toNat]? with
        | some node, some parent => walkBack nodes parents fuel parent (chain ++ [node])
        | _, _ => none

theorem walkBack_root (fuel : ℕ) (chain : List α) :
    walkBack nodes parents fuel (-1) chain = some chain := by
  cases fuel <;> exact if_pos rfl

/-- One iteration. -/
theorem walkBack_step {fuel i : ℕ} {node : α} {parent : ℤ} (hnode : nodes[i]? = some node)
    (hparent : parents[i]? = some parent) (chain : List α) :
    walkBack nodes parents (fuel + 1) i chain =
      walkBack nodes parents fuel parent (chain ++ [node]) := by
  rw [walkBack, if_neg (by omega), if_neg (by omega), Int.toNat_natCast, hnode, hparent]

/-- **Run.** From a node of the tree, the walk ends and passes a path down from the root. -/
theorem walkBack_of_rooted (h : Rooted R root nodes parents n) {i fuel : ℕ} (hi : i < n)
    (hfuel : i < fuel) (chain : List α) :
    ∃ path b, walkBack nodes parents fuel i chain = some (chain ++ path.reverse) ∧
      nodes[i]? = some b ∧ (∃ rest, path = root :: rest) ∧ path.getLast? = some b ∧
      path.IsChain R := by
  induction i using Nat.strong_induction_on generalizing fuel chain with
  | _ i ih =>
    obtain ⟨fuel, rfl⟩ := Nat.exists_eq_add_one_of_ne_zero (Nat.ne_zero_of_lt hfuel)
    rcases Nat.eq_zero_or_pos i with rfl | hpos
    · refine ⟨[root], root, ?_, h.root_node, ⟨[], rfl⟩, rfl, List.isChain_singleton root⟩
      rw [walkBack_step h.root_node h.root_parent, walkBack_root]
      rfl
    · obtain ⟨j, a, b, hj, hparent, ha, hb, hR⟩ := h.edge i hpos hi
      obtain ⟨path, a', hwalk, ha', ⟨rest, hrest⟩, hlast, hchain⟩ :=
        ih j hj (hj.trans hi) (show j < fuel by omega) (chain ++ [b])
      obtain rfl := Option.some.inj (ha.symm.trans ha')
      refine ⟨path ++ [b], b, ?_, hb, ⟨rest ++ [b], by rw [hrest]; rfl⟩, ?_, ?_⟩
      · rw [walkBack_step hb hparent, hwalk, List.reverse_append, List.append_assoc]
        rfl
      · exact List.getLast?_concat
      · refine List.isChain_append.mpr ⟨hchain, List.isChain_singleton b, ?_⟩
        intro x hx y hy
        obtain rfl := Option.some.inj (hx.symm.trans hlast)
        obtain rfl := Option.some.inj hy
        exact hR

end AstroMine
