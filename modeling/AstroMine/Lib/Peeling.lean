import Mathlib.Data.Fintype.Card
import Mathlib.Data.Fintype.EquivFin
import Mathlib.Data.List.FinRange
import Mathlib.Data.List.Nodup
import Mathlib.Order.RelClasses

/-!
# Peeling a finite order into layers by counters

Every item carries the number of items above it that have not been peeled. A pass over a layer
decrements the counter of an item once for each member of the layer above it, and the items whose
counter comes to zero are the next layer.

Results:
* `foldl_release_count`, `foldl_release_next`: the counters after a pass, and the items whose counter
  came to zero in it.
* `Peeled.pass`: a pass keeps the counters exact and finds the next layer.
* `layers_spec`: over a strict order the layers exist, contain every item once, have no pair in
  them, and each member of a layer has an item above it in the layer before.
-/

namespace AstroMine.Peeling

variable {ι : Type*} [DecidableEq ι]

/-! ## The algorithm -/

/-- The counters and the next layer, as a pass builds them. -/
structure Pass (ι : Type*) where
  count : ι → ℤ
  next : List ι

/-- One decrement: an item whose counter comes to zero is in the next layer. -/
def release (st : Pass ι) (q : ι) : Pass ι where
  count := Function.update st.count q (st.count q - 1)
  next := if st.count q - 1 = 0 then st.next ++ [q] else st.next

/-- A pass over a layer, where `below p` are the items that `p` stands above. -/
def pass (below : ι → List ι) (count : ι → ℤ) (layer : List ι) : Pass ι :=
  layer.foldl (fun st p => (below p).foldl release st) ⟨count, []⟩

/-- The layers from a given one on; `none` when the fuel runs out. -/
def layers (below : ι → List ι) : ℕ → (ι → ℤ) → List ι → Option (List (List ι))
  | 0, _, _ => none
  | fuel + 1, count, layer =>
    if layer = [] then some []
    else
      let st := pass below count layer
      (layers below fuel st.count st.next).map (layer :: ·)

/-! ## A pass -/

@[simp]
theorem release_count_self (st : Pass ι) (q : ι) : (release st q).count q = st.count q - 1 :=
  Function.update_self ..

theorem release_count_of_ne (st : Pass ι) {q r : ι} (h : r ≠ q) :
    (release st q).count r = st.count r :=
  Function.update_of_ne h ..

theorem foldl_release_count (l : List ι) (st : Pass ι) (r : ι) :
    (l.foldl release st).count r = st.count r - l.count r := by
  induction l generalizing st with
  | nil => simp
  | cons q l ih =>
    rw [List.foldl_cons, ih]
    by_cases hr : r = q
    · subst hr
      rw [release_count_self, List.count_cons_self]
      omega
    · rw [release_count_of_ne st hr, List.count_cons_of_ne (Ne.symm hr)]

/-- **Run.** Where no counter is decremented below zero, the items found are those whose counter
was the number of their decrements. -/
theorem foldl_release_next {l : List ι} {st : Pass ι} (hle : ∀ q, (l.count q : ℤ) ≤ st.count q) :
    ∃ found, (l.foldl release st).next = st.next ++ found ∧ found.Nodup ∧
      ∀ q, q ∈ found ↔ q ∈ l ∧ st.count q = l.count q := by
  induction l generalizing st with
  | nil => exact ⟨[], (List.append_nil _).symm, List.nodup_nil, fun q => by simp⟩
  | cons q l ih =>
    have hq : (l.count q : ℤ) + 1 ≤ st.count q := by
      have := hle q
      rw [List.count_cons_self] at this
      exact_mod_cast this
    have hle' : ∀ r, (l.count r : ℤ) ≤ (release st q).count r := by
      intro r
      by_cases hr : r = q
      · subst hr
        rw [release_count_self]
        omega
      · have := hle r
        rwa [List.count_cons_of_ne (Ne.symm hr), ← release_count_of_ne st hr] at this
    obtain ⟨found, hnext, hnodup, hmem⟩ := ih hle'
    have hother : ∀ r, r ≠ q → (r ∈ found ↔ r ∈ q :: l ∧ st.count r = (q :: l).count r) := by
      intro r hr
      rw [hmem, release_count_of_ne st hr, List.count_cons_of_ne (Ne.symm hr), List.mem_cons,
        or_iff_right hr]
    by_cases hzero : st.count q - 1 = 0
    · have hnone : l.count q = 0 := by omega
      have hnotin : q ∉ found := fun h => List.count_eq_zero.mp hnone ((hmem q).1 h).1
      refine ⟨q :: found, ?_, List.nodup_cons.mpr ⟨hnotin, hnodup⟩, fun r => ?_⟩
      · rw [List.foldl_cons, hnext, release, if_pos hzero, List.append_assoc]
        rfl
      · by_cases hr : r = q
        · subst hr
          refine iff_of_true List.mem_cons_self ⟨List.mem_cons_self, ?_⟩
          rw [List.count_cons_self]
          omega
        · rw [List.mem_cons, or_iff_right hr, hother r hr]
    · refine ⟨found, ?_, hnodup, fun r => ?_⟩
      · rw [List.foldl_cons, hnext, release, if_neg hzero]
      · by_cases hr : r = q
        · subst hr
          rw [hmem, release_count_self, List.count_cons_self]
          constructor
          · rintro ⟨-, h⟩
            exact ⟨List.mem_cons_self, by omega⟩
          · rintro ⟨-, h⟩
            have hpos : 0 < l.count r := by omega
            exact ⟨List.count_pos_iff.mp hpos, by omega⟩
        · exact hother r hr

/-! ## The layers -/

section Order

variable [Fintype ι] {R : ι → ι → Prop} [DecidableRel R] {below : ι → List ι}
  {done layer : List ι} {count : ι → ℤ}

/-- The items above `q` that are not in `done`. -/
def above (R : ι → ι → Prop) [DecidableRel R] (done : List ι) (q : ι) : Finset ι :=
  Finset.univ.filter fun p => R p q ∧ p ∉ done

theorem mem_above {p q : ι} : p ∈ above R done q ↔ R p q ∧ p ∉ done := by
  rw [above, Finset.mem_filter, and_iff_right (Finset.mem_univ p)]

/-- Where the loop stands: the items peeled before the layer, the counters, and the layer. -/
structure Peeled (R : ι → ι → Prop) [DecidableRel R] (done : List ι) (count : ι → ℤ)
    (layer : List ι) : Prop where
  nodup : (done ++ layer).Nodup
  counts : ∀ q, count q = (above R done q).card
  members : ∀ q, q ∈ done ++ layer ↔ count q = 0

/-- The items below, listed once each. -/
def Lists (R : ι → ι → Prop) (below : ι → List ι) : Prop :=
  ∀ p, (below p).Nodup ∧ ∀ q, q ∈ below p ↔ R p q

omit [Fintype ι] in
/-- A pass decrements the counter of an item once for each member of the layer above it. -/
theorem count_flatMap_below (hbelow : Lists R below) (hlayer : layer.Nodup) (q : ι) :
    (layer.flatMap below).count q = (layer.toFinset.filter fun p => R p q).card := by
  induction layer with
  | nil => rfl
  | cons p layer ih =>
    obtain ⟨hp, hnodup⟩ := List.nodup_cons.mp hlayer
    rw [List.flatMap_cons, List.count_append, ih hnodup, List.toFinset_cons, Finset.filter_insert]
    split_ifs with hR
    · have hmem : p ∉ layer.toFinset.filter fun p => R p q := fun h =>
        hp (List.mem_toFinset.mp (Finset.mem_filter.mp h).1)
      rw [Finset.card_insert_of_notMem hmem,
        List.count_eq_one_of_mem (hbelow p).1 (((hbelow p).2 q).2 hR), Nat.add_comm]
    · rw [List.count_eq_zero.mpr fun h => hR (((hbelow p).2 q).1 h), Nat.zero_add]

/-- The items above are those in the layer and those beyond it. -/
theorem card_above (hdisjoint : ∀ p ∈ layer, p ∉ done) (q : ι) :
    (above R done q).card =
      (above R (done ++ layer) q).card + (layer.toFinset.filter fun p => R p q).card := by
  rw [← Finset.card_union_of_disjoint]
  · congr 1
    ext p
    simp only [Finset.mem_union, mem_above, Finset.mem_filter, List.mem_toFinset, List.mem_append,
      not_or]
    constructor
    · rintro ⟨hR, hp⟩
      by_cases hmem : p ∈ layer
      · exact .inr ⟨hmem, hR⟩
      · exact .inl ⟨hR, hp, hmem⟩
    · rintro (⟨hR, hp, -⟩ | ⟨hmem, hR⟩)
      · exact ⟨hR, hp⟩
      · exact ⟨hR, hdisjoint p hmem⟩
  · rw [Finset.disjoint_left]
    intro p hp hp'
    exact (mem_above.1 hp).2 (List.mem_append_right _
      (List.mem_toFinset.mp (Finset.mem_filter.mp hp').1))

omit [Fintype ι] in
theorem pass_eq (below : ι → List ι) (count : ι → ℤ) (layer : List ι) :
    pass below count layer = (layer.flatMap below).foldl release ⟨count, []⟩ :=
  List.foldl_flatMap.symm

/-- **Step.** A pass over a layer keeps the counters exact and finds the next layer, whose members
have an item above them in the layer. -/
theorem Peeled.pass (hbelow : Lists R below) (h : Peeled R done count layer) :
    Peeled R (done ++ layer) (pass below count layer).count (pass below count layer).next ∧
      ∀ q ∈ (pass below count layer).next, ∃ p ∈ layer, R p q := by
  have hlayer : layer.Nodup := (List.nodup_append.mp h.nodup).2.1
  have hdisjoint : ∀ p ∈ layer, p ∉ done := fun p hp hp' =>
    List.disjoint_of_nodup_append h.nodup hp' hp
  have hsplit := fun q => card_above (R := R) hdisjoint q
  have hcount : ∀ q, ((layer.flatMap below).count q : ℤ) =
      count q - (above R (done ++ layer) q).card := by
    intro q
    rw [count_flatMap_below hbelow hlayer, h.counts, hsplit]
    omega
  have hle : ∀ q, ((layer.flatMap below).count q : ℤ) ≤ (Pass.mk count []).count q := by
    intro q
    rw [hcount]
    simp only
    omega
  obtain ⟨found, hnext, hnodup, hmem⟩ := foldl_release_next hle
  have hafter : ∀ q, (Peeling.pass below count layer).count q =
      (above R (done ++ layer) q).card := by
    intro q
    rw [pass_eq, foldl_release_count, hcount]
    simp only
    omega
  have hfound : (Peeling.pass below count layer).next = found := by
    rw [pass_eq, hnext, List.nil_append]
  have habove : ∀ q, q ∈ layer.flatMap below ↔ ∃ p ∈ layer, R p q := by
    intro q
    simp only [List.mem_flatMap, (hbelow _).2]
  rw [hfound]
  refine ⟨⟨?_, hafter, fun q => ?_⟩, fun q hq => (habove q).1 ((hmem q).1 hq).1⟩
  · refine List.nodup_append.mpr ⟨h.nodup, hnodup, ?_⟩
    rintro q hq _ hq' rfl
    have hzero := (h.members q).1 hq
    obtain ⟨hin, heq⟩ := (hmem q).1 hq'
    have hpos := List.count_pos_iff.mpr hin
    simp only at heq
    omega
  · rw [List.mem_append, h.members, hmem, hafter]
    have hq := hcount q
    constructor
    · rintro (hzero | ⟨-, heq⟩)
      · omega
      · simp only at heq
        omega
    · intro hzero
      by_cases hq' : count q = 0
      · exact .inl hq'
      · have hpos : 0 < (layer.flatMap below).count q := by omega
        exact .inr ⟨List.count_pos_iff.mp hpos, by simp only; omega⟩

/-- What the loop makes of the items from a layer on: every item is peeled once, no layer has a
pair in it, each member of a layer has an item above it in the layer before, and the first layer is
the given one. -/
structure Layered (R : ι → ι → Prop) (done layer : List ι) (fronts : List (List ι)) : Prop where
  nodup : (done ++ fronts.flatten).Nodup
  complete : ∀ q, q ∈ done ++ fronts.flatten
  apart : ∀ front ∈ fronts, ∀ p ∈ front, ∀ q ∈ front, ¬ R p q
  below : fronts.IsChain fun front next => ∀ q ∈ next, ∃ p ∈ front, R p q
  first : fronts.headD [] = layer

/-- No member of a layer is above another. -/
theorem Peeled.apart (h : Peeled R done count layer) {p q : ι} (hp : p ∈ layer) (hq : q ∈ layer) :
    ¬ R p q := by
  intro hR
  have hzero := (h.members q).1 (List.mem_append_right _ hq)
  rw [h.counts, Int.natCast_eq_zero, Finset.card_eq_zero] at hzero
  have hdone : p ∉ done := fun hp' => List.disjoint_of_nodup_append h.nodup hp' hp
  exact Finset.notMem_empty p (hzero ▸ mem_above.2 ⟨hR, hdone⟩)

/-- An empty layer comes last: an item that is not peeled would have an uppermost one above it. -/
theorem Peeled.complete [IsStrictOrder ι R] (h : Peeled R done count []) (q : ι) : q ∈ done := by
  induction q using (Finite.wellFounded_of_trans_of_irrefl R).induction with
  | _ q ih =>
    have hnone : above R done q = ∅ := by
      rw [Finset.eq_empty_iff_forall_notMem]
      intro p hp
      obtain ⟨hR, hdone⟩ := mem_above.1 hp
      exact hdone (ih p hR)
    have hzero : count q = 0 := by rw [h.counts, hnone, Finset.card_empty, Int.natCast_zero]
    simpa using (h.members q).2 hzero

/-- **Run.** With fuel for the items that are left, the loop returns their layers. -/
theorem layers_spec [IsStrictOrder ι R] (hbelow : Lists R below) {fuel : ℕ}
    (hfuel : Fintype.card ι - done.length < fuel) (h : Peeled R done count layer) :
    ∃ fronts, layers below fuel count layer = some fronts ∧ Layered R done layer fronts := by
  induction fuel generalizing done count layer with
  | zero => omega
  | succ fuel ih =>
    rw [layers]
    by_cases hempty : layer = []
    · subst hempty
      refine ⟨[], if_pos rfl, ?_⟩
      have hnodup := h.nodup
      have hcomplete := h.complete
      rw [List.append_nil] at hnodup
      refine ⟨?_, fun q => ?_, fun front hfront => (by cases hfront), .nil, rfl⟩
      · rwa [List.flatten_nil, List.append_nil]
      · rw [List.flatten_nil, List.append_nil]
        exact hcomplete q
    · obtain ⟨hpeeled, habove⟩ := h.pass hbelow
      have hlength := h.nodup.length_le_card
      have hpos := List.length_pos_of_ne_nil hempty
      have hfuel' : Fintype.card ι - (done ++ layer).length < fuel := by
        rw [List.length_append] at hlength ⊢
        omega
      obtain ⟨rest, hrest, hlayered⟩ := ih hfuel' hpeeled
      refine ⟨layer :: rest, ?_, ?_, fun q => ?_, ?_, ?_, rfl⟩
      · simp only [if_neg hempty, hrest, Option.map_some]
      · rw [List.flatten_cons, ← List.append_assoc]
        exact hlayered.nodup
      · rw [List.flatten_cons, ← List.append_assoc]
        exact hlayered.complete q
      · rintro front (_ | ⟨_, hfront⟩)
        · exact fun p hp q hq => h.apart hp hq
        · exact hlayered.apart front hfront
      · cases rest with
        | nil => exact .singleton layer
        | cons next rest =>
          have hfirst : next = _ := hlayered.first
          rw [List.isChain_cons_cons]
          exact ⟨hfirst ▸ habove, hlayered.below⟩

end Order

end AstroMine.Peeling
