import Mathlib.Data.Prod.Lex
import Mathlib.Algebra.Order.Group.Defs
import Mathlib.Data.List.Chain
import Mathlib.Data.List.Pairwise
import AstroMine.Lib.Dict

/-!
# Intervals on one machine

An interval is a pair of its start and its end. A list of intervals fits on one machine when, in
the order of start and then end, each ends before the next one starts, up to a tolerance.

Results:
* `isChain_sorted_iff_pairwise_apart`: comparing neighbours of the sorted list compares every two
  intervals.
* `apart_of_sequence`, `apart_of_either`: intervals that follow each other in some sequence are
  apart.
* `pairwise_of_sequence`: in a sequence of intervals every two follow each other.
-/

namespace AstroMine.Intervals

variable {K : Type*} [AddCommGroup K] [LinearOrder K] [IsOrderedAddMonoid K]

/-- The first of two intervals, by start and then end, ends before the other one starts. -/
def Apart (tol : K) (x y : K × K) : Prop :=
  (toLex x ≤ toLex y → x.2 ≤ y.1 + tol) ∧ (toLex y ≤ toLex x → y.2 ≤ x.1 + tol)

omit [IsOrderedAddMonoid K] in
theorem Apart.symm {tol : K} {x y : K × K} (h : Apart tol x y) : Apart tol y x := ⟨h.2, h.1⟩

omit [AddCommGroup K] [IsOrderedAddMonoid K] in
theorem start_le_of_toLex_le {x y : K × K} (h : toLex x ≤ toLex y) : x.1 ≤ y.1 := by
  rcases Prod.Lex.toLex_le_toLex.mp h with h | h
  · exact h.le
  · exact h.1.le

/-- Up to `tol` the end of each interval is at most the start of every later one. -/
theorem pairwise_of_isChain {tol : K} {l : List (K × K)}
    (hs : l.Pairwise fun x y => x.1 ≤ y.1) (hc : l.IsChain fun x y => x.2 ≤ y.1 + tol) :
    l.Pairwise fun x y => x.2 ≤ y.1 + tol := by
  induction l with
  | nil => exact List.Pairwise.nil
  | cons x l ih =>
    have hs' := List.pairwise_cons.mp hs
    refine List.pairwise_cons.mpr ⟨?_, ih hs'.2 hc.of_cons⟩
    cases l with
    | nil => simp
    | cons y l =>
      intro z hz
      have hxy : x.2 ≤ y.1 + tol := (List.isChain_cons_cons.mp hc).1
      rcases List.mem_cons.mp hz with rfl | hz
      · exact hxy
      · have hyz : y.1 ≤ z.1 := (List.pairwise_cons.mp hs'.2).1 z hz
        exact hxy.trans (add_le_add hyz le_rfl)

/-- Comparing neighbours of the sorted list compares every two intervals. -/
theorem isChain_sorted_iff_pairwise_apart (tol : K) (l : List (K × K)) :
    ((sortOn toLex l).IsChain fun x y => x.2 ≤ y.1 + tol) ↔ l.Pairwise (Apart tol) := by
  have hsorted := sortOn_pairwise (κ := K ×ₗ K) toLex l
  have hstart : (sortOn toLex l).Pairwise fun x y => x.1 ≤ y.1 :=
    hsorted.imp fun h => start_le_of_toLex_le h
  rw [← (sortOn_perm (κ := K ×ₗ K) toLex l).pairwise_iff fun h => Apart.symm h]
  constructor
  · intro hc
    refine (hsorted.and (pairwise_of_isChain hstart hc)).imp ?_
    rintro x y ⟨hxy, hend⟩
    refine ⟨fun _ => hend, fun hyx => ?_⟩
    obtain rfl : x = y := toLex_inj.mp (le_antisymm hxy hyx)
    exact hend
  · intro hp
    refine ((hsorted.and hp).imp ?_).isChain
    rintro x y ⟨hxy, hap⟩
    exact hap.1 hxy

/-- Intervals that follow each other in some sequence are apart. -/
theorem apart_of_sequence {tol : K} (htol : 0 ≤ tol) {x y : K × K} (hx : x.1 ≤ x.2)
    (h : x.2 ≤ y.1) : Apart tol x y := by
  refine ⟨fun _ => h.trans (le_add_of_nonneg_right htol), fun hyx => ?_⟩
  have hyx1 : y.1 ≤ x.1 := start_le_of_toLex_le hyx
  -- both start at the end of `x`, so `y`, which is not the longer one, is a point
  have hstart : x.1 = y.1 := le_antisymm (hx.trans h) hyx1
  have hend : y.2 ≤ x.2 := by
    rcases Prod.Lex.toLex_le_toLex.mp hyx with hlt | ⟨-, hle⟩
    · exact absurd hlt (by simp [hstart])
    · exact hle
  calc y.2 ≤ x.2 := hend
    _ ≤ y.1 := h
    _ = x.1 := hstart.symm
    _ ≤ x.1 + tol := le_add_of_nonneg_right htol

/-- Two intervals of which either follows the other are apart. -/
theorem apart_of_either {tol : K} (htol : 0 ≤ tol) {x y : K × K} (hx : x.1 ≤ x.2) (hy : y.1 ≤ y.2)
    (h : x.2 ≤ y.1 ∨ y.2 ≤ x.1) : Apart tol x y := by
  rcases h with hxy | hyx
  · exact apart_of_sequence htol hx hxy
  · exact (apart_of_sequence htol hy hyx).symm

/-- In a sequence of intervals every two follow each other. -/
theorem pairwise_of_sequence {l sequence : List (K × K)} (hperm : sequence.Perm l)
    (hchain : sequence.IsChain fun x y => x.2 ≤ y.1) (hsize : ∀ x ∈ l, x.1 ≤ x.2) :
    l.Pairwise fun x y => x.2 ≤ y.1 ∨ y.2 ≤ x.1 := by
  have : IsTrans (K × K) fun x y => x.1 ≤ y.1 := ⟨fun _ _ _ hxy hyz => hxy.trans hyz⟩
  have hstarts : sequence.IsChain fun x y => x.1 ≤ y.1 :=
    hchain.imp_of_mem_imp fun _ _ hx _ hxy => (hsize _ (hperm.mem_iff.mp hx)).trans hxy
  have hpair : sequence.Pairwise fun x y => x.2 ≤ y.1 + 0 :=
    pairwise_of_isChain (List.isChain_iff_pairwise.mp hstarts) (by simpa using hchain)
  refine (hperm.pairwise_iff Or.symm).mp (hpair.imp fun hxy => .inl ?_)
  rwa [add_zero] at hxy

end AstroMine.Intervals
