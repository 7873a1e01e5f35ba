import Mathlib.Data.Finset.Max
import Mathlib.Data.Fintype.Basic

/-!
# The first least entry of a list

Results:
* `argmin_spec`: a nonempty list has a first least entry, and no key is below its key.
-/

namespace AstroMine

variable {α K : Type} [LinearOrder K]

/-- The index of the first entry with the least key (`np.argmin`, `min(range(..), key=..)`). -/
def argmin (key : α → K) (xs : List α) : ℕ := xs.findIdx fun x => ∀ y ∈ xs, key x ≤ key y

theorem exists_least (key : α → K) {xs : List α} (h : xs ≠ []) :
    ∃ x ∈ xs, ∀ y ∈ xs, key x ≤ key y := by
  classical
  obtain ⟨x, hx⟩ := List.exists_mem_of_ne_nil xs h
  obtain ⟨m, hm, hmin⟩ := xs.toFinset.exists_min_image key ⟨x, List.mem_toFinset.mpr hx⟩
  exact ⟨m, List.mem_toFinset.mp hm, fun y hy => hmin y (List.mem_toFinset.mpr hy)⟩

theorem argmin_spec (key : α → K) {xs : List α} (h : xs ≠ []) :
    ∃ hlt : argmin key xs < xs.length, ∀ y ∈ xs, key xs[argmin key xs] ≤ key y := by
  obtain ⟨x, hx, hmin⟩ := exists_least key h
  have hlt : argmin key xs < xs.length :=
    List.findIdx_lt_length_of_exists ⟨x, hx, decide_eq_true hmin⟩
  exact ⟨hlt, of_decide_eq_true (List.findIdx_getElem (w := hlt))⟩

end AstroMine
