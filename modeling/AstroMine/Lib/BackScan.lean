import Mathlib.Data.List.Basic

/-!
# Backward scans

A recursion that runs over a list from its end: `step` takes the state behind an element to the one
before it, and each element puts out a value that depends on the state behind it.

Results:
* `backScan_append`: a scan is cut where the list is.
* `backScan_flatten_cons`: when the scan of joined pieces puts out what the pieces do alone.
* `zipWith_flatten`: joined lists are combined piece by piece.
-/

namespace AstroMine

variable {α β σ : Type} (step : α → σ → σ) (out : α → σ → β)

/-- The values put out by a list with a state behind it. -/
def backScan : List α → σ → List β
  | [], _ => []
  | x :: xs, s => out x (xs.foldr step s) :: backScan xs s

theorem length_backScan (xs : List α) (s : σ) : (backScan step out xs s).length = xs.length := by
  induction xs with
  | nil => rfl
  | cons x xs ih => rw [backScan, List.length_cons, ih, List.length_cons]

/-- A scan is cut where the list is: the second part is behind the first. -/
theorem backScan_append (xs ys : List α) (s : σ) :
    backScan step out (xs ++ ys) s =
      backScan step out xs (ys.foldr step s) ++ backScan step out ys s := by
  induction xs with
  | nil => rfl
  | cons x xs ih => rw [List.cons_append, backScan, backScan, ih, List.foldr_append,
      List.cons_append]

/-- Joined pieces put out what they do alone if the first one does so in front of the others, and
these do. -/
theorem backScan_flatten_cons (piece : List α) (pieces : List (List α)) (s : σ) :
    backScan step out (piece :: pieces).flatten s =
        ((piece :: pieces).map fun xs => backScan step out xs s).flatten ↔
      backScan step out piece (pieces.flatten.foldr step s) = backScan step out piece s ∧
        backScan step out pieces.flatten s =
          (pieces.map fun xs => backScan step out xs s).flatten := by
  rw [List.flatten_cons, backScan_append, List.map_cons, List.flatten_cons]
  refine ⟨fun h => List.append_inj h ?_, fun ⟨hfirst, hrest⟩ => by rw [hfirst, hrest]⟩
  rw [length_backScan, length_backScan]

/-- Two lists that are joined from pieces of the same lengths are combined piece by piece. -/
theorem zipWith_flatten {γ δ ε : Type} (f : γ → δ → ε) (left : α → List γ) (right : α → List δ)
    (pieces : List α) (hlength : ∀ piece ∈ pieces, (left piece).length = (right piece).length) :
    List.zipWith f (pieces.map left).flatten (pieces.map right).flatten =
      (pieces.map fun piece => List.zipWith f (left piece) (right piece)).flatten := by
  induction pieces with
  | nil => rfl
  | cons piece pieces ih =>
    simp only [List.map_cons, List.flatten_cons]
    rw [List.zipWith_append (hlength piece List.mem_cons_self),
      ih fun p hp => hlength p (List.mem_cons_of_mem _ hp)]

end AstroMine
