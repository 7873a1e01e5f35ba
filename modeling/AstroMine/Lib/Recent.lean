import Mathlib.Data.List.DropRight

/-!
# Bounded queues

A queue that keeps the `n` entries appended last. Two such queues over one run of entries stay in
step when both append at every step; a queue that skips some entries reaches further back.

Results:
* `push_rtake`: an append keeps the queue at the last entries of the run.
* `rtake_append`: the last entries of two runs in a row.
-/

namespace AstroMine.Recent

variable {α : Type*}

/-- Append an entry to a queue of at most `n`, the oldest one dropped when there are more. -/
def push (n : ℕ) (queue : List α) (x : α) : List α := (queue ++ [x]).rtake n

theorem length_rtake (n : ℕ) (xs : List α) : (xs.rtake n).length = min n xs.length := by
  rw [List.rtake, List.length_drop]
  omega

/-- A run is what has left the queue and what is in it. -/
theorem rdrop_append_rtake (n : ℕ) (xs : List α) : xs.rdrop n ++ xs.rtake n = xs :=
  List.take_append_drop _ _

/-- The last entries of two runs in a row: the later run, and of the earlier one what there is still
room for. -/
theorem rtake_append {n : ℕ} (xs : List α) {ys : List α} (h : ys.length ≤ n) :
    (xs ++ ys).rtake n = xs.rtake (n - ys.length) ++ ys := by
  have hle : (xs ++ ys).length - n ≤ xs.length := by
    rw [List.length_append]
    omega
  rw [List.rtake, List.drop_append_of_le_length hle, List.rtake, List.length_append]
  congr 2
  omega

/-- A later run that is long enough fills the queue by itself. -/
theorem rtake_append_right {n : ℕ} (xs : List α) {ys : List α} (h : n ≤ ys.length) :
    (xs ++ ys).rtake n = ys.rtake n := by
  rw [List.rtake, List.length_append, Nat.add_sub_assoc h, List.drop_length_add_append, List.rtake]

/-- A queue does not miss the entries it has dropped. -/
theorem rtake_rtake_append (n : ℕ) (xs ys : List α) :
    (xs.rtake n ++ ys).rtake n = (xs ++ ys).rtake n := by
  rcases le_total ys.length n with h | h
  · rw [rtake_append _ h, rtake_append _ h, List.rtake_eq_reverse_take_reverse,
      List.rtake_eq_reverse_take_reverse, List.rtake_eq_reverse_take_reverse, List.reverse_reverse,
      List.take_take, Nat.min_eq_left (Nat.sub_le _ _)]
  · rw [rtake_append_right _ h, rtake_append_right _ h]

/-- **Step.** The queue after one more entry holds the last entries of the longer run. -/
theorem push_rtake (n : ℕ) (xs : List α) (x : α) : push n (xs.rtake n) x = (xs ++ [x]).rtake n :=
  rtake_rtake_append n xs [x]

end AstroMine.Recent
