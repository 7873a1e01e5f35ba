import Mathlib.Data.List.Basic

/-!
# Deletion filtering

`filterLoop` drops, one after the other, the elements without which the rest is still infeasible by
the verdict of an oracle. The oracle may leave a trial open, and then the element stays.

Results:
* `filterLoop_infeasible`: what is left is infeasible.
* `filterLoop_irreducible`: when no trial is left open, it is no longer so without any one element.
-/

namespace AstroMine.DeletionFilter

variable {α : Type*} [DecidableEq α]

/-! ## The loop -/

/-- What a bounded solve says of a set of constraints. -/
inductive Verdict where
  | infeasible | feasible | unknown
  deriving DecidableEq, Repr

/-- The set without one element. -/
def without (s : List α) (x : α) : List α := s.filter fun y => y ≠ x

/-- The loop over the elements to examine; it stops when an element is the only one left. -/
def filterLoop (solve : List α → Verdict) : List α → List α → List α
  | [], surviving => surviving
  | x :: xs, surviving =>
    let trial := without surviving x
    if trial = [] then surviving
    else if solve trial = .infeasible then filterLoop solve xs trial
    else filterLoop solve xs surviving

/-- The sets the loop asks about. -/
def trials (solve : List α → Verdict) : List α → List α → List (List α)
  | [], _ => []
  | x :: xs, surviving =>
    let trial := without surviving x
    if trial = [] then []
    else if solve trial = .infeasible then trial :: trials solve xs trial
    else trial :: trials solve xs surviving

/-! ## Sets without an element -/

theorem mem_without {s : List α} {x y : α} : y ∈ without s x ↔ y ∈ s ∧ y ≠ x := by
  rw [without, List.mem_filter, decide_eq_true_eq]

theorem without_sublist (s : List α) (x : α) : (without s x).Sublist s := List.filter_sublist

theorem without_subset_without {s t : List α} (h : s ⊆ t) (x : α) : without s x ⊆ without t x := by
  intro y hy
  rw [mem_without] at hy ⊢
  exact ⟨h hy.1, hy.2⟩

/-- Nothing is left of a set without one of its elements only when the others are that element. -/
theorem eq_of_without_eq_nil {s : List α} {x y : α} (h : without s x = []) (hy : y ∈ s) : y = x := by
  by_contra hne
  have hmem : y ∈ without s x := mem_without.2 ⟨hy, hne⟩
  rw [h] at hmem
  cases hmem

/-! ## What is left -/

/-- Sets with more elements are infeasible when a set is. -/
def MonotoneSet (Infeasible : List α → Prop) : Prop :=
  ∀ s t : List α, s ⊆ t → Infeasible s → Infeasible t

/-- The verdicts of an oracle are right. -/
structure Sound (Infeasible : List α → Prop) (solve : List α → Verdict) : Prop where
  infeasible : ∀ s, solve s = .infeasible → Infeasible s
  feasible : ∀ s, solve s = .feasible → ¬ Infeasible s

/-- No single element can be left out. -/
def Irreducible (Infeasible : List α → Prop) (s : List α) : Prop :=
  ∀ x ∈ s, ¬ Infeasible (without s x)

variable {Infeasible : List α → Prop} {solve : List α → Verdict}

theorem filterLoop_sublist (solve : List α → Verdict) (xs surviving : List α) :
    (filterLoop solve xs surviving).Sublist surviving := by
  induction xs generalizing surviving with
  | nil => exact List.Sublist.refl _
  | cons x xs ih =>
    rw [filterLoop]
    split_ifs with hnil hinf
    · exact List.Sublist.refl _
    · exact (ih _).trans (without_sublist surviving x)
    · exact ih surviving

/-- The loop asks at most once for every element. -/
theorem length_trials_le (solve : List α → Verdict) (xs surviving : List α) :
    (trials solve xs surviving).length ≤ xs.length := by
  induction xs generalizing surviving with
  | nil => exact Nat.le_refl _
  | cons x xs ih =>
    rw [trials]
    split_ifs with hnil hinf
    · exact Nat.zero_le _
    · exact Nat.succ_le_succ (ih _)
    · exact Nat.succ_le_succ (ih _)

/-- **Run.** What is left is infeasible. -/
theorem filterLoop_infeasible (hsound : Sound Infeasible solve) (xs : List α) {surviving : List α}
    (h : Infeasible surviving) : Infeasible (filterLoop solve xs surviving) := by
  induction xs generalizing surviving with
  | nil => exact h
  | cons x xs ih =>
    rw [filterLoop]
    split_ifs with hnil hinf
    · exact h
    · exact ih (hsound.infeasible _ hinf)
    · exact ih h

omit [DecidableEq α] in
/-- An oracle that decides has found a trial feasible when it has not found it infeasible. -/
theorem not_infeasible_of_decided (hsound : Sound Infeasible solve) {s : List α}
    (hdecided : solve s ≠ .unknown) (hne : solve s ≠ .infeasible) : ¬ Infeasible s := by
  refine hsound.feasible s ?_
  cases hs : solve s with
  | infeasible => exact absurd hs hne
  | feasible => rfl
  | unknown => exact absurd hs hdecided

/-- **Run.** Every element that has been examined is needed, also by the smaller sets of later
    rounds. So when all are examined and no trial is left open, all that are left are needed. -/
theorem filterLoop_irreducible (hmono : MonotoneSet Infeasible) (hsound : Sound Infeasible solve)
    (hempty : ¬ Infeasible []) {xs surviving : List α}
    (hdecided : ∀ s ∈ trials solve xs surviving, solve s ≠ .unknown)
    (hneeded : ∀ x ∈ surviving, x ∈ xs ∨ ¬ Infeasible (without surviving x)) :
    Irreducible Infeasible (filterLoop solve xs surviving) := by
  induction xs generalizing surviving with
  | nil => exact fun x hx => (hneeded x hx).resolve_left List.not_mem_nil
  | cons x xs ih =>
    rw [trials] at hdecided
    rw [filterLoop]
    split_ifs with hnil hinf
    · intro y hy
      rw [eq_of_without_eq_nil hnil hy, hnil]
      exact hempty
    · rw [if_neg hnil, if_pos hinf] at hdecided
      refine ih (fun s hs => hdecided s (List.mem_cons_of_mem _ hs)) fun y hy => ?_
      obtain ⟨hy, hyx⟩ := mem_without.1 hy
      rcases hneeded y hy with hmem | hfeasible
      · exact .inl ((List.mem_cons.mp hmem).resolve_left hyx)
      · refine .inr fun hinf' => hfeasible (hmono _ _ ?_ hinf')
        exact without_subset_without (without_sublist surviving x).subset y
    · rw [if_neg hnil, if_neg hinf] at hdecided
      refine ih (fun s hs => hdecided s (List.mem_cons_of_mem _ hs)) fun y hy => ?_
      by_cases hyx : y = x
      · subst hyx
        exact .inr (not_infeasible_of_decided hsound (hdecided _ List.mem_cons_self) hinf)
      · exact (hneeded y hy).imp_left fun hmem => (List.mem_cons.mp hmem).resolve_left hyx

end AstroMine.DeletionFilter
