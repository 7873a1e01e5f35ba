import Mathlib.Data.List.Basic
import Mathlib.Data.List.Induction
import Mathlib.Order.Basic

/-!
# Runs of a system that takes one action at a time

`step s a` is the state after the action `a`, or `none` where `a` cannot be taken. A run takes the
actions of a list in order, so that an interleaving of several parties is one list of actions.

Results:
* `run_append`: a run in two halves.
* `run_invariant`: what every action keeps holds in every state that is reached.
* `run_le`: a value that no action moves down is not moved down by a run.
* `foldl_invariant_iff`: where actions can always be taken, an invariant that an action keeps
  exactly if it is `ok` holds throughout exactly if every action of the run is.
-/

namespace AstroMine.Transition

variable {σ α : Type*} (step : σ → α → Option σ)

/-- The state after the actions taken in order; `none` if one of them cannot be taken. -/
def run (s : σ) : List α → Option σ
  | [] => some s
  | a :: as => (step s a).bind fun t => run t as

/-- Every action is `ok` in the state it is taken in. -/
def Always (ok : σ → α → Prop) (s : σ) : List α → Prop
  | [] => True
  | a :: as => ok s a ∧ ∀ t, step s a = some t → Always ok t as

variable {step} {s t : σ} {a : α} {as bs : List α}

@[simp]
theorem run_nil : run step s [] = some s := rfl

theorem run_cons_eq_some :
    run step s (a :: as) = some t ↔ ∃ m, step s a = some m ∧ run step m as = some t :=
  Option.bind_eq_some_iff

theorem run_append : run step s (as ++ bs) = (run step s as).bind fun m => run step m bs := by
  induction as generalizing s with
  | nil => rfl
  | cons a as ih =>
    simp only [List.cons_append, run]
    cases step s a with
    | none => rfl
    | some m => exact ih

/-- **Invariant rule.** What every action that is `ok` keeps holds in every state reached by
actions that are. -/
theorem run_invariant_of_always {ok : σ → α → Prop} (I : σ → Prop)
    (hstep : ∀ s a t, I s → ok s a → step s a = some t → I t) (hs : I s)
    (hok : Always step ok s as) (h : run step s as = some t) : I t := by
  induction as generalizing s with
  | nil => exact Option.some.inj h ▸ hs
  | cons a as ih =>
    obtain ⟨m, ha, hm⟩ := run_cons_eq_some.1 h
    exact ih (hstep s a m hs hok.1 ha) (hok.2 m ha) hm

theorem run_invariant (I : σ → Prop) (hstep : ∀ s a t, I s → step s a = some t → I t) (hs : I s)
    (h : run step s as = some t) : I t := by
  induction as generalizing s with
  | nil => exact Option.some.inj h ▸ hs
  | cons a as ih =>
    obtain ⟨m, ha, hm⟩ := run_cons_eq_some.1 h
    exact ih (hstep s a m hs ha) hm

/-- **Monotone rule.** A value that no action moves down is not moved down by a run. -/
theorem run_le {β : Type*} [Preorder β] (f : σ → β)
    (hstep : ∀ s a t, step s a = some t → f s ≤ f t) (h : run step s as = some t) : f s ≤ f t := by
  induction as generalizing s with
  | nil => exact (congrArg f (Option.some.inj h)).le
  | cons a as ih =>
    obtain ⟨m, ha, hm⟩ := run_cons_eq_some.1 h
    exact (hstep s a m ha).trans (ih hm)

/-- **Exact rule.** `W` is kept by every action, and `I` by those that are `ok` and by no others;
then `I` holds in every state that is reached exactly if every action is `ok`. -/
theorem foldl_invariant_iff {next : σ → α → σ} {W I : σ → Prop} {ok : σ → α → Prop}
    (hW : ∀ s a, W s → W (next s a)) (hI : ∀ s a, W s → I s → (I (next s a) ↔ ok s a))
    (hWs : W s) (hIs : I s) :
    (∀ done, done <+: as → I (done.foldl next s)) ↔
      ∀ done a, done ++ [a] <+: as → ok (done.foldl next s) a := by
  have hkeep (done : List α) : W (done.foldl next s) := by
    induction done using List.reverseRecOn with
    | nil => exact hWs
    | append_singleton done a ih =>
      rw [List.foldl_append]
      exact hW _ a ih
  constructor
  · intro h done a hpre
    have hbefore := h done ((List.prefix_append done [a]).trans hpre)
    have hafter := h (done ++ [a]) hpre
    rw [List.foldl_append] at hafter
    exact (hI _ a (hkeep done) hbefore).mp hafter
  · intro h done hpre
    induction done using List.reverseRecOn with
    | nil => exact hIs
    | append_singleton done a ih =>
      rw [List.foldl_append]
      have hbefore := ih ((List.prefix_append done [a]).trans hpre)
      exact (hI _ a (hkeep done) hbefore).mpr (h done a hpre)

end AstroMine.Transition
