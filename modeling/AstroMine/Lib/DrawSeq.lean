import Mathlib.Data.List.Basic

/-!
# One stream of draws

Items take what a generator gives, one after the other. What an item gets is decided by the state
of the generator and by how many items came before it.

Results:
* `getElem?_drawAll`: what the item at a place gets.
* `alike_iff`: two lists of items get the same for each common item exactly if the draws at its two
  places agree.
-/

namespace AstroMine.DrawSeq

variable {γ β κ : Type}

/-- The state of the generator after so many draws. -/
def stateAt (draw : γ → β × γ) (g : γ) : ℕ → γ
  | 0 => g
  | n + 1 => stateAt draw (draw g).2 n

/-- The draw after so many others. -/
def nth (draw : γ → β × γ) (g : γ) (n : ℕ) : β := (draw (stateAt draw g n)).1

/-- What the items get. -/
def drawAll (draw : γ → β × γ) (g : γ) : List κ → List (κ × β)
  | [] => []
  | k :: ks => (k, (draw g).1) :: drawAll draw (draw g).2 ks

/-- Each common item gets the same in both. -/
def Alike (xs ys : List (κ × β)) : Prop :=
  ∀ k b b', (k, b) ∈ xs → (k, b') ∈ ys → b = b'

variable {draw : γ → β × γ}

theorem drawAll_append (g : γ) (ks ks' : List κ) :
    drawAll draw g (ks ++ ks') =
      drawAll draw g ks ++ drawAll draw (stateAt draw g ks.length) ks' := by
  induction ks generalizing g with
  | nil => rfl
  | cons k ks ih =>
    rw [List.cons_append, drawAll, ih]
    rfl

theorem getElem?_drawAll (g : γ) (ks : List κ) (i : ℕ) :
    (drawAll draw g ks)[i]? = ks[i]?.map fun k => (k, nth draw g i) := by
  induction ks generalizing g i with
  | nil => rfl
  | cons k ks ih =>
    cases i with
    | zero => rfl
    | succ i =>
      rw [drawAll, List.getElem?_cons_succ, List.getElem?_cons_succ, ih]
      rfl

theorem mem_drawAll {g : γ} {ks : List κ} {k : κ} {b : β} :
    (k, b) ∈ drawAll draw g ks ↔ ∃ i : ℕ, ks[i]? = some k ∧ nth draw g i = b := by
  rw [List.mem_iff_getElem?]
  simp only [getElem?_drawAll, Option.map_eq_some_iff, Prod.mk.injEq]
  constructor
  · rintro ⟨i, k', hk, rfl, hb⟩
    exact ⟨i, hk, hb⟩
  · rintro ⟨i, hk, hb⟩
    exact ⟨i, k, hk, rfl, hb⟩

/-- **Spec.** -/
theorem alike_iff (g g' : γ) (ks ks' : List κ) :
    Alike (drawAll draw g ks) (drawAll draw g' ks') ↔
      ∀ (i j : ℕ) (k : κ), ks[i]? = some k → ks'[j]? = some k → nth draw g i = nth draw g' j := by
  constructor
  · intro h i j k hi hj
    exact h k _ _ (mem_drawAll.2 ⟨i, hi, rfl⟩) (mem_drawAll.2 ⟨j, hj, rfl⟩)
  · intro h k b b' hb hb'
    obtain ⟨i, hi, rfl⟩ := mem_drawAll.1 hb
    obtain ⟨j, hj, rfl⟩ := mem_drawAll.1 hb'
    exact h i j k hi hj

end AstroMine.DrawSeq
