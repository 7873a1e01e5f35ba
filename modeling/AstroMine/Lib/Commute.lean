import Mathlib.Data.List.Perm.Basic

/-!
# Runs whose steps commute

A list of items is processed one after the other; each item changes the state, reports something,
and may fail. When any two different items of the list commute, the order of the list does not
matter: every order ends in the same state, and each item reports the same.

Results:
* `runList_perm`: commuting steps give the same run in every order.
* `runList_invariant`, `runList_reports`: what every step preserves holds at the end of a run and
  at each of its reports.
-/

namespace AstroMine

variable {S α β ε : Type}

/-- The items one after the other, with what each of them reports. -/
def runList (step : S → α → Except ε (S × β)) : S → List α → Except ε (S × List (α × β))
  | s, [] => .ok (s, [])
  | s, a :: as => do
    let (s₁, x) ← step s a
    let (s₂, xs) ← runList step s₁ as
    .ok (s₂, (a, x) :: xs)

/-- From `s`, the item `b` may be moved before `a`: the reports and the last state stay. -/
def CommuteAt (step : S → α → Except ε (S × β)) (s : S) (a b : α) : Prop :=
  ∀ s₁ s₂ x y, step s a = .ok (s₁, x) → step s₁ b = .ok (s₂, y) →
    ∃ s₁', step s b = .ok (s₁', y) ∧ step s₁' a = .ok (s₂, x)

/-- Two outcomes that say the same: the same state, and the same reports in some order. -/
def SameOutcome (r r' : Except ε (S × List (α × β))) : Prop :=
  ∀ s xs, r = .ok (s, xs) → ∃ xs', r' = .ok (s, xs') ∧ xs.Perm xs'

variable {step : S → α → Except ε (S × β)}

theorem runList_cons_eq_ok {s s' : S} {a : α} {as : List α} {xs : List (α × β)} :
    runList step s (a :: as) = .ok (s', xs) ↔
      ∃ s₁ x ys, step s a = .ok (s₁, x) ∧ runList step s₁ as = .ok (s', ys) ∧
        xs = (a, x) :: ys := by
  rw [runList]
  cases h₁ : step s a with
  | error e => simp [bind, Except.bind]
  | ok p =>
    obtain ⟨s₁, x⟩ := p
    cases h₂ : runList step s₁ as with
    | error e => simp [bind, Except.bind, h₂]
    | ok q =>
      obtain ⟨s₂, ys⟩ := q
      simp [bind, Except.bind, h₂, eq_comm]

/-- What every step preserves holds at the end of a run. -/
theorem runList_invariant (inv : S → Prop) {as : List α}
    (hstep : ∀ a ∈ as, ∀ s s' x, inv s → step s a = .ok (s', x) → inv s') :
    ∀ s s' xs, inv s → runList step s as = .ok (s', xs) → inv s' := by
  induction as with
  | nil =>
    intro s s' xs hs h
    cases h
    exact hs
  | cons a as ih =>
    intro s s' xs hs h
    obtain ⟨s₁, x, ys, h₁, h₂, -⟩ := runList_cons_eq_ok.1 h
    have hs₁ := hstep a (by simp) s s₁ x hs h₁
    exact ih (fun b hb => hstep b (List.mem_cons_of_mem _ hb)) s₁ s' ys hs₁ h₂

/-- A run all of whose steps succeed succeeds. -/
theorem runList_exists (inv : S → Prop) {as : List α}
    (hstep : ∀ a ∈ as, ∀ s, inv s → ∃ s' x, step s a = .ok (s', x) ∧ inv s') :
    ∀ s, inv s → ∃ s' xs, runList step s as = .ok (s', xs) := by
  induction as with
  | nil => intro s _; exact ⟨s, [], rfl⟩
  | cons a as ih =>
    intro s hs
    obtain ⟨s₁, x, h₁, hs₁⟩ := hstep a (by simp) s hs
    obtain ⟨s', xs, h₂⟩ := ih (fun b hb => hstep b (List.mem_cons_of_mem _ hb)) s₁ hs₁
    exact ⟨s', _, runList_cons_eq_ok.2 ⟨s₁, x, xs, h₁, h₂, rfl⟩⟩

/-- Every report of a run is that of an item of the list, made from a state with the invariant. -/
theorem runList_reports (inv : S → Prop) {as : List α}
    (hstep : ∀ a ∈ as, ∀ s s' x, inv s → step s a = .ok (s', x) → inv s') :
    ∀ s s' xs, inv s → runList step s as = .ok (s', xs) →
      ∀ q ∈ xs, q.1 ∈ as ∧ ∃ t t', inv t ∧ step t q.1 = .ok (t', q.2) := by
  induction as with
  | nil =>
    intro s s' xs _ h
    cases h
    simp
  | cons a as ih =>
    intro s s' xs hs h q hq
    obtain ⟨s₁, x, ys, h₁, h₂, rfl⟩ := runList_cons_eq_ok.1 h
    have hs₁ := hstep a (by simp) s s₁ x hs h₁
    rcases List.mem_cons.mp hq with rfl | hq
    · exact ⟨by simp, s, s₁, hs, h₁⟩
    · obtain ⟨hm, ht⟩ := ih (fun b hb => hstep b (List.mem_cons_of_mem _ hb)) s₁ s' ys hs₁ h₂ q hq
      exact ⟨List.mem_cons_of_mem _ hm, ht⟩

/-- **Main theorem.** When any two different items commute, every order of the list gives the same
run. -/
theorem runList_perm (inv : S → Prop)
    (hinv : ∀ a s s' x, inv s → step s a = .ok (s', x) → inv s') {as bs : List α}
    (hp : as.Perm bs)
    (hcomm : ∀ a ∈ as, ∀ b ∈ as, a ≠ b → ∀ s, inv s → CommuteAt step s a b) :
    ∀ s, inv s → SameOutcome (runList step s as) (runList step s bs) := by
  induction hp with
  | nil => intro s _ s' xs h; exact ⟨xs, h, .refl _⟩
  | cons a hp ih =>
    intro s hs s' xs h
    obtain ⟨s₁, x, ys, h₁, h₂, rfl⟩ := runList_cons_eq_ok.1 h
    have htail := ih fun b hb c hc => hcomm b (List.mem_cons_of_mem _ hb) c
      (List.mem_cons_of_mem _ hc)
    obtain ⟨ys', h₂', hys⟩ := htail s₁ (hinv a s s₁ x hs h₁) s' ys h₂
    exact ⟨_, runList_cons_eq_ok.2 ⟨s₁, x, ys', h₁, h₂', rfl⟩, hys.cons _⟩
  | swap a b as =>
    intro s hs s' xs h
    obtain ⟨s₁, x, ys, h₁, hrest, rfl⟩ := runList_cons_eq_ok.1 h
    obtain ⟨s₂, y, zs, h₂, h₃, rfl⟩ := runList_cons_eq_ok.1 hrest
    by_cases hab : b = a
    · subst hab
      exact ⟨_, h, .refl _⟩
    · have hc := hcomm b (by simp) a (by simp) hab s hs
      obtain ⟨s₁', h₁', h₂'⟩ := hc s₁ s₂ x y h₁ h₂
      refine ⟨(a, y) :: (b, x) :: zs, ?_, .swap _ _ _⟩
      exact runList_cons_eq_ok.2 ⟨s₁', y, _, h₁',
        runList_cons_eq_ok.2 ⟨s₂, x, zs, h₂', h₃, rfl⟩, rfl⟩
  | trans hp hq ih ih' =>
    intro s hs s' xs h
    obtain ⟨ys, hy, hxy⟩ := ih hcomm s hs s' xs h
    have hcomm' := fun a ha b hb => hcomm a (hp.mem_iff.mpr ha) b (hp.mem_iff.mpr hb)
    obtain ⟨zs, hz, hyz⟩ := ih' hcomm' s hs s' ys hy
    exact ⟨zs, hz, hxy.trans hyz⟩

end AstroMine
