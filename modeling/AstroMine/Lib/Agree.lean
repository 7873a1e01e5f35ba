import Mathlib.Tactic.Common

/-!
# Two runs of one computation

A computation that may fail takes a state and returns one beside its result. Two runs of it agree
when they fail alike, or give the same result and states that are still related.

Results:
* `Agree.bind`, `Agree.bind_same`: agreement of a sequence from that of its parts.
* `Agree.map_snd`: runs that agree show the same.
* `runAll_invariant`: what every step of a loop keeps holds after it.
-/

namespace AstroMine

variable {ε σ σ' α β γ : Type}

/-- Both fail alike, or both return the same result beside related states. -/
inductive Agree (R : σ → σ → Prop) : Except ε (σ × β) → Except ε (σ × β) → Prop
  | ok {s s' : σ} (b : β) (h : R s s') : Agree R (.ok (s, b)) (.ok (s', b))
  | error (e : ε) : Agree R (.error e) (.error e)

variable {R : σ → σ → Prop} {R' : σ' → σ' → Prop}

theorem Agree.refl (hR : ∀ s, R s s) (x : Except ε (σ × β)) : Agree R x x := by
  cases x with
  | error e => exact .error e
  | ok r => exact .ok r.2 (hR r.1)

/-- Runs that agree show the same. -/
theorem Agree.map_snd {x y : Except ε (σ × β)} (h : Agree R x y) :
    x.map Prod.snd = y.map Prod.snd := by
  cases h with
  | ok b h => rfl
  | error e => rfl

/-- A sequence agrees where its second parts do, after the results of the first. -/
theorem Agree.bind_of_eq {x y : Except ε (σ × β)} {f g : σ × β → Except ε (σ' × γ)}
    (h : Agree R x y)
    (hfg : ∀ s s' b, x = .ok (s, b) → R s s' → Agree R' (f (s, b)) (g (s', b))) :
    Agree R' (x >>= f) (y >>= g) := by
  cases h with
  | ok b h => exact hfg _ _ b rfl h
  | error e => exact .error e

theorem Agree.bind {x y : Except ε (σ × β)} {f g : σ × β → Except ε (σ' × γ)} (h : Agree R x y)
    (hfg : ∀ s s' b, R s s' → Agree R' (f (s, b)) (g (s', b))) :
    Agree R' (x >>= f) (y >>= g) :=
  h.bind_of_eq fun s s' b _ => hfg s s' b

/-- A first part that does not look at the state. -/
theorem Agree.bind_same {x : Except ε α} {f g : α → Except ε (σ × β)}
    (hfg : ∀ a, Agree R (f a) (g a)) : Agree R (x >>= f) (x >>= g) := by
  cases x with
  | error e => exact .error e
  | ok a => exact hfg a

/-! ## A loop -/

/-- The steps of a list in order, with their results. -/
def runAll (step : σ → α → Except ε (σ × β)) : σ → List α → Except ε (σ × List β)
  | s, [] => .ok (s, [])
  | s, a :: as => do
    let (s, b) ← step s a
    let (s, bs) ← runAll step s as
    return (s, b :: bs)

theorem runAll_cons_eq_ok {step : σ → α → Except ε (σ × β)} {s t : σ} {a : α} {as : List α}
    {bs : List β} (h : runAll step s (a :: as) = .ok (t, bs)) :
    ∃ m b bs', step s a = .ok (m, b) ∧ runAll step m as = .ok (t, bs') ∧ bs = b :: bs' := by
  unfold runAll at h
  cases hstep : step s a with
  | error e =>
    rw [hstep] at h
    cases h
  | ok r =>
    rw [hstep] at h
    cases hrest : runAll step r.1 as with
    | error e =>
      simp only [bind, Except.bind, hrest] at h
      cases h
    | ok r' =>
      simp only [bind, Except.bind, hrest] at h
      cases h
      exact ⟨r.1, r.2, r'.2, rfl, hrest, rfl⟩

/-- What every step keeps holds after the loop. -/
theorem runAll_invariant {step : σ → α → Except ε (σ × β)} (I : σ → Prop)
    (hstep : ∀ s a t b, I s → step s a = .ok (t, b) → I t) {s t : σ} {as : List α} {bs : List β}
    (hs : I s) (h : runAll step s as = .ok (t, bs)) : I t := by
  induction as generalizing s bs with
  | nil =>
    cases h
    exact hs
  | cons a as ih =>
    obtain ⟨m, b, bs', ha, has, -⟩ := runAll_cons_eq_ok h
    exact ih (hstep s a m b hs ha) has

end AstroMine
