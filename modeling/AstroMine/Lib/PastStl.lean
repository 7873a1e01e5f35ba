import Mathlib.Data.Finset.Lattice.Fold
import Mathlib.Data.List.Fold
import Mathlib.Order.Interval.Finset.Nat

/-!
# Bounded past-time signal temporal logic

Formulas over atoms `A` and windows `I`, and their quantitative (robustness) semantics over a
discrete trace. A window is a decidable set of sample ages, given by `win : I → ℕ → Prop`; a
windowed operator ranges over the ages of its window that exist at the current tick. Robustness
lives in any bounded linear order `R` with a sign change `neg`.

Results:
* `sem_map`: renaming the atoms and windows commutes with the semantics.
* `sem_congr`: the robustness at `t` depends on the samples `0, …, t` only.
* `sem_shift`: it depends on the last `horizon + 1` samples only, however many came before.
* `sem_le_sem`: enlarging the windows of `always` in positive and of `eventually` and `until` in
  negative position, and shrinking the others, can only lower the robustness.
* `sem_le_succ`: on a constant trace the robustness never falls, unless such a window starts at
  age 1 or later.
-/

namespace AstroMine.PastStl

/-- Past-time STL formulas with atoms `A` and windows `I`. -/
inductive Formula (A I : Type) where
  | atom (a : A)
  | not (φ : Formula A I)
  | and (φs : List (Formula A I))
  | or (φs : List (Formula A I))
  | always (i : I) (φ : Formula A I)
  | eventually (i : I) (φ : Formula A I)
  | until (i : I) (φ ψ : Formula A I)

mutual

/-- `P` holds of every atom of a formula. -/
def AllAtoms {A I : Type} (P : A → Prop) : Formula A I → Prop
  | .atom a => P a
  | .not φ => AllAtoms P φ
  | .and φs => AllAtomss P φs
  | .or φs => AllAtomss P φs
  | .always _ φ => AllAtoms P φ
  | .eventually _ φ => AllAtoms P φ
  | .until _ φ ψ => AllAtoms P φ ∧ AllAtoms P ψ

/-- `P` holds of every atom of a list of formulas. -/
def AllAtomss {A I : Type} (P : A → Prop) : List (Formula A I) → Prop
  | [] => True
  | φ :: φs => AllAtoms P φ ∧ AllAtomss P φs

end

variable {A I R : Type}

/-! ## Renaming -/

section Map

variable {B J : Type} (f : A → B) (g : I → J)

mutual

/-- Rename the atoms and the windows of a formula. -/
def Formula.map : Formula A I → Formula B J
  | .atom a => .atom (f a)
  | .not φ => .not (Formula.map φ)
  | .and φs => .and (maps φs)
  | .or φs => .or (maps φs)
  | .always i φ => .always (g i) (Formula.map φ)
  | .eventually i φ => .eventually (g i) (Formula.map φ)
  | .until i φ ψ => .until (g i) (Formula.map φ) (Formula.map ψ)

/-- Rename the atoms and the windows of a list of formulas. -/
def maps : List (Formula A I) → List (Formula B J)
  | [] => []
  | φ :: φs => Formula.map φ :: maps φs

end

end Map

/-! ## Traces -/

/-- The samples of `s` back from `t` and of `s'` back from `u` agree up to age `n`. -/
def Agree (s s' : ℕ → A → R) (n t u : ℕ) : Prop :=
  ∀ k ≤ n, k ≤ t → k ≤ u → s (t - k) = s' (u - k)

theorem Agree.sub {s s' : ℕ → A → R} {n k m t u : ℕ} (h : Agree s s' n t u) (hk : k + m ≤ n)
    (ht : k ≤ t) (hu : k ≤ u) : Agree s s' m (t - k) (u - k) := by
  intro j hj hjt hju
  rw [Nat.sub_sub, Nat.sub_sub]
  exact h (k + j) (by omega) (by omega) (by omega)

theorem Agree.mono {s s' : ℕ → A → R} {m n t u : ℕ} (h : Agree s s' n t u) (hmn : m ≤ n) :
    Agree s s' m t u := fun k hk => h k (hk.trans hmn)

/-! ## Comparison at a polarity -/

section LeAt

variable [LinearOrder R]

/-- `a ≤ b` in positive position, `b ≤ a` in negative position. -/
def LeAt : Bool → R → R → Prop
  | true, a, b => a ≤ b
  | false, a, b => b ≤ a

theorem LeAt.min {pos : Bool} {a b c d : R} (h : LeAt pos a b) (h' : LeAt pos c d) :
    LeAt pos (min a c) (min b d) := by
  cases pos <;> exact min_le_min h h'

theorem LeAt.max {pos : Bool} {a b c d : R} (h : LeAt pos a b) (h' : LeAt pos c d) :
    LeAt pos (max a c) (max b d) := by
  cases pos <;> exact max_le_max h h'

theorem LeAt.antitone {pos : Bool} {a b : R} {f : R → R} (hf : Antitone f)
    (h : LeAt (!pos) a b) : LeAt pos (f a) (f b) := by
  cases pos <;> exact hf h

theorem LeAt.refl (pos : Bool) (a : R) : LeAt pos a a := by
  cases pos <;> exact le_rfl (a := a)

end LeAt

/-! ## Semantics -/

section Semantics

variable [LinearOrder R] [BoundedOrder R]

/-- The ages in the window `p` that exist at tick `t`. -/
def ages (p : ℕ → Prop) [DecidablePred p] (t : ℕ) : Finset ℕ :=
  (Finset.range (t + 1)).filter p

/-- Worst value over the ages of the window; `⊤` when there is none. -/
def alwaysWithin (p : ℕ → Prop) [DecidablePred p] (f : ℕ → R) (t : ℕ) : R :=
  (ages p t).inf fun k => f (t - k)

/-- Best value over the ages of the window; `⊥` when there is none. -/
def eventuallyWithin (p : ℕ → Prop) [DecidablePred p] (f : ℕ → R) (t : ℕ) : R :=
  (ages p t).sup fun k => f (t - k)

/-- `g` at some age of the window, and `f` at all the younger ages. -/
def untilWithin (p : ℕ → Prop) [DecidablePred p] (f g : ℕ → R) (t : ℕ) : R :=
  (ages p t).sup fun k => min (g (t - k)) ((Finset.range k).inf fun j => f (t - j))

mutual

/-- Robustness of a formula at a tick of the trace `s` (`s t a` is the margin of atom `a`). -/
def sem (neg : R → R) (win : I → ℕ → Prop) [∀ i, DecidablePred (win i)] (s : ℕ → A → R) :
    Formula A I → ℕ → R
  | .atom a, t => s t a
  | .not φ, t => neg (sem neg win s φ t)
  | .and φs, t => (sems neg win s φs t).foldr min ⊤
  | .or φs, t => (sems neg win s φs t).foldr max ⊥
  | .always i φ, t => alwaysWithin (win i) (sem neg win s φ) t
  | .eventually i φ, t => eventuallyWithin (win i) (sem neg win s φ) t
  | .until i φ ψ, t => untilWithin (win i) (sem neg win s φ) (sem neg win s ψ) t

/-- Robustness of each formula of a list. -/
def sems (neg : R → R) (win : I → ℕ → Prop) [∀ i, DecidablePred (win i)] (s : ℕ → A → R) :
    List (Formula A I) → ℕ → List R
  | [], _ => []
  | φ :: φs, t => sem neg win s φ t :: sems neg win s φs t

end

variable (neg : R → R) (win : I → ℕ → Prop) [∀ i, DecidablePred (win i)]

theorem sems_eq_map (s : ℕ → A → R) (φs : List (Formula A I)) (t : ℕ) :
    sems neg win s φs t = φs.map fun φ => sem neg win s φ t := by
  induction φs with
  | nil => rfl
  | cons φ φs ih => rw [sems, ih, List.map_cons]

theorem mem_ages {p : ℕ → Prop} [DecidablePred p] {t k : ℕ} : k ∈ ages p t ↔ k ≤ t ∧ p k := by
  rw [ages, Finset.mem_filter, Finset.mem_range, Nat.lt_succ_iff]

section Bounds

variable {p : ℕ → Prop} [DecidablePred p] {f g : ℕ → R} {t k : ℕ} {b : R}

theorem alwaysWithin_le (hk : k ∈ ages p t) : alwaysWithin p f t ≤ f (t - k) :=
  Finset.inf_le (f := fun k => f (t - k)) hk

theorem le_alwaysWithin (h : ∀ k ∈ ages p t, b ≤ f (t - k)) : b ≤ alwaysWithin p f t :=
  Finset.le_inf h

theorem le_eventuallyWithin (hk : k ∈ ages p t) : f (t - k) ≤ eventuallyWithin p f t :=
  Finset.le_sup (f := fun k => f (t - k)) hk

theorem eventuallyWithin_le (h : ∀ k ∈ ages p t, f (t - k) ≤ b) : eventuallyWithin p f t ≤ b :=
  Finset.sup_le h

theorem le_untilWithin (hk : k ∈ ages p t) (hg : b ≤ g (t - k)) (hf : ∀ j < k, b ≤ f (t - j)) :
    b ≤ untilWithin p f g t := by
  refine le_trans (le_min hg (Finset.le_inf fun j hj => hf j (Finset.mem_range.mp hj))) ?_
  exact Finset.le_sup (f := fun k => min (g (t - k)) ((Finset.range k).inf fun j => f (t - j))) hk

theorem untilWithin_le (h : ∀ k ∈ ages p t, g (t - k) ≤ b) : untilWithin p f g t ≤ b :=
  Finset.sup_le fun k hk => (min_le_left _ _).trans (h k hk)

end Bounds

/-- A running minimum over a list of ages. -/
theorem foldl_min_eq_inf (ks : List ℕ) (f : ℕ → R) :
    (ks.map f).foldl min ⊤ = ks.toFinset.inf f := by
  rw [List.foldl_eq_foldr]
  induction ks with
  | nil => rfl
  | cons k ks ih => rw [List.map_cons, List.foldr_cons, ih, List.toFinset_cons, Finset.inf_insert]

/-- A running maximum over a list of ages. -/
theorem foldl_max_eq_sup (ks : List ℕ) (f : ℕ → R) :
    (ks.map f).foldl max ⊥ = ks.toFinset.sup f := by
  rw [List.foldl_eq_foldr]
  induction ks with
  | nil => rfl
  | cons k ks ih => rw [List.map_cons, List.foldr_cons, ih, List.toFinset_cons, Finset.sup_insert]

section Map

variable {B J : Type} (f : A → B) (g : I → J) (win' : J → ℕ → Prop) [∀ j, DecidablePred (win' j)]

mutual

/-- A renamed formula means what the formula means through the renaming. -/
theorem sem_map (s : ℕ → B → R) : ∀ (φ : Formula A I) (t : ℕ),
    sem neg win' s (φ.map f g) t =
      sem neg (fun i => win' (g i)) (fun u a => s u (f a)) φ t
  | .atom a, t => rfl
  | .not φ, t => by
    simp only [Formula.map, sem]
    rw [sem_map s φ t]
  | .and φs, t => by
    simp only [Formula.map, sem]
    rw [sems_maps s φs t]
  | .or φs, t => by
    simp only [Formula.map, sem]
    rw [sems_maps s φs t]
  | .always i φ, t => by
    simp only [Formula.map, sem]
    rw [funext (sem_map s φ)]
  | .eventually i φ, t => by
    simp only [Formula.map, sem]
    rw [funext (sem_map s φ)]
  | .until i φ ψ, t => by
    simp only [Formula.map, sem]
    rw [funext (sem_map s φ), funext (sem_map s ψ)]

theorem sems_maps (s : ℕ → B → R) : ∀ (φs : List (Formula A I)) (t : ℕ),
    sems neg win' s (maps f g φs) t =
      sems neg (fun i => win' (g i)) (fun u a => s u (f a)) φs t
  | [], t => rfl
  | φ :: φs, t => by
    simp only [maps, sems]
    rw [sem_map s φ t, sems_maps s φs t]

end

end Map

/-! ## Dependence on the trace -/

theorem alwaysWithin_congr {p : ℕ → Prop} [DecidablePred p] {f g : ℕ → R} {t u : ℕ}
    (hages : ages p t = ages p u) (hfg : ∀ k ∈ ages p t, f (t - k) = g (u - k)) :
    alwaysWithin p f t = alwaysWithin p g u := by
  unfold alwaysWithin
  rw [← hages]
  exact Finset.inf_congr rfl hfg

theorem eventuallyWithin_congr {p : ℕ → Prop} [DecidablePred p] {f g : ℕ → R} {t u : ℕ}
    (hages : ages p t = ages p u) (hfg : ∀ k ∈ ages p t, f (t - k) = g (u - k)) :
    eventuallyWithin p f t = eventuallyWithin p g u := by
  unfold eventuallyWithin
  rw [← hages]
  exact Finset.sup_congr rfl hfg

theorem untilWithin_congr {p : ℕ → Prop} [DecidablePred p] {f g f' g' : ℕ → R} {t u : ℕ}
    (hages : ages p t = ages p u) (hg : ∀ k ∈ ages p t, g (t - k) = g' (u - k))
    (hf : ∀ k ∈ ages p t, ∀ j < k, f (t - j) = f' (u - j)) :
    untilWithin p f g t = untilWithin p f' g' u := by
  unfold untilWithin
  rw [← hages]
  refine Finset.sup_congr rfl fun k hk => ?_
  rw [hg k hk]
  congr 1
  exact Finset.inf_congr rfl fun j hj => hf k hk j (Finset.mem_range.mp hj)

mutual

/-- How many samples back a formula can look, when `hi` bounds its windows. -/
def horizon (hi : I → ℕ) : Formula A I → ℕ
  | .atom _ => 0
  | .not φ => horizon hi φ
  | .and φs => horizons hi φs
  | .or φs => horizons hi φs
  | .always i φ => hi i + horizon hi φ
  | .eventually i φ => hi i + horizon hi φ
  | .until i φ ψ => hi i + max (horizon hi φ) (horizon hi ψ)

/-- The largest horizon of a list of formulas. -/
def horizons (hi : I → ℕ) : List (Formula A I) → ℕ
  | [] => 0
  | φ :: φs => max (horizon hi φ) (horizons hi φs)

end

/-- Two ticks with at least the same ages, up to `n`: either the same tick or both past `n`. -/
def SameAges (n t u : ℕ) : Prop := t = u ∨ n ≤ t ∧ n ≤ u

theorem SameAges.mono {m n t u : ℕ} (h : SameAges n t u) (hmn : m ≤ n) : SameAges m t u := by
  unfold SameAges at *
  omega

theorem SameAges.sub {n k m t u : ℕ} (h : SameAges n t u) (hk : k + m ≤ n) :
    SameAges m (t - k) (u - k) := by
  unfold SameAges at *
  omega

theorem SameAges.ages_eq {n t u : ℕ} {p : ℕ → Prop} [DecidablePred p] (h : SameAges n t u)
    (hp : ∀ k, p k → k ≤ n) : ages p t = ages p u := by
  ext k
  simp only [mem_ages]
  unfold SameAges at h
  constructor
  · rintro ⟨hk, hpk⟩
    have := hp k hpk
    exact ⟨by omega, hpk⟩
  · rintro ⟨hk, hpk⟩
    have := hp k hpk
    exact ⟨by omega, hpk⟩

mutual

theorem sem_shift_aux {hi : I → ℕ} (hwin : ∀ i k, win i k → k ≤ hi i) (s s' : ℕ → A → R) :
    ∀ (φ : Formula A I) (t u : ℕ), SameAges (horizon hi φ) t u →
      Agree s s' (horizon hi φ) t u → sem neg win s φ t = sem neg win s' φ u
  | .atom a, t, u, _, hs => by
    have h0 := hs 0 (Nat.zero_le _) (Nat.zero_le _) (Nat.zero_le _)
    simp only [sem]
    exact congrFun h0 a
  | .not φ, t, u, ha, hs => by
    simp only [sem]
    rw [sem_shift_aux hwin s s' φ t u ha hs]
  | .and φs, t, u, ha, hs => by
    simp only [sem]
    rw [sems_shift_aux hwin s s' φs t u ha hs]
  | .or φs, t, u, ha, hs => by
    simp only [sem]
    rw [sems_shift_aux hwin s s' φs t u ha hs]
  | .always i φ, t, u, ha, hs => by
    simp only [sem, horizon] at ha hs ⊢
    have hages := ha.ages_eq (p := win i) fun k hk => (hwin i k hk).trans (Nat.le_add_right _ _)
    refine alwaysWithin_congr hages fun k hk => ?_
    obtain ⟨hkt, hik⟩ := mem_ages.1 hk
    obtain ⟨hku, -⟩ := mem_ages.1 (hages ▸ hk)
    have hkh := hwin i k hik
    exact sem_shift_aux hwin s s' φ _ _ (ha.sub (by omega)) (hs.sub (by omega) hkt hku)
  | .eventually i φ, t, u, ha, hs => by
    simp only [sem, horizon] at ha hs ⊢
    have hages := ha.ages_eq (p := win i) fun k hk => (hwin i k hk).trans (Nat.le_add_right _ _)
    refine eventuallyWithin_congr hages fun k hk => ?_
    obtain ⟨hkt, hik⟩ := mem_ages.1 hk
    obtain ⟨hku, -⟩ := mem_ages.1 (hages ▸ hk)
    have hkh := hwin i k hik
    exact sem_shift_aux hwin s s' φ _ _ (ha.sub (by omega)) (hs.sub (by omega) hkt hku)
  | .until i φ ψ, t, u, ha, hs => by
    simp only [sem, horizon] at ha hs ⊢
    have hages := ha.ages_eq (p := win i) fun k hk => (hwin i k hk).trans (Nat.le_add_right _ _)
    refine untilWithin_congr hages (fun k hk => ?_) fun k hk j hj => ?_
    all_goals
      obtain ⟨hkt, hik⟩ := mem_ages.1 hk
      obtain ⟨hku, -⟩ := mem_ages.1 (hages ▸ hk)
      have hkh := hwin i k hik
    · exact sem_shift_aux hwin s s' ψ _ _ (ha.sub (by omega)) (hs.sub (by omega) hkt hku)
    · exact sem_shift_aux hwin s s' φ _ _ (ha.sub (by omega))
        (hs.sub (by omega) (by omega) (by omega))

theorem sems_shift_aux {hi : I → ℕ} (hwin : ∀ i k, win i k → k ≤ hi i) (s s' : ℕ → A → R) :
    ∀ (φs : List (Formula A I)) (t u : ℕ), SameAges (horizons hi φs) t u →
      Agree s s' (horizons hi φs) t u → sems neg win s φs t = sems neg win s' φs u
  | [], _, _, _, _ => rfl
  | φ :: φs, t, u, ha, hs => by
    simp only [sems, horizons] at ha hs ⊢
    rw [sem_shift_aux hwin s s' φ t u (ha.mono (le_max_left _ _)) (hs.mono (le_max_left _ _)),
      sems_shift_aux hwin s s' φs t u (ha.mono (le_max_right _ _)) (hs.mono (le_max_right _ _))]

end

/-- The robustness at `t` is a function of the samples up to `t`. -/
theorem sem_congr {hi : I → ℕ} (hwin : ∀ i k, win i k → k ≤ hi i) {s s' : ℕ → A → R} {t : ℕ}
    (φ : Formula A I) (h : ∀ u ≤ t, s u = s' u) : sem neg win s φ t = sem neg win s' φ t :=
  sem_shift_aux neg win hwin s s' φ t t (.inl rfl) fun _ _ _ _ => h _ (Nat.sub_le _ _)

/-- Two traces that agree on the last `horizon + 1` samples have the same robustness. -/
theorem sem_shift {hi : I → ℕ} (hwin : ∀ i k, win i k → k ≤ hi i) {s s' : ℕ → A → R} {t u : ℕ}
    (φ : Formula A I) (ht : horizon hi φ ≤ t) (hu : horizon hi φ ≤ u)
    (h : ∀ k ≤ horizon hi φ, s (t - k) = s' (u - k)) : sem neg win s φ t = sem neg win s' φ u :=
  sem_shift_aux neg win hwin s s' φ t u (.inr ⟨ht, hu⟩) fun k hk _ _ => h k hk

/-! ## Polarity -/

mutual

/-- `P` holds of the windows of `always` in positive and of `eventually` and `until` in negative
    position, `Q` of all the others; `pos` is the polarity of the position of the formula. -/
def Polar (P Q : I → Prop) : Bool → Formula A I → Prop
  | _, .atom _ => True
  | pos, .not φ => Polar P Q (!pos) φ
  | pos, .and φs => Polars P Q pos φs
  | pos, .or φs => Polars P Q pos φs
  | pos, .always i φ => (if pos then P i else Q i) ∧ Polar P Q pos φ
  | pos, .eventually i φ => (if pos then Q i else P i) ∧ Polar P Q pos φ
  | pos, .until i φ ψ => (if pos then Q i else P i) ∧ Polar P Q pos φ ∧ Polar P Q pos ψ

/-- `Polar` of each formula of a list. -/
def Polars (P Q : I → Prop) : Bool → List (Formula A I) → Prop
  | _, [] => True
  | pos, φ :: φs => Polar P Q pos φ ∧ Polars P Q pos φs

end

mutual

theorem Polar.mono {P P' Q Q' : I → Prop} (hP : ∀ i, P i → P' i) (hQ : ∀ i, Q i → Q' i) :
    ∀ (pos : Bool) (φ : Formula A I), Polar P Q pos φ → Polar P' Q' pos φ
  | _, .atom _, h => h
  | pos, .not φ, h => Polar.mono hP hQ (!pos) φ h
  | pos, .and φs, h => Polars.mono hP hQ pos φs h
  | pos, .or φs, h => Polars.mono hP hQ pos φs h
  | true, .always i φ, ⟨hi, h⟩ => ⟨hP i hi, Polar.mono hP hQ true φ h⟩
  | false, .always i φ, ⟨hi, h⟩ => ⟨hQ i hi, Polar.mono hP hQ false φ h⟩
  | true, .eventually i φ, ⟨hi, h⟩ => ⟨hQ i hi, Polar.mono hP hQ true φ h⟩
  | false, .eventually i φ, ⟨hi, h⟩ => ⟨hP i hi, Polar.mono hP hQ false φ h⟩
  | true, .until i φ ψ, ⟨hi, hφ, hψ⟩ =>
    ⟨hQ i hi, Polar.mono hP hQ true φ hφ, Polar.mono hP hQ true ψ hψ⟩
  | false, .until i φ ψ, ⟨hi, hφ, hψ⟩ =>
    ⟨hP i hi, Polar.mono hP hQ false φ hφ, Polar.mono hP hQ false ψ hψ⟩

theorem Polars.mono {P P' Q Q' : I → Prop} (hP : ∀ i, P i → P' i) (hQ : ∀ i, Q i → Q' i) :
    ∀ (pos : Bool) (φs : List (Formula A I)), Polars P Q pos φs → Polars P' Q' pos φs
  | _, [], _ => trivial
  | pos, φ :: φs, ⟨hφ, hφs⟩ => ⟨Polar.mono hP hQ pos φ hφ, Polars.mono hP hQ pos φs hφs⟩

end

variable {p q : ℕ → Prop} [DecidablePred p] [DecidablePred q]

theorem ages_subset (h : ∀ k, p k → q k) (t : ℕ) : ages p t ⊆ ages q t := by
  intro k hk
  rw [mem_ages] at hk ⊢
  exact ⟨hk.1, h k hk.2⟩

theorem alwaysWithin_mono {f g : ℕ → R} (hqp : ∀ k, q k → p k) (hfg : ∀ t, f t ≤ g t) (t : ℕ) :
    alwaysWithin p f t ≤ alwaysWithin q g t :=
  (Finset.inf_mono (ages_subset hqp t)).trans (Finset.inf_mono_fun fun k _ => hfg (t - k))

theorem eventuallyWithin_mono {f g : ℕ → R} (hpq : ∀ k, p k → q k) (hfg : ∀ t, f t ≤ g t)
    (t : ℕ) : eventuallyWithin p f t ≤ eventuallyWithin q g t :=
  (Finset.sup_mono_fun fun k _ => hfg (t - k)).trans (Finset.sup_mono (ages_subset hpq t))

theorem untilWithin_mono {f f' g g' : ℕ → R} (hpq : ∀ k, p k → q k) (hf : ∀ t, f t ≤ f' t)
    (hg : ∀ t, g t ≤ g' t) (t : ℕ) : untilWithin p f g t ≤ untilWithin q f' g' t := by
  refine (Finset.sup_mono_fun fun k _ => ?_).trans (Finset.sup_mono (ages_subset hpq t))
  exact min_le_min (hg _) (Finset.inf_mono_fun fun j _ => hf (t - j))

mutual

theorem sem_leAt {win' : I → ℕ → Prop} [∀ i, DecidablePred (win' i)] (hneg : Antitone neg)
    (s : ℕ → A → R) : ∀ (pos : Bool) (φ : Formula A I),
      Polar (fun i => ∀ k, win' i k → win i k) (fun i => ∀ k, win i k → win' i k) pos φ →
        ∀ t, LeAt pos (sem neg win s φ t) (sem neg win' s φ t)
  | pos, .atom a, _, t => LeAt.refl pos _
  | pos, .not φ, h, t => by
    simp only [sem]
    exact (sem_leAt hneg s (!pos) φ h t).antitone hneg
  | pos, .and φs, h, t => by
    simp only [sem]
    exact (sems_leAt hneg s pos φs h t).1
  | pos, .or φs, h, t => by
    simp only [sem]
    exact (sems_leAt hneg s pos φs h t).2
  | true, .always i φ, ⟨hi, h⟩, t => by
    simp only [sem]
    exact alwaysWithin_mono hi (sem_leAt hneg s true φ h) t
  | false, .always i φ, ⟨hi, h⟩, t => by
    simp only [sem]
    exact alwaysWithin_mono hi (sem_leAt hneg s false φ h) t
  | true, .eventually i φ, ⟨hi, h⟩, t => by
    simp only [sem]
    exact eventuallyWithin_mono hi (sem_leAt hneg s true φ h) t
  | false, .eventually i φ, ⟨hi, h⟩, t => by
    simp only [sem]
    exact eventuallyWithin_mono hi (sem_leAt hneg s false φ h) t
  | true, .until i φ ψ, ⟨hi, hφ, hψ⟩, t => by
    simp only [sem]
    exact untilWithin_mono hi (sem_leAt hneg s true φ hφ) (sem_leAt hneg s true ψ hψ) t
  | false, .until i φ ψ, ⟨hi, hφ, hψ⟩, t => by
    simp only [sem]
    exact untilWithin_mono hi (sem_leAt hneg s false φ hφ) (sem_leAt hneg s false ψ hψ) t

theorem sems_leAt {win' : I → ℕ → Prop} [∀ i, DecidablePred (win' i)] (hneg : Antitone neg)
    (s : ℕ → A → R) : ∀ (pos : Bool) (φs : List (Formula A I)),
      Polars (fun i => ∀ k, win' i k → win i k) (fun i => ∀ k, win i k → win' i k) pos φs →
        ∀ t, LeAt pos ((sems neg win s φs t).foldr min ⊤) ((sems neg win' s φs t).foldr min ⊤) ∧
          LeAt pos ((sems neg win s φs t).foldr max ⊥) ((sems neg win' s φs t).foldr max ⊥)
  | pos, [], _, t => ⟨LeAt.refl pos _, LeAt.refl pos _⟩
  | pos, φ :: φs, ⟨hφ, hφs⟩, t => by
    have ih := sems_leAt hneg s pos φs hφs t
    have h := sem_leAt hneg s pos φ hφ t
    simp only [sems, List.foldr_cons]
    exact ⟨h.min ih.1, h.max ih.2⟩

end

/-- Enlarging the windows that lower the robustness and shrinking the ones that raise it gives
    a lower robustness. -/
theorem sem_le_sem {win' : I → ℕ → Prop} [∀ i, DecidablePred (win' i)] (hneg : Antitone neg)
    (s : ℕ → A → R) {φ : Formula A I}
    (h : Polar (fun i => ∀ k, win' i k → win i k) (fun i => ∀ k, win i k → win' i k) true φ)
    (t : ℕ) : sem neg win s φ t ≤ sem neg win' s φ t :=
  sem_leAt neg win hneg s true φ h t

/-! ## Constant traces

While the windows of a formula fill up, its robustness moves even if nothing else does. -/

/-- A window that starts at the current tick and has no gap. -/
def DownClosed (p : ℕ → Prop) : Prop := ∀ k, p (k + 1) → p k

/-- An age of tick `t + 1` is the current tick, or one more than an age of tick `t`. -/
theorem mem_ages_succ (hp : DownClosed p) {t k : ℕ} (hk : k ∈ ages p (t + 1)) :
    k = 0 ∧ 0 ∈ ages p t ∨ ∃ j ∈ ages p t, k = j + 1 := by
  obtain ⟨hkt, hpk⟩ := mem_ages.1 hk
  cases k with
  | zero => exact .inl ⟨rfl, mem_ages.2 ⟨Nat.zero_le t, hpk⟩⟩
  | succ j => exact .inr ⟨j, mem_ages.2 ⟨by omega, hp j hpk⟩, rfl⟩

theorem ages_subset_succ (t : ℕ) : ages p t ⊆ ages p (t + 1) := by
  intro k hk
  rw [mem_ages] at hk ⊢
  exact ⟨by omega, hk.2⟩

section Filling

variable {f g : ℕ → R} {t : ℕ}

theorem alwaysWithin_succ_ge (hp : DownClosed p) (hf : ∀ t, f t ≤ f (t + 1)) :
    alwaysWithin p f t ≤ alwaysWithin p f (t + 1) := by
  refine le_alwaysWithin fun k hk => ?_
  obtain ⟨rfl, h0⟩ | ⟨j, hj, rfl⟩ := mem_ages_succ hp hk
  · exact (alwaysWithin_le h0).trans (hf t)
  · rw [Nat.add_sub_add_right]
    exact alwaysWithin_le hj

theorem alwaysWithin_succ_le (hf : ∀ t, f (t + 1) ≤ f t) :
    alwaysWithin p f (t + 1) ≤ alwaysWithin p f t := by
  refine le_alwaysWithin fun k hk => ?_
  have hkt := (mem_ages.1 hk).1
  have hstep := hf (t - k)
  rw [← Nat.sub_add_comm hkt] at hstep
  exact (alwaysWithin_le (ages_subset_succ t hk)).trans hstep

theorem eventuallyWithin_succ_le (hp : DownClosed p) (hf : ∀ t, f (t + 1) ≤ f t) :
    eventuallyWithin p f (t + 1) ≤ eventuallyWithin p f t := by
  refine eventuallyWithin_le fun k hk => ?_
  obtain ⟨rfl, h0⟩ | ⟨j, hj, rfl⟩ := mem_ages_succ hp hk
  · exact (hf t).trans (le_eventuallyWithin h0)
  · rw [Nat.add_sub_add_right]
    exact le_eventuallyWithin hj

theorem eventuallyWithin_succ_ge (hf : ∀ t, f t ≤ f (t + 1)) :
    eventuallyWithin p f t ≤ eventuallyWithin p f (t + 1) := by
  refine eventuallyWithin_le fun k hk => ?_
  have hkt := (mem_ages.1 hk).1
  have hstep := hf (t - k)
  rw [← Nat.sub_add_comm hkt] at hstep
  exact hstep.trans (le_eventuallyWithin (ages_subset_succ t hk))

theorem untilWithin_succ_ge (hf : ∀ t, f t ≤ f (t + 1)) (hg : ∀ t, g t ≤ g (t + 1)) :
    untilWithin p f g t ≤ untilWithin p f g (t + 1) := by
  refine Finset.sup_le fun k hk => ?_
  have hkt := (mem_ages.1 hk).1
  have hshift {j : ℕ} (h : ℕ → R) (hh : ∀ t, h t ≤ h (t + 1)) (hj : j ≤ k) :
      h (t - j) ≤ h (t + 1 - j) := by
    have hstep := hh (t - j)
    rwa [← Nat.sub_add_comm (hj.trans hkt)] at hstep
  refine le_untilWithin (ages_subset_succ t hk) ?_ fun j hj => ?_
  · exact (min_le_left _ _).trans (hshift g hg le_rfl)
  · exact ((min_le_right _ _).trans (Finset.inf_le (Finset.mem_range.mpr hj))).trans
      (hshift f hf hj.le)

theorem untilWithin_succ_le (hp : DownClosed p) (hg : ∀ t, g (t + 1) ≤ g t) :
    untilWithin p f g (t + 1) ≤ untilWithin p f g t := by
  refine Finset.sup_le fun k hk => ?_
  obtain ⟨rfl, h0⟩ | ⟨j, hj, rfl⟩ := mem_ages_succ hp hk
  · exact le_untilWithin h0 ((min_le_left _ _).trans (hg t)) fun j hj => absurd hj (by omega)
  · -- the younger ages of `j` at tick `t` are those of `j + 1` at tick `t + 1`, less the last tick
    refine le_untilWithin hj ((min_le_left _ _).trans ?_) fun i hi => ?_
    · rw [Nat.add_sub_add_right]
    · have hmem : i + 1 ∈ Finset.range (j + 1) := Finset.mem_range.mpr (by omega)
      have hle := (min_le_right (g (t + 1 - (j + 1))) _).trans
        (Finset.inf_le (f := fun i => f (t + 1 - i)) hmem)
      rwa [Nat.add_sub_add_right t 1 i] at hle

end Filling

/-- No window that lowers the robustness as it fills starts later than the current tick. -/
def GrowsOnly (win : I → ℕ → Prop) : Bool → Formula A I → Prop :=
  Polar (fun i => DownClosed (win i)) fun _ => True

mutual

theorem sem_succ_leAt (hneg : Antitone neg) {s : ℕ → A → R} (hs : ∀ t, s (t + 1) = s t) :
    ∀ (pos : Bool) (φ : Formula A I), GrowsOnly win pos φ →
      ∀ t, LeAt pos (sem neg win s φ t) (sem neg win s φ (t + 1))
  | pos, .atom a, _, t => by
    simp only [sem, hs t]
    exact LeAt.refl pos _
  | pos, .not φ, h, t => by
    simp only [sem]
    exact (sem_succ_leAt hneg hs (!pos) φ h t).antitone hneg
  | pos, .and φs, h, t => by
    simp only [sem]
    exact (sems_succ_leAt hneg hs pos φs h t).1
  | pos, .or φs, h, t => by
    simp only [sem]
    exact (sems_succ_leAt hneg hs pos φs h t).2
  | true, .always i φ, ⟨hi, h⟩, t => by
    simp only [sem]
    exact alwaysWithin_succ_ge hi (sem_succ_leAt hneg hs true φ h)
  | false, .always i φ, ⟨_, h⟩, t => by
    simp only [sem]
    exact alwaysWithin_succ_le (sem_succ_leAt hneg hs false φ h)
  | true, .eventually i φ, ⟨_, h⟩, t => by
    simp only [sem]
    exact eventuallyWithin_succ_ge (sem_succ_leAt hneg hs true φ h)
  | false, .eventually i φ, ⟨hi, h⟩, t => by
    simp only [sem]
    exact eventuallyWithin_succ_le hi (sem_succ_leAt hneg hs false φ h)
  | true, .until i φ ψ, ⟨_, hφ, hψ⟩, t => by
    simp only [sem]
    exact untilWithin_succ_ge (sem_succ_leAt hneg hs true φ hφ) (sem_succ_leAt hneg hs true ψ hψ)
  | false, .until i φ ψ, ⟨hi, _, hψ⟩, t => by
    simp only [sem]
    exact untilWithin_succ_le hi (sem_succ_leAt hneg hs false ψ hψ)

theorem sems_succ_leAt (hneg : Antitone neg) {s : ℕ → A → R} (hs : ∀ t, s (t + 1) = s t) :
    ∀ (pos : Bool) (φs : List (Formula A I)),
      Polars (fun i => DownClosed (win i)) (fun _ => True) pos φs →
        ∀ t, LeAt pos ((sems neg win s φs t).foldr min ⊤)
            ((sems neg win s φs (t + 1)).foldr min ⊤) ∧
          LeAt pos ((sems neg win s φs t).foldr max ⊥) ((sems neg win s φs (t + 1)).foldr max ⊥)
  | pos, [], _, t => ⟨LeAt.refl pos _, LeAt.refl pos _⟩
  | pos, φ :: φs, ⟨hφ, hφs⟩, t => by
    have ih := sems_succ_leAt hneg hs pos φs hφs t
    have h := sem_succ_leAt hneg hs pos φ hφ t
    simp only [sems, List.foldr_cons]
    exact ⟨h.min ih.1, h.max ih.2⟩

end

/-- On a constant trace the robustness of such a formula never falls. -/
theorem sem_le_succ (hneg : Antitone neg) {s : ℕ → A → R} (hs : ∀ t, s (t + 1) = s t)
    {φ : Formula A I} (h : GrowsOnly win true φ) (t : ℕ) :
    sem neg win s φ t ≤ sem neg win s φ (t + 1) :=
  sem_succ_leAt neg win hneg hs true φ h t

end Semantics

end AstroMine.PastStl
