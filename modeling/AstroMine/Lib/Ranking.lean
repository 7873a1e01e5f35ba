import Mathlib.Data.List.MinMax
import AstroMine.Lib.Dict

/-!
# The first elements of a ranking

A ranking sorts a list by a key that tells its elements apart. An element is among the first `n` when
fewer than `n` elements rank ahead of it, and two rankings by one key start alike when what they start
with is in both lists.

Results:
* `sortOn_eq_of_perm`: a ranking does not depend on the order it starts from.
* `mem_take_sortOn_iff`: the first elements of a ranking, by what is ahead of them.
* `take_sortOn_eq_iff`: when two rankings start alike.
-/

namespace AstroMine

variable {α κ : Type*} [LinearOrder κ] {key : α → κ}

/-- How many elements of the list rank ahead of `x`. -/
def ahead (key : α → κ) (xs : List α) (x : α) : ℕ := (xs.filter fun y => key y < key x).length

theorem ahead_perm {xs ys : List α} (h : xs.Perm ys) (x : α) : ahead key xs x = ahead key ys x :=
  (h.filter _).length_eq

theorem le_of_ahead_eq_zero {xs : List α} {x : α} (h : ahead key xs x = 0) :
    ∀ y ∈ xs, key x ≤ key y := by
  intro y hy
  by_contra hlt
  have hmem : y ∈ xs.filter fun y => key y < key x :=
    List.mem_filter.mpr ⟨hy, decide_eq_true (not_le.mp hlt)⟩
  rw [List.length_eq_zero_iff.mp h] at hmem
  cases hmem

/-- Some element has nothing ahead of it. -/
theorem exists_ahead_eq_zero {xs : List α} (h : xs ≠ []) : ∃ x ∈ xs, ahead key xs x = 0 := by
  obtain ⟨x, hx⟩ := Option.ne_none_iff_exists'.mp (mt List.argmin_eq_none.mp h : xs.argmin key ≠ none)
  refine ⟨x, List.argmin_mem hx, List.length_eq_zero_iff.mpr (List.filter_eq_nil_iff.mpr ?_)⟩
  intro y hy hlt
  exact List.not_lt_of_mem_argmin hy hx (of_decide_eq_true hlt)

/-- A list is sorted strictly when its keys are distinct. -/
theorem sortOn_pairwise_lt {xs : List α} (h : (xs.map key).Nodup) :
    (sortOn key xs).Pairwise fun a b => key a < key b := by
  have hne : (sortOn key xs).Pairwise fun a b => key a ≠ key b :=
    List.pairwise_map.mp (((sortOn_perm key xs).map key).nodup_iff.mpr h)
  exact (sortOn_pairwise key xs).imp₂ (fun _ _ => lt_of_le_of_ne) hne

/-- A ranking does not depend on the order it starts from. -/
theorem sortOn_eq_of_perm {xs ys : List α} (h : xs.Perm ys) (hxs : (xs.map key).Nodup) :
    sortOn key xs = sortOn key ys := by
  have hys : (ys.map key).Nodup := (h.map key).nodup_iff.mp hxs
  refine List.Perm.eq_of_pairwise (fun a b _ _ hab hba => absurd hab (lt_asymm hba))
    (sortOn_pairwise_lt hxs) (sortOn_pairwise_lt hys) ?_
  exact (sortOn_perm key xs).trans (h.trans (sortOn_perm key ys).symm)

/-- A list that is sorted strictly stays as it is. -/
theorem sortOn_of_pairwise_lt {xs : List α} (h : xs.Pairwise fun a b => key a < key b) :
    sortOn key xs = xs := by
  have hne : (xs.map key).Nodup := List.pairwise_map.mpr (h.imp fun hab => ne_of_lt hab)
  exact List.Perm.eq_of_pairwise (fun a b _ _ hab hba => absurd hab (lt_asymm hba))
    (sortOn_pairwise_lt hne) h (sortOn_perm key xs)

/-- What is left of a ranking is the ranking of what is left. -/
theorem sortOn_filter {xs : List α} (h : (xs.map key).Nodup) (p : α → Bool) :
    (sortOn key xs).filter p = sortOn key (xs.filter p) := by
  have hs : ((sortOn key xs).filter p).Pairwise fun a b => key a < key b :=
    (sortOn_pairwise_lt h).filter p
  rw [← sortOn_of_pairwise_lt hs]
  exact sortOn_eq_of_perm ((sortOn_perm key xs).filter p)
    (List.pairwise_map.mpr (hs.imp fun hab => ne_of_lt hab))

/-- A ranking of images, by the keys of the arguments. -/
theorem sortOn_map {β : Type*} (key : β → κ) (f : α → β) (xs : List α) :
    sortOn key (xs.map f) = (sortOn (key ∘ f) xs).map f :=
  (List.map_insertionSort _ _ f xs fun _ _ _ _ => Iff.rfl).symm

theorem mem_take_iff_of_pairwise_lt {xs : List α} (h : xs.Pairwise fun a b => key a < key b)
    {n : ℕ} {x : α} (hx : x ∈ xs) : x ∈ xs.take n ↔ ahead key xs x < n := by
  induction xs generalizing n with
  | nil => cases hx
  | cons a xs ih =>
    obtain ⟨ha, hxs⟩ := List.pairwise_cons.mp h
    cases n with
    | zero => simp
    | succ n =>
      rw [List.take_succ_cons, List.mem_cons]
      rcases List.mem_cons.mp hx with rfl | hx
      · have hnone : ahead key (x :: xs) x = 0 := by
          rw [ahead, List.length_eq_zero_iff, List.filter_eq_nil_iff]
          intro y hy
          rcases List.mem_cons.mp hy with rfl | hy
          · simp
          · simpa using (ha y hy).le
        exact iff_of_true (.inl rfl) (by omega)
      · have hlt := ha x hx
        have hsucc : ahead key (a :: xs) x = ahead key xs x + 1 := by
          rw [ahead, List.filter_cons_of_pos (by simpa using hlt), List.length_cons, ahead]
        have hne : x ≠ a := by
          rintro rfl
          exact lt_irrefl _ hlt
        rw [hsucc, Nat.add_lt_add_iff_right, ← ih hxs hx]
        simp [hne]

/-- The first elements of a ranking, by what is ahead of them. -/
theorem mem_take_sortOn_iff {xs : List α} (h : (xs.map key).Nodup) {n : ℕ} {x : α} (hx : x ∈ xs) :
    x ∈ (sortOn key xs).take n ↔ ahead key xs x < n := by
  rw [mem_take_iff_of_pairwise_lt (sortOn_pairwise_lt h) ((mem_sortOn key xs x).mpr hx),
    ahead_perm (sortOn_perm key xs)]

theorem take_eq_iff_of_pairwise_lt {xs ys : List α} (hxs : xs.Pairwise fun a b => key a < key b)
    (hys : ys.Pairwise fun a b => key a < key b)
    (hkey : ∀ x ∈ xs, ∀ y ∈ ys, key x = key y → x = y) (n : ℕ) :
    xs.take n = ys.take n ↔ (∀ x ∈ xs.take n, x ∈ ys) ∧ ∀ y ∈ ys.take n, y ∈ xs := by
  induction n generalizing xs ys with
  | zero => simp
  | succ n ih =>
    cases xs with
    | nil =>
      cases ys with
      | nil => simp
      | cons y ys =>
        exact iff_of_false (by simp) fun h => by simpa using h.2 y List.mem_cons_self
    | cons x xs =>
      cases ys with
      | nil => exact iff_of_false (by simp) fun h => by simpa using h.1 x List.mem_cons_self
      | cons y ys =>
        obtain ⟨hx, hxs'⟩ := List.pairwise_cons.mp hxs
        obtain ⟨hy, hys'⟩ := List.pairwise_cons.mp hys
        rw [List.take_succ_cons, List.take_succ_cons]
        rcases lt_trichotomy (key x) (key y) with hlt | heq | hgt
        · -- the smaller head is in neither the other list nor its start
          refine iff_of_false (fun h => ?_) (fun h => ?_)
          · obtain rfl := (List.cons.inj h).1
            exact lt_irrefl _ hlt
          · rcases List.mem_cons.mp (h.1 x List.mem_cons_self) with rfl | hmem
            · exact lt_irrefl _ hlt
            · exact lt_asymm hlt (hy x hmem)
        · obtain rfl := hkey x List.mem_cons_self y List.mem_cons_self heq
          have hrest := ih hxs' hys' fun a ha b hb =>
            hkey a (List.mem_cons_of_mem _ ha) b (List.mem_cons_of_mem _ hb)
          have hnotmem : ∀ {zs : List α}, (∀ z ∈ zs, key x < key z) → ∀ z ∈ zs, z ≠ x := by
            rintro zs hz z hmem rfl
            exact lt_irrefl _ (hz z hmem)
          rw [List.cons_inj_right, hrest, List.forall_mem_cons, List.forall_mem_cons]
          refine and_congr ?_ ?_
          · refine ⟨fun h => ⟨List.mem_cons_self, fun a ha => List.mem_cons_of_mem _ (h a ha)⟩,
              fun h a ha => ?_⟩
            exact (List.mem_cons.mp (h.2 a ha)).resolve_left
              (hnotmem hx a (List.mem_of_mem_take ha))
          · refine ⟨fun h => ⟨List.mem_cons_self, fun a ha => List.mem_cons_of_mem _ (h a ha)⟩,
              fun h a ha => ?_⟩
            exact (List.mem_cons.mp (h.2 a ha)).resolve_left
              (hnotmem hy a (List.mem_of_mem_take ha))
        · refine iff_of_false (fun h => ?_) (fun h => ?_)
          · obtain rfl := (List.cons.inj h).1
            exact lt_irrefl _ hgt
          · rcases List.mem_cons.mp (h.2 y List.mem_cons_self) with rfl | hmem
            · exact lt_irrefl _ hgt
            · exact lt_asymm hgt (hx y hmem)

/-- Two rankings start alike when what they start with is in both lists. -/
theorem take_sortOn_eq_iff {xs ys : List α} (hxs : (xs.map key).Nodup) (hys : (ys.map key).Nodup)
    (hkey : ∀ x ∈ xs, ∀ y ∈ ys, key x = key y → x = y) (n : ℕ) :
    (sortOn key xs).take n = (sortOn key ys).take n ↔
      (∀ x ∈ xs, ahead key xs x < n → x ∈ ys) ∧ ∀ y ∈ ys, ahead key ys y < n → y ∈ xs := by
  have hstart : ∀ {zs ws : List α}, (zs.map key).Nodup →
      ((∀ z ∈ (sortOn key zs).take n, z ∈ sortOn key ws) ↔
        ∀ z ∈ zs, ahead key zs z < n → z ∈ ws) := by
    intro zs ws hzs
    simp only [mem_sortOn]
    constructor
    · intro h z hz hlt
      exact h z ((mem_take_sortOn_iff hzs hz).mpr hlt)
    · intro h z hz
      have hmem := (mem_sortOn key zs z).mp (List.mem_of_mem_take hz)
      exact h z hmem ((mem_take_sortOn_iff hzs hmem).mp hz)
  rw [take_eq_iff_of_pairwise_lt (sortOn_pairwise_lt hxs) (sortOn_pairwise_lt hys) ?_ n,
    hstart hxs, hstart hys]
  intro x hx y hy
  exact hkey x ((mem_sortOn key xs x).mp hx) y ((mem_sortOn key ys y).mp hy)

end AstroMine
