import AstroMine.Lib.Dict
import Mathlib.Data.Fintype.Card
import Mathlib.Data.Set.Finite.List
import Mathlib.Logic.Relation

/-!
# Kahn's algorithm

`Kahn.order preds` takes, one after the other, the least key whose predecessors have all been
taken. A predecessor that is no key is never taken.

Results:
* `Kahn.order_ordered`: in the order the predecessors of a key stand before it.
* `Kahn.mem_order_of_ordered`: the members of a list of keys that has that property are taken.
* `Kahn.order_least`: every key of the order is the least that could be taken there.
* `Kahn.length_order_iff`: all keys are taken exactly when no key precedes itself.
* `Kahn.order_congr`: the order of all keys depends only on which key precedes which.
-/

namespace AstroMine.Kahn

variable {κ : Type*} [LinearOrder κ]

/-! ## Orders -/

/-- Every predecessor of a member stands before it. -/
def Ordered (preds : Dict κ (List κ)) (l : List κ) : Prop :=
  ∀ xs t ys, l = xs ++ t :: ys → ∀ ps, (t, ps) ∈ preds.entries → ∀ p ∈ ps, p ∈ xs

omit [LinearOrder κ] in
theorem ordered_nil (preds : Dict κ (List κ)) : Ordered preds [] := by
  intro xs t ys h
  simp at h

omit [LinearOrder κ] in
theorem Ordered.snoc {preds : Dict κ (List κ)} {l : List κ} {t : κ} (hl : Ordered preds l)
    (ht : ∀ ps, (t, ps) ∈ preds.entries → ∀ p ∈ ps, p ∈ l) : Ordered preds (l ++ [t]) := by
  intro xs u ys h ps hps p hp
  rcases List.eq_nil_or_concat ys with rfl | ⟨ys', z, rfl⟩
  · obtain ⟨rfl, hu⟩ := List.append_inj' h rfl
    obtain rfl : t = u := by simpa using hu
    exact ht ps hps p hp
  · have h' : l ++ [t] = (xs ++ u :: ys') ++ [z] := by simpa using h
    obtain ⟨rfl, -⟩ := List.append_inj' h' rfl
    exact hl xs u ys' rfl ps hps p hp

/-! ## The algorithm -/

/-- The predecessors still to be taken, the keys that can be taken, the keys taken. -/
structure State (κ : Type*) where
  preds : Dict κ (List κ)
  ready : List κ
  removed : List κ

/-- The keys without predecessors are ready. -/
def init (preds : Dict κ (List κ)) : State κ where
  preds := preds
  ready := sortOn id ((preds.entries.filter fun p => p.2 = []).map Prod.fst)
  removed := []

/-- The least ready key is taken and struck from the predecessors of the others. -/
def step (s : State κ) : State κ :=
  match s.ready with
  | [] => s
  | tid :: ready =>
    let removed := s.removed ++ [tid]
    let newly := (s.preds.entries.filter fun p =>
      tid ∈ p.2 ∧ (p.2.filter fun q => q ≠ tid) = [] ∧ p.1 ∉ removed ∧ p.1 ∉ ready).map Prod.fst
    { preds := s.preds.mapValues fun ps => ps.filter fun q => q ≠ tid
      ready := sortOn id (ready ++ newly)
      removed := removed }

/-- So many steps. -/
def run : ℕ → State κ → State κ
  | 0, s => s
  | n + 1, s => run n (step s)

/-- The keys in the order they are taken. -/
def order (preds : Dict κ (List κ)) : List κ := (run preds.entries.length (init preds)).removed

/-! ## The invariant -/

/-- What holds between the steps. -/
structure Good (preds : Dict κ (List κ)) (s : State κ) : Prop where
  preds_eq : s.preds.entries =
    preds.entries.map fun p => (p.1, p.2.filter fun q => q ∉ s.removed)
  nodup : (s.removed ++ s.ready).Nodup
  keys : ∀ t ∈ s.removed ++ s.ready, t ∈ preds.keys
  ready_free : ∀ t ∈ s.ready, ∀ ps, (t, ps) ∈ preds.entries → ∀ p ∈ ps, p ∈ s.removed
  ordered : Ordered preds s.removed
  complete : ∀ t ps, (t, ps) ∈ preds.entries → (∀ p ∈ ps, p ∈ s.removed) →
    t ∈ s.removed ++ s.ready

theorem good_init (preds : Dict κ (List κ)) : Good preds (init preds) := by
  have hready : ∀ t, t ∈ (init preds).ready ↔ (t, []) ∈ preds.entries := by
    intro t
    simp only [init, mem_sortOn, List.mem_map, List.mem_filter, decide_eq_true_eq]
    constructor
    · rintro ⟨⟨u, ps⟩, ⟨hp, rfl⟩, rfl⟩
      exact hp
    · intro ht
      exact ⟨(t, []), ⟨ht, rfl⟩, rfl⟩
  refine ⟨?_, ?_, ?_, ?_, ordered_nil preds, ?_⟩
  · simp [init]
  · simp only [init, List.nil_append]
    rw [sortOn_nodup]
    exact preds.keys_nodup.sublist (List.filter_sublist.map Prod.fst)
  · intro t ht
    have ht' : t ∈ (init preds).ready := by simpa [init] using ht
    exact List.mem_map.mpr ⟨(t, []), (hready t).mp ht', rfl⟩
  · intro t ht ps hps p hp
    have heq := List.inj_on_of_nodup_map preds.keys_nodup hps ((hready t).mp ht) rfl
    rw [(Prod.mk.inj heq).2] at hp
    simp at hp
  · intro t ps hps hall
    have hnil : ps = [] := by
      refine List.eq_nil_iff_forall_not_mem.mpr fun p hp => ?_
      simpa [init] using hall p hp
    subst hnil
    exact List.mem_append_right _ ((hready t).mpr hps)

/-- A key enters the ready list when its last predecessor is taken. -/
theorem mem_ready_step {preds : Dict κ (List κ)} {s : State κ} (hs : Good preds s) {tid : κ}
    {ready : List κ} (hr : s.ready = tid :: ready) (t : κ) :
    t ∈ (step s).ready ↔ t ∈ ready ∨ (t ∉ s.removed ++ [tid] ∧ t ∉ ready ∧
      ∃ ps, (t, ps) ∈ preds.entries ∧ tid ∈ ps ∧ ∀ p ∈ ps, p ∈ s.removed ++ [tid]) := by
  have htid : tid ∉ s.removed := by
    have hn := hs.nodup
    rw [hr] at hn
    exact fun h => (List.nodup_append.mp hn).2.2 tid h tid List.mem_cons_self rfl
  have hfil : ∀ ps : List κ,
      ((ps.filter fun q => q ∉ s.removed).filter fun q => q ≠ tid) = [] ↔
        ∀ p ∈ ps, p ∈ s.removed ++ [tid] := by
    intro ps
    rw [List.filter_filter, List.filter_eq_nil_iff]
    refine forall₂_congr fun p _ => ?_
    simp only [List.mem_append, List.mem_singleton, Bool.and_eq_true, decide_eq_true_eq]
    tauto
  rw [step, hr]
  simp only [mem_sortOn, List.mem_append, hs.preds_eq, List.mem_map, List.mem_filter,
    decide_eq_true_eq]
  refine or_congr_right ⟨?_, ?_⟩
  · rintro ⟨q, ⟨⟨⟨u, ps⟩, hp, rfl⟩, hm, hnil, hrem, hrdy⟩, rfl⟩
    have hm' := List.mem_filter.mp hm
    exact ⟨by simpa using hrem, hrdy, ps, hp, hm'.1,
      by simpa using (hfil ps).mp hnil⟩
  · rintro ⟨hrem, hrdy, ps, hp, hm, hall⟩
    refine ⟨(t, ps.filter fun q => q ∉ s.removed), ⟨⟨(t, ps), hp, rfl⟩, ?_, ?_, ?_, hrdy⟩, rfl⟩
    · exact List.mem_filter.mpr ⟨hm, by simpa using htid⟩
    · exact (hfil ps).mpr (by simpa using hall)
    · simpa using hrem

theorem removed_step {s : State κ} {tid : κ} {ready : List κ} (hr : s.ready = tid :: ready) :
    (step s).removed = s.removed ++ [tid] := by
  rw [step, hr]

/-- No key is taken twice or becomes ready twice. -/
theorem nodup_step {preds : Dict κ (List κ)} {s : State κ} (hs : Good preds s) {tid : κ}
    {ready : List κ} (hr : s.ready = tid :: ready) :
    ((step s).removed ++ (step s).ready).Nodup := by
  have hmem := mem_ready_step hs hr
  have hn := hs.nodup
  rw [hr, List.nodup_append] at hn
  have hready : (step s).ready.Nodup := by
    rw [step, hr]
    simp only [sortOn_nodup]
    refine hn.2.1.of_cons.append ?_ ?_
    · exact s.preds.keys_nodup.sublist (List.filter_sublist.map Prod.fst)
    · intro t ht ht'
      obtain ⟨p, hp, rfl⟩ := List.mem_map.mp ht'
      have hp' := (List.mem_filter.mp hp).2
      simp only [decide_eq_true_eq] at hp'
      exact hp'.2.2.2 ht
  rw [removed_step hr]
  refine List.nodup_append.mpr ⟨?_, hready, ?_⟩
  · refine hn.1.append (List.nodup_singleton tid) ?_
    intro t ht ht'
    obtain rfl : t = tid := by simpa using ht'
    exact hn.2.2 t ht t List.mem_cons_self rfl
  · rintro t ht u hu rfl
    rcases (hmem t).mp hu with hu | ⟨hu, -⟩
    · rcases List.mem_append.mp ht with ht | ht
      · exact hn.2.2 t ht t (List.mem_cons_of_mem _ hu) rfl
      · obtain rfl : t = tid := by simpa using ht
        exact (List.nodup_cons.mp hn.2.1).1 hu
    · exact hu ht

/-- A key without a predecessor left is taken or ready. -/
theorem complete_step {preds : Dict κ (List κ)} {s : State κ} (hs : Good preds s) {tid : κ}
    {ready : List κ} (hr : s.ready = tid :: ready) {t : κ} {ps : List κ}
    (hps : (t, ps) ∈ preds.entries) (hall : ∀ p ∈ ps, p ∈ s.removed ++ [tid]) :
    t ∈ s.removed ++ [tid] ∨ t ∈ (step s).ready := by
  by_cases ht : t ∈ s.removed ++ [tid]
  · exact Or.inl ht
  · refine Or.inr ((mem_ready_step hs hr t).mpr ?_)
    by_cases hrd : t ∈ ready
    · exact Or.inl hrd
    · refine Or.inr ⟨ht, hrd, ps, hps, ?_, hall⟩
      -- otherwise all predecessors were taken before, and `t` was ready
      by_contra htid
      have hbefore : ∀ p ∈ ps, p ∈ s.removed := by
        intro p hp
        rcases List.mem_append.mp (hall p hp) with h | h
        · exact h
        · obtain rfl : p = tid := by simpa using h
          exact absurd hp htid
      have hold := hs.complete t ps hps hbefore
      rw [hr] at hold
      simp only [List.mem_append, List.mem_cons, List.not_mem_nil, or_false] at hold ht
      tauto

/-- **Step.** Taking the least ready key keeps the invariant. -/
theorem good_step {preds : Dict κ (List κ)} {s : State κ} (hs : Good preds s) :
    Good preds (step s) := by
  cases hr : s.ready with
  | nil =>
    have : step s = s := by rw [step, hr]
    rwa [this]
  | cons tid ready =>
    have hmem := mem_ready_step hs hr
    have hrem := removed_step hr
    refine ⟨?_, nodup_step hs hr, ?_, ?_, ?_, ?_⟩
    · rw [hrem]
      simp only [step, hr, Dict.mapValues, hs.preds_eq, List.map_map]
      refine List.map_congr_left fun p _ => ?_
      simp only [Function.comp_apply, List.filter_filter, Prod.mk.injEq, true_and]
      refine List.filter_congr fun q _ => ?_
      simp only [List.mem_append, List.mem_singleton, not_or, Bool.decide_and]
      exact Bool.and_comm _ _
    · intro t ht
      have hkeys := hs.keys
      rw [hr] at hkeys
      rw [hrem] at ht
      rcases List.mem_append.mp ht with ht | ht
      · exact hkeys t (by simpa [or_assoc] using Or.inl (List.mem_append.mp ht))
      · rcases (hmem t).mp ht with ht | ⟨-, -, ps, hp, -⟩
        · exact hkeys t (by simp [ht])
        · exact List.mem_map.mpr ⟨(t, ps), hp, rfl⟩
    · intro t ht ps hps p hp
      rw [hrem]
      rcases (hmem t).mp ht with ht | ⟨-, -, ps', hps', -, hall⟩
      · have ht' : t ∈ s.ready := by rw [hr]; exact List.mem_cons_of_mem _ ht
        exact List.mem_append_left _ (hs.ready_free t ht' ps hps p hp)
      · have heq := List.inj_on_of_nodup_map preds.keys_nodup hps hps' rfl
        rw [(Prod.mk.inj heq).2] at hp
        exact hall p hp
    · rw [hrem]
      refine hs.ordered.snoc ?_
      have ht : tid ∈ s.ready := by rw [hr]; exact List.mem_cons_self
      exact hs.ready_free tid ht
    · intro t ps hps hall
      rw [hrem] at hall ⊢
      exact List.mem_append.mpr (complete_step hs hr hps hall)

theorem good_run {preds : Dict κ (List κ)} (n : ℕ) {s : State κ} (hs : Good preds s) :
    Good preds (run n s) := by
  induction n generalizing s with
  | zero => exact hs
  | succ n ih => exact ih (good_step hs)

/-! ## Termination -/

theorem step_removed_length {s : State κ} (h : s.ready ≠ []) :
    (step s).removed.length = s.removed.length + 1 := by
  cases hr : s.ready with
  | nil => exact absurd hr h
  | cons tid ready =>
    rw [step, hr]
    simp

theorem step_of_ready_nil {s : State κ} (h : s.ready = []) : step s = s := by
  rw [step, h]

theorem run_of_ready_nil (n : ℕ) {s : State κ} (h : s.ready = []) : run n s = s := by
  induction n with
  | zero => rfl
  | succ n ih => rw [run, step_of_ready_nil h, ih]

theorem run_ready_or_length (n : ℕ) (s : State κ) :
    (run n s).ready = [] ∨ (run n s).removed.length = s.removed.length + n := by
  induction n generalizing s with
  | zero => exact Or.inr rfl
  | succ n ih =>
    by_cases hr : s.ready = []
    · left
      rw [run_of_ready_nil _ hr, hr]
    · rcases ih (step s) with h | h
      · exact Or.inl h
      · right
        rw [run, h, step_removed_length hr]
        omega

/-- As many steps as there are keys leave nothing ready. -/
theorem run_ready (preds : Dict κ (List κ)) :
    (run preds.entries.length (init preds)).ready = [] := by
  have hg := good_run preds.entries.length (good_init preds)
  rcases run_ready_or_length preds.entries.length (init preds) with h | h
  · exact h
  · have hle : ((run preds.entries.length (init preds)).removed ++
        (run preds.entries.length (init preds)).ready).length ≤ preds.keys.length :=
      (List.subperm_of_subset hg.nodup fun t ht => hg.keys t ht).length_le
    have hk : preds.keys.length = preds.entries.length := List.length_map _
    have hi : (init preds).removed.length = 0 := rfl
    rw [List.length_append, h, hi, hk] at hle
    exact List.length_eq_zero_iff.mp (by omega)

/-! ## Results -/

theorem order_good (preds : Dict κ (List κ)) :
    Good preds (run preds.entries.length (init preds)) :=
  good_run _ (good_init preds)

/-- In the order the predecessors of a key stand before it. -/
theorem order_ordered (preds : Dict κ (List κ)) : Ordered preds (order preds) :=
  (order_good preds).ordered

theorem order_nodup (preds : Dict κ (List κ)) : (order preds).Nodup :=
  (List.nodup_append.mp (order_good preds).nodup).1

theorem order_subset (preds : Dict κ (List κ)) : ∀ t ∈ order preds, t ∈ preds.keys :=
  fun t ht => (order_good preds).keys t (List.mem_append_left _ ht)

/-- A key all of whose predecessors are taken is taken. -/
theorem mem_order_of_forall {preds : Dict κ (List κ)} {t : κ} {ps : List κ}
    (ht : (t, ps) ∈ preds.entries) (h : ∀ p ∈ ps, p ∈ order preds) : t ∈ order preds := by
  have hc := (order_good preds).complete t ps ht h
  rwa [run_ready preds, List.append_nil] at hc

/-- When some list of the keys is ordered, its members are taken. -/
theorem mem_order_of_ordered {preds : Dict κ (List κ)} {l : List κ} (hl : Ordered preds l)
    (hkeys : ∀ t ∈ l, t ∈ preds.keys) : ∀ t ∈ l, t ∈ order preds := by
  -- by induction on the prefixes of `l`
  have key : ∀ xs ys, l = xs ++ ys → ∀ t ∈ xs, t ∈ order preds := by
    intro xs
    induction xs using List.reverseRecOn with
    | nil => simp
    | append_singleton xs u ih =>
      intro ys h t ht
      have h' : l = xs ++ u :: ys := by simpa using h
      rcases List.mem_append.mp ht with ht | ht
      · exact ih (u :: ys) h' t ht
      · obtain rfl : t = u := by simpa using ht
        have htk : t ∈ preds.keys := hkeys t (by rw [h']; simp)
        obtain ⟨⟨t', ps⟩, hps, rfl⟩ := List.mem_map.mp htk
        refine mem_order_of_forall hps fun p hp => ?_
        exact ih (t' :: ys) h' p (hl xs t' ys h' ps hps p hp)
  intro t ht
  exact key l [] (by simp) t ht

/-! ## The least key -/

/-- Every member is the least key whose predecessors stand before it. -/
def Least (preds : Dict κ (List κ)) (l : List κ) : Prop :=
  ∀ xs t ys, l = xs ++ t :: ys → ∀ u ps, (u, ps) ∈ preds.entries → u ∉ xs →
    (∀ p ∈ ps, p ∈ xs) → t ≤ u

theorem least_nil (preds : Dict κ (List κ)) : Least preds [] := by
  intro xs t ys h
  simp at h

theorem Least.snoc {preds : Dict κ (List κ)} {l : List κ} {t : κ} (hl : Least preds l)
    (ht : ∀ u ps, (u, ps) ∈ preds.entries → u ∉ l → (∀ p ∈ ps, p ∈ l) → t ≤ u) :
    Least preds (l ++ [t]) := by
  intro xs v ys h u ps hps hu hall
  rcases List.eq_nil_or_concat ys with rfl | ⟨ys', z, rfl⟩
  · obtain ⟨rfl, hv⟩ := List.append_inj' h rfl
    obtain rfl : t = v := by simpa using hv
    exact ht u ps hps hu hall
  · have h' : l ++ [t] = (xs ++ v :: ys') ++ [z] := by simpa using h
    obtain ⟨rfl, -⟩ := List.append_inj' h' rfl
    exact hl xs v ys' rfl u ps hps hu hall

theorem ready_sorted_step (s : State κ) (h : s.ready.Pairwise (· ≤ ·)) :
    (step s).ready.Pairwise (· ≤ ·) := by
  cases hr : s.ready with
  | nil =>
    rw [step_of_ready_nil hr]
    exact h
  | cons tid ready =>
    rw [step, hr]
    exact sortOn_pairwise id _

/-- **Step.** The head of the sorted ready list is the least key that can be taken. -/
theorem least_step {preds : Dict κ (List κ)} {s : State κ} (hs : Good preds s)
    (hsorted : s.ready.Pairwise (· ≤ ·)) (hl : Least preds s.removed) :
    Least preds (step s).removed := by
  cases hr : s.ready with
  | nil =>
    rw [step_of_ready_nil hr]
    exact hl
  | cons tid ready =>
    have hrem : (step s).removed = s.removed ++ [tid] := by rw [step, hr]
    rw [hrem]
    refine hl.snoc fun u ps hps hu hall => ?_
    rw [hr, List.pairwise_cons] at hsorted
    have hmem := (List.mem_append.mp (hs.complete u ps hps hall)).resolve_left hu
    rw [hr] at hmem
    rcases List.mem_cons.mp hmem with rfl | hmem
    · exact le_rfl
    · exact hsorted.1 u hmem

theorem least_run {preds : Dict κ (List κ)} (n : ℕ) {s : State κ} (hs : Good preds s)
    (hsorted : s.ready.Pairwise (· ≤ ·)) (hl : Least preds s.removed) :
    Least preds (run n s).removed := by
  induction n generalizing s with
  | zero => exact hl
  | succ n ih => exact ih (good_step hs) (ready_sorted_step s hsorted) (least_step hs hsorted hl)

/-- Every key of the order is the least that could be taken there. -/
theorem order_least (preds : Dict κ (List κ)) : Least preds (order preds) :=
  least_run _ (good_init preds) (sortOn_pairwise id _) (least_nil preds)

/-! ## Cycles -/

/-- A key lists another one as its predecessor. -/
def Precedes (preds : Dict κ (List κ)) (p t : κ) : Prop := ∃ ps, (t, ps) ∈ preds.entries ∧ p ∈ ps

omit [LinearOrder κ] in
/-- A key of an ordered list without repetitions does not precede itself. -/
theorem Ordered.not_transGen {preds : Dict κ (List κ)} {l : List κ} (hl : Ordered preds l)
    (hnodup : l.Nodup) {t : κ} (ht : t ∈ l) : ¬ Relation.TransGen (Precedes preds) t t := by
  -- whatever precedes a member stands before it
  have hbefore : ∀ {p u}, Relation.TransGen (Precedes preds) p u →
      ∀ xs ys, l = xs ++ u :: ys → p ∈ xs := by
    intro p u h
    induction h using Relation.TransGen.head_induction_on with
    | single h =>
      intro xs ys hsplit
      obtain ⟨ps, hps, hp⟩ := h
      exact hl xs _ ys hsplit ps hps _ hp
    | @head p q h _ ih =>
      intro xs ys hsplit
      obtain ⟨as, bs, rfl⟩ := List.append_of_mem (ih xs ys hsplit)
      obtain ⟨ps, hps, hp⟩ := h
      have hmid : l = as ++ q :: (bs ++ u :: ys) := by
        rw [hsplit, List.append_assoc, List.cons_append]
      exact List.mem_append_left _ (hl as _ _ hmid ps hps _ hp)
  intro h
  obtain ⟨xs, ys, rfl⟩ := List.append_of_mem ht
  exact (List.nodup_append.mp hnodup).2.2 t (hbefore h xs ys rfl) t List.mem_cons_self rfl

/-- Without cycles every key is taken: a least one that is not would be ready. -/
theorem mem_order_of_acyclic {preds : Dict κ (List κ)}
    (hknown : ∀ t ps, (t, ps) ∈ preds.entries → ∀ p ∈ ps, p ∈ preds.keys)
    (hacyclic : ∀ t, ¬ Relation.TransGen (Precedes preds) t t) {t : κ} (ht : t ∈ preds.keys) :
    t ∈ order preds := by
  have : Finite {t : κ // t ∈ preds.keys} := (List.finite_toSet preds.keys).to_subtype
  let before : {t : κ // t ∈ preds.keys} → {t : κ // t ∈ preds.keys} → Prop :=
    fun p t => Relation.TransGen (Precedes preds) p.1 t.1
  have : IsTrans _ before := ⟨fun _ _ _ hab hbc => hab.trans hbc⟩
  have : Std.Irrefl before := ⟨fun t => hacyclic t.1⟩
  have hwf : WellFounded before := Finite.wellFounded_of_trans_of_irrefl before
  have key : ∀ t : {t : κ // t ∈ preds.keys}, t.1 ∈ order preds := by
    intro t
    induction t using hwf.induction with
    | _ t ih =>
      obtain ⟨⟨u, ps⟩, hps, hu⟩ := List.mem_map.mp t.2
      obtain rfl : u = t.1 := hu
      exact mem_order_of_forall hps fun p hp =>
        ih ⟨p, hknown _ ps hps p hp⟩ (Relation.TransGen.single ⟨ps, hps, hp⟩)
  exact key ⟨t, ht⟩

theorem order_perm_keys {preds : Dict κ (List κ)} (h : ∀ t ∈ preds.keys, t ∈ order preds) :
    (order preds).Perm preds.keys :=
  (List.perm_ext_iff_of_nodup (order_nodup preds) preds.keys_nodup).mpr
    fun t => ⟨order_subset preds t, h t⟩

/-- When as many keys are taken as there are, all of them are. -/
theorem order_perm_of_length {preds : Dict κ (List κ)}
    (h : (order preds).length = preds.entries.length) : (order preds).Perm preds.keys := by
  refine (List.subperm_of_subset (order_nodup preds) (order_subset preds)).perm_of_length_le ?_
  rw [h]
  exact (List.length_map _).le

/-- **All keys are taken exactly when no key precedes itself.** -/
theorem length_order_iff {preds : Dict κ (List κ)}
    (hknown : ∀ t ps, (t, ps) ∈ preds.entries → ∀ p ∈ ps, p ∈ preds.keys) :
    (order preds).length = preds.entries.length ↔
      ∀ t, ¬ Relation.TransGen (Precedes preds) t t := by
  constructor
  · intro h t ht
    have hkey : t ∈ preds.keys := by
      obtain ⟨p, -, ps, hps, -⟩ := Relation.TransGen.tail'_iff.mp ht
      exact List.mem_map.mpr ⟨(t, ps), hps, rfl⟩
    have hmem := (order_perm_of_length h).mem_iff.mpr hkey
    exact (order_ordered preds).not_transGen (order_nodup preds) hmem ht
  · intro h
    rw [(order_perm_keys fun t => mem_order_of_acyclic hknown h).length_eq]
    exact List.length_map _

/-! ## One order -/

/-- After a common beginning the least key of the one list is no greater than that of the other. -/
theorem Ordered.head_le {preds : Dict κ (List κ)} {l l' xs ys ys' : List κ} {t t' : κ}
    (hl : Ordered preds l) (hleast' : Least preds l') (hperm : l.Perm preds.keys)
    (h : l = xs ++ t :: ys) (h' : l' = xs ++ t' :: ys') : t' ≤ t := by
  have hmem : t ∈ preds.keys := hperm.mem_iff.mp (by rw [h]; simp)
  obtain ⟨⟨u, ps⟩, hps, rfl⟩ := List.mem_map.mp hmem
  refine hleast' xs t' ys' h' u ps hps ?_ (hl xs u ys h ps hps)
  intro hu
  have hnodup := hperm.nodup_iff.mpr preds.keys_nodup
  rw [h] at hnodup
  exact (List.nodup_append.mp hnodup).2.2 u hu u List.mem_cons_self rfl

/-- There is one list of all keys with the predecessors first and the least key at each place. -/
theorem Ordered.unique {preds : Dict κ (List κ)} {l l' : List κ} (hl : Ordered preds l)
    (hl' : Ordered preds l') (hleast : Least preds l) (hleast' : Least preds l')
    (hperm : l.Perm preds.keys) (hperm' : l'.Perm preds.keys) : l = l' := by
  have hlen := (hperm.trans hperm'.symm).length_eq
  -- by induction on what follows a common beginning
  have key : ∀ ys ys' xs, l = xs ++ ys → l' = xs ++ ys' → ys = ys' := by
    intro ys
    induction ys with
    | nil =>
      intro ys' xs h h'
      rw [h, h', List.length_append, List.length_append, List.length_nil] at hlen
      exact (List.length_eq_zero_iff.mp (by omega)).symm
    | cons t ys ih =>
      intro ys' xs h h'
      cases ys' with
      | nil =>
        rw [h, h', List.length_append, List.length_append, List.length_nil, List.length_cons] at hlen
        omega
      | cons t' ys' =>
        obtain rfl : t = t' :=
          le_antisymm (hl'.head_le hleast hperm' h' h) (hl.head_le hleast' hperm h h')
        rw [ih ys' (xs ++ [t]) (by simpa using h) (by simpa using h')]
  exact key l l' [] rfl rfl

/-- Every entry of the one has its key in the other, with the same predecessors. -/
def Covers (preds preds' : Dict κ (List κ)) : Prop :=
  ∀ t ps, (t, ps) ∈ preds.entries → ∃ ps', (t, ps') ∈ preds'.entries ∧ ∀ p, p ∈ ps ↔ p ∈ ps'

omit [LinearOrder κ] in
theorem Covers.keys {preds preds' : Dict κ (List κ)} (h : Covers preds preds') :
    ∀ t ∈ preds.keys, t ∈ preds'.keys := by
  intro t ht
  obtain ⟨⟨u, ps⟩, hps, rfl⟩ := List.mem_map.mp ht
  obtain ⟨ps', hps', -⟩ := h u ps hps
  exact List.mem_map.mpr ⟨(u, ps'), hps', rfl⟩

omit [LinearOrder κ] in
theorem Covers.ordered {preds preds' : Dict κ (List κ)} (h : Covers preds preds') {l : List κ}
    (hl : Ordered preds' l) : Ordered preds l := by
  intro xs t ys hsplit ps hps p hp
  obtain ⟨ps', hps', hiff⟩ := h t ps hps
  exact hl xs t ys hsplit ps' hps' p ((hiff p).mp hp)

theorem Covers.least {preds preds' : Dict κ (List κ)} (h : Covers preds preds') {l : List κ}
    (hl : Least preds' l) : Least preds l := by
  intro xs t ys hsplit u ps hps hu hbefore
  obtain ⟨ps', hps', hiff⟩ := h u ps hps
  exact hl xs t ys hsplit u ps' hps' hu fun p hp => hbefore p ((hiff p).mpr hp)

/-- Dictionaries with the same keys and predecessors have the same order, when it has all keys. -/
theorem order_congr {preds preds' : Dict κ (List κ)} (h : Covers preds preds')
    (h' : Covers preds' preds) (hall : (order preds').length = preds'.entries.length) :
    order preds = order preds' := by
  have hperm' := order_perm_of_length hall
  have hperm : (order preds).Perm preds.keys := by
    refine order_perm_keys fun t ht => ?_
    refine mem_order_of_ordered (h.ordered (order_ordered preds')) ?_ t
      (hperm'.mem_iff.mpr (h.keys t ht))
    exact fun u hu => h'.keys u (order_subset preds' u hu)
  have hkeys : preds'.keys.Perm preds.keys :=
    (List.perm_ext_iff_of_nodup preds'.keys_nodup preds.keys_nodup).mpr
      fun t => ⟨h'.keys t, h.keys t⟩
  exact (order_ordered preds).unique (h.ordered (order_ordered preds')) (order_least preds)
    (h.least (order_least preds')) hperm (hperm'.trans hkeys)

end AstroMine.Kahn
