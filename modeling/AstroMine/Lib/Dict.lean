import Mathlib.Data.List.Sort
import Mathlib.Data.List.Nodup
import Mathlib.Data.List.Infix
import Mathlib.Algebra.BigOperators.Group.List.Basic
import Mathlib.Algebra.Group.Basic
import Mathlib.Tactic.Abel

/-!
# Insertion-ordered dictionaries and sorting by a key

`Dict κ ν` keeps its keys in the order of their first insertion, and no key twice. `ofList` writes
a list of bindings one after the other, `group` collects the values of each key, and `sortOn`
sorts a list by a key and keeps the order of equal keys.

Results:
* `Dict.get?_update`: a dictionary after one write.
* `Dict.get?_ofList_of_forall`: the value of a key all of whose bindings agree.
* `Dict.get?_group`: the values collected under a key.
-/

namespace AstroMine

/-! ## Sorting by a key -/

section SortOn

variable {α κ : Type*} [LinearOrder κ]

/-- The list sorted by `key`, equal keys in their old order. -/
def sortOn (key : α → κ) (xs : List α) : List α :=
  xs.insertionSort (fun a b => key a ≤ key b)

theorem sortOn_perm (key : α → κ) (xs : List α) : (sortOn key xs).Perm xs :=
  List.perm_insertionSort _ xs

@[simp]
theorem mem_sortOn (key : α → κ) (xs : List α) (x : α) : x ∈ sortOn key xs ↔ x ∈ xs :=
  (sortOn_perm key xs).mem_iff

theorem sortOn_pairwise (key : α → κ) (xs : List α) :
    (sortOn key xs).Pairwise (fun a b => key a ≤ key b) := by
  have : Std.Total (fun a b : α => key a ≤ key b) := ⟨fun a b => le_total (key a) (key b)⟩
  have : IsTrans α (fun a b => key a ≤ key b) := ⟨fun _ _ _ hab hbc => le_trans hab hbc⟩
  exact List.pairwise_insertionSort _ xs

/-- A sorted list of keys does not depend on the order they come in. -/
theorem sortOn_id_eq_of_perm {xs ys : List κ} (h : xs.Perm ys) : sortOn id xs = sortOn id ys :=
  List.Perm.eq_of_pairwise (fun _ _ _ _ hab hba => le_antisymm hab hba)
    (sortOn_pairwise id xs) (sortOn_pairwise id ys)
    ((sortOn_perm id xs).trans (h.trans (sortOn_perm id ys).symm))

theorem sortOn_nodup {key : α → κ} {xs : List α} : (sortOn key xs).Nodup ↔ xs.Nodup :=
  (sortOn_perm key xs).nodup_iff

theorem sortOn_eq_nil (key : α → κ) (xs : List α) : sortOn key xs = [] ↔ xs = [] := by
  rw [← List.length_eq_zero_iff, (sortOn_perm key xs).length_eq, List.length_eq_zero_iff]

theorem sortOn_eq_self_iff {key : α → κ} {xs : List α} :
    sortOn key xs = xs ↔ xs.Pairwise fun x y => key x ≤ key y := by
  constructor
  · intro h
    rw [← h]
    exact sortOn_pairwise key xs
  · exact List.Pairwise.insertionSort_eq

/-- On distinct keys a relation holds along the sorted list when it holds upwards. -/
theorem pairwise_sortOn_iff {key : α → κ} {R : α → α → Prop} {xs : List α}
    (hnd : (xs.map key).Nodup) :
    (sortOn key xs).Pairwise R ↔ ∀ x ∈ xs, ∀ y ∈ xs, key x < key y → R x y := by
  constructor
  · intro h
    have hup : (sortOn key xs).Pairwise fun x y => key x < key y → R x y :=
      h.imp fun hxy => fun _ => hxy
    have hdown : (sortOn key xs).Pairwise fun x y => key y < key x → R y x :=
      (sortOn_pairwise key xs).imp fun hle hlt => absurd hlt (not_lt_of_ge hle)
    intro x hx y hy
    exact List.Pairwise.forall_of_forall_of_flip (fun _ _ hlt => absurd hlt (lt_irrefl _)) hup hdown
      ((mem_sortOn key xs x).2 hx) ((mem_sortOn key xs y).2 hy)
  · intro h
    have hne : (sortOn key xs).Pairwise fun x y => key x ≠ key y :=
      List.pairwise_map.mp (((sortOn_perm key xs).map key).nodup_iff.mpr hnd)
    refine List.Pairwise.imp_of_mem ?_ (hne.and (sortOn_pairwise key xs))
    intro x y hx hy hxy
    exact h x ((mem_sortOn key xs x).1 hx) y ((mem_sortOn key xs y).1 hy)
      (lt_of_le_of_ne hxy.2 hxy.1)

/-- On distinct keys a search along the sorted list finds what lies under the least key. -/
theorem findSome?_sortOn {β : Type*} {key : α → κ} {f : α → Option β} {xs : List α}
    (hnd : (xs.map key).Nodup) {x : α} (hx : x ∈ xs) {b : β} (hfound : f x = some b)
    (hleast : ∀ y ∈ xs, (f y).isSome → key x ≤ key y) : (sortOn key xs).findSome? f = some b := by
  obtain ⟨before, after, hsplit⟩ := List.append_of_mem ((mem_sortOn key xs x).2 hx)
  have hsorted := sortOn_pairwise key xs
  have hkeys := ((sortOn_perm key xs).map key).nodup_iff.mpr hnd
  rw [hsplit] at hsorted hkeys
  rw [List.map_append, List.map_cons] at hkeys
  have hnone : before.findSome? f = none := by
    refine List.findSome?_eq_none_iff.2 fun y hy => Option.not_isSome_iff_eq_none.1 fun hsome => ?_
    have hmem : y ∈ xs := (mem_sortOn key xs y).1 (by rw [hsplit]; exact List.mem_append_left _ hy)
    have hle : key y ≤ key x := (List.pairwise_append.1 hsorted).2.2 y hy x List.mem_cons_self
    have hne : key y ≠ key x := (List.nodup_append.1 hkeys).2.2 _ (List.mem_map_of_mem hy) _
      List.mem_cons_self
    exact hne (le_antisymm hle (hleast y hmem hsome))
  rw [hsplit, List.findSome?_append, hnone, Option.none_or, List.findSome?_cons, hfound]

end SortOn

/-! ## Entries -/

section Entries

variable {κ ν : Type*} [DecidableEq κ]

/-- The entries with the value of `k` replaced by `f` of it, or with a new last entry. -/
def updateEntries (k : κ) (f : Option ν → ν) : List (κ × ν) → List (κ × ν)
  | [] => [(k, f none)]
  | p :: ps => if p.1 = k then (k, f (some p.2)) :: ps else p :: updateEntries k f ps

theorem keys_updateEntries (k : κ) (f : Option ν → ν) (ps : List (κ × ν)) :
    (updateEntries k f ps).map Prod.fst =
      if k ∈ ps.map Prod.fst then ps.map Prod.fst else ps.map Prod.fst ++ [k] := by
  induction ps with
  | nil => simp [updateEntries]
  | cons p ps ih =>
    by_cases hp : p.1 = k
    · simp [updateEntries, hp]
    · rw [updateEntries, if_neg hp, List.map_cons, ih]
      have hk : k ≠ p.1 := fun h => hp h.symm
      by_cases hm : k ∈ ps.map Prod.fst
      · rw [if_pos hm, if_pos (by simp [List.mem_map.mp hm])]
        rfl
      · rw [if_neg hm, if_neg (by simpa [hk] using hm)]
        rfl

theorem lookup_updateEntries (k : κ) (f : Option ν → ν) (ps : List (κ × ν)) (k' : κ) :
    (updateEntries k f ps).lookup k' =
      if k' = k then some (f (ps.lookup k)) else ps.lookup k' := by
  induction ps with
  | nil =>
    by_cases hk : k' = k
    · simp [updateEntries, hk]
    · have hb : (k' == k) = false := beq_false_of_ne hk
      simp [updateEntries, List.lookup_cons, hk, hb]
  | cons p ps ih =>
    obtain ⟨a, v⟩ := p
    by_cases hp : a = k
    · subst hp
      by_cases hk : k' = a
      · simp [updateEntries, hk]
      · have hb : (k' == a) = false := beq_false_of_ne hk
        simp [updateEntries, List.lookup_cons, hk, hb]
    · rw [updateEntries, if_neg hp, List.lookup_cons, ih, List.lookup_cons, List.lookup_cons]
      have hka : (k == a) = false := beq_false_of_ne fun h => hp h.symm
      by_cases hk : k' = a
      · have hne : k' ≠ k := fun h => hp (hk.symm.trans h)
        simp [hk, hp]
      · have hb : (k' == a) = false := beq_false_of_ne hk
        simp [hb, hka]

theorem lookup_isSome_iff (ps : List (κ × ν)) (k : κ) :
    (ps.lookup k).isSome ↔ k ∈ ps.map Prod.fst := by
  induction ps with
  | nil => simp
  | cons p ps ih =>
    rw [List.lookup_cons, List.map_cons, List.mem_cons]
    by_cases hk : k = p.1
    · simp [hk]
    · have hb : (k == p.1) = false := beq_false_of_ne hk
      simp only [hb, ih, hk, false_or]

theorem mem_of_lookup_eq_some {ps : List (κ × ν)} {k : κ} {v : ν} (h : ps.lookup k = some v) :
    (k, v) ∈ ps := by
  obtain ⟨as, bs, hps, -⟩ := List.lookup_eq_some_iff.mp h
  rw [hps]
  simp

/-- A write under a new key comes last. -/
theorem updateEntries_of_notMem {k : κ} (f : Option ν → ν) {ps : List (κ × ν)}
    (h : k ∉ ps.map Prod.fst) : updateEntries k f ps = ps ++ [(k, f none)] := by
  induction ps with
  | nil => rfl
  | cons p ps ih =>
    rw [List.map_cons, List.mem_cons, not_or] at h
    rw [updateEntries, if_neg fun hk => h.1 hk.symm, ih h.2, List.cons_append]

theorem mem_updateEntries {k : κ} {f : Option ν → ν}
    {ps : List (κ × ν)} {p : κ × ν} (h : p ∈ updateEntries k f ps) : p ∈ ps ∨ ∃ o, p = (k, f o) := by
  induction ps with
  | nil => exact .inr ⟨none, List.mem_singleton.mp h⟩
  | cons q ps ih =>
    rw [updateEntries] at h
    split_ifs at h with hq
    · rcases List.mem_cons.mp h with rfl | h
      · exact .inr ⟨_, rfl⟩
      · exact .inl (List.mem_cons_of_mem _ h)
    · rcases List.mem_cons.mp h with rfl | h
      · exact .inl List.mem_cons_self
      · exact (ih h).imp (List.mem_cons_of_mem _) id

/-- A write moves the entries of other keys nowhere and leaves one entry under its key. -/
theorem updateEntries_perm (k : κ) (v : ν) {ps : List (κ × ν)}
    (h : (ps.map Prod.fst).Nodup) :
    (updateEntries k (fun _ => v) ps).Perm ((ps.filter fun p => p.1 ≠ k) ++ [(k, v)]) := by
  induction ps with
  | nil => exact .refl _
  | cons p ps ih =>
    obtain ⟨hp, hps⟩ := List.nodup_cons.mp h
    rw [updateEntries]
    by_cases hk : p.1 = k
    · have hrest : ps.filter (fun p => p.1 ≠ k) = ps := by
        rw [List.filter_eq_self]
        intro q hq
        have hne : q.1 ≠ k := by
          rintro rfl
          exact hp (hk ▸ List.mem_map_of_mem hq)
        simpa using hne
      rw [if_pos hk, List.filter_cons_of_neg (by simpa using hk), hrest]
      exact (List.perm_append_singleton (k, v) ps).symm
    · rw [if_neg hk, List.filter_cons_of_pos (by simpa using hk), List.cons_append]
      exact (ih hps).cons p

end Entries

/-! ## Dictionaries -/

/-- A dictionary: entries in insertion order, no key twice. -/
structure Dict (κ ν : Type*) where
  entries : List (κ × ν)
  keys_nodup : (entries.map Prod.fst).Nodup
  deriving DecidableEq

namespace Dict

variable {κ ν : Type*}

/-- The dictionary without entries. -/
def empty : Dict κ ν := ⟨[], List.nodup_nil⟩

/-- The keys in insertion order. -/
def keys (d : Dict κ ν) : List κ := d.entries.map Prod.fst

/-- The dictionary with every value replaced, the keys kept. -/
def mapValues {μ : Type*} (d : Dict κ ν) (f : ν → μ) : Dict κ μ where
  entries := d.entries.map fun p => (p.1, f p.2)
  keys_nodup := by
    have h := d.keys_nodup
    rwa [List.map_map, show (Prod.fst ∘ fun p : κ × ν => (p.1, f p.2)) = Prod.fst from rfl]

/-- The dictionary with every value replaced, each by a function of its key and itself. -/
def mapWithKey {μ : Type*} (d : Dict κ ν) (f : κ → ν → μ) : Dict κ μ where
  entries := d.entries.map fun p => (p.1, f p.1 p.2)
  keys_nodup := by
    have h := d.keys_nodup
    rwa [List.map_map, show (Prod.fst ∘ fun p : κ × ν => (p.1, f p.1 p.2)) = Prod.fst from rfl]

/-- The entries with every value replaced in order, an accumulator carried along. -/
def mapAccumEntries {μ ρ : Type*} (f : κ → ν → ρ → μ × ρ) : List (κ × ν) → ρ → List (κ × μ) × ρ
  | [], r => ([], r)
  | p :: ps, r =>
    let (v, r₁) := f p.1 p.2 r
    let (vs, r₂) := mapAccumEntries f ps r₁
    ((p.1, v) :: vs, r₂)

theorem keys_mapAccumEntries {μ ρ : Type*} (f : κ → ν → ρ → μ × ρ) (ps : List (κ × ν)) (r : ρ) :
    (mapAccumEntries f ps r).1.map Prod.fst = ps.map Prod.fst := by
  induction ps generalizing r with
  | nil => rfl
  | cons p ps ih => simp only [mapAccumEntries, List.map_cons, ih]

/-- The dictionary with every value replaced in order, an accumulator carried along. -/
def mapAccum {μ ρ : Type*} (d : Dict κ ν) (f : κ → ν → ρ → μ × ρ) (r : ρ) : Dict κ μ × ρ :=
  (⟨(mapAccumEntries f d.entries r).1, by
    rw [keys_mapAccumEntries]
    exact d.keys_nodup⟩, (mapAccumEntries f d.entries r).2)

@[simp]
theorem keys_mapAccum {μ ρ : Type*} (d : Dict κ ν) (f : κ → ν → ρ → μ × ρ) (r : ρ) :
    (d.mapAccum f r).1.keys = d.keys :=
  keys_mapAccumEntries f d.entries r

theorem nodup_keys (d : Dict κ ν) : d.keys.Nodup := d.keys_nodup

@[simp]
theorem keys_mapValues {μ : Type*} (d : Dict κ ν) (f : ν → μ) : (d.mapValues f).keys = d.keys := by
  rw [keys, mapValues, List.map_map, keys]
  rfl

@[simp]
theorem keys_mapWithKey {μ : Type*} (d : Dict κ ν) (f : κ → ν → μ) :
    (d.mapWithKey f).keys = d.keys := by
  rw [keys, mapWithKey, List.map_map, keys]
  rfl

/-- The sum of a quantity over the values. -/
def total {M : Type*} [AddCommGroup M] (f : ν → M) (d : Dict κ ν) : M :=
  (d.entries.map fun p => f p.2).sum

@[simp]
theorem total_empty {M : Type*} [AddCommGroup M] (f : ν → M) : total f (empty : Dict κ ν) = 0 := rfl

variable [DecidableEq κ]

/-- The value of a key. -/
def get? (d : Dict κ ν) (k : κ) : Option ν := d.entries.lookup k

/-- The value of a key, or the given default. -/
def getD (d : Dict κ ν) (k : κ) (v : ν) : ν := (d.get? k).getD v

/-- The dictionary with the value of `k` replaced by `f` of what is there. -/
def update (d : Dict κ ν) (k : κ) (f : Option ν → ν) : Dict κ ν where
  entries := updateEntries k f d.entries
  keys_nodup := by
    rw [keys_updateEntries]
    split_ifs with hk
    · exact d.keys_nodup
    · exact d.keys_nodup.append (List.nodup_singleton k) (by simpa using hk)

/-- The dictionary with `k` bound to `v`. -/
def set (d : Dict κ ν) (k : κ) (v : ν) : Dict κ ν := d.update k fun _ => v

/-- The dictionary with the bindings written one after the other. -/
def setAll (d : Dict κ ν) (ps : List (κ × ν)) : Dict κ ν := ps.foldl (fun d p => d.set p.1 p.2) d

/-- The dictionary of the bindings, written one after the other. -/
def ofList (ps : List (κ × ν)) : Dict κ ν := ps.foldl (fun d p => d.set p.1 p.2) empty

/-- The values of each key, in the order they come. -/
def group (ps : List (κ × ν)) : Dict κ (List ν) :=
  ps.foldl (fun d p => d.update p.1 fun vs => vs.getD [] ++ [p.2]) empty

@[simp]
theorem get?_empty (k : κ) : (empty : Dict κ ν).get? k = none := rfl

theorem get?_update (d : Dict κ ν) (k : κ) (f : Option ν → ν) (k' : κ) :
    (d.update k f).get? k' = if k' = k then some (f (d.get? k)) else d.get? k' :=
  lookup_updateEntries k f d.entries k'

theorem get?_set (d : Dict κ ν) (k : κ) (v : ν) (k' : κ) :
    (d.set k v).get? k' = if k' = k then some v else d.get? k' :=
  get?_update d k _ k'

theorem getD_set (d : Dict κ ν) (k : κ) (v : ν) (k' : κ) (z : ν) :
    (d.set k v).getD k' z = if k' = k then v else d.getD k' z := by
  rw [getD, get?_set, apply_ite (Option.getD · z), Option.getD_some]
  rfl

theorem entries_set_of_notMem {d : Dict κ ν} {k : κ} (v : ν)
    (h : k ∉ d.entries.map Prod.fst) : (d.set k v).entries = d.entries ++ [(k, v)] :=
  updateEntries_of_notMem _ h

/-- The entries of the keys that pass. -/
def filterKeys (d : Dict κ ν) (p : κ → Bool) : Dict κ ν where
  entries := d.entries.filter fun e => p e.1
  keys_nodup := d.keys_nodup.sublist (List.filter_sublist.map Prod.fst)

theorem get?_filterKeys (d : Dict κ ν) (p : κ → Bool) (k : κ) :
    (d.filterKeys p).get? k = if p k then d.get? k else none := by
  have hlookup : ∀ es : List (κ × ν), (es.filter fun e => p e.1).lookup k =
      if p k then es.lookup k else none := by
    intro es
    induction es with
    | nil => simp
    | cons e es ih =>
      rw [List.filter_cons, List.lookup_cons]
      by_cases hk : k = e.1
      · subst hk
        by_cases hp : p e.1 = true
        · rw [if_pos hp, if_pos hp, List.lookup_cons, beq_self_eq_true]
        · simpa [hp] using ih
      · have hb : (k == e.1) = false := beq_false_of_ne hk
        rw [hb]
        split_ifs at ih ⊢ <;> first | exact ih | rw [List.lookup_cons, hb, ih]
  exact hlookup d.entries

omit [DecidableEq κ] in
theorem filterKeys_eq_self {d : Dict κ ν} {p : κ → Bool} (h : ∀ k ∈ d.keys, p k = true) :
    d.filterKeys p = d := by
  have hentries : d.entries.filter (fun e => p e.1) = d.entries :=
    List.filter_eq_self.mpr fun e he => h e.1 (List.mem_map_of_mem he)
  cases d
  simp only [filterKeys, Dict.mk.injEq]
  exact hentries

omit [DecidableEq κ] in
theorem keys_filterKeys (d : Dict κ ν) (p : κ → Bool) :
    (d.filterKeys p).keys = d.keys.filter p :=
  List.filter_map.symm

theorem mem_keys (d : Dict κ ν) (k : κ) : k ∈ d.keys ↔ (d.get? k).isSome :=
  (lookup_isSome_iff d.entries k).symm

theorem get?_eq_some_iff (d : Dict κ ν) (k : κ) (v : ν) :
    d.get? k = some v ↔ (k, v) ∈ d.entries := by
  refine ⟨mem_of_lookup_eq_some, fun hm => ?_⟩
  have hs : (d.entries.lookup k).isSome :=
    (lookup_isSome_iff d.entries k).mpr (List.mem_map.mpr ⟨(k, v), hm, rfl⟩)
  obtain ⟨w, hw⟩ := Option.isSome_iff_exists.mp hs
  have heq := List.inj_on_of_nodup_map d.keys_nodup hm (mem_of_lookup_eq_some hw) rfl
  rw [get?, hw, (Prod.mk.inj heq).2]

theorem get?_mapValues {μ : Type*} (d : Dict κ ν) (f : ν → μ) (k : κ) :
    (d.mapValues f).get? k = (d.get? k).map f := by
  cases hd : d.get? k with
  | some v =>
    rw [Option.map_some, get?_eq_some_iff]
    exact List.mem_map.mpr ⟨(k, v), (get?_eq_some_iff d k v).mp hd, rfl⟩
  | none =>
    rw [Option.map_none, ← Option.not_isSome_iff_eq_none, ← mem_keys]
    have hk : k ∉ d.keys := by simp [mem_keys, hd]
    simpa [keys, mapValues] using hk

theorem get?_mapWithKey {μ : Type*} (d : Dict κ ν) (f : κ → ν → μ) (k : κ) :
    (d.mapWithKey f).get? k = (d.get? k).map (f k) := by
  cases hd : d.get? k with
  | some v =>
    rw [Option.map_some, get?_eq_some_iff]
    exact List.mem_map.mpr ⟨(k, v), (get?_eq_some_iff d k v).mp hd, rfl⟩
  | none =>
    rw [Option.map_none, ← Option.not_isSome_iff_eq_none, ← mem_keys, keys_mapWithKey]
    simp [mem_keys, hd]

theorem lookup_mapAccumEntries {μ ρ : Type*} (f : κ → ν → ρ → μ × ρ) {ps : List (κ × ν)} {r : ρ}
    {k : κ} {w : μ} (h : (mapAccumEntries f ps r).1.lookup k = some w) :
    ∃ v r', ps.lookup k = some v ∧ w = (f k v r').1 := by
  induction ps generalizing r with
  | nil => simp [mapAccumEntries] at h
  | cons p ps ih =>
    rw [mapAccumEntries, List.lookup_cons] at h
    by_cases hk : k = p.1
    · subst hk
      simp only [beq_self_eq_true, Option.some.injEq] at h
      exact ⟨p.2, r, List.lookup_cons_self, h.symm⟩
    · have hb : (k == p.1) = false := beq_false_of_ne hk
      simp only [hb] at h
      obtain ⟨v, r', hv, hw⟩ := ih h
      exact ⟨v, r', by rw [List.lookup_cons, hb]; exact hv, hw⟩

theorem get?_mapAccum {μ ρ : Type*} {d : Dict κ ν} {f : κ → ν → ρ → μ × ρ} {r : ρ} {k : κ} {w : μ}
    (h : (d.mapAccum f r).1.get? k = some w) :
    ∃ v r', d.get? k = some v ∧ w = (f k v r').1 :=
  lookup_mapAccumEntries f h

/-- A dictionary is its keys in order and its values. -/
theorem ext_get? {d d' : Dict κ ν} (hk : d.keys = d'.keys) (hv : ∀ k, d.get? k = d'.get? k) :
    d = d' := by
  have hentries (d : Dict κ ν) : d.entries = d.keys.filterMap fun k =>
      (d.get? k).map fun v => (k, v) := by
    rw [keys, List.filterMap_map]
    have hid : d.entries = d.entries.filterMap some := by rw [List.filterMap_some]
    refine hid.trans (List.filterMap_congr fun p hp => ?_)
    have hp' : d.get? p.1 = some p.2 := (get?_eq_some_iff d p.1 p.2).mpr hp
    simp [hp']
  have heq : d.entries = d'.entries := by
    rw [hentries d, hentries d', hk]
    exact List.filterMap_congr fun k _ => by rw [hv k]
  cases d
  cases d'
  simpa using heq

/-! ## Bindings written in a row -/

theorem get?_foldl_set (ps : List (κ × ν)) (d : Dict κ ν) (k : κ) :
    (ps.foldl (fun d p => d.set p.1 p.2) d).get? k =
      ((ps.reverse.find? fun p => p.1 = k).map Prod.snd).or (d.get? k) := by
  induction ps generalizing d with
  | nil => simp
  | cons p ps ih =>
    rw [List.foldl_cons, ih, get?_set, List.reverse_cons, List.find?_append]
    by_cases hk : k = p.1
    · subst hk
      cases ps.reverse.find? fun q => q.1 = p.1 <;> simp
    · have hk' : p.1 ≠ k := fun h => hk h.symm
      simp [hk, hk']

/-- The value of a key is that of its last binding. -/
theorem get?_ofList (ps : List (κ × ν)) (k : κ) :
    (ofList ps).get? k = (ps.reverse.find? fun p => p.1 = k).map Prod.snd := by
  rw [ofList, get?_foldl_set]
  simp

theorem get?_ofList_eq_none {ps : List (κ × ν)} {k : κ} (h : ∀ p ∈ ps, p.1 ≠ k) :
    (ofList ps).get? k = none := by
  rw [get?_ofList, Option.map_eq_none_iff, List.find?_eq_none]
  intro p hp
  simpa using h p (List.mem_reverse.mp hp)

/-- The value of a key all of whose bindings agree. -/
theorem get?_ofList_of_forall {ps : List (κ × ν)} {k : κ} {v : ν} (hm : (k, v) ∈ ps)
    (h : ∀ p ∈ ps, p.1 = k → p.2 = v) : (ofList ps).get? k = some v := by
  rw [get?_ofList]
  have hs : (ps.reverse.find? fun p => p.1 = k).isSome := by
    rw [List.find?_isSome]
    exact ⟨(k, v), List.mem_reverse.mpr hm, by simp⟩
  obtain ⟨p, hp⟩ := Option.isSome_iff_exists.mp hs
  have hpk : p.1 = k := by simpa using List.find?_some hp
  have hpm : p ∈ ps := List.mem_reverse.mp (List.mem_of_find?_eq_some hp)
  rw [hp, Option.map_some, h p hpm hpk]

theorem get?_ofList_mem {ps : List (κ × ν)} {k : κ} {v : ν} (h : (ofList ps).get? k = some v) :
    (k, v) ∈ ps := by
  rw [get?_ofList] at h
  obtain ⟨p, hp, rfl⟩ := Option.map_eq_some_iff.mp h
  have hpk : p.1 = k := by simpa using List.find?_some hp
  subst hpk
  exact List.mem_reverse.mp (List.mem_of_find?_eq_some hp)

theorem isSome_get?_ofList {ps : List (κ × ν)} {p : κ × ν} (h : p ∈ ps) :
    ((ofList ps).get? p.1).isSome := by
  rw [get?_ofList, Option.isSome_map, List.find?_isSome]
  exact ⟨p, List.mem_reverse.mpr h, by simp⟩

/-- Bindings of new keys come after the old entries. -/
theorem entries_setAll {d : Dict κ ν} {ps : List (κ × ν)}
    (h : (d.keys ++ ps.map Prod.fst).Nodup) : (d.setAll ps).entries = d.entries ++ ps := by
  induction ps generalizing d with
  | nil => exact (List.append_nil _).symm
  | cons p ps ih =>
    rw [List.map_cons] at h
    have hp : p.1 ∉ d.entries.map Prod.fst := fun hm =>
      (List.nodup_append.mp h).2.2 p.1 hm p.1 List.mem_cons_self rfl
    have hd : (d.set p.1 p.2).entries = d.entries ++ [p] := updateEntries_of_notMem _ hp
    have hkeys : (d.set p.1 p.2).keys = d.keys ++ [p.1] := by rw [keys, hd, List.map_append]; rfl
    have hih := ih (d := d.set p.1 p.2) (by
      rw [hkeys, List.append_assoc]
      exact h)
    rw [hd, List.append_assoc] at hih
    exact hih

/-- Bindings of distinct keys are the entries. -/
theorem entries_ofList {ps : List (κ × ν)} (h : (ps.map Prod.fst).Nodup) :
    (ofList ps).entries = ps :=
  entries_setAll (d := empty) h

/-! ## Grouping -/

theorem get?_foldl_group (ps : List (κ × ν)) (d : Dict κ (List ν)) (k : κ) :
    ((ps.foldl (fun d p => d.update p.1 fun vs => vs.getD [] ++ [p.2]) d).get? k).getD [] =
      (d.get? k).getD [] ++ (ps.filter fun p => p.1 = k).map Prod.snd := by
  induction ps generalizing d with
  | nil => simp
  | cons p ps ih =>
    rw [List.foldl_cons, ih, get?_update]
    by_cases hk : k = p.1
    · subst hk
      simp
    · have hk' : p.1 ≠ k := fun h => hk h.symm
      simp [hk, hk']

theorem isSome_foldl_group (ps : List (κ × ν)) (d : Dict κ (List ν)) (k : κ) :
    ((ps.foldl (fun d p => d.update p.1 fun vs => vs.getD [] ++ [p.2]) d).get? k).isSome ↔
      (d.get? k).isSome ∨ ∃ p ∈ ps, p.1 = k := by
  induction ps generalizing d with
  | nil => simp
  | cons p ps ih =>
    rw [List.foldl_cons, ih, get?_update]
    by_cases hk : k = p.1
    · subst hk
      simp
    · have hk' : p.1 ≠ k := fun h => hk h.symm
      simp [hk, hk']

theorem getD_group (ps : List (κ × ν)) (k : κ) :
    (group ps).getD k [] = (ps.filter fun p => p.1 = k).map Prod.snd := by
  rw [getD, group, get?_foldl_group]
  simp

theorem mem_keys_group (ps : List (κ × ν)) (k : κ) :
    k ∈ (group ps).keys ↔ ∃ p ∈ ps, p.1 = k := by
  rw [mem_keys, group, isSome_foldl_group]
  simp

theorem get?_group (ps : List (κ × ν)) (k : κ) :
    (group ps).get? k =
      if ∃ p ∈ ps, p.1 = k then some ((ps.filter fun p => p.1 = k).map Prod.snd) else none := by
  have hd := getD_group ps k
  have hk := mem_keys_group ps k
  rw [mem_keys] at hk
  cases hg : (group ps).get? k with
  | none => rw [if_neg (by rw [← hk, hg]; simp)]
  | some vs =>
    rw [if_pos (by rw [← hk, hg]; rfl), ← hd, getD, hg, Option.getD_some]

theorem keys_update (d : Dict κ ν) (k : κ) (f : Option ν → ν) :
    (d.update k f).keys = if k ∈ d.keys then d.keys else d.keys ++ [k] :=
  keys_updateEntries k f d.entries

/-- Grouping keeps the keys there are, in their order. -/
theorem keys_foldl_group (ps : List (κ × ν)) (d : Dict κ (List ν)) :
    ∃ rest, (ps.foldl (fun d p => d.update p.1 fun vs => vs.getD [] ++ [p.2]) d).keys =
      d.keys ++ rest := by
  induction ps generalizing d with
  | nil => exact ⟨[], (List.append_nil _).symm⟩
  | cons p ps ih =>
    obtain ⟨rest, hrest⟩ := ih (d.update p.1 fun vs => vs.getD [] ++ [p.2])
    rw [List.foldl_cons, hrest, keys_update]
    split_ifs
    · exact ⟨rest, rfl⟩
    · exact ⟨[p.1] ++ rest, List.append_assoc _ _ _⟩

/-- Known keys add none. -/
theorem keys_foldl_group_of_mem {ps : List (κ × ν)} {d : Dict κ (List ν)}
    (h : ∀ p ∈ ps, p.1 ∈ d.keys) :
    (ps.foldl (fun d p => d.update p.1 fun vs => vs.getD [] ++ [p.2]) d).keys = d.keys := by
  induction ps generalizing d with
  | nil => rfl
  | cons p ps ih =>
    have hkeys : (d.update p.1 fun vs => vs.getD [] ++ [p.2]).keys = d.keys := by
      rw [keys_update, if_pos (h p List.mem_cons_self)]
    rw [List.foldl_cons, ih, hkeys]
    intro q hq
    rw [hkeys]
    exact h q (List.mem_cons_of_mem _ hq)

/-- The first key comes first. -/
theorem keys_group_cons (p : κ × ν) (ps : List (κ × ν)) :
    ∃ rest, (group (p :: ps)).keys = p.1 :: rest :=
  keys_foldl_group ps (empty.update p.1 fun vs => vs.getD [] ++ [p.2])

/-- A new key that comes last is the last one. -/
theorem keys_group_append {ps qs : List (κ × ν)} {k : κ} (hps : ∀ p ∈ ps, p.1 ≠ k)
    (hqs : ∀ q ∈ qs, q.1 = k) (hne : qs ≠ []) :
    (group (ps ++ qs)).keys = (group ps).keys ++ [k] := by
  cases qs with
  | nil => exact absurd rfl hne
  | cons q qs =>
    obtain rfl := hqs q List.mem_cons_self
    have hnew : q.1 ∉ (group ps).keys := fun hmem => by
      obtain ⟨p, hp, heq⟩ := (mem_keys_group ps q.1).mp hmem
      exact hps p hp heq
    have hkeys : ((group ps).update q.1 fun vs => vs.getD [] ++ [q.2]).keys =
        (group ps).keys ++ [q.1] := by rw [keys_update, if_neg hnew]
    have hfold : group (ps ++ q :: qs) =
        qs.foldl (fun d p => d.update p.1 fun vs => vs.getD [] ++ [p.2])
          ((group ps).update q.1 fun vs => vs.getD [] ++ [q.2]) := List.foldl_append
    rw [hfold, keys_foldl_group_of_mem, hkeys]
    intro p hp
    rw [hkeys, hqs p (List.mem_cons_of_mem _ hp)]
    exact List.mem_append_right _ (List.mem_singleton_self _)

/-! ## Totals -/

theorem sum_updateEntries {M : Type*} [AddCommGroup M] (f : ν → M) (k : κ) (v : ν)
    (ps : List (κ × ν)) : ((updateEntries k (fun _ => v) ps).map fun p => f p.2).sum =
      (ps.map fun p => f p.2).sum - (ps.lookup k).elim 0 f + f v := by
  induction ps with
  | nil => simp [updateEntries]
  | cons p ps ih =>
    rw [updateEntries, List.lookup_cons]
    by_cases hk : p.1 = k
    · subst hk
      simp [add_comm]
    · have hb : (k == p.1) = false := beq_false_of_ne fun h => hk h.symm
      rw [if_neg hk, List.map_cons, List.sum_cons, ih, List.map_cons, List.sum_cons, hb]
      abel

/-- A write replaces the value of its key in the total. -/
theorem total_set {M : Type*} [AddCommGroup M] (f : ν → M) (d : Dict κ ν) (k : κ) (v : ν) :
    total f (d.set k v) = total f d - (d.get? k).elim 0 f + f v :=
  sum_updateEntries f k v d.entries

/-- A write, where a missing value counts as one without the quantity. -/
theorem total_set_getD {M : Type*} [AddCommGroup M] {f : ν → M} {v₀ : ν} (h₀ : f v₀ = 0)
    (d : Dict κ ν) (k : κ) (v : ν) : total f (d.set k v) = total f d - f (d.getD k v₀) + f v := by
  rw [total_set, getD]
  cases d.get? k with
  | none => rw [Option.getD_none, h₀]; rfl
  | some w => rfl

/-- A dictionary read by sorted keys. -/
def sortedEntries [LinearOrder κ] (d : Dict κ ν) : List (κ × ν) := sortOn Prod.fst d.entries

end Dict

end AstroMine
