import Mathlib.Data.List.Basic
import Mathlib.Order.Nat
import AstroMine.Lib.Except

/-!
# A depth-bounded walk with one visited set

A walk goes through a graph depth first, up to a depth, and expands no object twice; it ends with an
error at the first object that is found. The references of an object are labelled, and the error
tells the labels that lead to the object.

An object may be expanded deep in the graph first and met again less deep later: what lies behind it
is then out of reach, since the visited set does not tell the depths.

Results:
* `walk_error`: what is found can be reached.
* `walk_ok`: what a walk without an error leaves behind.
* `not_within_of_covered`, `covered_of_not_within`: when nothing was passed over.
-/

namespace AstroMine.BoundedWalk

variable {ι σ : Type} [DecidableEq ι]

/-! ## The walk -/

/-- A path of so many edges, with no object inside it that stops. -/
def Path (edge : ι → ι → Prop) (stop : ι → Bool) : ℕ → ι → ι → Prop
  | 0, x, y => x = y
  | n + 1, x, y => ∃ z, edge x z ∧ Path edge stop n z y ∧ (n = 0 ∨ stop z = false)

/-- The labels lead from one object to another. -/
def Trail (next : ι → List (ι × σ)) (stop : ι → Bool) : List σ → ι → ι → Prop
  | [], x, y => x = y
  | label :: labels, x, y =>
    ∃ z, (z, label) ∈ next x ∧ Trail next stop labels z y ∧ (labels = [] ∨ stop z = false)

/-- The walk with so many edges left, along the labels `path` so far. With each expanded object the
visited set keeps the edges that were left, which nothing tests. -/
def walk (found stop : ι → Bool) (next : ι → List (ι × σ)) :
    ℕ → ι → List σ → List (ι × ℕ) → Except (ι × List σ) (List (ι × ℕ))
  | 0, x, path, seen => if found x then .error (x, path) else .ok seen
  | rest + 1, x, path, seen =>
    if found x then .error (x, path)
    else if stop x || (seen.map Prod.fst).contains x then .ok seen
    else (next x).foldlM (fun seen c => walk found stop next rest c.1 (path ++ [c.2]) seen)
      ((x, rest + 1) :: seen)

/-- Something that is found lies within so many edges. -/
def Within (edge : ι → ι → Prop) (found stop : ι → Bool) (n : ℕ) (x : ι) : Prop :=
  ∃ k ≤ n, ∃ y, Path edge stop k x y ∧ found y = true

/-- Behind a reference to `x` something that is found lies within so many edges of `x`. -/
def LeadsOn (edge : ι → ι → Prop) (found stop : ι → Bool) (n : ℕ) (x : ι) : Prop :=
  found x = true ∨ stop x = false ∧ Within edge found stop n x

variable {found stop : ι → Bool} {next : ι → List (ι × σ)} {edge : ι → ι → Prop}

/-! ## Paths -/

omit [DecidableEq ι] in
theorem Path.trans {m n : ℕ} {x y z : ι} (h : Path edge stop m x y) (hy : stop y = false)
    (h' : Path edge stop n y z) : Path edge stop (m + n) x z := by
  induction m generalizing x with
  | zero =>
    rw [Path] at h
    subst h
    rwa [Nat.zero_add]
  | succ m ih =>
    obtain ⟨w, hedge, hrest, hstop⟩ := h
    rw [Nat.succ_add]
    refine ⟨w, hedge, ih hrest, Or.inr ?_⟩
    obtain rfl | hstop := hstop
    · rw [Path] at hrest
      rwa [hrest]
    · exact hstop

omit [DecidableEq ι] in
/-- A trail is a path of the references. -/
theorem Trail.path (hedge : ∀ x, ∀ c ∈ next x, edge x c.1) {labels : List σ} {x y : ι}
    (h : Trail next stop labels x y) : Path edge stop labels.length x y := by
  induction labels generalizing x with
  | nil => exact h
  | cons label labels ih =>
    obtain ⟨z, hz, hrest, hstop⟩ := h
    exact ⟨z, hedge x _ hz, ih hrest, hstop.imp_left fun h => by rw [h]; rfl⟩

omit [DecidableEq ι] in
theorem Within.mono {m n : ℕ} (hle : m ≤ n) {x : ι} (h : Within edge found stop m x) :
    Within edge found stop n x := by
  obtain ⟨k, hk, hrest⟩ := h
  exact ⟨k, hk.trans hle, hrest⟩

omit [DecidableEq ι] in
/-- What lies behind a reference of an object lies within one edge more of it. -/
theorem LeadsOn.within {n : ℕ} {x z : ι} (hedge : edge x z) (h : LeadsOn edge found stop n z) :
    Within edge found stop (n + 1) x := by
  obtain hfound | ⟨hstop, k, hk, y, hpath, hy⟩ := h
  · exact ⟨1, Nat.le_add_left 1 n, z, ⟨z, hedge, rfl, Or.inl rfl⟩, hfound⟩
  · exact ⟨k + 1, Nat.succ_le_succ hk, y, ⟨z, hedge, hpath, Or.inr hstop⟩, hy⟩

omit [DecidableEq ι] in
/-- What lies within some edges of an object is the object, or lies behind a reference of it. -/
theorem Within.cases {n : ℕ} {x : ι} (h : Within edge found stop n x) (hx : found x = false) :
    ∃ m, n = m + 1 ∧ ∃ z, edge x z ∧ LeadsOn edge found stop m z := by
  obtain ⟨k, hk, y, hpath, hy⟩ := h
  cases k with
  | zero =>
    rw [Path] at hpath
    rw [hpath, hy] at hx
    cases hx
  | succ k =>
    obtain ⟨z, hedge, hrest, hstop⟩ := hpath
    obtain ⟨m, rfl⟩ : ∃ m, n = m + 1 := ⟨n - 1, by omega⟩
    refine ⟨m, rfl, z, hedge, ?_⟩
    obtain rfl | hstop := hstop
    · rw [Path] at hrest
      exact Or.inl (hrest ▸ hy)
    · exact Or.inr ⟨hstop, k, by omega, y, hrest, hy⟩

/-! ## What the walk does -/

/-- What is found can be reached, along the labels of the error. -/
theorem walk_error {rest : ℕ} {x y : ι} {path path' : List σ} {seen : List (ι × ℕ)}
    (h : walk found stop next rest x path seen = .error (y, path')) :
    found y = true ∧ ∃ labels, path' = path ++ labels ∧ labels.length ≤ rest ∧
      Trail next stop labels x y ∧ (labels = [] ∨ stop x = false) := by
  induction rest generalizing x path seen with
  | zero =>
    rw [walk] at h
    split_ifs at h with hx
    cases h
    exact ⟨hx, [], (List.append_nil _).symm, Nat.le_refl _, rfl, Or.inl rfl⟩
  | succ rest ih =>
    rw [walk] at h
    split_ifs at h with hx hskip
    · cases h
      exact ⟨hx, [], (List.append_nil _).symm, Nat.zero_le _, rfl, Or.inl rfl⟩
    · simp only [Bool.or_eq_true, not_or, Bool.not_eq_true] at hskip
      obtain ⟨c, hc, seen', hchild⟩ := exists_of_foldlM_error h
      obtain ⟨hy, labels, hpath, hlength, htrail, hstop⟩ := ih hchild
      refine ⟨hy, c.2 :: labels, ?_, Nat.succ_le_succ hlength, ⟨c.1, hc, htrail, hstop⟩,
        Or.inr hskip.1⟩
      rw [hpath, List.append_assoc, List.singleton_append]

/-- An expanded object is behind the walk: neither it nor an object that it refers to is found, and
each of these is expanded too, unless it stops or no edges were left. -/
structure Behind (found stop : ι → Bool) (next : ι → List (ι × σ)) (seen : List (ι × ℕ))
    (p : ι × ℕ) : Prop where
  unfound : found p.1 = false
  goes : stop p.1 = false
  pos : 0 < p.2
  children : ∀ c ∈ next p.1, found c.1 = false ∧
    (p.2 = 1 ∨ stop c.1 = true ∨ ∃ r, (c.1, r) ∈ seen)

omit [DecidableEq ι] in
theorem Behind.mono {seen seen' : List (ι × ℕ)} (hsub : seen ⊆ seen') {p : ι × ℕ}
    (h : Behind found stop next seen p) : Behind found stop next seen' p where
  unfound := h.unfound
  goes := h.goes
  pos := h.pos
  children c hc := (h.children c hc).imp_right fun hmet =>
    hmet.imp_right fun hmet => hmet.imp_right fun ⟨r, hr⟩ => ⟨r, hsub hr⟩

/-- What a walk without an error leaves: the visited set grew, the object was met, and what was
expanded is behind the walk, at a path from the object that used up the edges that were not left. -/
structure Walked (found stop : ι → Bool) (next : ι → List (ι × σ)) (edge : ι → ι → Prop)
    (rest : ℕ) (x : ι) (seen seen' : List (ι × ℕ)) : Prop where
  grows : seen ⊆ seen'
  unfound : found x = false
  met : rest = 0 ∨ stop x = true ∨ (x, rest) ∈ seen' ∨ ∃ r, (x, r) ∈ seen
  expanded : ∀ p ∈ seen', p ∈ seen ∨ Behind found stop next seen' p ∧ stop x = false ∧
    ∃ k, k + p.2 = rest ∧ Path edge stop k x p.1

omit [DecidableEq ι] in
theorem Walked.exists_met {rest : ℕ} {x : ι} {seen seen' : List (ι × ℕ)}
    (h : Walked found stop next edge rest x seen seen') :
    rest = 0 ∨ stop x = true ∨ ∃ r, (x, r) ∈ seen' := by
  obtain hzero | hstop | hself | ⟨r, hr⟩ := h.met
  · exact Or.inl hzero
  · exact Or.inr (Or.inl hstop)
  · exact Or.inr (Or.inr ⟨rest, hself⟩)
  · exact Or.inr (Or.inr ⟨r, h.grows hr⟩)

/-- **Step.** -/
theorem walk_ok (hedge : ∀ x, ∀ c ∈ next x, edge x c.1) {rest : ℕ} {x : ι} {path : List σ}
    {seen seen' : List (ι × ℕ)} (h : walk found stop next rest x path seen = .ok seen') :
    Walked found stop next edge rest x seen seen' := by
  induction rest generalizing x path seen seen' with
  | zero =>
    rw [walk] at h
    split_ifs at h with hx
    obtain rfl := Except.ok.inj h
    exact ⟨List.Subset.refl _, Bool.not_eq_true _ ▸ hx, Or.inl rfl, fun _ => Or.inl⟩
  | succ rest ih =>
    rw [walk] at h
    split_ifs at h with hx hskip
    · obtain rfl := Except.ok.inj h
      refine ⟨List.Subset.refl _, Bool.not_eq_true _ ▸ hx, Or.inr ?_, fun _ => Or.inl⟩
      rw [Bool.or_eq_true, List.contains_iff_mem, List.mem_map] at hskip
      exact hskip.imp_right fun ⟨p, hp, hpx⟩ => Or.inr ⟨p.2, hpx ▸ hp⟩
    · have hloop : ∀ (cs : List (ι × σ)) (start : List (ι × ℕ)),
          cs.foldlM (fun seen c => walk found stop next rest c.1 (path ++ [c.2]) seen) start =
            .ok seen' →
          start ⊆ seen' ∧
          (∀ c ∈ cs, found c.1 = false ∧ (rest = 0 ∨ stop c.1 = true ∨ ∃ r, (c.1, r) ∈ seen')) ∧
          ∀ p ∈ seen', p ∈ start ∨ Behind found stop next seen' p ∧
            ∃ c ∈ cs, stop c.1 = false ∧ ∃ k, k + p.2 = rest ∧ Path edge stop k c.1 p.1 := by
        intro cs
        induction cs with
        | nil =>
          intro start h
          obtain rfl := Except.ok.inj h
          exact ⟨List.Subset.refl _, fun _ hc => (by cases hc), fun _ => Or.inl⟩
        | cons c cs ihcs =>
          intro start h
          rw [List.foldlM_cons] at h
          obtain ⟨mid, hfirst, hrest⟩ := bind_eq_ok.1 h
          have hwalked := ih hfirst
          obtain ⟨hsub, hchildren, hexpanded⟩ := ihcs mid hrest
          refine ⟨List.Subset.trans hwalked.grows hsub, List.forall_mem_cons.mpr ⟨⟨hwalked.unfound, ?_⟩,
            hchildren⟩, fun p hp => ?_⟩
          · exact hwalked.exists_met.imp_right fun hmet => hmet.imp_right fun ⟨r, hr⟩ => ⟨r, hsub hr⟩
          · obtain hmid | ⟨hbehind, c', hc', hpath⟩ := hexpanded p hp
            · obtain hstart | ⟨hbehind, hpath⟩ := hwalked.expanded p hmid
              · exact Or.inl hstart
              · exact Or.inr ⟨hbehind.mono hsub, c, List.mem_cons_self, hpath⟩
            · exact Or.inr ⟨hbehind, c', List.mem_cons_of_mem _ hc', hpath⟩
      obtain ⟨hsub, hchildren, hexpanded⟩ := hloop (next x) _ h
      simp only [Bool.or_eq_true, not_or, Bool.not_eq_true] at hx hskip
      have hself : (x, rest + 1) ∈ seen' := hsub List.mem_cons_self
      refine ⟨fun p hp => hsub (List.mem_cons_of_mem _ hp), hx, Or.inr (Or.inr (Or.inl hself)),
        fun p hp => ?_⟩
      obtain hstart | ⟨hbehind, c, hc, hstop, k, hk, hpath⟩ := hexpanded p hp
      · obtain rfl | hseen := List.mem_cons.mp hstart
        · refine Or.inr ⟨⟨hx, hskip.1, Nat.succ_pos _, fun c hc => ?_⟩, hskip.1, 0,
            Nat.zero_add _, rfl⟩
          exact (hchildren c hc).imp_right fun hmet => hmet.imp_left fun h => by rw [h]
        · exact Or.inl hseen
      · exact Or.inr ⟨hbehind, hskip.1, k + 1, by omega, c.1, hedge x c hc, hpath, Or.inr hstop⟩

/-! ## What the walk passes over -/

/-- A reference behind which something is found was followed, and the object it leads to was
expanded with edges enough to find something, if it was expanded at all. -/
def Covered (found stop : ι → Bool) (next : ι → List (ι × σ)) (edge : ι → ι → Prop)
    (seen : List (ι × ℕ)) : Prop :=
  ∀ x r, (x, r + 1) ∈ seen → ∀ z, edge x z → LeadsOn edge found stop r z →
    (∃ label, (z, label) ∈ next x) ∧ ∀ r', (z, r') ∈ seen → Within edge found stop r' z

omit [DecidableEq ι] in
/-- Where nothing was passed over, nothing is found within the edges that an expanded object had
left. The induction is on the distance, which shrinks at each reference. -/
theorem not_within_of_covered {seen : List (ι × ℕ)}
    (hbehind : ∀ p ∈ seen, Behind found stop next seen p)
    (h : Covered found stop next edge seen) (n : ℕ) :
    ∀ p ∈ seen, Within edge found stop n p.1 → ¬Within edge found stop p.2 p.1 := by
  induction n with
  | zero =>
    intro p hp hnear
    obtain ⟨m, hm, -⟩ := hnear.cases (hbehind p hp).unfound
    cases hm
  | succ n ih =>
    intro p hp hnear hwithin
    have hself := hbehind p hp
    have hmin : Within edge found stop (min (n + 1) p.2) p.1 := by
      obtain hle | hle := Nat.le_total (n + 1) p.2
      · rwa [Nat.min_eq_left hle]
      · rwa [Nat.min_eq_right hle]
    obtain ⟨m, hm, z, hedge, hleads⟩ := hmin.cases hself.unfound
    obtain ⟨r, hr⟩ : ∃ r, p.2 = r + 1 := ⟨p.2 - 1, by have := hself.pos; omega⟩
    have hleads' : LeadsOn edge found stop r z := hleads.imp_right fun h =>
      ⟨h.1, h.2.mono (by omega)⟩
    obtain ⟨⟨label, hnext⟩, henough⟩ := h p.1 r (hr ▸ hp) z hedge hleads'
    obtain ⟨hunfound, hmet⟩ := hself.children (z, label) hnext
    obtain hfound | ⟨hgoes, hbeyond⟩ := hleads
    · rw [hunfound] at hfound
      cases hfound
    · obtain hlast | hstop | ⟨r', hr'⟩ := hmet
      · obtain ⟨m', hm', -⟩ := hbeyond.cases hunfound
        omega
      · rw [hgoes] at hstop
        cases hstop
      · exact ih (z, r') hr' (hbeyond.mono (by omega)) (henough r' hr')

/-- A walk without an error that passes over nothing has nothing to find, unless it stopped at
once. -/
theorem not_within_of_walk (hedge : ∀ x, ∀ c ∈ next x, edge x c.1) {rest : ℕ} {x : ι}
    {path : List σ} {seen : List (ι × ℕ)} (h : walk found stop next rest x path [] = .ok seen)
    (hstop : stop x = true → ¬Within edge found stop rest x)
    (hcovered : Covered found stop next edge seen) : ¬Within edge found stop rest x := by
  have hwalked := walk_ok hedge h
  have hbehind : ∀ p ∈ seen, Behind found stop next seen p := fun p hp =>
    ((hwalked.expanded p hp).resolve_left (List.not_mem_nil)).1
  obtain hzero | hstopped | hself | ⟨r, hr⟩ := hwalked.met
  · intro hwithin
    obtain ⟨m, hm, -⟩ := hwithin.cases hwalked.unfound
    omega
  · exact hstop hstopped
  · exact fun hwithin => not_within_of_covered hbehind hcovered rest (x, rest) hself hwithin hwithin
  · cases hr

/-- Where there is nothing to find, a walk passes over nothing. -/
theorem covered_of_not_within (hedge : ∀ x, ∀ c ∈ next x, edge x c.1) {rest : ℕ} {x : ι}
    {path : List σ} {seen : List (ι × ℕ)} (h : walk found stop next rest x path [] = .ok seen)
    (hnone : ¬Within edge found stop rest x) : Covered found stop next edge seen := by
  intro y r hy z hyz hleads
  obtain ⟨hbehind, -, k, hk, hpath⟩ :=
    ((walk_ok hedge h).expanded (y, r + 1) hy).resolve_left List.not_mem_nil
  obtain ⟨k', hk', w, hpath', hw⟩ := hleads.within hyz
  exact absurd ⟨k + k', by omega, w, hpath.trans hbehind.goes hpath', hw⟩ hnone

end AstroMine.BoundedWalk
