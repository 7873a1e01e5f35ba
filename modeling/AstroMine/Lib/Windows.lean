import Mathlib.Data.List.MinMax
import Mathlib.Data.List.Pairwise
import AstroMine.Lib.Dict

/-!
# Half-open windows

Windows `[start, stop)` on a line, in a list. There are two ways to answer what is open at a time:
scan the list for the first window that is open then (`firstOpen`), or sort it by start, bisect to
the window that started last (`lastStarted`) and ask whether that one is still open.

Results:
* `lastStarted_eq_some_iff`: what the bisection finds.
* `lastStarted_open_iff`: the window that started last is open whenever some window is, exactly if
  no window outlasts a later one unless a further one starts by then.
* `answers_agree_iff`: when both ways give windows of one value at every time.
* `noneOutlasts_of_disjoint`, `sameValue_of_disjoint`: they do so on disjoint windows.
-/

namespace AstroMine.Windows

variable {W V K : Type} [LinearOrder K] (start stop : W → K)

/-- The window is open at the time. -/
def openAt (t : K) (w : W) : Bool := start w ≤ t ∧ t < stop w

/-- The first window of the list that is open at the time. -/
def firstOpen (ws : List W) (t : K) : Option W := ws.find? (openAt start stop t)

/-- How many elements of a sorted list are at most `t`. -/
def bisectRight (xs : List K) (t : K) : ℕ := (xs.takeWhile fun x => x ≤ t).length

/-- The window of the list that started last, at the time or before it. -/
def lastStarted (ws : List W) (t : K) : Option W :=
  match bisectRight ((sortOn start ws).map start) t with
  | 0 => none
  | idx + 1 => (sortOn start ws)[idx]?

/-- No window ends after one that starts later (or is listed later, at the same start), unless a
third one, later still, starts by the time that one ends. -/
def NoneOutlasts (ws : List W) : Prop :=
  ∀ pre i mid j post, sortOn start ws = pre ++ i :: (mid ++ j :: post) →
    stop i ≤ stop j ∨ ∃ k ∈ post, start k ≤ stop j

/-- The starts and the ends of the windows. -/
def endpoints (ws : List W) : List K := ws.map start ++ ws.map stop

/-- At every start and end of a window, the first open window of the list and the one that
started last have one value, where the latter is open. -/
def SameValue (value : W → V) (ws : List W) : Prop :=
  ∀ t ∈ endpoints start stop ws, ∀ i j, firstOpen start stop ws t = some i →
    lastStarted start ws t = some j → openAt start stop t j = true → value i = value j

variable {start stop} {ws : List W}

theorem openAt_iff {t : K} {w : W} :
    openAt start stop t w = true ↔ start w ≤ t ∧ t < stop w := by
  rw [openAt, decide_eq_true_eq]

/-! ## The window that started last -/

theorem takeWhile_started (t : K) {xs : List W} (h : xs.Pairwise fun a b => start a ≤ start b) :
    ∃ before after, xs = before ++ after ∧ (∀ w ∈ before, start w ≤ t) ∧
      (∀ w ∈ after, t < start w) ∧ bisectRight (xs.map start) t = before.length := by
  induction xs with
  | nil => exact ⟨[], [], rfl, by simp, by simp, rfl⟩
  | cons x xs ih =>
    obtain ⟨hx, hxs⟩ := List.pairwise_cons.mp h
    by_cases hle : start x ≤ t
    · obtain ⟨before, after, rfl, hbefore, hafter, hlen⟩ := ih hxs
      refine ⟨x :: before, after, rfl, ?_, hafter, ?_⟩
      · intro w hw
        rcases List.mem_cons.mp hw with rfl | hw
        · exact hle
        · exact hbefore w hw
      · rw [bisectRight] at hlen ⊢
        rw [List.map_cons, List.takeWhile_cons_of_pos (by simpa using hle), List.length_cons, hlen,
          List.length_cons]
    · refine ⟨[], x :: xs, rfl, by simp, ?_, ?_⟩
      · intro w hw
        have hxw : start x ≤ start w := by
          rcases List.mem_cons.mp hw with rfl | hw
          · exact le_rfl
          · exact hx w hw
        exact lt_of_lt_of_le (not_le.mp hle) hxw
      · rw [bisectRight, List.map_cons, List.takeWhile_cons_of_neg (by simpa using hle),
          List.length_nil, List.length_nil]

/-- Nothing has started exactly if every window starts later. -/
theorem lastStarted_eq_none_iff {t : K} :
    lastStarted start ws t = none ↔ ∀ w ∈ ws, t < start w := by
  obtain ⟨before, after, hs, hbefore, hafter, hlen⟩ :=
    takeWhile_started t (sortOn_pairwise start ws)
  have hmem : ∀ w, w ∈ ws ↔ w ∈ before ++ after := fun w => by rw [← hs, mem_sortOn]
  rw [lastStarted, hlen, hs]
  cases hb : before.length with
  | zero =>
    obtain rfl := List.length_eq_zero_iff.mp hb
    simp only [true_iff]
    intro w hw
    exact hafter w ((hmem w).mp hw)
  | succ n =>
    have hn : n < (before ++ after).length := by rw [List.length_append]; omega
    simp only [List.getElem?_eq_getElem hn, reduceCtorEq, false_iff, not_forall]
    have hpos : 0 < before.length := by omega
    refine ⟨before[0], (hmem _).mpr (List.mem_append_left _ (List.getElem_mem hpos)), ?_⟩
    exact not_lt.mpr (hbefore _ (List.getElem_mem hpos))

/-- The window that started last: it started, and everything after it in the order of starts has
not. -/
theorem lastStarted_eq_some_iff {t : K} {w : W} :
    lastStarted start ws t = some w ↔ ∃ pre post, sortOn start ws = pre ++ w :: post ∧
      start w ≤ t ∧ ∀ k ∈ post, t < start k := by
  obtain ⟨before, after, hs, hbefore, hafter, hlen⟩ :=
    takeWhile_started t (sortOn_pairwise start ws)
  constructor
  · intro h
    rw [lastStarted, hlen, hs] at h
    cases hb : before.length with
    | zero => rw [hb] at h; cases h
    | succ n =>
      rw [hb] at h
      have hn : n < before.length := by omega
      simp only [List.getElem?_append_left hn, List.getElem?_eq_getElem hn, Option.some.injEq] at h
      subst h
      refine ⟨before.take n, after, ?_, hbefore _ (List.getElem_mem hn), hafter⟩
      have htake : before.take n ++ [before[n]] = before := by
        rw [List.take_append_getElem hn, List.take_of_length_le (by omega)]
      rw [hs]
      conv_lhs => rw [← htake]
      rw [List.append_assoc, List.singleton_append]
  · rintro ⟨pre, post, hsplit, hw, hpost⟩
    have hpre : ∀ k ∈ pre, start k ≤ t := by
      intro k hk
      have hsorted := sortOn_pairwise start ws
      rw [hsplit, List.pairwise_append] at hsorted
      exact le_trans (hsorted.2.2 k hk w List.mem_cons_self) hw
    have hcount : bisectRight ((sortOn start ws).map start) t = pre.length + 1 := by
      have hpw : ∀ x ∈ (pre ++ [w]).map start, decide (x ≤ t) = true := by
        intro x hx
        obtain ⟨k, hk, rfl⟩ := List.mem_map.mp hx
        rcases List.mem_append.mp hk with hk | hk
        · simpa using hpre k hk
        · rw [List.mem_singleton.mp hk]
          simpa using hw
      have hstop : (post.map start).takeWhile (fun x => decide (x ≤ t)) = [] := by
        cases post with
        | nil => rfl
        | cons k post =>
          have hk := hpost k List.mem_cons_self
          rw [List.map_cons, List.takeWhile_cons_of_neg (by simpa using hk)]
      rw [bisectRight, hsplit, ← List.singleton_append, ← List.append_assoc, List.map_append,
        List.takeWhile_append_of_pos hpw, hstop]
      simp
    rw [lastStarted, hcount]
    simp [hsplit]

theorem mem_of_lastStarted {t : K} {w : W} (h : lastStarted start ws t = some w) :
    w ∈ ws ∧ start w ≤ t := by
  obtain ⟨pre, post, hsplit, hw, -⟩ := lastStarted_eq_some_iff.1 h
  refine ⟨?_, hw⟩
  rw [← mem_sortOn start, hsplit]
  simp

/-- When something has started, something started last. -/
theorem exists_lastStarted {t : K} {w : W} (hw : w ∈ ws) (hs : start w ≤ t) :
    ∃ j, lastStarted start ws t = some j := by
  rw [← Option.isSome_iff_exists, Option.isSome_iff_ne_none, Ne, lastStarted_eq_none_iff]
  intro hall
  exact absurd (hall w hw) (not_lt.mpr hs)

/-- The window that started last is open whenever some window is, exactly if no window outlasts a
later one unless a further one starts by the time that one ends. -/
theorem lastStarted_open_iff (hvalid : ∀ w ∈ ws, start w ≤ stop w) :
    (∀ t, (∃ w ∈ ws, openAt start stop t w = true) →
      ∃ j, lastStarted start ws t = some j ∧ openAt start stop t j = true) ↔
    NoneOutlasts start stop ws := by
  constructor
  · intro h pre i mid j post hsplit
    by_contra hne
    rw [not_or, not_le] at hne
    obtain ⟨hij, hpost⟩ := hne
    have hmem : ∀ k ∈ pre ++ i :: (mid ++ j :: post), k ∈ ws := by
      intro k hk
      rw [← mem_sortOn start, hsplit]
      exact hk
    have hsorted := sortOn_pairwise start ws
    rw [hsplit, List.pairwise_append, List.pairwise_cons] at hsorted
    have hle : start i ≤ start j := hsorted.2.1.1 j (by simp)
    have hj : start j ≤ stop j := hvalid j (hmem j (by simp))
    -- at the end of `j`, the window `i` is open and `j` is the last that started
    have hlast : lastStarted start ws (stop j) = some j := by
      refine lastStarted_eq_some_iff.2 ⟨pre ++ i :: mid, post, ?_, hj, ?_⟩
      · rw [hsplit, List.append_assoc, List.cons_append]
      · intro k hk
        by_contra hk'
        exact hpost ⟨k, hk, not_lt.mp hk'⟩
    obtain ⟨j', hj', hopen⟩ := h (stop j) ⟨i, hmem i (by simp), openAt_iff.2
      ⟨le_trans hle hj, hij⟩⟩
    rw [hlast, Option.some.injEq] at hj'
    subst hj'
    exact absurd (openAt_iff.1 hopen).2 (lt_irrefl _)
  · rintro h t ⟨i, hi, hopen⟩
    obtain ⟨his, hit⟩ := openAt_iff.1 hopen
    obtain ⟨j, hj⟩ := exists_lastStarted hi his
    refine ⟨j, hj, openAt_iff.2 ?_⟩
    obtain ⟨pre, post, hsplit, hjs, hpost⟩ := lastStarted_eq_some_iff.1 hj
    refine ⟨hjs, ?_⟩
    by_contra hclosed
    rw [not_lt] at hclosed
    have hmem : i ∈ pre ++ j :: post := by
      rw [← hsplit, mem_sortOn]
      exact hi
    rcases List.mem_append.mp hmem with hpre | hrest
    · obtain ⟨as, bs, rfl⟩ := List.append_of_mem hpre
      rw [List.append_assoc, List.cons_append] at hsplit
      rcases h as i bs j post hsplit with hle | ⟨k, hk, hks⟩
      · exact absurd (lt_of_lt_of_le hit (le_trans hle hclosed)) (lt_irrefl _)
      · exact absurd (lt_of_lt_of_le (hpost k hk) (le_trans hks hclosed)) (lt_irrefl _)
    · rcases List.mem_cons.mp hrest with rfl | hk
      · exact absurd (lt_of_lt_of_le hit hclosed) (lt_irrefl _)
      · exact absurd (lt_of_lt_of_le (hpost i hk) his) (lt_irrefl _)

/-! ## Between two endpoints nothing changes -/

/-- The last endpoint at a time or before it: nothing starts or ends between them. -/
theorem exists_endpoint {t : K} {w : W} (hw : w ∈ ws) (hs : start w ≤ t) :
    ∃ e ∈ endpoints start stop ws, e ≤ t ∧ ∀ k ∈ ws,
      (start k ≤ e ↔ start k ≤ t) ∧ (e < stop k ↔ t < stop k) := by
  let past := (endpoints start stop ws).filter fun e => e ≤ t
  have hmem : start w ∈ past :=
    List.mem_filter.mpr ⟨List.mem_append_left _ (List.mem_map_of_mem hw), by simpa using hs⟩
  obtain ⟨e, he⟩ : ∃ e : K, past.maximum = e :=
    (WithBot.ne_bot_iff_exists.mp (List.maximum_ne_bot_of_ne_nil (List.ne_nil_of_mem hmem))).imp
      fun _ h => h.symm
  obtain ⟨hend, het⟩ := List.mem_filter.mp (List.maximum_mem he)
  rw [decide_eq_true_eq] at het
  have hmax : ∀ x ∈ endpoints start stop ws, x ≤ t → x ≤ e := fun x hx hxt =>
    List.le_maximum_of_mem (List.mem_filter.mpr ⟨hx, by simpa using hxt⟩) he
  refine ⟨e, hend, het, fun k hk => ⟨⟨fun h => le_trans h het, ?_⟩, ⟨?_, ?_⟩⟩⟩
  · exact hmax _ (List.mem_append_left _ (List.mem_map_of_mem hk))
  · intro h
    by_contra hle
    exact absurd (hmax _ (List.mem_append_right _ (List.mem_map_of_mem hk)) (not_lt.mp hle))
      (not_le.mpr h)
  · exact fun h => lt_of_le_of_lt het h

theorem openAt_congr {e t : K} {k : W} (hs : start k ≤ e ↔ start k ≤ t)
    (hstop : e < stop k ↔ t < stop k) : openAt start stop e k = openAt start stop t k := by
  rw [Bool.eq_iff_iff, openAt_iff, openAt_iff, hs, hstop]

theorem firstOpen_congr {e t : K} (h : ∀ k ∈ ws,
    (start k ≤ e ↔ start k ≤ t) ∧ (e < stop k ↔ t < stop k)) :
    firstOpen start stop ws e = firstOpen start stop ws t := by
  induction ws with
  | nil => rfl
  | cons w ws ih =>
    obtain ⟨hs, hstop⟩ := h w List.mem_cons_self
    have hw := openAt_congr hs hstop
    have hrest := ih fun k hk => h k (List.mem_cons_of_mem _ hk)
    rw [firstOpen] at hrest ⊢
    rw [firstOpen] at hrest ⊢
    rw [List.find?_cons, List.find?_cons, hw, hrest]

theorem lastStarted_congr {e t : K} (h : ∀ k ∈ ws, start k ≤ e ↔ start k ≤ t) :
    lastStarted start ws e = lastStarted start ws t := by
  ext j
  have hsorted : ∀ k ∈ sortOn start ws, start k ≤ e ↔ start k ≤ t := fun k hk =>
    h k ((mem_sortOn start ws k).mp hk)
  simp only [lastStarted_eq_some_iff]
  refine exists_congr fun pre => exists_congr fun post => and_congr_right fun hsplit => ?_
  rw [hsplit] at hsorted
  refine and_congr (hsorted j (by simp)) (forall_congr' fun k => ?_)
  refine imp_congr_right fun hk => ?_
  rw [← not_le, ← not_le, hsorted k (by simp [hk])]

/-! ## The two answers -/

/-- The window that started last, if it is still open. -/
def lastOpen (start stop : W → K) (ws : List W) (t : K) : Option W :=
  (lastStarted start ws t).filter (openAt start stop t)

theorem firstOpen_isSome_iff {t : K} :
    (firstOpen start stop ws t).isSome ↔ ∃ w ∈ ws, openAt start stop t w = true := by
  rw [firstOpen, List.find?_isSome]

theorem lastOpen_eq_some_iff {t : K} {j : W} : lastOpen start stop ws t = some j ↔
    lastStarted start ws t = some j ∧ openAt start stop t j = true := by
  rw [lastOpen, Option.filter_eq_some_iff]

/-- Both ways find windows of one value at every time, exactly if no window outlasts a later one
and the windows that are open together have one value where it matters. -/
theorem answers_agree_iff (value : W → V) (hvalid : ∀ w ∈ ws, start w ≤ stop w) :
    (∀ t, (lastOpen start stop ws t).map value = (firstOpen start stop ws t).map value) ↔
      NoneOutlasts start stop ws ∧ SameValue start stop value ws := by
  rw [← lastStarted_open_iff hvalid]
  constructor
  · intro h
    constructor
    · intro t hopen
      have hsome := firstOpen_isSome_iff.2 hopen
      rw [← Option.isSome_map, ← h t, Option.isSome_map] at hsome
      obtain ⟨j, hj⟩ := Option.isSome_iff_exists.mp hsome
      exact ⟨j, lastOpen_eq_some_iff.1 hj⟩
    · intro t _ i j hi hj hopen
      have := h t
      rw [lastOpen_eq_some_iff.2 ⟨hj, hopen⟩, hi] at this
      exact (Option.some.inj this).symm
  · rintro ⟨hlast, hvalue⟩ t
    cases hi : firstOpen start stop ws t with
    | none =>
      cases hj : lastOpen start stop ws t with
      | none => rfl
      | some j =>
        obtain ⟨hj, hopen⟩ := lastOpen_eq_some_iff.1 hj
        have hsome := firstOpen_isSome_iff.2 ⟨j, (mem_of_lastStarted hj).1, hopen⟩
        rw [hi] at hsome
        cases hsome
    | some i =>
      obtain ⟨w, hw, hwt⟩ := firstOpen_isSome_iff.1 (by rw [hi]; rfl)
      obtain ⟨j, hj, hopen⟩ := hlast t ⟨w, hw, hwt⟩
      obtain ⟨e, he, -, hsame⟩ : ∃ e ∈ endpoints start stop ws, e ≤ t ∧ ∀ k ∈ ws,
          (start k ≤ e ↔ start k ≤ t) ∧ (e < stop k ↔ t < stop k) :=
        exists_endpoint hw (openAt_iff.1 hwt).1
      obtain ⟨hjs, hjt⟩ := hsame j (mem_of_lastStarted hj).1
      have hij := hvalue e he i j (by rw [firstOpen_congr hsame, hi])
        (by rw [lastStarted_congr fun k hk => (hsame k hk).1, hj])
        (by rw [openAt_congr hjs hjt, hopen])
      rw [lastOpen_eq_some_iff.2 ⟨hj, hopen⟩, Option.map_some, Option.map_some, hij]

/-! ## Disjoint windows -/

section Disjoint

variable (hne : ∀ w ∈ ws, start w < stop w)
  (hdisjoint : ws.Pairwise fun a b => stop a ≤ start b ∨ stop b ≤ start a)
include hdisjoint

/-- Of disjoint windows, two that are open at one time are one. -/
theorem eq_of_openAt {t : K} {i j : W} (hi : i ∈ ws) (hj : j ∈ ws)
    (hit : openAt start stop t i = true) (hjt : openAt start stop t j = true) : i = j := by
  by_contra hij
  obtain ⟨his, hie⟩ := openAt_iff.1 hit
  obtain ⟨hjs, hje⟩ := openAt_iff.1 hjt
  have : Std.Symm fun a b : W => stop a ≤ start b ∨ stop b ≤ start a := ⟨fun _ _ h => h.symm⟩
  rcases hdisjoint.forall hi hj hij with h | h
  · exact absurd (lt_of_lt_of_le hie (le_trans h hjs)) (lt_irrefl _)
  · exact absurd (lt_of_lt_of_le hje (le_trans h his)) (lt_irrefl _)

theorem sameValue_of_disjoint (value : W → V) : SameValue start stop value ws := by
  intro t _ i j hi hj hopen
  rw [eq_of_openAt hdisjoint (List.mem_of_find?_eq_some hi) (mem_of_lastStarted hj).1
    (List.find?_some hi) hopen]

include hne

theorem noneOutlasts_of_disjoint : NoneOutlasts start stop ws := by
  intro pre i mid j post hsplit
  left
  have hsymm : ∀ {a b : W}, stop a ≤ start b ∨ stop b ≤ start a →
      stop b ≤ start a ∨ stop a ≤ start b := fun h => h.symm
  have hpair := ((sortOn_perm start ws).pairwise_iff hsymm).mpr hdisjoint
  have hsorted := sortOn_pairwise start ws
  rw [hsplit, List.pairwise_append, List.pairwise_cons] at hpair hsorted
  have hle : start i ≤ start j := hsorted.2.1.1 j (by simp)
  have hj : start j < stop j := by
    refine hne j ?_
    rw [← mem_sortOn start, hsplit]
    simp
  rcases hpair.2.1.1 j (by simp) with h | h
  · exact le_trans h (le_of_lt hj)
  · exact absurd (lt_of_lt_of_le hj (le_trans h hle)) (lt_irrefl _)

end Disjoint

end AstroMine.Windows
