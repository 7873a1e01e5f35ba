import AstroMine.Core.Units
import AstroMine.Lib.Bisect
import AstroMine.Lib.Except

/-!
# The search for contact windows (`link/windows/_search.py`)

`search_windows` samples a visibility predicate on a grid over an epoch window, and turns the changes
from one sample to the next into contact windows, each change bisected when `refine_s` is given.

Results:
* `scanStep_spec`: what one sample does to the windows found so far.
* `scan_spec`: what a run over the samples finds.
* `searchWindows_exact`: the search returns, and its windows hold exactly the visible samples.
-/

namespace AstroMine.Link

open AstroMine.Core

variable {K ε : Type}

/-! ## The model -/

/-- What the search raises, or what the predicate raises through it; `outOfFuel` stands for a loop
that has not ended. -/
inductive SearchError (K ε : Type)
  | stepNotPositive (stepS : K)
  | refineOutside (refineS stepS : K)
  | indexError
  | assertion
  | predicate (e : ε)
  | outOfFuel
  deriving DecidableEq

/-- `ContactWindow` (`link/windows/_window.py`, lines 20–34). -/
structure ContactWindow (K : Type) where
  observer : String
  target : String
  start : Epoch K
  stop : Epoch K
  deriving DecidableEq

/-- `_epoch` (lines 38–39). -/
def epochAt (t : K) : Epoch K := ⟨t, .tdb⟩

variable [Field K] [LinearOrder K]

/-- The sample `i` of the grid (lines 53 and 57). -/
def sample (window : EpochWindow K) (stepS : K) (i : ℕ) : K := window.start.tdbSeconds + i * stepS

/-- The loop of `_grid` from the sample `i` on (lines 51–58). -/
def gridFrom (window : EpochWindow K) (stepS : K) : ℕ → ℕ → Except (SearchError K ε) (List K)
  | 0, _ => .error .outOfFuel
  | fuel + 1, i =>
    if sample window stepS i < window.stop.tdbSeconds then
      (gridFrom window stepS fuel (i + 1)).map (sample window stepS i :: ·)
    else .ok []

/-- `visible_at(_epoch(t))`. -/
def visible (visibleAt : Epoch K → Except ε Bool) (t : K) : Except (SearchError K ε) Bool :=
  (visibleAt (epochAt t)).mapError .predicate

/-- `_boundary` (lines 62–86). -/
def boundary (visibleAt : Epoch K → Except ε Bool) (loVis : Bool) (refineS : Option K) (fuel : ℕ)
    (loT hiT : K) : Except (SearchError K ε) K :=
  match refineS with
  | none => .ok hiT
  | some refineS => bisect (visible visibleAt) loVis refineS .outOfFuel fuel loT hiT

/-- The variables of the loop of `search_windows` (lines 117–120). -/
structure Scan (K : Type) where
  windows : List (ContactWindow K)
  prevT : K
  prevVis : Bool
  openStart : Option (Epoch K)

/-- The body of the loop (lines 122–132). -/
def scanStep (visibleAt : Epoch K → Except ε Bool) (refineS : Option K) (pair : String × String)
    (fuel : ℕ) (st : Scan K) (t : K) : Except (SearchError K ε) (Scan K) := do
  let vis ← visible visibleAt t
  if vis ∧ ¬ st.prevVis then
    let start ← boundary visibleAt st.prevVis refineS fuel st.prevT t
    return ⟨st.windows, t, vis, some (epochAt start)⟩
  else if ¬ vis ∧ st.prevVis then
    match st.openStart with
    | none => throw .assertion
    | some openStart =>
      let stop ← boundary visibleAt st.prevVis refineS fuel st.prevT t
      return ⟨st.windows ++ [⟨pair.1, pair.2, openStart, epochAt stop⟩], t, vis, none⟩
  else return ⟨st.windows, t, vis, st.openStart⟩

/-- The check of the tolerance (lines 109–110). -/
def checkRefine (stepS : K) : Option K → Except (SearchError K ε) Unit
  | none => .ok ()
  | some refineS => refuseIf (¬ (0 < refineS ∧ refineS ≤ stepS)) (.refineOutside refineS stepS)

/-- The end of `search_windows` (lines 134–136): a window still open ends with the search. -/
def closeOpen (pair : String × String) (window : EpochWindow K) (st : Scan K) :
    List (ContactWindow K) :=
  match st.prevVis, st.openStart with
  | true, some openStart => st.windows ++ [⟨pair.1, pair.2, openStart, window.stop⟩]
  | _, _ => st.windows

/-- `search_windows` after its checks and the grid (lines 115–136). -/
def reduceSamples (pair : String × String) (visibleAt : Epoch K → Except ε Bool)
    (window : EpochWindow K) (refineS : Option K) (fuel : ℕ) :
    List K → Except (SearchError K ε) (List (ContactWindow K))
  | [] => .error .indexError
  | t₀ :: times => do
    let vis ← visible visibleAt t₀
    let st ← times.foldlM (scanStep visibleAt refineS pair fuel)
      ⟨[], t₀, vis, if vis then some window.start else none⟩
    return closeOpen pair window st

/-- `search_windows` (lines 89–136). -/
def searchWindows (pair : String × String) (visibleAt : Epoch K → Except ε Bool)
    (window : EpochWindow K) (stepS : K) (refineS : Option K) (fuel : ℕ) :
    Except (SearchError K ε) (List (ContactWindow K)) := do
  refuseIf (stepS ≤ 0) (.stepNotPositive stepS)
  checkRefine stepS refineS
  let times ← gridFrom window stepS fuel 0
  reduceSamples pair visibleAt window refineS fuel times

/-! ## What the windows are -/

namespace ContactWindow

/-- The time is in the window `[start, end)`. -/
def Holds (w : ContactWindow K) (t : K) : Prop := w.start.tdbSeconds ≤ t ∧ t < w.stop.tdbSeconds

end ContactWindow

/-- The windows of the predicate `p` on the samples of an epoch window: each is found
within `tol` of a change, or ends where the search does. -/
structure WindowsOf (p : Epoch K → Bool) (pair : String × String) (window : EpochWindow K)
    (stepS tol : K) (ws : List (ContactWindow K)) : Prop where
  pair : ∀ w ∈ ws, (w.observer, w.target) = pair
  nonempty : ∀ w ∈ ws, w.start.tdbSeconds < w.stop.tdbSeconds
  inside : ∀ w ∈ ws, window.start.tdbSeconds ≤ w.start.tdbSeconds ∧
    w.stop.tdbSeconds ≤ window.stop.tdbSeconds
  increasing : ws.Pairwise fun w w' => w.stop.tdbSeconds < w'.start.tdbSeconds
  samples : ∀ i, sample window stepS i < window.stop.tdbSeconds →
    (p (epochAt (sample window stepS i)) = true ↔ ∃ w ∈ ws, w.Holds (sample window stepS i))
  starts : ∀ w ∈ ws, w.start = window.start ∨
    ChangesAt (fun t => p (epochAt t)) tol false w.start.tdbSeconds
  stops : ∀ w ∈ ws, w.stop = window.stop ∨
    ChangesAt (fun t => p (epochAt t)) tol true w.stop.tdbSeconds
  sampled : ∀ w ∈ ws, ∃ i, w.Holds (sample window stepS i)
  separated : ws.Pairwise fun w w' =>
    ∃ i, w.stop.tdbSeconds ≤ sample window stepS i ∧ sample window stepS i < w'.start.tdbSeconds

/-! ## The scan -/

section Scan

variable {p : Epoch K → Bool} {pair : String × String} {window : EpochWindow K} {tol : K}

/-- The windows found so far, with the open one: what they are after the samples `seen`. -/
structure Scanned (p : Epoch K → Bool) (pair : String × String) (window : EpochWindow K) (tol : K)
    (seen : List K) (st : Scan K) : Prop where
  last : st.prevT ∈ seen
  le_last : ∀ t ∈ seen, window.start.tdbSeconds ≤ t ∧ t ≤ st.prevT
  vis : st.prevVis = p (epochAt st.prevT)
  openStart_isSome : st.openStart.isSome = st.prevVis
  openStart_le : ∀ s, st.openStart = some s →
    window.start.tdbSeconds ≤ s.tdbSeconds ∧ s.tdbSeconds ≤ st.prevT ∧
      (s = window.start ∨ ChangesAt (fun t => p (epochAt t)) tol false s.tdbSeconds)
  openStart_after : ∀ s, st.openStart = some s → ∀ w ∈ st.windows,
    ∃ t ∈ seen, w.stop.tdbSeconds ≤ t ∧ t < s.tdbSeconds
  found : ∀ w ∈ st.windows, (w.observer, w.target) = pair ∧
    window.start.tdbSeconds ≤ w.start.tdbSeconds ∧ w.stop.tdbSeconds ≤ st.prevT ∧
    (w.start = window.start ∨ ChangesAt (fun t => p (epochAt t)) tol false w.start.tdbSeconds) ∧
    ChangesAt (fun t => p (epochAt t)) tol true w.stop.tdbSeconds ∧ ∃ t ∈ seen, w.Holds t
  separated : st.windows.Pairwise fun w w' => ∃ t ∈ seen,
    w.stop.tdbSeconds ≤ t ∧ t < w'.start.tdbSeconds
  samples : ∀ t ∈ seen, p (epochAt t) = true ↔ (∃ w ∈ st.windows, w.Holds t) ∨
    ∃ s, st.openStart = some s ∧ s.tdbSeconds ≤ t

/-- The first sample. -/
theorem scanned_init (p : Epoch K → Bool) (pair : String × String) (window : EpochWindow K)
    (tol : K) :
    Scanned p pair window tol [window.start.tdbSeconds]
      ⟨[], window.start.tdbSeconds, p (epochAt window.start.tdbSeconds),
        if p (epochAt window.start.tdbSeconds) then some window.start else none⟩ where
  last := List.mem_singleton_self _
  le_last := by simp
  vis := rfl
  openStart_isSome := by cases p (epochAt window.start.tdbSeconds) <;> rfl
  openStart_le := by
    intro s hs
    cases hp : p (epochAt window.start.tdbSeconds) with
    | false => simp [hp] at hs
    | true =>
      simp only [hp, if_true, Option.some.injEq] at hs
      subst hs
      exact ⟨le_rfl, le_rfl, Or.inl rfl⟩
  openStart_after := by simp
  found := by simp
  separated := .nil
  samples := by
    intro t ht
    obtain rfl := List.mem_singleton.mp ht
    cases hp : p (epochAt window.start.tdbSeconds) <;> simp

variable [IsStrictOrderedRing K]

/-- A boundary is where the predicate changes, after the one sample and not after the other. -/
theorem boundary_spec {visibleAt : Epoch K → Except ε Bool} (hp : ∀ e, visibleAt e = .ok (p e))
    {before : Bool} {refineS : Option K} {stepS : K} {n : ℕ} {loT hiT : K} (hlt : loT < hiT)
    (hlo : p (epochAt loT) = before) (hhi : p (epochAt hiT) = !before) (hstep : hiT - loT ≤ stepS)
    (hn : stepS ≤ refineS.getD stepS * 2 ^ n) :
    ∃ b, (∀ fuel, n < fuel → boundary visibleAt before refineS fuel loT hiT = .ok b) ∧
      loT < b ∧ b ≤ hiT ∧
      ChangesAt (fun t => p (epochAt t)) (refineS.getD stepS) before b := by
  cases refineS with
  | none => exact ⟨hiT, fun _ _ => rfl, hlt, le_rfl, loT, hlt, hstep, hlo, hhi⟩
  | some refineS =>
    refine bisect_spec (p := fun t => p (epochAt t)) ?_ SearchError.outOfFuel hlt hlo hhi
      (hstep.trans hn)
    intro t
    rw [visible, hp]
    rfl

omit [IsStrictOrderedRing K] in
theorem Scanned.le_of_mem {seen : List K} {st : Scan K} (h : Scanned p pair window tol seen st)
    {t : K} (hlt : st.prevT < t) :
    ∀ u ∈ seen ++ [t], window.start.tdbSeconds ≤ u ∧ u ≤ t := by
  intro u hu
  rcases List.mem_append.mp hu with hu | hu
  · exact ⟨(h.le_last u hu).1, (h.le_last u hu).2.trans hlt.le⟩
  · obtain rfl := List.mem_singleton.mp hu
    exact ⟨(h.le_last _ h.last).1.trans hlt.le, le_rfl⟩

omit [IsStrictOrderedRing K] in
/-- No window found so far holds a later sample. -/
theorem Scanned.not_holds {seen : List K} {st : Scan K} (h : Scanned p pair window tol seen st)
    {t : K} (hlt : st.prevT < t) : ¬ ∃ w ∈ st.windows, w.Holds t := by
  rintro ⟨w, hw, hh⟩
  exact absurd (hh.2.trans_le (h.found w hw).2.2.1) (not_lt.mpr hlt.le)

omit [IsStrictOrderedRing K] in
/-- The windows found so far stay what they are when a sample is added. -/
theorem Scanned.found_mono {seen : List K} {st : Scan K} (h : Scanned p pair window tol seen st)
    {t : K} (hlt : st.prevT < t) :
    ∀ w ∈ st.windows, (w.observer, w.target) = pair ∧
      window.start.tdbSeconds ≤ w.start.tdbSeconds ∧ w.stop.tdbSeconds ≤ t ∧
      (w.start = window.start ∨ ChangesAt (fun t => p (epochAt t)) tol false w.start.tdbSeconds) ∧
      ChangesAt (fun t => p (epochAt t)) tol true w.stop.tdbSeconds ∧
      ∃ u ∈ seen ++ [t], w.Holds u := by
  intro w hw
  obtain ⟨hpair, hstart, hstop, hs, he, u, hu, hh⟩ := h.found w hw
  exact ⟨hpair, hstart, hstop.trans hlt.le, hs, he, u, List.mem_append_left _ hu, hh⟩

omit [IsStrictOrderedRing K] in
theorem Scanned.separated_mono {seen : List K} {st : Scan K}
    (h : Scanned p pair window tol seen st) (t : K) :
    st.windows.Pairwise fun w w' => ∃ u ∈ seen ++ [t],
      w.stop.tdbSeconds ≤ u ∧ u < w'.start.tdbSeconds :=
  h.separated.imp fun ⟨u, hu, hlt⟩ => ⟨u, List.mem_append_left _ hu, hlt⟩

omit [IsStrictOrderedRing K] in
/-- A sample like the last one changes nothing. -/
theorem Scanned.same {seen : List K} {st : Scan K} (h : Scanned p pair window tol seen st) {t : K}
    (hlt : st.prevT < t) (hvis : p (epochAt t) = st.prevVis) :
    Scanned p pair window tol (seen ++ [t]) ⟨st.windows, t, p (epochAt t), st.openStart⟩ where
  last := by simp
  le_last := h.le_of_mem hlt
  vis := rfl
  openStart_isSome := h.openStart_isSome.trans hvis.symm
  openStart_le := fun s hs =>
    ⟨(h.openStart_le s hs).1, (h.openStart_le s hs).2.1.trans hlt.le, (h.openStart_le s hs).2.2⟩
  openStart_after := by
    intro s hs w hw
    obtain ⟨u, hu, hlt⟩ := h.openStart_after s hs w hw
    exact ⟨u, List.mem_append_left _ hu, hlt⟩
  found := h.found_mono hlt
  separated := h.separated_mono t
  samples := by
    intro u hu
    rcases List.mem_append.mp hu with hu | hu
    · exact h.samples u hu
    · obtain rfl := List.mem_singleton.mp hu
      rw [hvis, ← h.openStart_isSome, Option.isSome_iff_exists, or_iff_right (h.not_holds hlt)]
      refine exists_congr fun s => ⟨fun hs => ⟨hs, ?_⟩, And.left⟩
      exact (h.openStart_le s hs).2.1.trans hlt.le

omit [IsStrictOrderedRing K] in
/-- A rise opens a window at its boundary. -/
theorem Scanned.rise {seen : List K} {st : Scan K} (h : Scanned p pair window tol seen st) {t b : K}
    (hprev : st.prevVis = false) (hvis : p (epochAt t) = true) (hlb : st.prevT < b) (hbt : b ≤ t)
    (hb : ChangesAt (fun t => p (epochAt t)) tol false b) :
    Scanned p pair window tol (seen ++ [t]) ⟨st.windows, t, p (epochAt t), some (epochAt b)⟩ := by
  have hlt := hlb.trans_le hbt
  have hnone : st.openStart = none := by
    rw [← Option.not_isSome_iff_eq_none, h.openStart_isSome, hprev]
    simp
  refine ⟨by simp, h.le_of_mem hlt, rfl, by rw [hvis]; rfl, ?_, ?_, h.found_mono hlt,
    h.separated_mono t, ?_⟩
  · rintro s hs
    obtain rfl := Option.some.inj hs
    exact ⟨(h.le_last _ h.last).1.trans hlb.le, hbt, Or.inr hb⟩
  · rintro s hs w hw
    obtain rfl := Option.some.inj hs
    exact ⟨st.prevT, List.mem_append_left _ h.last, (h.found w hw).2.2.1, hlb⟩
  · intro u hu
    rcases List.mem_append.mp hu with hu | hu
    · have hub : ¬ b ≤ u := not_le.mpr ((h.le_last u hu).2.trans_lt hlb)
      rw [h.samples u hu, hnone]
      simp [epochAt, hub]
    · obtain rfl := List.mem_singleton.mp hu
      exact iff_of_true hvis (Or.inr ⟨_, rfl, hbt⟩)

omit [IsStrictOrderedRing K] in
/-- A set closes the open window at its boundary. -/
theorem Scanned.set {seen : List K} {st : Scan K} (h : Scanned p pair window tol seen st) {t b : K}
    {s : Epoch K} (hopen : st.openStart = some s) (hvis : p (epochAt t) = false)
    (hlb : st.prevT < b) (hbt : b ≤ t) (hb : ChangesAt (fun t => p (epochAt t)) tol true b) :
    Scanned p pair window tol (seen ++ [t])
      ⟨st.windows ++ [⟨pair.1, pair.2, s, epochAt b⟩], t, p (epochAt t), none⟩ := by
  have hlt := hlb.trans_le hbt
  obtain ⟨hstart, hle, hs⟩ := h.openStart_le s hopen
  refine ⟨by simp, h.le_of_mem hlt, rfl, by rw [hvis]; rfl, by simp, by simp, ?_, ?_, ?_⟩
  · intro w hw
    rcases List.mem_append.mp hw with hw | hw
    · exact h.found_mono hlt w hw
    · obtain rfl := List.mem_singleton.mp hw
      exact ⟨rfl, hstart, hbt, hs, hb, st.prevT, List.mem_append_left _ h.last, hle, hlb⟩
  · refine List.pairwise_append.mpr ⟨h.separated_mono t, List.pairwise_singleton _ _, ?_⟩
    intro w hw w' hw'
    obtain rfl := List.mem_singleton.mp hw'
    obtain ⟨u, hu, hlt⟩ := h.openStart_after s hopen w hw
    exact ⟨u, List.mem_append_left _ hu, hlt⟩
  · intro u hu
    simp only [List.mem_append, List.mem_singleton, or_and_right, exists_or, exists_eq_left]
    rcases List.mem_append.mp hu with hu | hu
    · have hub : u < b := (h.le_last u hu).2.trans_lt hlb
      rw [h.samples u hu, hopen]
      simp [ContactWindow.Holds, epochAt, hub]
    · obtain rfl := List.mem_singleton.mp hu
      refine iff_of_false (by rw [hvis]; simp) ?_
      rintro ((hw | hw) | ⟨s, hs, -⟩)
      · exact h.not_holds hlt hw
      · exact absurd hw.2 (not_lt.mpr hbt)
      · cases hs

/-- **Step.** The next sample keeps what the windows are. -/
theorem scanStep_spec {visibleAt : Epoch K → Except ε Bool} (hp : ∀ e, visibleAt e = .ok (p e))
    {refineS : Option K} {stepS : K} {n : ℕ} (hn : stepS ≤ refineS.getD stepS * 2 ^ n)
    {seen : List K} {st : Scan K} (h : Scanned p pair window (refineS.getD stepS) seen st) {t : K}
    (hlt : st.prevT < t) (hstep : t - st.prevT ≤ stepS) :
    ∃ st', (∀ fuel, n < fuel → scanStep visibleAt refineS pair fuel st t = .ok st') ∧
      st'.prevT = t ∧ Scanned p pair window (refineS.getD stepS) (seen ++ [t]) st' := by
  have hvisible : (visible visibleAt t : Except (SearchError K ε) Bool) = .ok (p (epochAt t)) := by
    rw [visible, hp]
    rfl
  have hvis := h.vis
  cases hprev : st.prevVis with
  | false =>
    rw [hprev] at hvis
    cases hpt : p (epochAt t) with
    | false =>
      have hsame := h.same hlt (hpt.trans hprev.symm)
      rw [hpt] at hsame
      refine ⟨_, fun fuel _ => ?_, rfl, hsame⟩
      rw [scanStep, hvisible, hpt, hprev]
      rfl
    | true =>
      obtain ⟨b, hrun, hlb, hbt, hb⟩ := boundary_spec hp hlt hvis.symm hpt hstep hn
      have hrise := h.rise hprev hpt hlb hbt hb
      rw [hpt] at hrise
      refine ⟨_, fun fuel hfuel => ?_, rfl, hrise⟩
      rw [scanStep, hvisible, hpt, hprev]
      simp only [hrun fuel hfuel]
      rfl
  | true =>
    rw [hprev] at hvis
    cases hpt : p (epochAt t) with
    | false =>
      obtain ⟨b, hrun, hlb, hbt, hb⟩ := boundary_spec hp hlt hvis.symm hpt hstep hn
      obtain ⟨s, hs⟩ : ∃ s, st.openStart = some s :=
        Option.isSome_iff_exists.mp (h.openStart_isSome.trans hprev)
      have hset := h.set hs hpt hlb hbt hb
      rw [hpt] at hset
      refine ⟨_, fun fuel hfuel => ?_, rfl, hset⟩
      rw [scanStep, hvisible, hpt, hprev, hs]
      simp only [hrun fuel hfuel]
      rfl
    | true =>
      have hsame := h.same hlt (hpt.trans hprev.symm)
      rw [hpt] at hsame
      refine ⟨_, fun fuel _ => ?_, rfl, hsame⟩
      rw [scanStep, hvisible, hpt, hprev]
      rfl

/-- **Run.** A scan over the grid keeps what the windows are. -/
theorem scan_spec {visibleAt : Epoch K → Except ε Bool} (hp : ∀ e, visibleAt e = .ok (p e))
    {refineS : Option K} {stepS : K} (hstep : 0 < stepS) {n : ℕ}
    (hn : stepS ≤ refineS.getD stepS * 2 ^ n) (m : ℕ) {i : ℕ} {seen : List K} {st : Scan K}
    (h : Scanned p pair window (refineS.getD stepS) seen st) (hi : st.prevT = sample window stepS i) :
    ∃ st', (∀ fuel, n < fuel → ((List.range' (i + 1) m).map (sample window stepS)).foldlM
        (scanStep visibleAt refineS pair fuel) st = .ok st') ∧
      Scanned p pair window (refineS.getD stepS)
        (seen ++ (List.range' (i + 1) m).map (sample window stepS)) st' := by
  induction m generalizing i seen st with
  | zero => exact ⟨st, fun _ _ => rfl, by simpa using h⟩
  | succ m ih =>
    have hnext : sample window stepS (i + 1) = st.prevT + stepS := by
      rw [hi, sample, sample]
      push_cast
      ring
    obtain ⟨st₁, hrun₁, hlast, h₁⟩ := scanStep_spec hp hn h (t := sample window stepS (i + 1))
      (by rw [hnext]; exact lt_add_of_pos_right _ hstep) (by rw [hnext, add_sub_cancel_left])
    obtain ⟨st', hrun, h'⟩ := ih h₁ hlast
    refine ⟨st', fun fuel hfuel => ?_, ?_⟩
    · rw [List.range'_succ, List.map_cons, List.foldlM_cons, hrun₁ fuel hfuel]
      exact hrun fuel hfuel
    · rw [List.range'_succ, List.map_cons]
      rwa [List.append_assoc] at h'

/-- The grid has the samples before the end of the window. -/
theorem gridFrom_spec {stepS : K} (hstep : 0 < stepS) (n : ℕ) {i : ℕ}
    (hn : window.stop.tdbSeconds ≤ sample window stepS (i + n)) :
    ∃ m, (∀ fuel, n < fuel → (gridFrom window stepS fuel i : Except (SearchError K ε) (List K)) =
        .ok ((List.range' i m).map (sample window stepS))) ∧
      ∀ j, i ≤ j → (sample window stepS j < window.stop.tdbSeconds ↔ j < i + m) := by
  have hmono : ∀ {j k : ℕ}, j ≤ k → sample window stepS j ≤ sample window stepS k := by
    intro j k hjk
    have hcast : (j : K) ≤ k := Nat.cast_le.mpr hjk
    exact add_le_add_right (mul_le_mul_of_nonneg_right hcast hstep.le) _
  have hend : ∀ {i : ℕ}, window.stop.tdbSeconds ≤ sample window stepS i → ∀ j, i ≤ j →
      (sample window stepS j < window.stop.tdbSeconds ↔ j < i + 0) := by
    intro i hi j hj
    exact iff_of_false (not_lt.mpr (hi.trans (hmono hj))) (by omega)
  induction n generalizing i with
  | zero =>
    rw [Nat.add_zero] at hn
    refine ⟨0, fun fuel hfuel => ?_, hend hn⟩
    obtain ⟨fuel, rfl⟩ : ∃ k, fuel = k + 1 := ⟨fuel - 1, by omega⟩
    rw [gridFrom, if_neg (not_lt.mpr hn)]
    rfl
  | succ n ih =>
    by_cases hi : sample window stepS i < window.stop.tdbSeconds
    · obtain ⟨m, hrun, hm⟩ := ih (i := i + 1) (by rwa [Nat.add_right_comm])
      refine ⟨m + 1, fun fuel hfuel => ?_, fun j hj => ?_⟩
      · obtain ⟨fuel, rfl⟩ : ∃ k, fuel = k + 1 := ⟨fuel - 1, by omega⟩
        rw [gridFrom, if_pos hi, hrun fuel (by omega)]
        rfl
      · rcases Nat.eq_or_lt_of_le hj with rfl | hj
        · exact iff_of_true hi (by omega)
        · rw [hm j hj]
          omega
    · refine ⟨0, fun fuel hfuel => ?_, hend (not_lt.mp hi)⟩
      obtain ⟨fuel, rfl⟩ : ∃ k, fuel = k + 1 := ⟨fuel - 1, by omega⟩
      rw [gridFrom, if_neg hi]
      rfl

omit [IsStrictOrderedRing K] in
theorem Scanned.closeOpen_eq {seen : List K} {st : Scan K}
    (h : Scanned p pair window tol seen st) :
    closeOpen pair window st = st.windows ++
      (st.openStart.map fun s => (⟨pair.1, pair.2, s, window.stop⟩ : ContactWindow K)).toList := by
  have hopen := h.openStart_isSome
  rw [closeOpen]
  cases hs : st.openStart with
  | none => simp
  | some s =>
    rw [← hopen, hs]
    rfl

omit [IsStrictOrderedRing K] in
/-- The windows at the end of the loop, one that is open ended with the search. -/
theorem Scanned.windowsOf {stepS : K} {m : ℕ} {seen : List K} {st : Scan K}
    (h : Scanned p pair window tol seen st)
    (hseen : seen = (List.range m).map (sample window stepS))
    (hm : ∀ j, sample window stepS j < window.stop.tdbSeconds ↔ j < m) :
    WindowsOf p pair window stepS tol (closeOpen pair window st) := by
  obtain ⟨ws, hcl⟩ : ∃ ws, closeOpen pair window st = ws := ⟨_, rfl⟩
  have hws := hcl.symm.trans h.closeOpen_eq
  rw [hcl]
  have hlast : st.prevT < window.stop.tdbSeconds := by
    have hmem := h.last
    rw [hseen] at hmem
    obtain ⟨j, hj, hjt⟩ := List.mem_map.mp hmem
    rw [← hjt]
    exact (hm j).mpr (List.mem_range.mp hj)
  have hsample : ∀ t ∈ seen, ∃ i, sample window stepS i = t := by
    intro t ht
    rw [hseen] at ht
    obtain ⟨j, -, hj⟩ := List.mem_map.mp ht
    exact ⟨j, hj⟩
  -- every window, found or still open
  have hall : ∀ w ∈ ws, (w.observer, w.target) = pair ∧
      window.start.tdbSeconds ≤ w.start.tdbSeconds ∧ w.stop.tdbSeconds ≤ window.stop.tdbSeconds ∧
      (w.start = window.start ∨ ChangesAt (fun t => p (epochAt t)) tol false w.start.tdbSeconds) ∧
      (w.stop = window.stop ∨ ChangesAt (fun t => p (epochAt t)) tol true w.stop.tdbSeconds) ∧
      ∃ t ∈ seen, w.Holds t := by
    intro w hw
    rw [hws] at hw
    rcases List.mem_append.mp hw with hw | hw
    · obtain ⟨hpair, hstart, hstop, hs, he, ht⟩ := h.found w hw
      exact ⟨hpair, hstart, hstop.trans hlast.le, hs, Or.inr he, ht⟩
    · rw [Option.mem_toList, Option.map_eq_some_iff] at hw
      obtain ⟨s, hs, rfl⟩ := hw
      obtain ⟨hstart, hle, hchange⟩ := h.openStart_le s hs
      exact ⟨rfl, hstart, le_rfl, hchange, Or.inl rfl, st.prevT, h.last, hle, hlast⟩
  have hsep : ws.Pairwise fun w w' => ∃ t ∈ seen,
      w.stop.tdbSeconds ≤ t ∧ t < w'.start.tdbSeconds := by
    rw [hws]
    refine List.pairwise_append.mpr ⟨h.separated, ?_, fun w hw w' hw' => ?_⟩
    · cases st.openStart with
      | none => exact .nil
      | some s => exact List.pairwise_singleton _ _
    · rw [Option.mem_toList, Option.map_eq_some_iff] at hw'
      obtain ⟨s, hs, rfl⟩ := hw'
      exact h.openStart_after s hs w hw
  refine ⟨fun w hw => (hall w hw).1, fun w hw => ?_, fun w hw => ⟨(hall w hw).2.1, (hall w hw).2.2.1⟩,
    hsep.imp fun ⟨t, _, hle, hlt⟩ => hle.trans_lt hlt, fun i hi => ?_,
    fun w hw => (hall w hw).2.2.2.1, fun w hw => (hall w hw).2.2.2.2.1, fun w hw => ?_,
    hsep.imp fun ⟨t, ht, hle, hlt⟩ => ?_⟩
  · obtain ⟨t, -, hh⟩ := (hall w hw).2.2.2.2.2
    exact hh.1.trans_lt hh.2
  · have hmem : sample window stepS i ∈ seen := by
      rw [hseen]
      exact List.mem_map.mpr ⟨i, List.mem_range.mpr ((hm i).mp hi), rfl⟩
    rw [h.samples _ hmem, hws]
    simp only [List.mem_append, Option.mem_toList, Option.map_eq_some_iff, or_and_right, exists_or]
    refine or_congr_right ⟨?_, ?_⟩
    · rintro ⟨s, hs, hle⟩
      exact ⟨_, ⟨s, hs, rfl⟩, hle, hi⟩
    · rintro ⟨w, ⟨s, hs, rfl⟩, hle, -⟩
      exact ⟨s, hs, hle⟩
  · obtain ⟨t, ht, hh⟩ := (hall w hw).2.2.2.2.2
    obtain ⟨i, rfl⟩ := hsample t ht
    exact ⟨i, hh⟩
  · obtain ⟨i, rfl⟩ := hsample t ht
    exact ⟨i, hle, hlt⟩

end Scan

/-! ## The search -/

/-- A step that is not positive, or a tolerance outside `(0, step]`, is refused. -/
theorem searchWindows_refused (pair : String × String) (visibleAt : Epoch K → Except ε Bool)
    (window : EpochWindow K) (stepS : K) (refineS : Option K) (fuel : ℕ) :
    (stepS ≤ 0 → searchWindows pair visibleAt window stepS refineS fuel =
      .error (.stepNotPositive stepS)) ∧
    (0 < stepS → ∀ r, refineS = some r → ¬ (0 < r ∧ r ≤ stepS) →
      searchWindows pair visibleAt window stepS refineS fuel = .error (.refineOutside r stepS)) := by
  refine ⟨fun hstep => ?_, ?_⟩
  · rw [searchWindows, refuseIf, if_pos hstep]
    rfl
  · rintro hstep r rfl hr
    rw [searchWindows, refuseIf, if_neg (not_le.mpr hstep), checkRefine, refuseIf, if_pos hr]
    rfl

/-- **Main theorem.** A search with a positive step and a tolerance up to it ends, and its windows
    hold exactly the samples at which the predicate is true. -/
theorem searchWindows_exact [IsStrictOrderedRing K] [Archimedean K] (p : Epoch K → Bool)
    (pair : String × String) (window : EpochWindow K) {stepS : K} (hstep : 0 < stepS)
    {refineS : Option K} (hrefine : ∀ r, refineS = some r → 0 < r ∧ r ≤ stepS) :
    ∃ fuel₀ ws, (∀ fuel, fuel₀ ≤ fuel →
        searchWindows pair (fun e => (.ok (p e) : Except ε Bool)) window stepS refineS fuel = .ok ws) ∧
      WindowsOf p pair window stepS (refineS.getD stepS) ws := by
  have htol : 0 < refineS.getD stepS := by
    cases refineS with
    | none => exact hstep
    | some r => exact (hrefine r rfl).1
  obtain ⟨n, hn⟩ := exists_halvings htol stepS
  obtain ⟨k, hk⟩ := Archimedean.arch (window.stop.tdbSeconds - window.start.tdbSeconds) hstep
  have hgrid : window.stop.tdbSeconds ≤ sample window stepS (0 + k) := by
    rw [nsmul_eq_mul] at hk
    rw [sample, Nat.zero_add]
    linarith
  obtain ⟨m, hrun, hm⟩ := gridFrom_spec (ε := ε) hstep k hgrid
  have hfirst : sample window stepS 0 = window.start.tdbSeconds := by
    rw [sample, Nat.cast_zero, zero_mul, add_zero]
  obtain ⟨m, rfl⟩ : ∃ j, m = j + 1 := by
    have h0 := (hm 0 le_rfl).mp (by rw [hfirst]; exact window.start_lt_stop)
    exact ⟨m - 1, by omega⟩
  have hvisible : ∀ e, (fun e => .ok (p e) : Epoch K → Except ε Bool) e = .ok (p e) := fun _ => rfl
  obtain ⟨st, hscan, hst⟩ := scan_spec hvisible hstep hn m
    (scanned_init p pair window (refineS.getD stepS)) (i := 0) hfirst.symm
  have hseen : [window.start.tdbSeconds] ++ (List.range' (0 + 1) m).map (sample window stepS) =
      (List.range (m + 1)).map (sample window stepS) := by
    rw [List.range_eq_range', List.range'_succ, List.map_cons, hfirst]
    rfl
  rw [hseen] at hst
  refine ⟨max n k + 1, _, fun fuel hfuel => ?_, hst.windowsOf rfl fun j => ?_⟩
  · have hcheck : (checkRefine stepS refineS : Except (SearchError K ε) Unit) = .ok () := by
      cases refineS with
      | none => rfl
      | some r => exact refuseIf_eq_ok.2 (not_not.mpr (hrefine r rfl))
    rw [searchWindows, seq_eq_ok, seq_eq_ok, bind_eq_ok]
    refine ⟨refuseIf_eq_ok.2 (not_le.mpr hstep), hcheck, _, hrun fuel (by omega), ?_⟩
    rw [List.range'_succ, List.map_cons, hfirst, reduceSamples, bind_eq_ok]
    refine ⟨_, rfl, bind_eq_ok.2 ⟨st, hscan fuel (by omega), rfl⟩⟩
  · rw [hm j (Nat.zero_le j), Nat.zero_add]

/-- An epoch window of a hundred seconds. -/
def hundredSeconds : EpochWindow ℚ := ⟨⟨0, .tdb⟩, ⟨100, .tdb⟩, by decide⟩

/-- Visible on `[25, 55)`. -/
def passVisible (e : Epoch ℚ) : Bool := 25 ≤ e.tdbSeconds ∧ e.tdbSeconds < 55

theorem searchWindows_exact_pass : ∃ fuel₀ ws, (∀ fuel, fuel₀ ≤ fuel →
      searchWindows ("a", "b") (fun e => (.ok (passVisible e) : Except Unit Bool)) hundredSeconds 10
        (some (1 / 10)) fuel = .ok ws) ∧
    WindowsOf passVisible ("a", "b") hundredSeconds 10 (1 / 10) ws :=
  searchWindows_exact passVisible ("a", "b") hundredSeconds (by norm_num)
    fun r hr => by
      cases hr
      norm_num

/-- Without refinement the boundaries are samples. -/
example : searchWindows ("a", "b") (fun e => (.ok (passVisible e) : Except Unit Bool))
    hundredSeconds 10 none 12 = .ok [⟨"a", "b", ⟨30, .tdb⟩, ⟨60, .tdb⟩⟩] := by
  decide +kernel

end AstroMine.Link
