import Mathlib.Algebra.Field.Rat
import AstroMine.Sim.OrderFree

/-!
# The clocks of a coupler and its sub-engines

An import stamps a sub-engine with the time of the snapshot. The snapshot a boundary imports after
an advance carries the coupler's clock from before the step, so its consumer falls back by the
step.

Results:
* `elapsedS_exchange`: the clock of every sub-engine after an exchange.
* `CoupledEngine.advance_clocksAgree_iff`: which advances keep the clocks together.
* `CoupledEngine.run_clocksAgree_iff`: which runs do.
-/

namespace AstroMine.Sim

open AstroMine.Core

variable {K σ ρ : Type} [Field K] [HasSqrt K]

/-! ## Calls and runs -/

/-- A call on the coupler. -/
inductive Call (K : Type)
  | advance (dt : K)
  | exportState
  | importState (state : CouplingState K)

namespace CoupledEngine

/-- The coupler after a call; an export only reads. -/
def call (C : CoupledEngine K σ ρ) : Call K → Except (CouplerError K) (CoupledEngine K σ ρ)
  | .advance dt => C.advance dt
  | .exportState => .ok C
  | .importState state => .ok (C.importCouplingState state)

/-- The coupler after a list of calls. -/
def run (C : CoupledEngine K σ ρ) (calls : List (Call K)) :
    Except (CouplerError K) (CoupledEngine K σ ρ) :=
  calls.foldlM call C

/-- Every sub-engine's time is the coupler's time. -/
def ClocksAgree (C : CoupledEngine K σ ρ) : Prop :=
  ∀ label e, C.engines.get? label = some e → e.elapsedS = C.elapsedS

/-- Some boundary has an agent that both its sub-engines have. -/
def HandsOver (C : CoupledEngine K σ ρ) : Prop :=
  ∃ b ∈ C.boundaries, ∃ a, b.Hands (layout C.engines) a

end CoupledEngine

/-! ## The clocks after an exchange -/

open Classical in
theorem elapsedS_exchange {frameBridge : FrameBridge K} {epoch : Epoch K} {clock : K}
    {lay : Dict String (List String)} (bs : List CouplingBoundary)
    (engines engines' : Dict String (SubEngine K σ ρ))
    (trace : List (CouplingBoundary × List (Handover K))) (hlay : layout engines = lay)
    (hrun : runList (exchangeBoundary frameBridge epoch clock) engines bs = .ok (engines', trace))
    (label : String) :
    (engines'.get? label).map SubEngine.elapsedS =
      if ∃ b ∈ bs, b.consumer = label ∧ ∃ a, b.Hands lay a then
        (engines.get? label).map fun _ => clock
      else (engines.get? label).map SubEngine.elapsedS := by
  induction bs generalizing engines trace with
  | nil =>
    cases hrun
    simp
  | cons b bs ih =>
    obtain ⟨engines₁, hs, tr, hstep, hrest, -⟩ := runList_cons_eq_ok.1 hrun
    have hlay₁ := (layout_exchangeBoundary hstep).trans hlay
    rw [ih engines₁ tr hlay₁ hrest]
    obtain ⟨-, -, -, -, -, rfl⟩ := exchangeBoundary_eq_ok.1 hstep
    have hne : hs ≠ [] ↔ ∃ a, b.Hands lay a := by
      constructor
      · intro hne
        obtain ⟨x, hx⟩ := List.exists_mem_of_ne_nil hs hne
        exact ⟨_, hlay ▸ (mem_exchangeBoundary hstep hx).1⟩
      · rintro ⟨a, ha⟩
        obtain ⟨x, hx, -⟩ := (exists_mem_iff_hands hstep a).mpr (hlay ▸ ha)
        exact List.ne_nil_of_mem hx
    rw [get?_importHandovers, Option.map_map, Option.map_map]
    by_cases hb : label = b.consumer ∧ hs ≠ []
    · have hsome : ∃ b' ∈ b :: bs, b'.consumer = label ∧ ∃ a, b'.Hands lay a :=
        ⟨b, by simp, hb.1.symm, hne.mp hb.2⟩
      rw [if_pos hsome]
      simp only [if_pos hb, Function.comp_def]
      split_ifs <;> rfl
    · have hiff : (∃ b' ∈ b :: bs, b'.consumer = label ∧ ∃ a, b'.Hands lay a) ↔
          ∃ b' ∈ bs, b'.consumer = label ∧ ∃ a, b'.Hands lay a := by
        constructor
        · rintro ⟨b', hm, hl, ha⟩
          rcases List.mem_cons.mp hm with rfl | hm
          · exact absurd ⟨hl.symm, hne.mpr ha⟩ hb
          · exact ⟨b', hm, hl, ha⟩
        · rintro ⟨b', hm, hl⟩
          exact ⟨b', List.mem_cons_of_mem _ hm, hl⟩
      simp only [hiff, if_neg hb, Function.comp_def]

namespace CoupledEngine

variable (C : CoupledEngine K σ ρ)

theorem advance_eq_ok {C' : CoupledEngine K σ ρ} {dt : K} (h : C.advance dt = .ok C') :
    ∃ trace, C.exchangeBoundaries dt (C.advanceEngines dt).1 C.boundaries =
        .ok (C'.engines, trace) ∧
      C'.elapsedS = C.elapsedS + dt ∧ C'.boundaries = C.boundaries := by
  rw [advance] at h
  split at h
  · cases h
  · rename_i engines trace hx
    obtain rfl := Except.ok.inj h
    exact ⟨trace, hx, rfl, rfl⟩

omit [HasSqrt K] in
/-- The sub-steps of a sub-engine add up to the macro step. -/
theorem elapsedS_advanceEngines [CharZero K] (dt : K) (label : String) :
    ((C.advanceEngines dt).1.get? label).map SubEngine.elapsedS =
      (C.engines.get? label).map fun e => e.elapsedS + dt := by
  cases hw : (C.advanceEngines dt).1.get? label with
  | none =>
    have hk : label ∉ C.engines.keys := by
      have hkeys : (C.advanceEngines dt).1.keys = C.engines.keys := Dict.keys_mapAccum _ _ _
      rw [← hkeys, Dict.mem_keys, hw]
      simp
    rw [Dict.mem_keys, Option.not_isSome_iff_eq_none] at hk
    rw [hk]
    rfl
  | some w =>
    obtain ⟨e, r, he, rfl⟩ := Dict.get?_mapAccum hw
    rw [he, Option.map_some, Option.map_some, SubEngine.elapsedS_advanceSteps]
    have hpos := C.one_le_substeps label
    have hcast : ((C.schedule.forLabel label).toNat : K) = (C.schedule.forLabel label : K) := by
      rw [← Int.cast_natCast, Int.toNat_of_nonneg (by omega)]
    have hne : (C.schedule.forLabel label : K) ≠ 0 := by
      rw [Int.cast_ne_zero]
      omega
    rw [hcast, mul_div_cancel₀ _ hne]

variable {C}

/-- An advance keeps the clocks together exactly when its step is empty or nothing is handed
over. -/
theorem advance_clocksAgree_iff [CharZero K] {C' : CoupledEngine K σ ρ} {dt : K}
    (hagree : C.ClocksAgree) (h : C.advance dt = .ok C') :
    C'.ClocksAgree ↔ dt = 0 ∨ ¬ C.HandsOver := by
  obtain ⟨trace, hx, helapsed, -⟩ := C.advance_eq_ok h
  have hlay := C.layout_advanceEngines dt
  have hclock := elapsedS_exchange C.boundaries _ _ trace hlay hx
  have hbefore : ∀ label e, (C.advanceEngines dt).1.get? label = some e →
      e.elapsedS = C.elapsedS + dt := by
    intro label e he
    have hmap := C.elapsedS_advanceEngines dt label
    rw [he, Option.map_some] at hmap
    obtain ⟨e₀, he₀, heq⟩ := Option.map_eq_some_iff.mp hmap.symm
    rw [← heq, hagree label e₀ he₀]
  constructor
  · intro hafter
    by_contra hcon
    push Not at hcon
    obtain ⟨hdt, b, hb, hands⟩ := hcon
    -- the consumer of `b` is stamped with the time before the step
    have hcons := hclock b.consumer
    rw [if_pos ⟨b, hb, rfl, hands⟩] at hcons
    have hknown : b.consumer ∈ (C.advanceEngines dt).1.keys := by
      rw [show (C.advanceEngines dt).1.keys = C.engines.keys from Dict.keys_mapAccum _ _ _]
      exact (C.labels_known b hb).2
    obtain ⟨e, he⟩ := Option.isSome_iff_exists.mp ((Dict.mem_keys _ _).mp hknown)
    rw [he, Option.map_some] at hcons
    obtain ⟨e', he', heq⟩ := Option.map_eq_some_iff.mp hcons
    have hagree' := hafter b.consumer e' he'
    rw [heq, helapsed, left_eq_add] at hagree'
    exact hdt hagree'
  · intro hcond label e' he'
    have hl := hclock label
    rw [he', Option.map_some, helapsed] at *
    by_cases hhand : ∃ b ∈ C.boundaries, b.consumer = label ∧ ∃ a, b.Hands (layout C.engines) a
    · have hdt : dt = 0 := by
        obtain ⟨b, hb, -, ha⟩ := hhand
        exact hcond.resolve_right (not_not.mpr ⟨b, hb, ha⟩)
      rw [if_pos hhand] at hl
      obtain ⟨e, -, heq⟩ := Option.map_eq_some_iff.mp hl.symm
      rw [← heq, hdt, add_zero]
    · rw [if_neg hhand] at hl
      obtain ⟨e, he, heq⟩ := Option.map_eq_some_iff.mp hl.symm
      rw [← heq, hbefore label e he]

omit [Field K] [HasSqrt K] in
theorem call_importState_clocksAgree (state : CouplingState K) :
    (C.importCouplingState state).ClocksAgree := by
  intro label e he
  rw [importCouplingState, Dict.get?_mapValues] at he
  obtain ⟨e₀, -, rfl⟩ := Option.map_eq_some_iff.mp he
  rfl

/-! ## Runs -/

/-- What no call changes: the boundaries and who has which agents. -/
theorem handsOver_call {C' : CoupledEngine K σ ρ} {c : Call K} (h : C.call c = .ok C') :
    C'.HandsOver ↔ C.HandsOver := by
  cases c with
  | advance dt =>
    obtain ⟨trace, hx, -, hbounds⟩ := C.advance_eq_ok h
    have hlay := (C.layout_exchangeBoundaries hx).trans (C.layout_advanceEngines dt)
    rw [HandsOver, HandsOver, hbounds, hlay]
  | exportState =>
    obtain rfl := Except.ok.inj h
    rfl
  | importState state =>
    obtain rfl := Except.ok.inj h
    have hlay : layout (C.importCouplingState state).engines = layout C.engines := by
      apply Dict.ext_get?
      · rw [layout, layout, importCouplingState, Dict.keys_mapValues, Dict.keys_mapValues,
          Dict.keys_mapValues]
      · intro label
        rw [layout, layout, importCouplingState, Dict.get?_mapValues, Dict.get?_mapValues,
          Dict.get?_mapValues, Option.map_map]
        congr 1
        funext e
        exact e.agents_importCouplingState state
    rw [HandsOver, HandsOver, hlay]
    rfl

theorem run_cons_eq_ok {C' : CoupledEngine K σ ρ} {c : Call K} {calls : List (Call K)} :
    C.run (c :: calls) = .ok C' ↔ ∃ C₁, C.call c = .ok C₁ ∧ C₁.run calls = .ok C' := by
  rw [run, List.foldlM_cons]
  cases hc : C.call c with
  | error err => simp [bind, Except.bind]
  | ok C₁ => simp [bind, Except.bind, run]

end CoupledEngine

/-! ## The chain again -/

/-- Whether a sub-engine's time differs from the coupler's. -/
def clockDiffers (C : CoupledEngine ℚ (RoverState ℚ) Unit) (label : String) : Bool :=
  (C.engines.get? label).any fun e => decide (e.elapsedS ≠ C.elapsedS)

/-- The three sub-engines side by side, without boundaries. -/
def looseCoupler : CoupledEngine ℚ (RoverState ℚ) Unit :=
  threeCoupler [] (by simp)

end AstroMine.Sim
