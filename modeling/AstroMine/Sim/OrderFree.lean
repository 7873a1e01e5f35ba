import AstroMine.Sim.Coupling

/-!
# When the boundary exchange does not depend on the order of the boundaries

The exchange takes every export from the current sub-engines, after the imports of the boundaries
before it. A boundary whose producer was overwritten by an earlier boundary therefore hands over
the overwritten pose.

Results:
* `commuteAt_of_not_interferes`: boundaries that do not interfere commute.
* `CoupledEngine.advance_orderFree_iff`: the exchange is order-free from every state of the
  sub-engines exactly when no two different boundaries interfere.
-/

namespace AstroMine.Sim

open AstroMine.Core

variable {K σ ρ : Type}

/-! ## Interference -/

/-- The boundary hands the agent over: both its sub-engines have the agent. -/
def CouplingBoundary.Hands (lay : Dict String (List String)) (b : CouplingBoundary) (a : String) :
    Prop :=
  a ∈ b.agents ∧ a ∈ agentsOf lay b.producer ∧ a ∈ agentsOf lay b.consumer

instance (lay : Dict String (List String)) (b : CouplingBoundary) (a : String) :
    Decidable (b.Hands lay a) :=
  inferInstanceAs (Decidable (_ ∧ _ ∧ _))

/-- `b` overwrites, from another sub-engine, an agent that `c` reads or overwrites. -/
def Interferes (lay : Dict String (List String)) (b c : CouplingBoundary) : Prop :=
  b.producer ≠ b.consumer ∧ (b.consumer = c.producer ∨ b.consumer = c.consumer) ∧
    ∃ a, b.Hands lay a ∧ c.Hands lay a

/-- No two different boundaries interfere. -/
def Independent (lay : Dict String (List String)) (bs : List CouplingBoundary) : Prop :=
  ∀ b ∈ bs, ∀ c ∈ bs, b ≠ c → ¬ Interferes lay b c

/-! ## What is handed over -/

section Handovers

variable [Field K] [HasSqrt K]

theorem mem_handovers {frameBridge : FrameBridge K} {epoch : Epoch K} {b : CouplingBoundary}
    {producer consumer : Dict String (StateSample K)} {as : List String} {hs : List (Handover K)}
    (h : handovers frameBridge epoch b producer consumer as = .ok hs) {x : Handover K}
    (hx : x ∈ hs) :
    ∃ a ∈ as, ∃ dst bridged, producer.get? a = some x.source ∧ consumer.get? a = some dst ∧
      frameBridge.bridge x.source dst.frame epoch = .ok bridged ∧
      x.handed = { dst with pose := bridged.pose } ∧
      x.residual = ⟨b.name, a, positionResidual dst bridged⟩ := by
  induction as generalizing hs with
  | nil =>
    cases h
    cases hx
  | cons a as ih =>
    rcases handovers_cons_eq_ok.1 h with ⟨-, h'⟩ | ⟨src, dst, bridged, hs', hp, hc, hb, h', rfl⟩
    · obtain ⟨a', ha', hrest⟩ := ih h' hx
      exact ⟨a', List.mem_cons_of_mem _ ha', hrest⟩
    · rcases List.mem_cons.mp hx with rfl | hx
      · exact ⟨a, by simp, dst, bridged, hp, hc, hb, rfl, rfl⟩
      · obtain ⟨a', ha', hrest⟩ := ih h' hx
        exact ⟨a', List.mem_cons_of_mem _ ha', hrest⟩

/-- Every agent of the boundary that both sub-engines have is handed over. -/
theorem exists_mem_handovers {frameBridge : FrameBridge K} {epoch : Epoch K} {b : CouplingBoundary}
    {producer consumer : Dict String (StateSample K)} {as : List String} {hs : List (Handover K)}
    (h : handovers frameBridge epoch b producer consumer as = .ok hs) {a : String} (ha : a ∈ as)
    (hp : (producer.get? a).isSome) (hc : (consumer.get? a).isSome) :
    ∃ x ∈ hs, x.residual.agentId = a := by
  induction as generalizing hs with
  | nil => cases ha
  | cons a' as ih =>
    rcases handovers_cons_eq_ok.1 h with ⟨hnone, h'⟩ | ⟨src, dst, bridged, hs', -, -, -, h', rfl⟩
    · rcases List.mem_cons.mp ha with rfl | ha
      · rcases hnone with hn | hn
        · rw [hn] at hp
          cases hp
        · rw [hn] at hc
          cases hc
      · exact ih h' ha
    · rcases List.mem_cons.mp ha with rfl | ha
      · exact ⟨_, List.mem_cons_self, rfl⟩
      · obtain ⟨x, hx, hxa⟩ := ih h' ha
        exact ⟨x, List.mem_cons_of_mem _ hx, hxa⟩

/-- The handovers read only the samples of agents that both sub-engines have. -/
theorem handovers_congr {frameBridge : FrameBridge K} {epoch : Epoch K} {b : CouplingBoundary}
    {producer consumer producer' consumer' : Dict String (StateSample K)} {as : List String}
    (hp : ∀ a, (producer'.get? a).isSome = (producer.get? a).isSome)
    (hc : ∀ a, (consumer'.get? a).isSome = (consumer.get? a).isSome)
    (heq : ∀ a ∈ as, (producer.get? a).isSome → (consumer.get? a).isSome →
      producer'.get? a = producer.get? a ∧ consumer'.get? a = consumer.get? a) :
    handovers frameBridge epoch b producer' consumer' as =
      handovers frameBridge epoch b producer consumer as := by
  induction as with
  | nil => rfl
  | cons a as ih =>
    have ih' := ih fun a' ha' => heq a' (List.mem_cons_of_mem _ ha')
    rw [handovers, handovers, ih']
    have hpa := hp a
    have hca := hc a
    cases hps : producer.get? a with
    | none =>
      rw [hps, Option.isSome_none, Option.isSome_eq_false_iff, Option.isNone_iff_eq_none] at hpa
      rw [hpa]
    | some src =>
      cases hcs : consumer.get? a with
      | none =>
        rw [hcs, Option.isSome_none, Option.isSome_eq_false_iff, Option.isNone_iff_eq_none] at hca
        rw [hca]
        cases producer'.get? a <;> rfl
      | some dst =>
        obtain ⟨h₁, h₂⟩ := heq a (by simp) (by rw [hps]; rfl) (by rw [hcs]; rfl)
        rw [h₁, h₂, hps, hcs]

/-- What a boundary hands over, read off the sub-engines before it. -/
theorem mem_exchangeBoundary {frameBridge : FrameBridge K} {epoch : Epoch K} {clock : K}
    {engines engines' : Dict String (SubEngine K σ ρ)} {b : CouplingBoundary}
    {hs : List (Handover K)}
    (h : exchangeBoundary frameBridge epoch clock engines b = .ok (engines', hs)) {x : Handover K}
    (hx : x ∈ hs) :
    b.Hands (layout engines) x.residual.agentId ∧
      sampleAt engines b.producer x.residual.agentId = some x.source ∧
      ∃ dst bridged, sampleAt engines b.consumer x.residual.agentId = some dst ∧
        frameBridge.bridge x.source dst.frame epoch = .ok bridged ∧
        x.handed = { dst with pose := bridged.pose } ∧
        x.residual.positionResidualM = positionResidual dst bridged := by
  obtain ⟨p, c, hp, hc, hh, -⟩ := exchangeBoundary_eq_ok.1 h
  obtain ⟨a, ha, dst, bridged, hsrc, hdst, hb, hhanded, hres⟩ := mem_handovers hh hx
  have hsp : sampleAt engines b.producer a = some x.source := by rw [sampleAt, hp]; exact hsrc
  have hsc : sampleAt engines b.consumer a = some dst := by rw [sampleAt, hc]; exact hdst
  rw [hres]
  refine ⟨⟨ha, ?_, ?_⟩, hsp, dst, bridged, hsc, hb, hhanded, rfl⟩
  · rw [← sampleAt_isSome_iff, hsp]
    rfl
  · rw [← sampleAt_isSome_iff, hsc]
    rfl

theorem agentId_handed {frameBridge : FrameBridge K} {epoch : Epoch K} {clock : K}
    {engines engines' : Dict String (SubEngine K σ ρ)} {b : CouplingBoundary}
    {hs : List (Handover K)}
    (h : exchangeBoundary frameBridge epoch clock engines b = .ok (engines', hs)) {x : Handover K}
    (hx : x ∈ hs) : x.handed.agentId = x.residual.agentId := by
  obtain ⟨-, -, dst, bridged, hdst, -, hhanded, -⟩ := mem_exchangeBoundary h hx
  rw [hhanded]
  show dst.agentId = _
  exact agentId_of_sampleAt hdst

/-- The coupling state a boundary imports holds the samples it hands over. -/
theorem exists_of_get?_handed {frameBridge : FrameBridge K} {epoch : Epoch K} {clock : K}
    {engines engines' : Dict String (SubEngine K σ ρ)} {b : CouplingBoundary}
    {hs : List (Handover K)}
    (h : exchangeBoundary frameBridge epoch clock engines b = .ok (engines', hs)) {a : String}
    {s : StateSample K}
    (hs' : (CouplingState.byAgent { simTimeS := clock, samples := hs.map Handover.handed }).get? a =
      some s) :
    ∃ x ∈ hs, x.residual.agentId = a ∧ x.handed = s := by
  have hm := Dict.get?_ofList_mem hs'
  obtain ⟨s', hs'', heq⟩ := List.mem_map.mp hm
  obtain ⟨x, hx, rfl⟩ := List.mem_map.mp hs''
  have hid := agentId_handed h hx
  obtain ⟨h₁, h₂⟩ := Prod.mk.inj heq
  exact ⟨x, hx, hid.symm.trans h₁, h₂⟩

/-- The agents a boundary hands over are those its sub-engines both have. -/
theorem exists_mem_iff_hands {frameBridge : FrameBridge K} {epoch : Epoch K} {clock : K}
    {engines engines' : Dict String (SubEngine K σ ρ)} {b : CouplingBoundary}
    {hs : List (Handover K)}
    (h : exchangeBoundary frameBridge epoch clock engines b = .ok (engines', hs)) (a : String) :
    (∃ x ∈ hs, x.residual.agentId = a) ↔ b.Hands (layout engines) a := by
  constructor
  · rintro ⟨x, hx, rfl⟩
    exact (mem_exchangeBoundary h hx).1
  · rintro ⟨ha, hp, hc⟩
    obtain ⟨p, c, hp', hc', hh, -⟩ := exchangeBoundary_eq_ok.1 h
    rw [← sampleAt_isSome_iff, sampleAt, hp', Option.bind_some] at hp
    rw [← sampleAt_isSome_iff, sampleAt, hc', Option.bind_some] at hc
    exact exists_mem_handovers hh ha hp hc

theorem isSome_get?_handed {frameBridge : FrameBridge K} {epoch : Epoch K} {clock : K}
    {engines engines' : Dict String (SubEngine K σ ρ)} {b : CouplingBoundary}
    {hs : List (Handover K)}
    (h : exchangeBoundary frameBridge epoch clock engines b = .ok (engines', hs)) {x : Handover K}
    (hx : x ∈ hs) :
    ((CouplingState.byAgent
      { simTimeS := clock, samples := hs.map Handover.handed }).get? x.residual.agentId).isSome := by
  rw [← agentId_handed h hx]
  exact Dict.isSome_get?_ofList (List.mem_map.mpr
    ⟨x.handed, List.mem_map.mpr ⟨x, hx, rfl⟩, rfl⟩)

/-- A boundary with one sub-engine on both sides hands over what is there. -/
theorem handed_of_self {frameBridge : FrameBridge K} {epoch : Epoch K} {clock : K}
    {engines engines' : Dict String (SubEngine K σ ρ)} {b : CouplingBoundary}
    {hs : List (Handover K)}
    (h : exchangeBoundary frameBridge epoch clock engines b = .ok (engines', hs)) {x : Handover K}
    (hx : x ∈ hs) (hself : b.producer = b.consumer) :
    sampleAt engines b.consumer x.residual.agentId = some x.handed := by
  obtain ⟨-, hsrc, dst, bridged, hdst, hb, hhanded, -⟩ := mem_exchangeBoundary h hx
  rw [hself, hdst] at hsrc
  obtain rfl := Option.some.inj hsrc
  rw [frameBridge.bridge_self] at hb
  obtain rfl := Except.ok.inj hb
  rw [hdst, hhanded]

/-- A boundary changes no sample but those it hands over from another sub-engine. -/
theorem sampleAt_exchangeBoundary {frameBridge : FrameBridge K} {epoch : Epoch K} {clock : K}
    {engines engines' : Dict String (SubEngine K σ ρ)} {b : CouplingBoundary}
    {hs : List (Handover K)}
    (h : exchangeBoundary frameBridge epoch clock engines b = .ok (engines', hs)) {label a : String}
    (hne : ¬ (label = b.consumer ∧ b.producer ≠ b.consumer ∧ b.Hands (layout engines) a)) :
    sampleAt engines' label a = sampleAt engines label a := by
  obtain ⟨-, -, -, -, -, rfl⟩ := exchangeBoundary_eq_ok.1 h
  rw [sampleAt, get?_importHandovers, sampleAt]
  cases he : engines.get? label with
  | none => rfl
  | some e =>
    simp only [Option.map_some, Option.bind_some]
    by_cases hl : label = b.consumer ∧ hs ≠ []
    · rw [if_pos hl, SubEngine.get?_byAgent_export, SubEngine.get?_byAgent_export,
        SubEngine.get?_states_import, Option.map_map]
      cases hst : e.states.get? a with
      | none => rfl
      | some st =>
        simp only [Option.map_some, Function.comp_apply, Option.some.injEq]
        congr 1
        split
        · rfl
        · rename_i s hs'
          obtain ⟨x, hx, rfl, rfl⟩ := exists_of_get?_handed h hs'
          have hhands := (mem_exchangeBoundary h hx).1
          by_cases hself : b.producer = b.consumer
          · have hsame := handed_of_self h hx hself
            rw [← hl.1, sampleAt, he, Option.bind_some, SubEngine.get?_byAgent_export, hst,
              Option.map_some, Option.some.injEq] at hsame
            rw [← hsame]
            exact e.kind.importSample_sample _ st
          · exact absurd ⟨hl.1, hself, hhands⟩ hne
    · rw [if_neg hl]

end Handovers

/-! ## Boundaries that do not interfere commute -/

/-- Two imports of one instant commute when they name different agents, or agree with what is
there. -/
theorem SubEngine.importCouplingState_comm (e : SubEngine K σ ρ) {s₁ s₂ : CouplingState K}
    (htime : s₁.simTimeS = s₂.simTimeS)
    (hagents : ∀ a st, e.states.get? a = some st →
      s₁.byAgent.get? a = none ∨ s₂.byAgent.get? a = none ∨
        s₁.byAgent.get? a = some (e.kind.sample a st) ∧
          s₂.byAgent.get? a = some (e.kind.sample a st)) :
    (e.importCouplingState s₁).importCouplingState s₂ =
      (e.importCouplingState s₂).importCouplingState s₁ := by
  have hstates : ((e.importCouplingState s₁).importCouplingState s₂).states =
      ((e.importCouplingState s₂).importCouplingState s₁).states := by
    apply Dict.ext_get?
    · show Dict.keys (Dict.mapWithKey _ _) = Dict.keys (Dict.mapWithKey _ _)
      rw [Dict.keys_mapWithKey, Dict.keys_mapWithKey]
      exact (e.agents_importCouplingState s₁).trans (e.agents_importCouplingState s₂).symm
    · intro a
      simp only [SubEngine.get?_states_import, SubEngine.kind_importCouplingState, Option.map_map]
      cases hst : e.states.get? a with
      | none => rfl
      | some st =>
        rcases hagents a st hst with h | h | ⟨h₁, h₂⟩
        · simp [h]
        · simp [h]
        · simp [h₁, h₂, e.kind.importSample_sample]
  cases hl : (e.importCouplingState s₁).importCouplingState s₂ with
  | mk kind states elapsed =>
    cases hr : (e.importCouplingState s₂).importCouplingState s₁ with
    | mk kind' states' elapsed' =>
      rw [hl, hr] at hstates
      have hk : kind = kind' := by
        have h₁ := congrArg SubEngine.kind hl
        have h₂ := congrArg SubEngine.kind hr
        exact h₁.symm.trans h₂
      have ht : elapsed = elapsed' := by
        have h₁ := congrArg SubEngine.elapsedS hl
        have h₂ := congrArg SubEngine.elapsedS hr
        exact h₁.symm.trans (htime.symm.trans h₂)
      rw [hk, ht, show states = states' from hstates]

section Commute

variable [Field K] [HasSqrt K]

variable {frameBridge : FrameBridge K} {epoch : Epoch K} {clock : K}
  {engines engines₁ engines₂ : Dict String (SubEngine K σ ρ)} {b c : CouplingBoundary}
  {hb hc : List (Handover K)}

/-- A boundary that `b` does not interfere with hands over the same before and after `b`. -/
theorem handovers_after (h : exchangeBoundary frameBridge epoch clock engines b = .ok (engines₁, hb))
    (hbc : ¬ Interferes (layout engines) b c) {p q p₁ q₁ : SubEngine K σ ρ}
    (hp : engines.get? c.producer = some p) (hq : engines.get? c.consumer = some q)
    (hp₁ : engines₁.get? c.producer = some p₁) (hq₁ : engines₁.get? c.consumer = some q₁) :
    handovers frameBridge epoch c p₁.exportCouplingState.byAgent q₁.exportCouplingState.byAgent
        c.agents =
      handovers frameBridge epoch c p.exportCouplingState.byAgent q.exportCouplingState.byAgent
        c.agents := by
  have hsome : ∀ label a, (sampleAt engines₁ label a).isSome = (sampleAt engines label a).isSome :=
    fun label a => by
      rw [Bool.eq_iff_iff, sampleAt_isSome_iff, sampleAt_isSome_iff, layout_exchangeBoundary h]
  have hat : ∀ {es : Dict String (SubEngine K σ ρ)} {label e}, es.get? label = some e → ∀ a,
      e.exportCouplingState.byAgent.get? a = sampleAt es label a := fun he a => by
    rw [sampleAt, he, Option.bind_some]
  refine handovers_congr (fun a => ?_) (fun a => ?_) fun a ha hpa hqa => ?_
  · rw [hat hp₁, hat hp, hsome]
  · rw [hat hq₁, hat hq, hsome]
  · rw [hat hp] at hpa
    rw [hat hq] at hqa
    rw [hat hp₁, hat hp, hat hq₁, hat hq]
    have hands : c.Hands (layout engines) a :=
      ⟨ha, (sampleAt_isSome_iff _ _ _).mp hpa, (sampleAt_isSome_iff _ _ _).mp hqa⟩
    constructor
    · apply sampleAt_exchangeBoundary h
      rintro ⟨hl, hne, hb⟩
      exact hbc ⟨hne, Or.inl hl.symm, a, hb, hands⟩
    · apply sampleAt_exchangeBoundary h
      rintro ⟨hl, hne, hb⟩
      exact hbc ⟨hne, Or.inr hl.symm, a, hb, hands⟩

/-- Whether such a boundary succeeds, and with which handovers, is the same before and after
`b`. -/
theorem exchangeBoundary_after
    (h : exchangeBoundary frameBridge epoch clock engines b = .ok (engines₁, hb))
    (hbc : ¬ Interferes (layout engines) b c) :
    exchangeBoundary frameBridge epoch clock engines₁ c =
        .ok (importHandovers clock engines₁ c hc, hc) ↔
      exchangeBoundary frameBridge epoch clock engines c =
        .ok (importHandovers clock engines c hc, hc) := by
  obtain ⟨-, -, -, -, -, heng⟩ := exchangeBoundary_eq_ok.1 h
  rw [exchangeBoundary_eq_ok, exchangeBoundary_eq_ok]
  constructor
  · rintro ⟨p₁, q₁, hp₁, hq₁, hh, -⟩
    obtain ⟨p, hp, -⟩ := Option.map_eq_some_iff.mp
      ((get?_importHandovers clock engines b hb c.producer).symm.trans (heng ▸ hp₁))
    obtain ⟨q, hq, -⟩ := Option.map_eq_some_iff.mp
      ((get?_importHandovers clock engines b hb c.consumer).symm.trans (heng ▸ hq₁))
    exact ⟨p, q, hp, hq, (handovers_after h hbc hp hq hp₁ hq₁).symm.trans hh, rfl⟩
  · rintro ⟨p, q, hp, hq, hh, -⟩
    have hp₁ := get?_importHandovers clock engines b hb c.producer
    have hq₁ := get?_importHandovers clock engines b hb c.consumer
    rw [hp, ← heng, Option.map_some] at hp₁
    rw [hq, ← heng, Option.map_some] at hq₁
    exact ⟨_, _, hp₁, hq₁, (handovers_after h hbc hp hq hp₁ hq₁).trans hh, rfl⟩

/-- The imports of two boundaries that do not interfere may be exchanged. -/
theorem importHandovers_comm
    (h : exchangeBoundary frameBridge epoch clock engines b = .ok (engines₁, hb))
    (h' : exchangeBoundary frameBridge epoch clock engines c = .ok (engines₂, hc))
    (hbc : ¬ Interferes (layout engines) b c) (hcb : ¬ Interferes (layout engines) c b) :
    importHandovers clock (importHandovers clock engines b hb) c hc =
      importHandovers clock (importHandovers clock engines c hc) b hb := by
  apply Dict.ext_get?
  · rw [keys_importHandovers, keys_importHandovers, keys_importHandovers, keys_importHandovers]
  intro label
  simp only [get?_importHandovers, Option.map_map]
  cases he : engines.get? label with
  | none => rfl
  | some e =>
    simp only [Option.map_some, Function.comp_apply, Option.some.injEq]
    by_cases hlb : label = b.consumer ∧ hb ≠ []
    · by_cases hlc : label = c.consumer ∧ hc ≠ []
      · simp only [if_pos hlb, if_pos hlc]
        refine SubEngine.importCouplingState_comm e rfl fun a st hst => ?_
        have hsample : sampleAt engines label a = some (e.kind.sample a st) := by
          rw [sampleAt, he, Option.bind_some, SubEngine.get?_byAgent_export, hst, Option.map_some]
        cases h₁ : (CouplingState.byAgent
            { simTimeS := clock, samples := hb.map Handover.handed }).get? a with
        | none => exact Or.inl rfl
        | some s₁ =>
          cases h₂ : (CouplingState.byAgent
              { simTimeS := clock, samples := hc.map Handover.handed }).get? a with
          | none => exact Or.inr (Or.inl rfl)
          | some s₂ =>
            -- both boundaries hand the agent over: each from the sub-engine to itself
            obtain ⟨x, hx, hxa, rfl⟩ := exists_of_get?_handed h h₁
            obtain ⟨y, hy, hya, rfl⟩ := exists_of_get?_handed h' h₂
            have hb' := (mem_exchangeBoundary h hx).1
            have hc' := (mem_exchangeBoundary h' hy).1
            rw [hxa] at hb'
            rw [hya] at hc'
            have hcons : b.consumer = c.consumer := hlb.1.symm.trans hlc.1
            have hselfb : b.producer = b.consumer := by
              by_contra hne
              exact hbc ⟨hne, Or.inr hcons, a, hb', hc'⟩
            have hselfc : c.producer = c.consumer := by
              by_contra hne
              exact hcb ⟨hne, Or.inr hcons.symm, a, hc', hb'⟩
            have hx' := handed_of_self h hx hselfb
            have hy' := handed_of_self h' hy hselfc
            rw [hxa, ← hlb.1, hsample] at hx'
            rw [hya, ← hlc.1, hsample] at hy'
            exact Or.inr (Or.inr ⟨hx'.symm, hy'.symm⟩)
      · simp only [if_pos hlb, if_neg hlc]
    · simp only [if_neg hlb]

/-- Two boundaries that do not interfere commute. -/
theorem commuteAt_of_not_interferes (hbc : ¬ Interferes (layout engines) b c)
    (hcb : ¬ Interferes (layout engines) c b) :
    CommuteAt (exchangeBoundary frameBridge epoch clock) engines b c := by
  intro engines₁ engines₂ hb hc h₁ h₂
  obtain ⟨-, -, -, -, -, rfl⟩ := exchangeBoundary_eq_ok.1 h₁
  obtain ⟨-, -, -, -, -, rfl⟩ := exchangeBoundary_eq_ok.1 h₂
  have hc' := (exchangeBoundary_after h₁ hbc).mp h₂
  refine ⟨importHandovers clock engines c hc, hc', ?_⟩
  rw [importHandovers_comm h₁ hc' hbc hcb]
  exact (exchangeBoundary_after hc' hcb).mpr h₁

end Commute

/-! ## Order-free exchanges -/

section Exchange

variable [Field K] [HasSqrt K]

/-- What an exchange leaves and reports: the sub-engines, and the residuals of each boundary. -/
def reported {ε : Type}
    (r : Except ε (Dict String (SubEngine K σ ρ) × List (CouplingBoundary × List (Handover K)))) :
    Except ε (Dict String (SubEngine K σ ρ) × List (CouplingBoundary × List (CouplingResidual K))) :=
  r.map fun p => (p.1, p.2.map fun t => (t.1, t.2.map Handover.residual))

namespace CoupledEngine

variable (C : CoupledEngine K σ ρ)

/-- The exchange after an advance by `dt`, with the boundaries declared in the given order. -/
def exchangeIn (dt : K) (bs : List CouplingBoundary) :
    Except (CouplerError K)
      (Dict String (SubEngine K σ ρ) × List (CouplingBoundary × List (Handover K))) :=
  C.exchangeBoundaries dt (C.advanceEngines dt).1 bs

/-- Whatever the order in which the boundaries are declared, the exchange after an advance leaves
the sub-engines in the same state and reports the same residuals, and every import receives what
its source exports from its own post-advance state. -/
structure OrderFree (dt : K) : Prop where
  same : ∀ bs₁ bs₂, bs₁.Perm C.boundaries → bs₂.Perm C.boundaries →
    SameOutcome (reported (C.exchangeIn dt bs₁)) (reported (C.exchangeIn dt bs₂))
  postAdvance : ∀ bs, bs.Perm C.boundaries → ∀ engines trace,
    C.exchangeIn dt bs = .ok (engines, trace) → ∀ t ∈ trace, ∀ x ∈ t.2,
      sampleAt (C.advanceEngines dt).1 t.1.producer x.residual.agentId = some x.source

/-- Sub-engines with the same labels and the same agents, and the same boundaries. -/
def SameShape {σ' ρ' : Type} (C : CoupledEngine K σ ρ) (C' : CoupledEngine K σ' ρ') : Prop :=
  layout C.engines = layout C'.engines ∧ C.boundaries = C'.boundaries

variable {C}

theorem orderFree_of_independent (h : Independent (layout C.engines) C.boundaries) (dt : K) :
    C.OrderFree dt := by
  have hinv : ∀ (b : CouplingBoundary) (s s' : Dict String (SubEngine K σ ρ))
      (x : List (Handover K)), layout s = layout C.engines →
      exchangeBoundary C.frameBridge (C.exchangeEpoch dt) C.elapsedS s b = .ok (s', x) →
      layout s' = layout C.engines := fun b s s' x hs hx => (layout_exchangeBoundary hx).trans hs
  have hstart := C.layout_advanceEngines dt
  constructor
  · intro bs₁ bs₂ h₁ h₂ s ys hr
    obtain ⟨⟨s', xs⟩, hxs, heq⟩ : ∃ p, C.exchangeIn dt bs₁ = .ok p ∧
        (p.1, p.2.map fun t => (t.1, t.2.map Handover.residual)) = (s, ys) := by
      cases he : C.exchangeIn dt bs₁ with
      | error err => simp [he, reported, Except.map] at hr
      | ok p => exact ⟨p, rfl, by simpa [he, reported, Except.map] using hr⟩
    obtain ⟨rfl, rfl⟩ := Prod.mk.inj heq
    have hcomm : ∀ a ∈ bs₁, ∀ b ∈ bs₁, a ≠ b →
        ∀ s : Dict String (SubEngine K σ ρ), layout s = layout C.engines →
        CommuteAt (exchangeBoundary C.frameBridge (C.exchangeEpoch dt) C.elapsedS) s a b := by
      intro a ha b hb hab s hs
      have ha' := h₁.mem_iff.mp ha
      have hb' := h₁.mem_iff.mp hb
      refine commuteAt_of_not_interferes ?_ ?_
      · rw [hs]
        exact h a ha' b hb' hab
      · rw [hs]
        exact h b hb' a ha' (Ne.symm hab)
    obtain ⟨xs', hxs', hperm⟩ := runList_perm _ hinv (h₁.trans h₂.symm) hcomm _ hstart s' xs hxs
    refine ⟨_, ?_, hperm.map _⟩
    show Except.map _ (C.exchangeIn dt bs₂) = _
    rw [show C.exchangeIn dt bs₂ = .ok (s', xs') from hxs']
    rfl
  · intro bs hbs engines trace hrun t ht x hx
    -- a sample that no boundary overwrites from another sub-engine stays the post-advance one
    let inv (s : Dict String (SubEngine K σ ρ)) : Prop :=
      layout s = layout C.engines ∧ ∀ label a,
        (∀ b ∈ bs, ¬ (label = b.consumer ∧ b.producer ≠ b.consumer ∧
          b.Hands (layout C.engines) a)) →
        sampleAt s label a = sampleAt (C.advanceEngines dt).1 label a
    have hstep : ∀ b ∈ bs, ∀ s s' y, inv s →
        exchangeBoundary C.frameBridge (C.exchangeEpoch dt) C.elapsedS s b = .ok (s', y) →
        inv s' := by
      intro b hb s s' y hs hy
      refine ⟨hinv b s s' y hs.1 hy, fun label a hfree => ?_⟩
      rw [← hs.2 label a hfree]
      apply sampleAt_exchangeBoundary hy
      rw [hs.1]
      exact hfree b hb
    obtain ⟨hm, s, s', hs, hts⟩ := runList_reports inv hstep _ _ _ ⟨hstart, fun _ _ _ => rfl⟩ hrun t ht
    obtain ⟨hands, hsrc, -⟩ := mem_exchangeBoundary hts hx
    rw [hs.1] at hands
    rw [← hs.2 _ _ ?_]
    · exact hsrc
    · rintro b hb ⟨hl, hne, hb'⟩
      have hbc : b ≠ t.1 := by
        rintro rfl
        exact hne hl
      exact h b (hbs.mem_iff.mp hb) t.1 (hbs.mem_iff.mp hm) hbc
        ⟨hne, Or.inl hl.symm, _, hb', hands⟩

end CoupledEngine

end Exchange

/-! ## Boundaries that interfere -/

section Necessity

variable [Field K] [LinearOrder K] [HasSqrt K]

/-- `INERTIAL_J2000` (`core/units/model.py`). -/
def inertialJ2000 : ReferenceFrame := ⟨"J2000", .inertial, none⟩

/-- A rover at rest at `(x, 0, 0)`. -/
def restingRover (x : K) : RoverState K where
  frame := inertialJ2000
  positionM := ⟨x, 0, 0⟩
  velocityMps := ⟨0, 0, 0⟩
  batterySocJ := 0
  batteryFloorJ := 0
  mode := none

/-- The reference engine with a random stream that draws zeros. -/
def stillKind : EngineKind K (RoverState K) Unit :=
  kinematicKind fun r _ _ _ => (0, r)

/-- Every agent of every sub-engine is a rover at rest, the one called `a` in `label` at
`pos label a`. -/
def RestingAt (pos : String → String → K) (engines : Dict String (SubEngine K (RoverState K) Unit)) :
    Prop :=
  ∀ label e, engines.get? label = some e → e.kind = stillKind ∧
    ∀ a st, e.states.get? a = some st → st = restingRover (pos label a)

omit [HasSqrt K] in
theorem sampleAt_restingAt {pos : String → String → K}
    {engines : Dict String (SubEngine K (RoverState K) Unit)} (h : RestingAt pos engines)
    {label a : String} (ha : a ∈ agentsOf (layout engines) label) :
    sampleAt engines label a = some ((restingRover (pos label a)).sample a) := by
  obtain ⟨s, hs⟩ := Option.isSome_iff_exists.mp ((sampleAt_isSome_iff engines label a).mpr ha)
  obtain ⟨e, he, hes⟩ := Option.bind_eq_some_iff.mp hs
  rw [SubEngine.get?_byAgent_export] at hes
  obtain ⟨st, hst, rfl⟩ := Option.map_eq_some_iff.mp hes
  obtain ⟨hkind, hpos⟩ := h label e he
  rw [hs, hkind, hpos a st hst]
  rfl

omit [LinearOrder K] [HasSqrt K] in
theorem restingRover_sample_inj {x y : K} {a : String}
    (h : (restingRover x).sample a = (restingRover y).sample a) : x = y := by
  have hpose := congrArg StateSample.pose h
  have htr := congrArg Transform.translationM hpose
  exact congrArg Vec3.x htr

/-- The positions after a boundary has handed its agents over. -/
def handedPos (lay : Dict String (List String)) (b : CouplingBoundary) (pos : String → String → K)
    (label a : String) : K :=
  if label = b.consumer ∧ b.Hands lay a then pos b.producer a else pos label a

omit [LinearOrder K] in
theorem handovers_restingAt {frameBridge : FrameBridge K} {epoch : Epoch K} {b : CouplingBoundary}
    {producer consumer : Dict String (StateSample K)}
    (hframe : ∀ a src dst, producer.get? a = some src → consumer.get? a = some dst →
      dst.frame = src.frame) (as : List String) :
    ∃ hs, handovers frameBridge epoch b producer consumer as = .ok hs := by
  induction as with
  | nil => exact ⟨[], rfl⟩
  | cons a as ih =>
    obtain ⟨hs, ih⟩ := ih
    cases hp : producer.get? a with
    | none => exact ⟨hs, handovers_cons_eq_ok.2 (Or.inl ⟨Or.inl hp, ih⟩)⟩
    | some src =>
      cases hc : consumer.get? a with
      | none => exact ⟨hs, handovers_cons_eq_ok.2 (Or.inl ⟨Or.inr hc, ih⟩)⟩
      | some dst =>
        have hb : frameBridge.bridge src dst.frame epoch = .ok src := by
          rw [hframe a src dst hp hc, frameBridge.bridge_self]
        exact ⟨_, handovers_cons_eq_ok.2 (Or.inr ⟨src, dst, src, hs, hp, hc, hb, ih, rfl⟩)⟩

theorem exchangeBoundary_restingAt {frameBridge : FrameBridge K} {epoch : Epoch K} {clock : K}
    {pos : String → String → K} {engines : Dict String (SubEngine K (RoverState K) Unit)}
    (h : RestingAt pos engines) {b : CouplingBoundary} (hp : b.producer ∈ engines.keys)
    (hc : b.consumer ∈ engines.keys) :
    ∃ engines' hs, exchangeBoundary frameBridge epoch clock engines b = .ok (engines', hs) := by
  obtain ⟨p, hp'⟩ := Option.isSome_iff_exists.mp ((Dict.mem_keys _ _).mp hp)
  obtain ⟨c, hc'⟩ := Option.isSome_iff_exists.mp ((Dict.mem_keys _ _).mp hc)
  have hframe : ∀ {e : SubEngine K (RoverState K) Unit} {label a s}, engines.get? label = some e →
      e.exportCouplingState.byAgent.get? a = some s → s.frame = inertialJ2000 := by
    intro e label a s he hs
    obtain ⟨hkind, hpos⟩ := h label e he
    rw [SubEngine.get?_byAgent_export] at hs
    obtain ⟨st, hst, rfl⟩ := Option.map_eq_some_iff.mp hs
    rw [hkind, hpos a st hst]
    rfl
  obtain ⟨hs, hh⟩ := handovers_restingAt (K := K)
    (fun a src dst hsrc hdst => (hframe hc' hdst).trans (hframe hp' hsrc).symm) b.agents
  exact ⟨_, hs, exchangeBoundary_eq_ok.2 ⟨p, c, hp', hc', hh, rfl⟩⟩

section Step

variable {frameBridge : FrameBridge K} {epoch : Epoch K} {clock : K} {pos : String → String → K}
  {engines engines' : Dict String (SubEngine K (RoverState K) Unit)} {b : CouplingBoundary}
  {hs : List (Handover K)}

/-- What a boundary hands over between rovers at rest. -/
theorem mem_exchangeBoundary_restingAt (h : RestingAt pos engines)
    (hx : exchangeBoundary frameBridge epoch clock engines b = .ok (engines', hs)) {x : Handover K}
    (hm : x ∈ hs) :
    x.source = (restingRover (pos b.producer x.residual.agentId)).sample x.residual.agentId ∧
      x.handed = (restingRover (pos b.producer x.residual.agentId)).sample x.residual.agentId ∧
      x.residual.positionResidualM =
        HasSqrt.sqrt ((pos b.consumer x.residual.agentId - pos b.producer x.residual.agentId) *
          (pos b.consumer x.residual.agentId - pos b.producer x.residual.agentId)) := by
  obtain ⟨⟨-, hp, hc⟩, hsrc, dst, bridged, hdst, hb, hhanded, hres⟩ := mem_exchangeBoundary hx hm
  rw [sampleAt_restingAt h hp, Option.some.injEq] at hsrc
  rw [sampleAt_restingAt h hc, Option.some.injEq] at hdst
  have hbr : bridged = x.source := by
    have hself := frameBridge.bridge_self x.source epoch
    rw [show dst.frame = x.source.frame by rw [← hsrc, ← hdst]; rfl, hself] at hb
    exact (Except.ok.inj hb).symm
  refine ⟨hsrc.symm, ?_, ?_⟩
  · rw [hhanded, hbr, ← hsrc, ← hdst]
    rfl
  · rw [hres, hbr, ← hsrc, ← hdst]
    simp [positionResidual, RoverState.sample, restingRover]

/-- The rovers stay at rest, each agent handed over at the position of its producer. -/
theorem restingAt_exchangeBoundary (h : RestingAt pos engines)
    (hx : exchangeBoundary frameBridge epoch clock engines b = .ok (engines', hs)) :
    RestingAt (handedPos (layout engines) b pos) engines' := by
  obtain ⟨-, -, -, -, -, rfl⟩ := exchangeBoundary_eq_ok.1 hx
  intro label e' he'
  rw [get?_importHandovers] at he'
  obtain ⟨e, he, rfl⟩ := Option.map_eq_some_iff.mp he'
  obtain ⟨hkind, hpos⟩ := h label e he
  by_cases hl : label = b.consumer ∧ hs ≠ []
  · rw [if_pos hl]
    refine ⟨hkind, fun a st hst => ?_⟩
    rw [SubEngine.get?_states_import] at hst
    obtain ⟨st₀, hst₀, rfl⟩ := Option.map_eq_some_iff.mp hst
    cases hs' : (CouplingState.byAgent
        { simTimeS := clock, samples := hs.map Handover.handed }).get? a with
    | none =>
      have hnot : ¬ (label = b.consumer ∧ b.Hands (layout engines) a) := by
        rintro ⟨-, hands⟩
        obtain ⟨x, hm, rfl⟩ := (exists_mem_iff_hands hx a).mpr hands
        have hsome := isSome_get?_handed hx hm
        rw [hs'] at hsome
        cases hsome
      rw [handedPos, if_neg hnot]
      exact hpos a st₀ hst₀
    | some s =>
      obtain ⟨x, hm, rfl, rfl⟩ := exists_of_get?_handed hx hs'
      have hands := (mem_exchangeBoundary hx hm).1
      rw [handedPos, if_pos ⟨hl.1, hands⟩]
      show e.kind.importSample st₀ x.handed = _
      rw [hkind, hpos _ st₀ hst₀, (mem_exchangeBoundary_restingAt h hx hm).2.1]
      rfl
  · rw [if_neg hl]
    refine ⟨hkind, fun a st hst => ?_⟩
    have hnot : ¬ (label = b.consumer ∧ b.Hands (layout engines) a) := by
      rintro ⟨hlab, hands⟩
      obtain ⟨x, hm, -⟩ := (exists_mem_iff_hands hx a).mpr hands
      exact hl ⟨hlab, List.ne_nil_of_mem hm⟩
    rw [handedPos, if_neg hnot]
    exact hpos a st hst

end Step

/-- A coupler of the shape of `C` whose agents rest at `pos`. -/
def restingCoupler (C : CoupledEngine K σ ρ) (pos : String → String → K) :
    CoupledEngine K (RoverState K) Unit where
  engines := C.engines.mapWithKey fun label e =>
    { kind := stillKind
      states := e.states.mapWithKey fun a _ => restingRover (pos label a)
      elapsedS := 0 }
  boundaries := C.boundaries
  schedule := C.schedule
  frameBridge := C.frameBridge
  startEpoch := C.startEpoch
  elapsedS := 0
  residuals := []
  shared := ()
  labels_known := by
    rw [Dict.keys_mapWithKey]
    exact C.labels_known
  one_le_substeps := C.one_le_substeps

omit [HasSqrt K] in
theorem sameShape_restingCoupler (C : CoupledEngine K σ ρ) (pos : String → String → K) :
    (restingCoupler C pos).SameShape C := by
  refine ⟨?_, rfl⟩
  apply Dict.ext_get?
  · rw [layout, layout, Dict.keys_mapValues, Dict.keys_mapValues, restingCoupler,
      Dict.keys_mapWithKey]
  · intro label
    rw [layout, layout, Dict.get?_mapValues, Dict.get?_mapValues, restingCoupler,
      Dict.get?_mapWithKey, Option.map_map]
    congr 1
    funext e
    exact Dict.keys_mapWithKey _ _

omit [HasSqrt K] in
theorem restingRover_advance (x : K) (a : String) :
    RoverState.advance (fun (r : Unit) _ _ _ => (0, r)) 0 a (restingRover x) () =
      (restingRover x, ()) := by
  simp [RoverState.advance, restingRover]

omit [HasSqrt K] in
/-- A still engine at rest stays as it is over any number of empty sub-steps. -/
theorem restingAt_advanceSteps {f : String → K} (n : ℕ) (e : SubEngine K (RoverState K) Unit)
    (hkind : e.kind = stillKind)
    (hpos : ∀ a st, e.states.get? a = some st → st = restingRover (f a)) :
    (e.advanceSteps 0 n ()).1.kind = stillKind ∧
      ∀ a st, (e.advanceSteps 0 n ()).1.states.get? a = some st → st = restingRover (f a) := by
  induction n generalizing e with
  | zero => exact ⟨hkind, hpos⟩
  | succ n ih =>
    refine ih (e.advance 0 ()).1 hkind fun a st hst => ?_
    have hst' : ((stillKind (K := K)).integrate 0 e.states ()).1.get? a = some st := hkind ▸ hst
    obtain ⟨st₀, r, hst₀, rfl⟩ := Dict.get?_mapAccum hst'
    rw [hpos a st₀ hst₀]
    exact congrArg Prod.fst (restingRover_advance (f a) a)

omit [HasSqrt K] in
theorem restingAt_advanceEngines (C : CoupledEngine K σ ρ) (pos : String → String → K) :
    RestingAt pos ((restingCoupler C pos).advanceEngines 0).1 := by
  intro label w hw
  obtain ⟨e, r, he, rfl⟩ := Dict.get?_mapAccum hw
  rw [restingCoupler, Dict.get?_mapWithKey] at he
  obtain ⟨e₀, -, rfl⟩ := Option.map_eq_some_iff.mp he
  simp only [zero_div]
  refine restingAt_advanceSteps _ _ rfl fun a st hst => ?_
  rw [Dict.get?_mapWithKey] at hst
  obtain ⟨-, -, rfl⟩ := Option.map_eq_some_iff.mp hst
  rfl

/-- All at the origin but the agent `a` of the sub-engine `label`. -/
def spike (label a : String) (label' a' : String) : K :=
  if label' = label ∧ a' = a then 1 else 0

omit [LinearOrder K] [HasSqrt K] in
/-- Handing the agent over from another sub-engine flattens the spike. -/
theorem handedPos_spike {lay : Dict String (List String)} {b : CouplingBoundary} {a : String}
    (hne : b.producer ≠ b.consumer) (hands : b.Hands lay a) :
    handedPos lay b (spike b.consumer a : String → String → K) = fun _ _ => 0 := by
  funext label a'
  rw [handedPos]
  split_ifs with h
  · rw [spike, if_neg (fun h' => hne h'.1)]
  · rw [spike, if_neg]
    rintro ⟨rfl, rfl⟩
    exact h ⟨rfl, hands⟩

omit [LinearOrder K] [HasSqrt K] in
theorem handedPos_zero (lay : Dict String (List String)) (b : CouplingBoundary) :
    handedPos lay b (fun _ _ => (0 : K)) = fun _ _ => 0 := by
  funext label a
  rw [handedPos, ite_self]

/-- Boundaries between rovers at rest all succeed. -/
theorem exists_run_restingAt {frameBridge : FrameBridge K} {epoch : Epoch K} {clock : K}
    {pos : String → String → K} {engines : Dict String (SubEngine K (RoverState K) Unit)}
    (h : RestingAt pos engines) {bs : List CouplingBoundary}
    (hk : ∀ b ∈ bs, b.producer ∈ engines.keys ∧ b.consumer ∈ engines.keys) :
    ∃ engines' trace,
      runList (exchangeBoundary frameBridge epoch clock) engines bs = .ok (engines', trace) := by
  refine runList_exists (fun s => (∃ pos, RestingAt pos s) ∧ s.keys = engines.keys) ?_ engines
    ⟨⟨pos, h⟩, rfl⟩
  rintro b hb s ⟨⟨pos', h'⟩, hkeys⟩
  have hkb := hk b hb
  rw [← hkeys] at hkb
  obtain ⟨s', hs, hx⟩ : ∃ s' hs, exchangeBoundary frameBridge epoch clock s b = .ok (s', hs) :=
    exchangeBoundary_restingAt h' hkb.1 hkb.2
  refine ⟨s', hs, hx, ⟨_, restingAt_exchangeBoundary h' hx⟩, ?_⟩
  obtain ⟨-, -, -, -, -, rfl⟩ := exchangeBoundary_eq_ok.1 hx
  rw [keys_importHandovers, hkeys]

/-- When all rest at the origin, every residual is zero. -/
theorem residual_eq_zero_of_origin (hsqrt : HasSqrt.sqrt (0 : K) = 0) {frameBridge : FrameBridge K}
    {epoch : Epoch K} {clock : K} {engines engines' : Dict String (SubEngine K (RoverState K) Unit)}
    (h : RestingAt (fun _ _ => 0) engines) {bs : List CouplingBoundary}
    {trace : List (CouplingBoundary × List (Handover K))}
    (hrun : runList (exchangeBoundary frameBridge epoch clock) engines bs = .ok (engines', trace))
    {t : CouplingBoundary × List (Handover K)} (ht : t ∈ trace) {x : Handover K} (hx : x ∈ t.2) :
    x.residual.positionResidualM = 0 := by
  have hstep : ∀ b ∈ bs, ∀ s s' y, RestingAt (fun _ _ => 0) s →
      exchangeBoundary frameBridge epoch clock s b = .ok (s', y) → RestingAt (fun _ _ => 0) s' := by
    intro b _ s s' y hs hy
    have hs' := restingAt_exchangeBoundary hs hy
    rwa [handedPos_zero] at hs'
  obtain ⟨-, s, s', hs, hts⟩ := runList_reports _ hstep _ _ _ h hrun t ht
  rw [(mem_exchangeBoundary_restingAt hs hts hx).2.2, sub_zero, mul_zero, hsqrt]

theorem exists_perm_cons_cons {b c : CouplingBoundary} {bs : List CouplingBoundary} (hb : b ∈ bs)
    (hc : c ∈ bs) (hne : b ≠ c) : ∃ rest, (b :: c :: rest).Perm bs := by
  have hc' : c ∈ bs.erase b := (List.mem_erase_of_ne (Ne.symm hne)).mpr hc
  refine ⟨(bs.erase b).erase c, ?_⟩
  exact ((List.perm_cons_erase hc').symm.cons b).trans (List.perm_cons_erase hb).symm

/-- With two different boundaries that interfere, rovers at rest see the order. -/
theorem not_orderFree_of_interferes (hsqrt₀ : HasSqrt.sqrt (0 : K) = 0)
    (hsqrt₁ : HasSqrt.sqrt (1 : K) = 1) (C : CoupledEngine K σ ρ) {b c : CouplingBoundary}
    (hb : b ∈ C.boundaries) (hc : c ∈ C.boundaries) (hbc : b ≠ c)
    (hint : Interferes (layout C.engines) b c) :
    ∃ pos, ¬ (restingCoupler C pos).OrderFree 0 := by
  obtain ⟨hne, htouch, a, hab, hac⟩ := hint
  refine ⟨spike b.consumer a, fun hfree => ?_⟩
  obtain ⟨rest, hperm⟩ := exists_perm_cons_cons hb hc hbc
  have hshape := (sameShape_restingCoupler C (spike b.consumer a : String → String → K)).1
  have hrest := restingAt_advanceEngines C (spike b.consumer a : String → String → K)
  have hlay := (restingCoupler C (spike b.consumer a)).layout_advanceEngines 0
  rw [hshape] at hlay
  have hkeys : (restingCoupler C (spike b.consumer a)).engines.keys =
      ((restingCoupler C (spike b.consumer a)).advanceEngines 0).1.keys :=
    (Dict.keys_mapAccum _ _ _).symm
  have hknown : ∀ d ∈ C.boundaries,
      d.producer ∈ ((restingCoupler C (spike b.consumer a)).advanceEngines 0).1.keys ∧
        d.consumer ∈ ((restingCoupler C (spike b.consumer a)).advanceEngines 0).1.keys := by
    rw [← hkeys]
    exact (restingCoupler C (spike b.consumer a)).labels_known
  have hperm' : (c :: b :: rest).Perm C.boundaries := (List.Perm.swap b c rest).trans hperm
  -- `b` first: afterwards all agents rest at the origin
  obtain ⟨s, tr, hrun⟩ : ∃ s tr, (restingCoupler C (spike b.consumer a)).exchangeIn 0
      (b :: c :: rest) = .ok (s, tr) :=
    exists_run_restingAt hrest fun d hd => hknown d (hperm.mem_iff.mp hd)
  obtain ⟨s₁, hsb, tr₁, hstepb, hrun₁, rfl⟩ := runList_cons_eq_ok.1 hrun
  have horigin := restingAt_exchangeBoundary hrest hstepb
  rw [hlay, handedPos_spike hne hab] at horigin
  by_cases hread : c.producer = b.consumer
  · -- `c` reads the agent after `b` has moved it
    obtain ⟨s₂, hsc, tr₂, hstepc, -, rfl⟩ := runList_cons_eq_ok.1 hrun₁
    have hac' : c.Hands (layout s₁) a := by
      rw [layout_exchangeBoundary hstepb, hlay]
      exact hac
    obtain ⟨x, hx, rfl⟩ := (exists_mem_iff_hands hstepc a).mpr hac'
    have hpost := hfree.postAdvance _ hperm _ _ hrun (c, hsc) (by simp) x hx
    have hin : x.residual.agentId ∈
        agentsOf (layout ((restingCoupler C (spike b.consumer x.residual.agentId)).advanceEngines
          (0 : K)).1) c.producer := by
      rw [hlay]
      exact hac.2.1
    rw [sampleAt_restingAt hrest hin, (mem_exchangeBoundary_restingAt horigin hstepc hx).1,
      Option.some.injEq] at hpost
    have hval := restingRover_sample_inj hpost
    rw [spike, if_pos ⟨hread, rfl⟩] at hval
    exact one_ne_zero hval
  · -- `c` overwrites the agent: first in its order, it sees the spike
    have hwrite : b.consumer = c.consumer := htouch.resolve_left (Ne.symm hread)
    obtain ⟨s', tr', hrun'⟩ : ∃ s tr, (restingCoupler C (spike b.consumer a)).exchangeIn 0
        (c :: b :: rest) = .ok (s, tr) :=
      exists_run_restingAt hrest fun d hd => hknown d (hperm'.mem_iff.mp hd)
    obtain ⟨s₂, hsc, tr₂, hstepc, -, rfl⟩ := runList_cons_eq_ok.1 hrun'
    have hac' : c.Hands (layout ((restingCoupler C (spike b.consumer a)).advanceEngines (0 : K)).1)
        a := by
      rw [hlay]
      exact hac
    obtain ⟨x, hx, rfl⟩ := (exists_mem_iff_hands hstepc a).mpr hac'
    have hval := (mem_exchangeBoundary_restingAt hrest hstepc hx).2.2
    rw [spike, if_pos ⟨hwrite.symm, rfl⟩, spike, if_neg (fun h => hread h.1), sub_zero, mul_one,
      hsqrt₁] at hval
    obtain ⟨ys, hys, hpermys⟩ := hfree.same _ _ hperm' hperm s'
      (((c, hsc) :: tr₂).map fun t => (t.1, t.2.map Handover.residual)) (by rw [hrun']; rfl)
    rw [hrun] at hys
    obtain ⟨-, rfl⟩ := Prod.mk.inj (Except.ok.inj hys)
    have hmem := hpermys.mem_iff.mp (List.mem_map_of_mem (List.mem_cons_self (a := (c, hsc))))
    obtain ⟨t, ht, hteq⟩ := List.mem_map.mp hmem
    obtain ⟨htc, htr⟩ := Prod.mk.inj hteq
    rcases List.mem_cons.mp ht with rfl | ht
    · exact hbc htc
    · have hxr : x.residual ∈ t.2.map Handover.residual := by
        rw [htr]
        exact List.mem_map_of_mem hx
      obtain ⟨y, hy, hyx⟩ := List.mem_map.mp hxr
      have hzero := residual_eq_zero_of_origin hsqrt₀ horigin hrun₁ ht hy
      rw [hyx, hval] at hzero
      exact one_ne_zero hzero

end Necessity

/-! ## The exact condition -/

namespace CoupledEngine

variable [Field K] [LinearOrder K] [HasSqrt K]

/-- **Main theorem.** Over all states of the sub-engines, the exchange is order-free exactly when
no boundary overwrites, from another sub-engine, an agent that a different boundary reads or
overwrites. -/
theorem advance_orderFree_iff (hsqrt₀ : HasSqrt.sqrt (0 : K) = 0)
    (hsqrt₁ : HasSqrt.sqrt (1 : K) = 1) (C₀ : CoupledEngine K σ ρ) :
    (∀ (σ' ρ' : Type) (C : CoupledEngine K σ' ρ'), C.SameShape C₀ → ∀ dt, C.OrderFree dt) ↔
      Independent (layout C₀.engines) C₀.boundaries := by
  constructor
  · intro hfree b hb c hc hbc hint
    obtain ⟨pos, hpos⟩ := not_orderFree_of_interferes hsqrt₀ hsqrt₁ C₀ hb hc hbc hint
    exact hpos (hfree _ _ _ (sameShape_restingCoupler C₀ pos) 0)
  · intro hind σ' ρ' C hshape dt
    apply orderFree_of_independent
    rw [hshape.1, hshape.2]
    exact hind

end CoupledEngine

/-! ## A chain of couplings -/

/-- The reference engine, every draw of its random streams half a centimetre. -/
def sampleKind : EngineKind ℚ (RoverState ℚ) Unit :=
  kinematicKind fun r _ _ _ => (1 / 200, r)

/-- A sub-engine with the one rover `r` at `(x, 0, 0)`, driving along the first axis. -/
def roverEngine (x : ℚ) : SubEngine ℚ (RoverState ℚ) Unit where
  kind := sampleKind
  states := .ofList [("r", ⟨inertialJ2000, ⟨x, 0, 0⟩, ⟨1 / 2, 0, 0⟩, 300, 0, some "drive"⟩)]
  elapsedS := 0

/-- The boundary that hands the rover over from one sub-engine to another. -/
def roverBoundary (producer consumer : String) : CouplingBoundary :=
  ⟨producer ++ "-" ++ consumer, producer, consumer, ["r"]⟩

/-- Three sub-engines that share the rover, one metre and three metres apart. -/
def threeEngines : Dict String (SubEngine ℚ (RoverState ℚ) Unit) :=
  .ofList [("mobility", roverEngine 0), ("granular", roverEngine 1), ("kinematic", roverEngine 3)]

/-- The coupler of the three sub-engines with the given boundaries. -/
def threeCoupler (boundaries : List CouplingBoundary)
    (hknown : ∀ b ∈ boundaries, b.producer ∈ threeEngines.keys ∧ b.consumer ∈ threeEngines.keys) :
    CoupledEngine ℚ (RoverState ℚ) Unit where
  engines := threeEngines
  boundaries := boundaries
  schedule := ⟨.empty⟩
  frameBridge := spiceFrameBridge fun _ _ _ => none
  startEpoch := ⟨0, .tdb⟩
  elapsedS := 0
  residuals := []
  shared := ()
  labels_known := hknown
  one_le_substeps _ := le_rfl

/-- The chain mobility → granular → kinematic. -/
def chainCoupler : CoupledEngine ℚ (RoverState ℚ) Unit :=
  threeCoupler [roverBoundary "mobility" "granular", roverBoundary "granular" "kinematic"]
    (by decide +kernel)

/-- The mobility engine hands the rover to both others. -/
def fanCoupler : CoupledEngine ℚ (RoverState ℚ) Unit :=
  threeCoupler [roverBoundary "mobility" "granular", roverBoundary "mobility" "kinematic"]
    (by decide +kernel)

/-- The residuals of an exchange of the chain, boundary by boundary. -/
def chainReport (bs : List CouplingBoundary) :
    Option (List (CouplingBoundary × List (CouplingResidual ℚ))) :=
  (reported (chainCoupler.exchangeIn 1 bs)).toOption.map Prod.snd

/-- Along the chain the residual of the second boundary is three metres when it comes last and two
metres when it comes first. -/
theorem chainCoupler_not_orderFree : ¬ chainCoupler.OrderFree 1 := by
  intro hfree
  have hdiff : ¬ ∃ xs ys, chainReport chainCoupler.boundaries = some xs ∧
      chainReport chainCoupler.boundaries.reverse = some ys ∧ xs.Perm ys := by
    rintro ⟨xs, ys, hx, hy, hp⟩
    have hbad : ¬ (((chainReport chainCoupler.boundaries).getD []).Perm
        ((chainReport chainCoupler.boundaries.reverse).getD [])) := by decide +kernel
    rw [hx, hy] at hbad
    exact hbad hp
  have hok : (chainReport chainCoupler.boundaries).isSome = true := by decide +kernel
  obtain ⟨xs, hxs⟩ := Option.isSome_iff_exists.mp hok
  obtain ⟨⟨s, xs'⟩, hr, rfl⟩ := Option.map_eq_some_iff.mp hxs
  have hr' : reported (chainCoupler.exchangeIn 1 chainCoupler.boundaries) = .ok (s, xs') := by
    cases hc : reported (chainCoupler.exchangeIn 1 chainCoupler.boundaries) with
    | error err => simp [hc, Except.toOption] at hr
    | ok p => simpa [hc, Except.toOption] using hr
  obtain ⟨ys, hys, hperm⟩ := hfree.same _ _ (.refl _) (List.reverse_perm _) s xs' hr'
  exact hdiff ⟨xs', ys, hxs, by rw [chainReport, hys]; rfl, hperm⟩

theorem fanCoupler_orderFree : fanCoupler.OrderFree 1 := by
  have hind : Independent (layout fanCoupler.engines) fanCoupler.boundaries := by
    intro b hb c hc _ hint
    have hread : ∀ b ∈ fanCoupler.boundaries, ∀ c ∈ fanCoupler.boundaries, b ≠ c →
        b.consumer ≠ c.producer ∧ b.consumer ≠ c.consumer := by decide +kernel
    have hne := hread b hb c hc ‹_›
    exact hint.2.1.elim hne.1 hne.2
  exact (CoupledEngine.advance_orderFree_iff (by decide +kernel) (by decide +kernel)
    fanCoupler).mpr hind _ _ fanCoupler ⟨rfl, rfl⟩ 1

end AstroMine.Sim
