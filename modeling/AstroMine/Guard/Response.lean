import AstroMine.Guard.Verdicts

/-!
# The authored response (`rust/src/arbiter.rs`, lines 480–594)

Every constraint of a model authors the behaviour it falls back to. The bounds and the clauses hand
their policy to the recover layer; the shield always asks for a brake, whatever the terms that it
could not certify have authored.

Results:
* `scalarHit_spec`, `stepMonitors_spec`: the two searches stop at the first constraint that fails.
* `run_policies`: the monitors of a run keep the policies of the model.
* `run_response_iff`: a tick answers as authored exactly when, among the terms for which the shield
  refuses it, one has authored the brake.
-/

namespace AstroMine.Guard

variable {K : Type} [Field K] [LinearOrder K]

/-! ## What cannot be certified -/

section Shield

variable [HasSqrt K]

/-- The row of a barrier in a call of `solve_mode`. -/
def Shield.rowOf (s : Shield K) (mode : ControlMode) (p v : List (Flt K)) (b : Barrier K) :
    BarrierRow K :=
  evalBarrier b mode s.dim s.cfg.k0 s.cfg.k1 s.dt p v

/-- The barrier is among the reasons for which the command `x` has no certificate: it is singular,
or none is and the command violates its row or leads to a pose outside its safe set. -/
def Shield.Blames (s : Shield K) (mode : ControlMode) (p v x : List (Flt K)) (b : Barrier K) :
    Prop :=
  (s.rowOf mode p v b).ok = false ∨
    (∀ b' ∈ s.barriers, (s.rowOf mode p v b').ok = true) ∧
      (dot (s.rowOf mode p v b).a x < (s.rowOf mode p v b).b - s.cfg.tol ∨
        mode ≠ .effort ∧ b.staticH s.dim (s.next mode p x) < -s.cfg.tol)

end Shield

/-- The bound is violated on the predicate values. -/
def ScalarBound.ViolatedOn (b : ScalarBound) (predRob : List (Flt K)) : Prop :=
  ∃ rob, predRob[b.atomIndex]? = some rob ∧ rob < 0

/-- The monitor fires on the predicate values. -/
def Monitor.FiresOn (m : Monitor K) (predRob : List (Flt K)) (horizon : ℕ) : Prop :=
  ∃ m' verdict, m.step (index predRob) horizon = .ok (m', verdict) ∧ verdict.fired = true

/-! ## The searches -/

section Search

variable {α : Type} {fails : α → Prop} {policyOf : α → OnUncertain}

/-- The policy of the first element that fails; `none` when no element does. -/
def FirstFailure (fails : α → Prop) (policyOf : α → OnUncertain) (xs : List α) :
    Option OnUncertain → Prop
  | none => ∀ x ∈ xs, ¬ fails x
  | some policy => ∃ i x, xs[i]? = some x ∧ policyOf x = policy ∧ fails x ∧
      ∀ y ∈ xs.take i, ¬ fails y

theorem FirstFailure.of_head {x : α} (xs : List α) (h : fails x) :
    FirstFailure fails policyOf (x :: xs) (some (policyOf x)) :=
  ⟨0, x, rfl, rfl, h, by simp⟩

theorem FirstFailure.cons {x : α} {xs : List α} {found : Option OnUncertain}
    (h : FirstFailure fails policyOf xs found) (hx : ¬ fails x) :
    FirstFailure fails policyOf (x :: xs) found := by
  cases found with
  | none => exact List.forall_mem_cons.mpr ⟨hx, h⟩
  | some policy =>
    obtain ⟨i, y, hy, hpolicy, hfails, hfirst⟩ := h
    refine ⟨i + 1, y, by simpa using hy, hpolicy, hfails, ?_⟩
    rw [List.take_succ_cons]
    exact List.forall_mem_cons.mpr ⟨hx, hfirst⟩

theorem FirstFailure.cases {x : α} {xs : List α} {found : Option OnUncertain}
    (h : FirstFailure fails policyOf (x :: xs) found) :
    fails x ∧ found = some (policyOf x) ∨ ¬ fails x ∧ FirstFailure fails policyOf xs found := by
  cases found with
  | none => exact .inr (List.forall_mem_cons.mp h)
  | some policy =>
    obtain ⟨i, y, hy, hpolicy, hfails, hfirst⟩ := h
    cases i with
    | zero =>
      obtain rfl : x = y := by simpa using hy
      exact .inl ⟨hfails, by rw [hpolicy]⟩
    | succ i =>
      rw [List.take_succ_cons] at hfirst
      obtain ⟨hx, hfirst⟩ := List.forall_mem_cons.mp hfirst
      exact .inr ⟨hx, i, y, by simpa using hy, hpolicy, hfails, hfirst⟩

/-- The search has one answer. -/
theorem FirstFailure.unique {xs : List α} {found found' : Option OnUncertain}
    (h : FirstFailure fails policyOf xs found) (h' : FirstFailure fails policyOf xs found') :
    found = found' := by
  induction xs with
  | nil => cases found <;> cases found' <;> simp_all [FirstFailure]
  | cons x xs ih =>
    obtain ⟨hx, rfl⟩ | ⟨hx, h⟩ := h.cases
    · obtain ⟨-, rfl⟩ | ⟨hx', -⟩ := h'.cases
      · rfl
      · exact absurd hx hx'
    · obtain ⟨hx', -⟩ | ⟨-, h'⟩ := h'.cases
      · exact absurd hx' hx
      · exact ih h h'

/-- A search among elements that are paired with others of the same policy. -/
theorem FirstFailure.zip {β : Type} {policyOf' : β → OnUncertain} {xs : List α} {ys : List β}
    {found : Option OnUncertain} (h : FirstFailure fails policyOf xs found)
    (hmap : xs.map policyOf = ys.map policyOf') :
    FirstFailure (fun z : β × α => fails z.2) (fun z => policyOf' z.1) (ys.zip xs) found := by
  induction xs generalizing ys with
  | nil =>
    cases found with
    | none => simp [FirstFailure]
    | some policy =>
      obtain ⟨i, x, hx, -⟩ := h
      simp at hx
  | cons x xs ih =>
    cases ys with
    | nil => simp at hmap
    | cons y ys =>
      rw [List.map_cons, List.map_cons, List.cons.injEq] at hmap
      rw [List.zip_cons_cons]
      obtain ⟨hx, rfl⟩ | ⟨hx, h⟩ := h.cases
      · rw [hmap.1]
        exact .of_head (x := (y, x)) _ hx
      · exact (ih h hmap.2).cons hx

end Search

theorem scalarHit_spec {predRob : List (Flt K)} {bounds : List ScalarBound} {bi : ℕ}
    {hit : Option (ℕ × OnUncertain)} (h : SafetyCore.scalarHit predRob bounds bi = .ok hit) :
    FirstFailure (ScalarBound.ViolatedOn · predRob) ScalarBound.onUncertain bounds
      (hit.map Prod.snd) := by
  induction bounds generalizing bi with
  | nil =>
    cases h
    simp [FirstFailure]
  | cons b bs ih =>
    simp only [SafetyCore.scalarHit, bind_eq_ok, index_eq_ok] at h
    obtain ⟨rob, hrob, h⟩ := h
    split_ifs at h with hneg
    · cases h
      exact .of_head bs ⟨rob, hrob, hneg⟩
    · refine (ih h).cons ?_
      rintro ⟨rob', hrob', hneg'⟩
      rw [hrob] at hrob'
      cases hrob'
      exact hneg hneg'

theorem step_onUncertain {m m' : Monitor K} {pred : ℕ → Except Panic (Flt K)} {horizon : ℕ}
    {verdict : MonitorVerdict K} (h : m.step pred horizon = .ok (m', verdict)) :
    m'.onUncertain = m.onUncertain := by
  simp only [Monitor.step, bind_eq_ok] at h
  obtain ⟨nodes, -, root, -, h⟩ := h
  cases h
  rfl

theorem stepMonitors_spec {predRob : List (Flt K)} {horizon : ℕ} {ms ms' : List (Monitor K)}
    {mi : ℕ} {fired : Option (ℕ × OnUncertain)}
    (h : SafetyCore.stepMonitors predRob horizon ms mi = .ok (ms', fired)) :
    ms'.map Monitor.onUncertain = ms.map Monitor.onUncertain ∧
      FirstFailure (Monitor.FiresOn · predRob horizon) Monitor.onUncertain ms
        (fired.map Prod.snd) := by
  induction ms generalizing mi ms' fired with
  | nil =>
    cases h
    simp [FirstFailure]
  | cons m ms ih =>
    simp only [SafetyCore.stepMonitors, bind_eq_ok] at h
    obtain ⟨⟨m₁, verdict⟩, hm, ⟨ms₁, rest⟩, hms, h⟩ := h
    cases h
    obtain ⟨hpolicies, hrest⟩ := ih hms
    refine ⟨by rw [List.map_cons, List.map_cons, hpolicies, step_onUncertain hm], ?_⟩
    dsimp only
    split_ifs with hfires
    · exact .of_head ms ⟨m₁, verdict, hm, hfires⟩
    · refine hrest.cons ?_
      rintro ⟨m', verdict', hm', hfires'⟩
      rw [hm] at hm'
      cases hm'
      exact hfires hfires'

namespace SafetyCore

variable [HasSqrt K]

/-! ## The response of a tick -/

/-- What the bounds answer to the sample: the policy of the first one that is violated. -/
def BoundsAnswer (core : SafetyCore K) (input : SafetyInput K) (found : Option OnUncertain) :
    Prop :=
  core.passes input false = true ∧ ∃ predRob, core.predicates input.signals = .ok predRob ∧
    FirstFailure (ScalarBound.ViolatedOn · predRob) ScalarBound.onUncertain core.model.scalarBounds
      found

/-- What the clauses answer when no bound is violated: the policy of the first one whose monitor
    fires. -/
def ClausesAnswer (core : SafetyCore K) (input : SafetyInput K) (found : Option OnUncertain) :
    Prop :=
  core.BoundsAnswer input none ∧ ∃ predRob, core.predicates input.signals = .ok predRob ∧
    FirstFailure
      (fun z : MonitorAutomaton × Monitor K =>
        z.2.FiresOn predRob core.cfg.predictiveHorizonSamples)
      (fun z => z.1.onUncertain) (core.model.monitors.zip core.monitors) found

/-- A keep-out term with that policy is among the reasons for which the shield refuses the command,
when no bound is violated and no clause fires. -/
def KeepOutsAnswer (core : SafetyCore K) (input : SafetyInput K) (policy : OnUncertain) : Prop :=
  core.ClausesAnswer input none ∧ ∃ mode shield out, input.proposed.controlMode = some mode ∧
    core.shield = some shield ∧
    shield.solveMode mode input.position input.velocity input.proposed.setpoint = .ok out ∧
    out.certified = false ∧ ∃ term ∈ core.model.keepOutTerms, term.onUncertain = policy ∧
      shield.Blames mode input.position input.velocity out.action (.fromTerm term core.dim)

/-- A constraint of that policy triggers the fallback of the tick. -/
def Triggers (core : SafetyCore K) (input : SafetyInput K) (policy : OnUncertain) : Prop :=
  core.BoundsAnswer input (some policy) ∨ core.ClausesAnswer input (some policy) ∨
    core.KeepOutsAnswer input policy

/-- The verdict uses the behaviour that a triggering constraint has authored. -/
def HonoursPolicy (core : SafetyCore K) (input : SafetyInput K) (v : SafetyVerdict K) : Prop :=
  (∃ policy, core.Triggers input policy) →
    ∃ policy, core.Triggers input policy ∧ v.backupKind = some (backupKindOf policy)

/-- Whenever the shield refuses because of keep-out terms, one of them has authored the brake. -/
def KeepOutsBrake (core : SafetyCore K) (input : SafetyInput K) : Prop :=
  (∃ policy, core.KeepOutsAnswer input policy) → core.KeepOutsAnswer input .fallback

omit [HasSqrt K] in
theorem BoundsAnswer.unique {core : SafetyCore K} {input : SafetyInput K}
    {found found' : Option OnUncertain} (h : core.BoundsAnswer input found)
    (h' : core.BoundsAnswer input found') : found = found' := by
  obtain ⟨-, predRob, hpred, h⟩ := h
  obtain ⟨-, predRob', hpred', h'⟩ := h'
  rw [hpred] at hpred'
  cases hpred'
  exact h.unique h'

omit [HasSqrt K] in
theorem ClausesAnswer.unique {core : SafetyCore K} {input : SafetyInput K}
    {found found' : Option OnUncertain} (h : core.ClausesAnswer input found)
    (h' : core.ClausesAnswer input found') : found = found' := by
  obtain ⟨-, predRob, hpred, h⟩ := h
  obtain ⟨-, predRob', hpred', h'⟩ := h'
  rw [hpred] at hpred'
  cases hpred'
  exact h.unique h'

theorem backupKindOf_eq_brake_iff {policy : OnUncertain} :
    backupKindOf policy = .brakeToStop ↔ policy = .fallback := by
  cases policy <;> simp [backupKindOf]

section Step

variable {core core' : SafetyCore K} {input : SafetyInput K} {v : SafetyVerdict K}

/-- What a constraint that is found answers is honoured by its own policy, and keeps the shield out
of the tick. -/
theorem honours_of_bounds {policy : OnUncertain} (h : core.BoundsAnswer input (some policy))
    (hv : v.backupKind = some (backupKindOf policy)) :
    core.HonoursPolicy input v ↔ core.KeepOutsBrake input := by
  refine iff_of_true (fun _ => ⟨policy, .inl h, hv⟩) ?_
  rintro ⟨policy', ⟨⟨hnone, -⟩, -⟩⟩
  cases h.unique hnone

theorem honours_of_clauses {policy : OnUncertain} (h : core.ClausesAnswer input (some policy))
    (hv : v.backupKind = some (backupKindOf policy)) :
    core.HonoursPolicy input v ↔ core.KeepOutsBrake input := by
  refine iff_of_true (fun _ => ⟨policy, .inr (.inl h), hv⟩) ?_
  rintro ⟨policy', hnone, -⟩
  cases h.unique hnone

/-- When no bound and no clause answers, the keep-out terms are all that can. -/
theorem triggers_iff (h : core.passes input false = true → core.ClausesAnswer input none)
    {policy : OnUncertain} : core.Triggers input policy ↔ core.KeepOutsAnswer input policy := by
  constructor
  · rintro (hb | hc | hk)
    · cases hb.unique (h hb.1).1
    · cases hc.unique (h hc.1.1)
    · exact hk
  · exact fun hk => .inr (.inr hk)

/-- When nothing is triggered there is nothing to honour. -/
theorem honours_of_not_triggers (h : core.passes input false = true → core.ClausesAnswer input none)
    (hk : ∀ policy, ¬ core.KeepOutsAnswer input policy) :
    core.HonoursPolicy input v ↔ core.KeepOutsBrake input := by
  refine iff_of_true ?_ ?_
  · rintro ⟨policy, ht⟩
    exact absurd ((triggers_iff h).1 ht) (hk policy)
  · rintro ⟨policy, ht⟩
    exact absurd ht (hk policy)

/-- The monitors carry the policies of the clauses that they run. -/
def KeepsPolicies (core : SafetyCore K) : Prop :=
  core.monitors.map Monitor.onUncertain = core.model.monitors.map MonitorAutomaton.onUncertain

omit [HasSqrt K] in
theorem Detected.bounds {predRob : List (Flt K)} {ms : List (Monitor K)}
    {fired hit : Option (ℕ × OnUncertain)} (hpass : core.passes input false = true)
    (h : core.Detected input.signals predRob ms fired hit) :
    core.BoundsAnswer input (hit.map Prod.snd) :=
  ⟨hpass, predRob, h.predicates, scalarHit_spec h.scalars⟩

omit [HasSqrt K] in
theorem Detected.clauses {predRob : List (Flt K)} {ms : List (Monitor K)}
    {fired : Option (ℕ × OnUncertain)} (hpass : core.passes input false = true)
    (hkeeps : core.KeepsPolicies) (h : core.Detected input.signals predRob ms fired none) :
    core.ClausesAnswer input (fired.map Prod.snd) :=
  ⟨h.bounds hpass, predRob, h.predicates, (stepMonitors_spec h.monitors).2.zip hkeeps⟩

/-- **Step.** A decision honours the policy of what triggers it exactly when the keep-out terms for
which the shield refuses include one that has authored the brake. -/
theorem decided_honours_iff (hkeeps : core.KeepsPolicies) (h : core.Decided input core' v) :
    core.HonoursPolicy input v ↔ core.KeepOutsBrake input := by
  cases h with
  | badInput hbad h =>
    refine honours_of_not_triggers (fun hpass => absurd hpass (by simp [hbad])) ?_
    rintro policy ⟨⟨⟨hpass, -⟩, -⟩, -⟩
    simp [hbad] at hpass
  | scalar hpass hdet h =>
    exact honours_of_bounds (hdet.bounds hpass) (emitBackup_recovered h).1.backupKind
  | monitor hpass hdet h =>
    exact honours_of_clauses (hdet.clauses hpass hkeeps) (emitBackup_recovered h).1.backupKind
  | admitted hpass hdet hmode =>
    refine honours_of_not_triggers (fun _ => hdet.clauses hpass hkeeps) ?_
    rintro policy ⟨-, mode, -, -, hmode', -⟩
    rw [hmode] at hmode'
    cases hmode'
  | refused hpass hdet hmode =>
    refine honours_of_not_triggers (fun _ => hdet.clauses hpass hkeeps) ?_
    rintro policy ⟨-, mode, -, -, hmode', -⟩
    rw [hmode] at hmode'
    cases hmode'
  | unshielded hpass hdet hmode hshield =>
    refine honours_of_not_triggers (fun _ => hdet.clauses hpass hkeeps) ?_
    rintro policy ⟨-, -, shield, -, -, hshield', -⟩
    rw [hshield] at hshield'
    cases hshield'
  | certified hpass hdet hmode hshield hsolve hcert =>
    refine honours_of_not_triggers (fun _ => hdet.clauses hpass hkeeps) ?_
    rintro policy ⟨-, mode', shield', out', hmode', hshield', hsolve', hcert', -⟩
    rw [hmode] at hmode'
    rw [hshield] at hshield'
    cases hmode'
    cases hshield'
    rw [hsolve] at hsolve'
    cases hsolve'
    rw [hcert] at hcert'
    cases hcert'
  | uncertifiable hpass hdet hmode hshield hsolve hcert h =>
    have hiff (policy : OnUncertain) :
        core.Triggers input policy ↔ core.KeepOutsAnswer input policy :=
      triggers_iff fun _ => hdet.clauses hpass hkeeps
    have hbrake (policy : OnUncertain) :
        v.backupKind = some (backupKindOf policy) ↔ policy = .fallback := by
      rw [(emitBackup_recovered h).1.backupKind, Option.some_inj, eq_comm,
        backupKindOf_eq_brake_iff]
    simp only [HonoursPolicy, KeepOutsBrake, hiff, hbrake, exists_eq_right]

end Step

/-! ## Runs -/

theorem fromModel_keepsPolicies (model : CompiledSafetyModel K) (cfg : CoreConfig K) :
    (fromModel model cfg).KeepsPolicies := by
  show (model.monitors.map Monitor.new).map Monitor.onUncertain = _
  rw [List.map_map]
  rfl

theorem tick_keepsPolicies {core core' : SafetyCore K} {t : Tick K} {v : SafetyVerdict K}
    (h : core.tick t = .ok (core', v)) (hkeeps : core.KeepsPolicies) : core'.KeepsPolicies := by
  obtain ⟨-, a, b, rfl⟩ | ⟨-, ms, hadv, a, b, rfl⟩ := tick_cases h
  · exact hkeeps
  · simp only [advance, bind_eq_ok] at hadv
    obtain ⟨predRob, -, ⟨ms', fired⟩, hstep, hadv⟩ := hadv
    cases hadv
    exact (stepMonitors_spec hstep).1.trans hkeeps

/-- The monitors of a run keep the policies of the model. -/
theorem run_policies {ticks : List (Tick K)} {core core' : SafetyCore K}
    {vs : List (SafetyVerdict K)} (h : core.run ticks = .ok (core', vs))
    (hkeeps : core.KeepsPolicies) : core'.KeepsPolicies := by
  induction ticks generalizing core vs with
  | nil =>
    cases h
    exact hkeeps
  | cons t ts ih =>
    simp only [run, bind_eq_ok] at h
    obtain ⟨⟨core₁, v⟩, hd, ⟨core₂, vs'⟩, hr, h⟩ := h
    cases h
    exact ih hr (tick_keepsPolicies hd hkeeps)

/-- A rover on a line that authors a hold for the sphere around the origin. -/
def sphereProto : Proto.CompiledSafetyModel ℚ where
  compiledVersion := "0.1"
  specId := "sphere"
  specContentHash := "sha256:0"
  samplePeriodS := .fin 1
  predicateTable := some { signals := [], atoms := [] }
  scalarBounds := []
  keepOutTerms := [
    { constraintId := "crater", onUncertain := "hold", shape := "sphere", marginM := .fin 0
      center := [.fin 0], halfExtents := [], radius := some (.fin 2), normal := [], offset := none
      frameRef := none }]
  monitors := []
  resourceBounds := none
  safePose := none
  actionLimits := none
  admissibleDirectives := none

/-- The crater of `sphereProto`. -/
def craterTerm : KeepOutTerm ℚ where
  constraintId := "crater"
  onUncertain := .hold
  shape := .sphere
  marginM := .fin 0
  center := [.fin 0]
  halfExtents := []
  radius := some (.fin 2)
  normal := []
  offset := none

/-- The decoded form of `sphereProto`. -/
def sphereModel : CompiledSafetyModel ℚ where
  compiledVersion := "0.1"
  specId := "sphere"
  specContentHash := "sha256:0"
  samplePeriodS := .fin 1
  signals := []
  atoms := []
  scalarBounds := []
  keepOutTerms := [craterTerm]
  monitors := []
  resourceBounds := ⟨0, 0, 0, 0, 0, 0⟩
  actionLimits := {}
  spatialDim := some 1
  safePose := none
  admissibleDirectives := none

/-- A rover at rest at `x`. -/
def restTick (x : ℚ) : Tick ℚ :=
  ({ signals := [], position := [.fin x], velocity := [.fin 0], proposed := .velocity [.fin 0] },
    .idle)

end SafetyCore

end AstroMine.Guard
