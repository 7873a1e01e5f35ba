import AstroMine.Allocate.Constrained
import AstroMine.Allocate.Meaning
import AstroMine.Lib.Except

/-!
# Gating by contact windows

The comms pass keeps a task off the assets that have no start for it, and narrows its start to the
envelope of the ranges it finds, over all windows, contact intervals and open assets.

Results:
* `mem_commsForbidden_iff`: the pass forbids a pair when no range fits.
* `commsEnvelope`: both ends of the envelope are starts that relay.
* `relayGating`: what the pass forbids, and where a verified plan starts a gated task.
-/

namespace AstroMine.Allocate

/-! ## Starts that relay -/

/-- The contact intervals of an asset with a relay target: none without contact data. -/
def contactsOf (contacts : Option ContactPlan) (policy : CommsPolicy) (assetId : String) :
    List ContactInterval :=
  match contacts with
  | none => []
  | some plan => intervalsFor plan (policy.nodeId assetId) (relayTargetNodes plan)

/-- The execution `[start, start + durationS]` lies inside one contact interval. -/
def InContact (intervals : List ContactInterval) (epoch0TdbS durationS start : ℚ) : Prop :=
  ∃ iv ∈ intervals, iv.startTdbS ≤ start + epoch0TdbS ∧
    start + durationS + epoch0TdbS ≤ iv.endTdbS

/-- The start lies in one of the windows of the task, or in its horizon when it has none. -/
def StartsInWindow (task : Task) (start : ℚ) : Prop :=
  ∃ tw ∈ windowsOrHorizon task, tw.startS ≤ start ∧ start ≤ tw.endS

/-- The whole execution lies in one of the windows of the task. -/
def RunsInWindow (task : Task) (durationS start : ℚ) : Prop :=
  ∃ tw ∈ windowsOrHorizon task, tw.startS ≤ start ∧ start + durationS ≤ tw.endS

/-- **A start that relays** on an asset: in one of the windows of the task, with the whole execution
inside one contact interval of the asset. -/
def Relays (contacts : Option ContactPlan) (policy : CommsPolicy) (durations : Dict Pair ℚ)
    (task : Task) (assetId : String) (start : ℚ) : Prop :=
  StartsInWindow task start ∧ InContact (contactsOf contacts policy assetId) policy.epoch0TdbS
    (durations.getD (task.taskId, assetId) 0) start

instance (intervals : List ContactInterval) (epoch0TdbS durationS start : ℚ) :
    Decidable (InContact intervals epoch0TdbS durationS start) :=
  inferInstanceAs (Decidable (∃ iv ∈ intervals, _ ∧ _))

instance (contacts : Option ContactPlan) (policy : CommsPolicy) (durations : Dict Pair ℚ)
    (task : Task) (assetId : String) (start : ℚ) :
    Decidable (Relays contacts policy durations task assetId start) :=
  inferInstanceAs (Decidable ((∃ tw ∈ windowsOrHorizon task, _ ∧ _) ∧ InContact _ _ _ _))

/-! ## Envelopes -/

/-- Both ends of an envelope are reached. -/
theorem foldl_widen_reached (l : List (ℚ × ℚ)) (init : Option (ℚ × ℚ)) {e : ℚ × ℚ}
    (h : l.foldl widen init = some e) :
    (∃ f, (f ∈ l ∨ init = some f) ∧ f.1 = e.1) ∧ ∃ f, (f ∈ l ∨ init = some f) ∧ f.2 = e.2 := by
  induction l generalizing init with
  | nil => exact ⟨⟨e, Or.inr h, rfl⟩, ⟨e, Or.inr h, rfl⟩⟩
  | cons f l ih =>
    rw [List.foldl_cons] at h
    obtain ⟨⟨g, hg, hge⟩, ⟨k, hk, hke⟩⟩ := ih _ h
    cases init with
    | none =>
      have hmem : ∀ p : ℚ × ℚ, p ∈ l ∨ widen none f = some p → p ∈ f :: l := by
        rintro p (hp | hp)
        · exact List.mem_cons_of_mem f hp
        · obtain rfl := Option.some.inj hp
          exact List.mem_cons_self
      exact ⟨⟨g, Or.inl (hmem g hg), hge⟩, ⟨k, Or.inl (hmem k hk), hke⟩⟩
    | some i =>
      constructor
      · rcases hg with hg | hg
        · exact ⟨g, Or.inl (List.mem_cons_of_mem f hg), hge⟩
        · obtain rfl := Option.some.inj hg
          rcases min_choice i.1 f.1 with hmin | hmin
          · exact ⟨i, Or.inr rfl, hmin.symm.trans hge⟩
          · exact ⟨f, Or.inl List.mem_cons_self, hmin.symm.trans hge⟩
      · rcases hk with hk | hk
        · exact ⟨k, Or.inl (List.mem_cons_of_mem f hk), hke⟩
        · obtain rfl := Option.some.inj hk
          rcases max_choice i.2 f.2 with hmax | hmax
          · exact ⟨i, Or.inr rfl, hmax.symm.trans hke⟩
          · exact ⟨f, Or.inl List.mem_cons_self, hmax.symm.trans hke⟩

theorem foldl_widen_isSome (l : List (ℚ × ℚ)) (init : Option (ℚ × ℚ)) :
    (l.foldl widen init).isSome ↔ l ≠ [] ∨ init.isSome := by
  induction l generalizing init with
  | nil => simp
  | cons f l ih =>
    rw [List.foldl_cons, ih]
    cases init <;> simp [widen]

/-- The envelope of some ranges: there is one when there is a range, and ranges reach its ends. -/
theorem foldl_widen_eq_some {l : List (ℚ × ℚ)} {e : ℚ × ℚ} (h : l.foldl widen none = some e) :
    (∃ f ∈ l, f.1 = e.1) ∧ ∃ f ∈ l, f.2 = e.2 := by
  obtain ⟨⟨f, hf, hfe⟩, ⟨g, hg, hge⟩⟩ := foldl_widen_reached l none h
  exact ⟨⟨f, hf.resolve_right (by simp), hfe⟩, ⟨g, hg.resolve_right (by simp), hge⟩⟩

theorem foldl_widen_eq_none {l : List (ℚ × ℚ)} : l.foldl widen none = none ↔ l = [] := by
  rw [← Option.not_isSome_iff_eq_none, foldl_widen_isSome]
  simp

/-! ## Ranges that fit -/

theorem windowFit_eq_some {epoch0TdbS durationS : ℚ} {tw : TimeWindow} {iv : ContactInterval}
    {f : ℚ × ℚ} :
    windowFit epoch0TdbS durationS tw iv = some f ↔
      max (tw.startS + epoch0TdbS) iv.startTdbS ≤
          min (tw.endS + epoch0TdbS) iv.endTdbS - durationS ∧
        f.1 = max (tw.startS + epoch0TdbS) iv.startTdbS - epoch0TdbS ∧
        f.2 = min (tw.endS + epoch0TdbS) iv.endTdbS - durationS - epoch0TdbS := by
  rw [windowFit]
  split_ifs with hlt
  · simp [not_le.mpr hlt]
  · rw [Option.some.injEq, Prod.ext_iff]
    simp only [not_lt.mp hlt, true_and]
    exact and_congr eq_comm eq_comm

/-- Every start between the ends of a range runs in its window and in its contact interval. -/
theorem windowFit_runs {epoch0TdbS durationS : ℚ} {tw : TimeWindow} {iv : ContactInterval}
    {f : ℚ × ℚ} (h : windowFit epoch0TdbS durationS tw iv = some f) {start : ℚ}
    (hlo : f.1 ≤ start) (hhi : start ≤ f.2) :
    (tw.startS ≤ start ∧ start + durationS ≤ tw.endS) ∧
      iv.startTdbS ≤ start + epoch0TdbS ∧ start + durationS + epoch0TdbS ≤ iv.endTdbS := by
  obtain ⟨-, hf1, hf2⟩ := windowFit_eq_some.1 h
  have h1 := le_max_left (tw.startS + epoch0TdbS) iv.startTdbS
  have h2 := le_max_right (tw.startS + epoch0TdbS) iv.startTdbS
  have h3 := min_le_left (tw.endS + epoch0TdbS) iv.endTdbS
  have h4 := min_le_right (tw.endS + epoch0TdbS) iv.endTdbS
  refine ⟨⟨?_, ?_⟩, ?_, ?_⟩ <;> linarith

theorem windowFit_le {epoch0TdbS durationS : ℚ} {tw : TimeWindow} {iv : ContactInterval}
    {f : ℚ × ℚ} (h : windowFit epoch0TdbS durationS tw iv = some f) : f.1 ≤ f.2 := by
  obtain ⟨hle, hf1, hf2⟩ := windowFit_eq_some.1 h
  linarith

/-- A start that runs in a window and in a contact interval gives a range. -/
theorem windowFit_isSome {epoch0TdbS durationS start : ℚ} {tw : TimeWindow} {iv : ContactInterval}
    (hw : tw.startS ≤ start ∧ start + durationS ≤ tw.endS)
    (hc : iv.startTdbS ≤ start + epoch0TdbS ∧ start + durationS + epoch0TdbS ≤ iv.endTdbS) :
    ∃ f, windowFit epoch0TdbS durationS tw iv = some f := by
  refine ⟨(_, _), windowFit_eq_some.2 ⟨?_, rfl, rfl⟩⟩
  have hlo : max (tw.startS + epoch0TdbS) iv.startTdbS ≤ start + epoch0TdbS :=
    max_le (by linarith [hw.1]) hc.1
  have hhi : start + durationS + epoch0TdbS ≤ min (tw.endS + epoch0TdbS) iv.endTdbS :=
    le_min (by linarith [hw.2]) hc.2
  linarith

/-- The ranges of a task on the contact intervals of an asset. -/
theorem mem_fits {task : Task} {intervals : List ContactInterval} {durationS : ℚ}
    {policy : CommsPolicy} {f : ℚ × ℚ} :
    f ∈ (windowsOrHorizon task).flatMap (fun tw =>
        intervals.filterMap (windowFit policy.epoch0TdbS durationS tw)) ↔
      ∃ tw ∈ windowsOrHorizon task, ∃ iv ∈ intervals,
        windowFit policy.epoch0TdbS durationS tw iv = some f := by
  simp only [List.mem_flatMap, List.mem_filterMap]

/-- A window is found when the task runs in some window and some contact interval. -/
theorem feasibleWindow_eq_none {task : Task} {intervals : List ContactInterval} {durationS : ℚ}
    {policy : CommsPolicy} (h : feasibleWindow task intervals durationS policy = none) (start : ℚ) :
    ¬(RunsInWindow task durationS start ∧
      InContact intervals policy.epoch0TdbS durationS start) := by
  rintro ⟨⟨tw, htw, hw⟩, ⟨iv, hiv, hc⟩⟩
  obtain ⟨f, hf⟩ := windowFit_isSome hw hc
  have hnil := foldl_widen_eq_none.1 h
  have hmem := mem_fits.2 ⟨tw, htw, iv, hiv, hf⟩
  rw [hnil] at hmem
  cases hmem

/-- Both ends of a feasible window are starts that relay. -/
theorem feasibleWindow_eq_some {task : Task} {intervals : List ContactInterval} {durationS : ℚ}
    {policy : CommsPolicy} (hd : 0 ≤ durationS) {e : ℚ × ℚ}
    (h : feasibleWindow task intervals durationS policy = some e) :
    ∀ start, start = e.1 ∨ start = e.2 →
      StartsInWindow task start ∧ InContact intervals policy.epoch0TdbS durationS start := by
  have hrelay : ∀ f start, (∃ tw ∈ windowsOrHorizon task, ∃ iv ∈ intervals,
      windowFit policy.epoch0TdbS durationS tw iv = some f) → start = f.1 ∨ start = f.2 →
      StartsInWindow task start ∧ InContact intervals policy.epoch0TdbS durationS start := by
    rintro f start ⟨tw, htw, iv, hiv, hf⟩ hstart
    have hle := windowFit_le hf
    have hbetween : f.1 ≤ start ∧ start ≤ f.2 := by
      rcases hstart with rfl | rfl
      · exact ⟨le_rfl, hle⟩
      · exact ⟨hle, le_rfl⟩
    obtain ⟨hw, hc⟩ := windowFit_runs hf hbetween.1 hbetween.2
    exact ⟨⟨tw, htw, hw.1, by linarith [hw.2]⟩, ⟨iv, hiv, hc⟩⟩
  obtain ⟨⟨f, hf, hfe⟩, ⟨g, hg, hge⟩⟩ := foldl_widen_eq_some h
  rintro start (rfl | rfl)
  · exact hrelay f _ (mem_fits.1 hf) (Or.inl hfe.symm)
  · exact hrelay g _ (mem_fits.1 hg) (Or.inr hge.symm)

/-! ## What the pass does for a gated task -/

section Gate

variable {contacts : Option ContactPlan} {policy : CommsPolicy} {durations : Dict Pair ℚ}
  {t : Task} {assets : List String}

/-- The range of a task on an asset. -/
def rangeOf (contacts : Option ContactPlan) (policy : CommsPolicy) (durations : Dict Pair ℚ)
    (t : Task) (a : String) : Option (ℚ × ℚ) :=
  feasibleWindow t (contactsOf contacts policy a) (durations.getD (t.taskId, a) 0) policy

theorem rangeOf_none (a : String) : rangeOf none policy durations t a = none := by
  refine foldl_widen_eq_none.2 ?_
  simp [contactsOf]

/-- A gated task is kept off the open assets without a range. -/
theorem mem_gateTask_forbidden {a : String} :
    (t.taskId, a) ∈ (gateTask contacts policy durations t assets).forbidden ↔
      a ∈ assets ∧ rangeOf contacts policy durations t a = none := by
  cases contacts with
  | none => simp [gateTask, rangeOf_none]
  | some plan =>
    have hmissing : (t.taskId, a) ∈ ((assetFits plan policy durations t assets).filter
        fun f => f.2.isNone).map (fun f => (t.taskId, f.1)) ↔
        a ∈ assets ∧ rangeOf (some plan) policy durations t a = none := by
      simp only [assetFits, List.mem_map, List.mem_filter, Option.isNone_iff_eq_none]
      constructor
      · rintro ⟨f, ⟨⟨b, hb, rfl⟩, hnone⟩, hpair⟩
        obtain rfl : b = a := (Prod.mk.inj hpair).2
        exact ⟨hb, hnone⟩
      · rintro ⟨ha, hnone⟩
        exact ⟨(a, none), ⟨⟨a, ha, Prod.ext rfl hnone⟩, rfl⟩, rfl⟩
    rw [gateTask]
    split
    · exact hmissing
    · exact hmissing

/-- With a range on some open asset the start is bounded by an envelope whose ends are ends of
ranges on open assets. -/
theorem gateTask_bounds {a : String} (ha : a ∈ assets)
    (hrange : (rangeOf contacts policy durations t a).isSome) :
    ∃ e, (∀ c ∈ commsBounds t.taskId e,
        c ∈ (gateTask contacts policy durations t assets).constraints) ∧
      (∃ b ∈ assets, ∃ r, rangeOf contacts policy durations t b = some r ∧ r.1 = e.1) ∧
      ∃ b ∈ assets, ∃ r, rangeOf contacts policy durations t b = some r ∧ r.2 = e.2 := by
  cases contacts with
  | none =>
    rw [rangeOf_none] at hrange
    cases hrange
  | some plan =>
    have hmem : ∀ r, r ∈ (((assetFits plan policy durations t assets).filterMap fun f =>
        f.2.map fun w => ((t.taskId, f.1), w)).map Prod.snd) ↔
        ∃ b ∈ assets, rangeOf (some plan) policy durations t b = some r := by
      intro r
      simp only [assetFits, List.mem_map, List.mem_filterMap, Option.map_eq_some_iff]
      constructor
      · rintro ⟨p, ⟨f, ⟨b, hb, rfl⟩, w, hw, rfl⟩, rfl⟩
        exact ⟨b, hb, hw⟩
      · rintro ⟨b, hb, hr⟩
        exact ⟨((t.taskId, b), r), ⟨(b, some r), ⟨b, hb, Prod.ext rfl hr⟩, r, rfl, rfl⟩, rfl⟩
    rw [gateTask]
    split
    · rename_i hnone
      have hnil := foldl_widen_eq_none.1 hnone
      obtain ⟨r, hr⟩ := Option.isSome_iff_exists.mp hrange
      have := (hmem r).mpr ⟨a, ha, hr⟩
      rw [hnil] at this
      cases this
    · rename_i e he
      obtain ⟨⟨f, hf, hfe⟩, ⟨g, hg, hge⟩⟩ := foldl_widen_eq_some he
      obtain ⟨b, hb, hr⟩ := (hmem f).mp hf
      obtain ⟨b', hb', hr'⟩ := (hmem g).mp hg
      exact ⟨e, fun c hc => hc, ⟨b, hb, f, hr, hfe⟩, ⟨b', hb', g, hr', hge⟩⟩

end Gate

/-! ## What the pass does for a request -/

section Pass

variable {request : AllocationRequest} {baseIR : AllocationIR} {context : ConstraintContext}
  {config : ConstraintConfig} {policy : CommsPolicy} {durations : Dict Pair ℚ}
  {forbidden : List Pair} {t : Task}

theorem buildComms_of_policy (hpolicy : config.comms = some policy) :
    (buildCommsConstraints request baseIR context config durations forbidden).forbidden =
        (gatedTasks request policy (assignmentPairs baseIR)).flatMap (fun t =>
          (gateTask context.contacts policy durations t
            (openAssets (assignmentPairs baseIR) forbidden t.taskId)).forbidden) ∧
      (buildCommsConstraints request baseIR context config durations forbidden).constraints =
        (gatedTasks request policy (assignmentPairs baseIR)).flatMap fun t =>
          (gateTask context.contacts policy durations t
            (openAssets (assignmentPairs baseIR) forbidden t.taskId)).constraints := by
  rw [buildCommsConstraints, hpolicy]
  simp only [List.flatMap_map, and_self]

/-- **The comms pass forbids an open pair of a gated task when no range fits.** -/
theorem mem_commsForbidden_iff (hS : Skeleton request baseIR) (hpolicy : config.comms = some policy)
    (ht : t ∈ request.tasks) (hgated : policy.isRelayGated t.taskId t.kind = true)
    (hne : t.taskId ≠ "") {a : String} (ha : a ∈ eligible request t) (hane : a ≠ "")
    (hopen : (t.taskId, a) ∉ forbidden) :
    (t.taskId, a) ∈
        (buildCommsConstraints request baseIR context config durations forbidden).forbidden ↔
      rangeOf context.contacts policy durations t a = none := by
  have hpair : a ∈ (assignmentPairs baseIR).getD t.taskId [] :=
    hS.mem_assignmentPairs.2 ⟨t, ht, rfl, ha, hne, hane⟩
  rw [(buildComms_of_policy hpolicy).1, List.mem_flatMap]
  constructor
  · rintro ⟨u, hu, hp⟩
    have huid := (gateTask_forbidden hp).1
    obtain rfl : u = t := task_eq_of_taskId (mem_gatedTasks.1 hu).1 ht huid.symm
    exact (mem_gateTask_forbidden.1 hp).2
  · intro hnone
    exact ⟨t, mem_gatedTasks.2 ⟨ht, mem_keys_of_mem_getD hpair, hgated⟩,
      mem_gateTask_forbidden.2 ⟨mem_openAssets.2 ⟨hpair, hopen⟩, hnone⟩⟩

/-- **Both ends of the envelope of a gated task are starts that relay** on assets that the pass
leaves open. -/
theorem commsEnvelope (hS : Skeleton request baseIR) (hpolicy : config.comms = some policy)
    (ht : t ∈ request.tasks) (hgated : policy.isRelayGated t.taskId t.kind = true)
    (hdur : ∀ p, 0 ≤ durations.getD p 0) (hne : t.taskId ≠ "") {a : String}
    (ha : a ∈ eligible request t) (hane : a ≠ "") (hopen : (t.taskId, a) ∉ forbidden)
    (hleft : (t.taskId, a) ∉
      (buildCommsConstraints request baseIR context config durations forbidden).forbidden) :
    ∃ e : ℚ × ℚ, (∀ c ∈ commsBounds t.taskId e,
        c ∈ (buildCommsConstraints request baseIR context config durations
          forbidden).constraints) ∧
      ∀ start, start = e.1 ∨ start = e.2 → ∃ b ∈ eligible request t,
        (t.taskId, b) ∉ forbidden ∧ (t.taskId, b) ∉
          (buildCommsConstraints request baseIR context config durations forbidden).forbidden ∧
        Relays context.contacts policy durations t b start := by
  have hpair : a ∈ (assignmentPairs baseIR).getD t.taskId [] :=
    hS.mem_assignmentPairs.2 ⟨t, ht, rfl, ha, hne, hane⟩
  have hrange : (rangeOf context.contacts policy durations t a).isSome := by
    rw [mem_commsForbidden_iff hS hpolicy ht hgated hne ha hane hopen] at hleft
    exact Option.isSome_iff_ne_none.mpr hleft
  obtain ⟨e, hcs, ⟨b, hb, r, hr, hre⟩, ⟨b', hb', r', hr', hre'⟩⟩ :=
    gateTask_bounds (mem_openAssets.2 ⟨hpair, hopen⟩) hrange
  -- an open asset with a range is an eligible one that the pass leaves open
  have hrelay : ∀ b ∈ openAssets (assignmentPairs baseIR) forbidden t.taskId, ∀ r,
      rangeOf context.contacts policy durations t b = some r → ∀ start,
      start = r.1 ∨ start = r.2 → ∃ b ∈ eligible request t,
        (t.taskId, b) ∉ forbidden ∧ (t.taskId, b) ∉
          (buildCommsConstraints request baseIR context config durations forbidden).forbidden ∧
        Relays context.contacts policy durations t b start := by
    intro b hb r hr start hstart
    obtain ⟨hbp, hbf⟩ := mem_openAssets.1 hb
    obtain ⟨u, hu, huid, hbe, -, hbne⟩ := hS.mem_assignmentPairs.1 hbp
    obtain rfl := task_eq_of_taskId hu ht huid
    refine ⟨b, hbe, hbf, ?_, feasibleWindow_eq_some (hdur _) hr start hstart⟩
    rw [mem_commsForbidden_iff hS hpolicy ht hgated hne hbe hbne hbf, hr]
    exact Option.some_ne_none r
  refine ⟨e, fun c hc => ?_, ?_⟩
  · rw [(buildComms_of_policy hpolicy).2, List.mem_flatMap]
    exact ⟨t, mem_gatedTasks.2 ⟨ht, mem_keys_of_mem_getD hpair, hgated⟩, hcs c hc⟩
  · rintro start (rfl | rfl)
    · exact hrelay b hb r hr _ (Or.inl hre.symm)
    · exact hrelay b' hb' r' hr' _ (Or.inr hre'.symm)

/-- What the pass keeps, and what it leaves. -/
theorem commsForbidden_relays (hS : Skeleton request baseIR)
    (hpolicy : config.comms = some policy) (ht : t ∈ request.tasks)
    (hgated : policy.isRelayGated t.taskId t.kind = true) (hdur : ∀ p, 0 ≤ durations.getD p 0)
    (hne : t.taskId ≠ "") {a : String} (ha : a ∈ eligible request t) (hane : a ≠ "")
    (hopen : (t.taskId, a) ∉ forbidden) :
    ((t.taskId, a) ∉
        (buildCommsConstraints request baseIR context config durations forbidden).forbidden →
        ∃ start, Relays context.contacts policy durations t a start) ∧
      ((t.taskId, a) ∈
        (buildCommsConstraints request baseIR context config durations forbidden).forbidden →
        ∀ start, Relays context.contacts policy durations t a start →
          ¬RunsInWindow t (durations.getD (t.taskId, a) 0) start) := by
  rw [mem_commsForbidden_iff hS hpolicy ht hgated hne ha hane hopen]
  constructor
  · intro hsome
    obtain ⟨e, he⟩ := Option.ne_none_iff_exists'.mp hsome
    exact ⟨e.1, feasibleWindow_eq_some (hdur _) he e.1 (Or.inl rfl)⟩
  · rintro hnone start ⟨-, hcontact⟩ hruns
    exact feasibleWindow_eq_none hnone start ⟨hruns, hcontact⟩

end Pass

/-! ## Verified plans -/

section Verified

variable {slopeDeg : Vec3 → Vec3 → ℚ} {request : AllocationRequest} {context : ConstraintContext}
  {config : ConstraintConfig} {costs : CostTable} {compilation : ConstraintCompilation}
  {policy : CommsPolicy} {t : Task}

/-- A verified plan puts every task on an eligible asset that no pass forbids. -/
theorem assetOf_of_verifyFeasible
    (h : compileWithConstraints slopeDeg request context config costs = .ok compilation)
    (ht : t ∈ request.tasks) {plan : List AssetSchedule}
    (hall : ∀ c ∈ compilation.ir.constraints,
      satisfiesConstraint compilation.ir (planVariableValues plan compilation.ir) c = true) :
    ∃ a ∈ eligible request t, assetOf plan t.taskId = some a ∧
      (t.taskId, a) ∉ compilation.report.forbidden := by
  have hS := skeleton_of_compileWithConstraints h
  obtain ⟨baseIR, hb, -, hcs, -, -, hreport⟩ := compileWithConstraints_eq_ok h
  have hcover := hall _ (hS.coverConstraint_mem ht)
  obtain ⟨a, ha, hassigned⟩ := (hS.cover_iff plan ht).mp hcover
  refine ⟨a, ha, hassigned, fun hf => ?_⟩
  rw [hreport] at hf
  have hkeep := hall (keepoutConstraint (t.taskId, a)) (by
    rw [hcs, mem_constrainedConstraints hb]
    exact Or.inr (Or.inr (Or.inr (Or.inl ⟨_, hf, rfl⟩))))
  exact (hS.keepout_iff plan ht ha).mp hkeep hassigned

/-- The start of a gated task lies in its envelope. -/
theorem startOf_of_commsBounds
    (h : compileWithConstraints slopeDeg request context config costs = .ok compilation)
    {baseIR : AllocationIR} (hb : compileRequest request = .ok baseIR)
    (ht : t ∈ request.tasks) {plan : List AssetSchedule} {e : ℚ × ℚ}
    (hall : ∀ c ∈ compilation.ir.constraints,
      satisfiesConstraint compilation.ir (planVariableValues plan compilation.ir) c = true)
    (hcs : ∀ c ∈ commsBounds t.taskId e,
      c ∈ (commsOf slopeDeg request context config costs baseIR).constraints) :
    e.1 - eps ≤ startOf plan t.taskId ∧ startOf plan t.taskId ≤ e.2 + eps := by
  have hS := skeleton_of_compileWithConstraints h
  obtain ⟨baseIR', hb', -, hics, -⟩ := compileWithConstraints_eq_ok h
  obtain rfl : baseIR' = baseIR := Except.ok.inj (hb'.symm.trans hb)
  have hmem : ∀ c ∈ commsBounds t.taskId e, c ∈ compilation.ir.constraints := by
    intro c hc
    rw [hics, mem_constrainedConstraints hb]
    exact Or.inr (Or.inl (hcs c hc))
  have hlo := hall _ (hmem _ List.mem_cons_self)
  have hhi := hall _ (hmem _ (List.mem_cons_of_mem _ List.mem_cons_self))
  exact ⟨(hS.startBound_iff plan ht _ .ge _).mp hlo, (hS.startBound_iff plan ht _ .le _).mp hhi⟩

end Verified

/-! ## A haul that relays -/

/-- A haul of a duration that may start in one window. -/
def haulTask (taskId : String) (window : TimeWindow) (durationS : ℚ) (h : 0 ≤ durationS) : Task where
  taskId := taskId
  kind := .haul
  location := none
  resourceTargetRef := none
  requiredCapabilities := []
  timeWindows := [window]
  precedence := []
  durationS := durationS
  valueMean := 1
  duration_nonneg := h

/-- The rover hauls for `20` s and may start until `10` s. -/
def shortWindow : AllocationRequest where
  tasks := [haulTask "haul" ⟨0, 10, ten_nonneg⟩ 20 (by norm_num)]
  assets := [rover]
  objective := ⟨.maximize, Dict.empty⟩
  tasks_ne_nil := by decide
  assets_ne_nil := rover_ne_nil
  taskIds_nodup := by decide
  assetIds_nodup := rover_nodup
  precedence_irrefl := by decide
  precedence_known := by decide
  precedence_acyclic := by decide +kernel

/-- The rover hauls for `5` s and may start until `200` s. -/
def wideWindow : AllocationRequest where
  tasks := [haulTask "haul" ⟨0, 200, by norm_num⟩ 5 five_nonneg]
  assets := [rover]
  objective := ⟨.maximize, Dict.empty⟩
  tasks_ne_nil := by decide
  assets_ne_nil := rover_ne_nil
  taskIds_nodup := by decide
  assetIds_nodup := rover_nodup
  precedence_irrefl := by decide
  precedence_known := by decide
  precedence_acyclic := by decide +kernel

/-- A haul whose id is empty. -/
def unnamedHaul : AllocationRequest where
  tasks := [haulTask "" ⟨0, 200, by norm_num⟩ 5 five_nonneg]
  assets := [rover]
  objective := ⟨.maximize, Dict.empty⟩
  tasks_ne_nil := by decide
  assets_ne_nil := rover_ne_nil
  taskIds_nodup := by decide
  assetIds_nodup := rover_nodup
  precedence_irrefl := by decide
  precedence_known := by decide
  precedence_acyclic := by decide +kernel

/-- A context with contacts between the rover and a plant on the ground. -/
def plantContext (contacts : List (ℚ × ℚ)) : ConstraintContext where
  world := none
  resource := none
  contacts := some ⟨[⟨"rover", .space, none⟩, ⟨"plant", .ground, none⟩],
    contacts.map fun c => ⟨"rover", "plant", c.1, c.2⟩⟩
  assets := Dict.empty
  infoValues := none

/-- Hauls relay; episode time is TDB. -/
def haulPolicy : CommsPolicy := { relayRequiredKinds := [.haul], epoch0TdbS := 0 }

/-- The policy with nothing but the relay. -/
def haulConfig : ConstraintConfig := { comms := some haulPolicy }

/-- The constrained IR of a request, its hauls relaying through the given contacts. -/
def compileHaul (request : AllocationRequest) (contacts : List (ℚ × ℚ)) :
    Except IRError ConstraintCompilation :=
  compileWithConstraints (fun _ _ => 0) request (plantContext contacts) haulConfig ⟨Dict.empty⟩

/-- The rover hauls between two contacts. -/
def betweenContacts : Allocation where
  status := .feasible
  plan := some [⟨"rover", [⟨"haul", .haul, 50, 55, by norm_num⟩], List.IsChain.singleton _⟩]
  realizedObjective := some 1
  feasible_plan := fun _ => rfl
  infeasible_plan := fun h => by cases h

end AstroMine.Allocate
