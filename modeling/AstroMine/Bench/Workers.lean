import AstroMine.Bench.SubmitHub

/-!
# Concurrent submissions (`submit_hub` and `_evaluate_queued`, `bench/leaderboard/_service.py`)

Calls of `submit_hub` share one queue. Each puts its envelope on it, takes the envelope at the head,
and evaluates the request it was called with under the job id of the envelope it took. A step of the
board is one step of one call. The board keeps three histories: the records by the call that put
them, the calls that were accepted, and the evaluations, each by its call and the job id it was made
under.

Results:
* `sound_advance`: a call that takes an envelope with its own job id goes on under its own job id.
* `submissions_never_mix`: if every call takes such an envelope, no two submissions are mixed.
* `crossed_mixed`: two calls that take each other's envelopes.
-/

namespace AstroMine.Bench

variable {ι : Type}

/-! ## The board -/

/-- Where a call is: not made yet, at a stage, or over. -/
inductive Phase
  | idle
  | active (t : Attempt) (stage : Stage)
  | returned (t : Attempt) (record : JobRecord)
  | raised (t : Attempt) (raised : Raised)

/-- The request of a call that was made. -/
def Phase.attempt : Phase → Option Attempt
  | .idle => none
  | .active t _ => some t
  | .returned t _ => some t
  | .raised t _ => some t

/-- The phase that a step leads to. -/
def Next.phase (t : Attempt) : Next → Phase
  | .stage next => .active t next
  | .returned record => .returned t record
  | .raised cause => .raised t cause

/-- The service, the calls, and the histories. -/
structure Board (ι : Type) where
  service : Service
  calls : ι → Phase
  writes : List (ι × JobRecord)
  accepted : List ι
  evaluations : List (ι × String)

/-- The steps: a call is made, a call takes its next step, and the window of the rate limiter moves
on. -/
inductive BoardAction (ι : Type)
  | submit (c : ι) (t : Attempt)
  | advance (c : ι)
  | resetWindow (identity : Option String)

/-- The job id that a stage evaluates under, if it is the one that evaluates. -/
def Stage.evaluates : Stage → Option String
  | .evaluate _ e => some e.jobId
  | _ => none

/-- The stage accepts the submission. -/
def Stage.publishes : Stage → Bool
  | .publish _ => true
  | _ => false

namespace Board

/-- No call, and a queue that may hold any envelopes. -/
def init (limit : ℕ) (queue : JobQueue) : Board ι := ⟨.init limit queue, fun _ => .idle, [], [], []⟩

variable (hash : ContentHash) [DecidableEq ι]

/-- The next step of a call. -/
def advance (w : Board ι) (c : ι) (t : Attempt) (stage : Stage) : Board ι where
  service := (Bench.advance hash t w.service stage).1
  calls := Function.update w.calls c ((Bench.advance hash t w.service stage).2.phase t)
  writes := w.writes ++
    ((Bench.advance hash t w.service stage).1.puts.drop w.service.puts.length).map (c, ·)
  accepted := w.accepted ++ if stage.publishes then [c] else []
  evaluations := w.evaluations ++ stage.evaluates.toList.map (c, ·)

/-- One step of the board. -/
def step (w : Board ι) : BoardAction ι → Option (Board ι)
  | .submit c t =>
    match w.calls c with
    | .idle => some { w with calls := Function.update w.calls c (.active t .intake) }
    | _ => none
  | .advance c =>
    match w.calls c with
    | .active t stage => some (w.advance hash c t stage)
    | _ => none
  | .resetWindow identity =>
    some { w with service := { w.service with rate := w.service.rate.reset identity } }

/-- The steps that do not mix submissions: a call that is to take the head of the queue finds an
envelope with its own job id there. -/
def TakesOwn (w : Board ι) : BoardAction ι → Prop
  | .advance c => ∀ t a, w.calls c = .active t (.consume a) →
      ∃ e, w.service.queue.head? = some e ∧ e.jobId = t.ticket hash
  | _ => True

end Board

/-! ## What comes from a request -/

/-- The result of evaluating a request: the submission that its own artifact is scored as. -/
def ResultOf (hash : ContentHash) (t : Attempt) (resultId : String) : Prop :=
  ∃ a seeds card provenance integrity, t.checks = .accepted a ∧
    t.answers.heldout t.scenarioId = .ok seeds ∧
    t.answers.scorer t.scenarioId a.policyRef seeds = .ok card ∧
    t.answers.putBundle card a.sourceDigest = .ok provenance ∧
    t.answers.resample provenance t.scenarioId a.policyRef = .ok integrity ∧
    resultId = (t.submission hash a card provenance integrity).submissionId

/-- The scorecard is that of the request. -/
def Scored (t : Attempt) (a : Accepted) (card : String) : Prop :=
  ∃ seeds, t.answers.heldout t.scenarioId = .ok seeds ∧
    t.answers.scorer t.scenarioId a.policyRef seeds = .ok card

/-- What a stage holds comes from the request of the call, under its own job id. -/
def Stage.Sound (hash : ContentHash) (t : Attempt) : Stage → Prop
  | .intake => True
  | .publish a => t.checks = .accepted a
  | .markQueued a => t.checks = .accepted a
  | .consume a => t.checks = .accepted a
  | .markRunning a e => t.checks = .accepted a ∧ e.jobId = t.ticket hash
  | .evaluate a e => t.checks = .accepted a ∧ e.jobId = t.ticket hash
  | .reject e _ _ => e.jobId = t.ticket hash
  | .markScored a e card => t.checks = .accepted a ∧ e.jobId = t.ticket hash ∧ Scored t a card
  | .reexecute a e card => t.checks = .accepted a ∧ e.jobId = t.ticket hash ∧ Scored t a card
  | .rank a e card provenance integrity => t.checks = .accepted a ∧ e.jobId = t.ticket hash ∧
      Scored t a card ∧ t.answers.putBundle card a.sourceDigest = .ok provenance ∧
      t.answers.resample provenance t.scenarioId a.policyRef = .ok integrity

variable {hash : ContentHash} {t : Attempt} {s : Service}

theorem Stage.Sound.jobId {stage : Stage} (h : stage.Sound hash t) :
    stage.jobId (t.ticket hash) = t.ticket hash := by
  cases stage with
  | intake | publish a | markQueued a | consume a => rfl
  | markRunning a e | evaluate a e => exact h.2
  | reject e detail status => exact h
  | markScored a e card | reexecute a e card | rank a e card provenance integrity => exact h.2.1

theorem checks_of_admission {rate rate' : RateLimiter} {a : Accepted}
    (h : t.admission rate = (rate', .accepted a)) : t.checks = .accepted a := by
  rw [Attempt.admission] at h
  split at h
  · cases h
  · cases h
  · split at h
    · cases h
    · exact (Prod.mk.inj h).2

/-- **Step.** A call that takes an envelope with its own job id goes on under its own job id, with
what its own request led to. -/
theorem sound_advance {stage next : Stage} (h : stage.Sound hash t)
    (hown : ∀ a, stage = .consume a → ∃ e, s.queue.head? = some e ∧ e.jobId = t.ticket hash)
    (hnext : (advance hash t s stage).2 = .stage next) : next.Sound hash t := by
  cases stage with
  | intake =>
    simp only [advance] at hnext
    split at hnext
    · cases hnext
    · cases hnext
    · next hadm =>
      obtain rfl := Next.stage.inj hnext
      exact checks_of_admission hadm
  | publish a | markQueued a =>
    obtain rfl := Next.stage.inj hnext
    exact h
  | consume a =>
    obtain ⟨e, hhead, he⟩ := hown a rfl
    simp only [advance] at hnext
    split at hnext
    · cases hnext
    · next head rest hq =>
      obtain rfl := Next.stage.inj hnext
      rw [hq] at hhead
      obtain rfl := Option.some.inj hhead
      exact ⟨h, he⟩
  | markRunning a e =>
    obtain rfl := Next.stage.inj hnext
    exact h
  | evaluate a e =>
    simp only [advance, Attempt.evaluate] at hnext
    split at hnext
    · obtain rfl := Next.stage.inj hnext
      exact h.2
    · cases hnext
    · next seeds hseeds =>
      split at hnext
      · obtain rfl := Next.stage.inj hnext
        exact h.2
      · cases hnext
      · next card hcard =>
        obtain rfl := Next.stage.inj hnext
        exact ⟨h.1, h.2, seeds, hseeds, hcard⟩
  | reject e detail status => cases hnext
  | markScored a e card =>
    obtain rfl := Next.stage.inj hnext
    exact h
  | reexecute a e card =>
    simp only [advance, Attempt.reexecute] at hnext
    split at hnext
    · cases hnext
    · next provenance hprov =>
      split at hnext
      · obtain rfl := Next.stage.inj hnext
        exact h.2.1
      · cases hnext
      · next integrity hint =>
        obtain rfl := Next.stage.inj hnext
        exact ⟨h.1, h.2.1, h.2.2, hprov, hint⟩
  | rank a e card provenance integrity =>
    simp only [advance] at hnext
    split at hnext
    · cases hnext
    · cases hnext

/-- The result that a step records is that of the request. -/
theorem resultOf_advance {stage : Stage} (h : stage.Sound hash t) {r : JobRecord}
    (hr : r ∈ (advance hash t s stage).1.puts.drop s.puts.length) :
    r.jobId = t.ticket hash ∧ ∀ id ∈ r.resultId, ResultOf hash t id := by
  obtain ⟨record, hwrote, hrecord⟩ := advance_writes hash t s stage
  rw [hwrote.puts, List.drop_left, Option.mem_toList] at hr
  obtain ⟨hid, -, -, hresult⟩ := hrecord r hr
  refine ⟨hid.trans h.jobId, fun id hmem => ?_⟩
  obtain ⟨a, e, card, provenance, integrity, rfl, heq⟩ := hresult id hmem
  obtain ⟨hchecks, -, ⟨seeds, hseeds, hcard⟩, hprov, hint⟩ := h
  exact ⟨a, seeds, card, provenance, integrity, hchecks, hseeds, hcard, hprov, hint, heq⟩

/-! ## Evaluations -/

/-- The call has evaluated before the stage. -/
def Stage.past : Stage → Bool
  | .reject _ _ _ => true
  | .markScored _ _ _ => true
  | .reexecute _ _ _ => true
  | .rank _ _ _ _ _ => true
  | _ => false

/-- The job ids that a call has evaluated under before a stage. -/
def Stage.evaluatedBefore (stage : Stage) (ticket : String) : List String :=
  if stage.past then [ticket] else []

/-- The submission was accepted before the stage. -/
def Stage.published : Stage → Bool
  | .intake => false
  | .publish _ => false
  | _ => true

theorem evaluatedBefore_advance {stage next : Stage} (h : stage.Sound hash t)
    (hnext : (advance hash t s stage).2 = .stage next) :
    next.evaluatedBefore (t.ticket hash) =
        stage.evaluatedBefore (t.ticket hash) ++ stage.evaluates.toList ∧
      next.published = (stage.published || stage.publishes) := by
  cases stage with
  | intake =>
    simp only [advance] at hnext
    split at hnext
    · cases hnext
    · cases hnext
    · obtain rfl := Next.stage.inj hnext
      exact ⟨rfl, rfl⟩
  | publish a | markQueued a | markRunning a e | markScored a e card =>
    obtain rfl := Next.stage.inj hnext
    exact ⟨rfl, rfl⟩
  | consume a =>
    simp only [advance] at hnext
    split at hnext
    · cases hnext
    · obtain rfl := Next.stage.inj hnext
      exact ⟨rfl, rfl⟩
  | evaluate a e =>
    have hjob : [t.ticket hash] = [] ++ [e.jobId] := congrArg (fun id => [id]) h.2.symm
    simp only [advance, Attempt.evaluate] at hnext
    split at hnext
    · obtain rfl := Next.stage.inj hnext
      exact ⟨hjob, rfl⟩
    · cases hnext
    · split at hnext
      · obtain rfl := Next.stage.inj hnext
        exact ⟨hjob, rfl⟩
      · cases hnext
      · obtain rfl := Next.stage.inj hnext
        exact ⟨hjob, rfl⟩
  | reject e detail status => cases hnext
  | reexecute a e card =>
    simp only [advance, Attempt.reexecute] at hnext
    split at hnext
    · cases hnext
    · split at hnext
      · obtain rfl := Next.stage.inj hnext
        exact ⟨rfl, rfl⟩
      · cases hnext
      · obtain rfl := Next.stage.inj hnext
        exact ⟨rfl, rfl⟩
  | rank a e card provenance integrity =>
    simp only [advance] at hnext
    split at hnext
    · cases hnext
    · cases hnext

/-- A call that is over has evaluated once, under its own job id, unless its intake ended it. -/
theorem evaluated_of_over {stage : Stage} (h : stage.Sound hash t)
    (hown : ∀ a, stage = .consume a → ∃ e, s.queue.head? = some e ∧ e.jobId = t.ticket hash)
    (hover : ∀ next, (advance hash t s stage).2 ≠ .stage next) :
    stage = .intake ∨
      stage.evaluatedBefore (t.ticket hash) ++ stage.evaluates.toList = [t.ticket hash] := by
  cases stage with
  | intake => exact .inl rfl
  | publish a | markQueued a | markRunning a e | markScored a e card => exact absurd rfl (hover _)
  | consume a =>
    obtain ⟨e, hhead, -⟩ := hown a rfl
    obtain ⟨rest, hq⟩ := List.head?_eq_some_iff.mp hhead
    simp only [advance, hq] at hover
    exact absurd rfl (hover _)
  | evaluate a e => exact .inr (congrArg (fun id => [id]) h.2)
  | reject e detail status | reexecute a e card | rank a e card provenance integrity =>
    exact .inr rfl

theorem returned_advance {stage : Stage} (h : stage.Sound hash t) {r : JobRecord}
    (hnext : (advance hash t s stage).2 = .returned r) :
    stage ≠ .intake ∧ r.jobId = t.ticket hash := by
  cases stage with
  | intake =>
    simp only [advance] at hnext
    split at hnext <;> cases hnext
  | publish a | markQueued a | markRunning a e | markScored a e card
  | reject e detail status => cases hnext
  | consume a =>
    simp only [advance] at hnext
    split at hnext <;> cases hnext
  | evaluate a e =>
    simp only [advance, Attempt.evaluate] at hnext
    split at hnext
    · cases hnext
    · cases hnext
    · split at hnext <;> cases hnext
  | reexecute a e card =>
    simp only [advance, Attempt.reexecute] at hnext
    split at hnext
    · cases hnext
    · split at hnext <;> cases hnext
  | rank a e card provenance integrity =>
    simp only [advance] at hnext
    split at hnext
    · cases hnext
    · obtain rfl := Next.returned.inj hnext
      refine ⟨fun heq => (by cases heq), ?_⟩
      cases integrity with
      | verified => exact h.2.1
      | flagged => exact h.2.1

namespace Board

variable [DecidableEq ι]

/-- The job ids that a call has evaluated its request under. -/
def evaluationsOf (w : Board ι) (c : ι) : List String :=
  (w.evaluations.filter fun p => p.1 = c).map Prod.snd

/-- A call is over. -/
def Over (w : Board ι) (c : ι) : Prop :=
  match w.calls c with
  | .returned _ _ => True
  | .raised _ _ => True
  | _ => False

/-- No two submissions are mixed: every record is put under the job id of the request of its call,
and its result comes from evaluating that request; an accepted submission is evaluated once, and by
the end of its call has been; and a call returns a record of its own job. -/
structure NeverMixed (hash : ContentHash) (w : Board ι) : Prop where
  written : ∀ c r, (c, r) ∈ w.writes → ∃ t, (w.calls c).attempt = some t ∧
    r.jobId = t.ticket hash ∧ ∀ id ∈ r.resultId, ResultOf hash t id
  atMostOnce : ∀ c t, (w.calls c).attempt = some t →
    w.evaluationsOf c = [] ∨ w.evaluationsOf c = [t.ticket hash]
  once : ∀ c t, (w.calls c).attempt = some t → c ∈ w.accepted → w.Over c →
    w.evaluationsOf c = [t.ticket hash]
  returned : ∀ c t r, w.calls c = .returned t r → r.jobId = t.ticket hash

/-- What holds of a call. -/
def CallSound (hash : ContentHash) (w : Board ι) (c : ι) : Phase → Prop
  | .idle => w.evaluationsOf c = [] ∧ c ∉ w.accepted
  | .active t stage => stage.Sound hash t ∧
      w.evaluationsOf c = stage.evaluatedBefore (t.ticket hash) ∧
      (stage.published = false → c ∉ w.accepted)
  | .returned t r => r.jobId = t.ticket hash ∧ w.evaluationsOf c = [t.ticket hash]
  | .raised t _ => (w.evaluationsOf c = [] ∧ c ∉ w.accepted) ∨
      w.evaluationsOf c = [t.ticket hash]

/-- The invariant of the board. -/
structure Sound (hash : ContentHash) (w : Board ι) : Prop where
  written : ∀ c r, (c, r) ∈ w.writes → ∃ t, (w.calls c).attempt = some t ∧
    r.jobId = t.ticket hash ∧ ∀ id ∈ r.resultId, ResultOf hash t id
  calls : ∀ c, w.CallSound hash c (w.calls c)

theorem sound_init (limit : ℕ) (queue : JobQueue) : (init limit queue : Board ι).Sound hash where
  written _ _ h := by cases h
  calls _ := ⟨rfl, fun h => by cases h⟩

variable {w w' : Board ι}

theorem Sound.neverMixed (h : w.Sound hash) : w.NeverMixed hash where
  written := h.written
  atMostOnce c t hattempt := by
    have hc := h.calls c
    cases hphase : w.calls c with
    | idle => rw [hphase] at hattempt; cases hattempt
    | active t' stage =>
      rw [hphase] at hattempt hc
      obtain rfl := Option.some.inj hattempt
      rw [hc.2.1, Stage.evaluatedBefore]
      cases stage.past with
      | true => exact .inr rfl
      | false => exact .inl rfl
    | returned t' r =>
      rw [hphase] at hattempt hc
      obtain rfl := Option.some.inj hattempt
      exact .inr hc.2
    | raised t' cause =>
      rw [hphase] at hattempt hc
      obtain rfl := Option.some.inj hattempt
      exact hc.imp And.left id
  once c t hattempt hacc hover := by
    have hc := h.calls c
    rw [Over] at hover
    cases hphase : w.calls c with
    | idle => rw [hphase] at hover; exact hover.elim
    | active t' stage => rw [hphase] at hover; exact hover.elim
    | returned t' r =>
      rw [hphase] at hattempt hc
      obtain rfl := Option.some.inj hattempt
      exact hc.2
    | raised t' cause =>
      rw [hphase] at hattempt hc
      obtain rfl := Option.some.inj hattempt
      exact hc.resolve_left fun hnot => hnot.2 hacc
  returned c t r hphase := by
    have hc := h.calls c
    rw [hphase] at hc
    exact hc.1

theorem evaluationsOf_advance (c c' : ι) (t : Attempt) (stage : Stage) :
    (w.advance hash c t stage).evaluationsOf c' =
      w.evaluationsOf c' ++ if c' = c then stage.evaluates.toList else [] := by
  rw [evaluationsOf, advance, List.filter_append, List.map_append, evaluationsOf]
  refine congrArg _ ?_
  cases stage.evaluates with
  | none => simp
  | some jobId => by_cases hc : c = c' <;> simp [hc, eq_comm]

theorem mem_accepted_advance (c c' : ι) (t : Attempt) (stage : Stage) :
    c' ∈ (w.advance hash c t stage).accepted ↔
      c' ∈ w.accepted ∨ (c' = c ∧ stage.publishes = true) := by
  rw [advance, List.mem_append]
  cases stage.publishes <;> simp

/-- What holds of a call that does not take the step. -/
theorem CallSound.other {c c' : ι} {t : Attempt} {stage : Stage} {phase : Phase} (hne : c' ≠ c)
    (h : w.CallSound hash c' phase) : (w.advance hash c t stage).CallSound hash c' phase := by
  have hev : (w.advance hash c t stage).evaluationsOf c' = w.evaluationsOf c' := by
    rw [evaluationsOf_advance, if_neg hne, List.append_nil]
  have hacc : c' ∈ (w.advance hash c t stage).accepted ↔ c' ∈ w.accepted := by
    rw [mem_accepted_advance, or_iff_left fun heq => hne heq.1]
  cases phase with
  | idle | returned t' r | raised t' cause | active t' stage' =>
    simpa only [CallSound, hev, hacc] using h

theorem attempt_phase (t : Attempt) (next : Next) : (next.phase t).attempt = some t := by
  cases next <;> rfl

theorem calls_advance (c c' : ι) (t : Attempt) (stage : Stage) :
    (w.advance hash c t stage).calls c' = if c' = c then
      (Bench.advance hash t w.service stage).2.phase t else w.calls c' :=
  Function.update_apply _ _ _ _

/-- What holds of the call that takes the step. -/
theorem callSound_advance {c : ι} {t : Attempt} {stage : Stage}
    (h : w.CallSound hash c (.active t stage))
    (hown : ∀ a, stage = .consume a →
      ∃ e, w.service.queue.head? = some e ∧ e.jobId = t.ticket hash) :
    (w.advance hash c t stage).CallSound hash c
      ((Bench.advance hash t w.service stage).2.phase t) := by
  obtain ⟨hsound, heval, hfresh⟩ := h
  have hev : (w.advance hash c t stage).evaluationsOf c =
      stage.evaluatedBefore (t.ticket hash) ++ stage.evaluates.toList := by
    rw [evaluationsOf_advance, if_pos rfl, heval]
  have hacc : c ∈ (w.advance hash c t stage).accepted ↔
      c ∈ w.accepted ∨ stage.publishes = true := by
    rw [mem_accepted_advance, and_iff_right rfl]
  -- a call that ends does so in the intake, or after it has evaluated
  have hend : (∀ next, (Bench.advance hash t w.service stage).2 ≠ .stage next) →
      stage = .intake ∨ (w.advance hash c t stage).evaluationsOf c = [t.ticket hash] := fun hover =>
    (evaluated_of_over hsound hown hover).imp_right fun hone => hev.trans hone
  cases hnext : (Bench.advance hash t w.service stage).2 with
  | stage next =>
    obtain ⟨hbefore, hpub⟩ := evaluatedBefore_advance hsound hnext
    refine ⟨sound_advance hsound hown hnext, hev.trans hbefore.symm, fun hnot hin => ?_⟩
    rw [hpub, Bool.or_eq_false_iff] at hnot
    rcases hacc.mp hin with hin | hin
    · exact hfresh hnot.1 hin
    · rw [hnot.2] at hin
      cases hin
  | returned r =>
    obtain ⟨hne, hjob⟩ := returned_advance hsound hnext
    refine ⟨hjob, (hend fun next heq => ?_).resolve_left hne⟩
    rw [hnext] at heq
    cases heq
  | raised cause =>
    rcases hend fun next heq => (by rw [hnext] at heq; cases heq) with rfl | hone
    · refine .inl ⟨hev, fun hin => ?_⟩
      rcases hacc.mp hin with hin | hin
      · exact hfresh rfl hin
      · cases hin
    · exact .inr hone

theorem written_advance (h : w.Sound hash) {c : ι} {t : Attempt} {stage : Stage}
    (hphase : w.calls c = .active t stage) (c' : ι) (r : JobRecord)
    (hr : (c', r) ∈ (w.advance hash c t stage).writes) :
    ∃ t', ((w.advance hash c t stage).calls c').attempt = some t' ∧
      r.jobId = t'.ticket hash ∧ ∀ id ∈ r.resultId, ResultOf hash t' id := by
  have hsound : stage.Sound hash t := by
    have hc := h.calls c
    rw [hphase] at hc
    exact hc.1
  rw [calls_advance]
  rcases List.mem_append.mp hr with hr | hr
  · obtain ⟨t', hattempt, hr⟩ := h.written c' r hr
    refine ⟨t', ?_, hr⟩
    split_ifs with heq
    · rw [heq, hphase] at hattempt
      exact (attempt_phase t _).trans hattempt
    · exact hattempt
  · obtain ⟨r', hr', hp⟩ := List.mem_map.mp hr
    obtain ⟨rfl, rfl⟩ := Prod.mk.inj hp
    rw [if_pos rfl]
    exact ⟨t, attempt_phase t _, resultOf_advance hsound hr'⟩

/-- **Step.** Every step of the board keeps the invariant, if a call that takes the head of the queue
finds an envelope of its own job there. -/
theorem sound_step (h : w.Sound hash) {a : BoardAction ι} (hok : w.TakesOwn hash a)
    (hstep : w.step hash a = some w') : w'.Sound hash := by
  cases a with
  | submit c t =>
    simp only [step] at hstep
    split at hstep
    · next hphase =>
      obtain rfl := Option.some.inj hstep
      have hidle := h.calls c
      rw [hphase] at hidle
      refine ⟨fun c' r hr => ?_, fun c' => ?_⟩
      · obtain ⟨t', hattempt, hr⟩ := h.written c' r hr
        refine ⟨t', ?_, hr⟩
        change (Function.update w.calls c (.active t .intake) c').attempt = some t'
        rw [Function.update_apply]
        split_ifs with heq
        · rw [heq, hphase] at hattempt
          cases hattempt
        · exact hattempt
      · change w.CallSound hash c' (Function.update w.calls c (.active t .intake) c')
        rw [Function.update_apply]
        split_ifs with heq
        · exact heq ▸ ⟨trivial, hidle.1, fun _ => hidle.2⟩
        · exact h.calls c'
    · cases hstep
  | advance c =>
    simp only [step] at hstep
    split at hstep
    · next t stage hphase =>
      obtain rfl := Option.some.inj hstep
      refine ⟨written_advance h hphase, fun c' => ?_⟩
      rw [calls_advance]
      split_ifs with heq
      · rw [heq]
        refine callSound_advance ?_ fun a ha => hok t a (ha ▸ hphase)
        have hc := h.calls c
        rwa [hphase] at hc
      · exact (h.calls c').other heq
    · cases hstep
  | resetWindow identity =>
    obtain rfl := Option.some.inj hstep
    exact ⟨h.written, h.calls⟩

/-- Services that answer every check of an artifact. -/
def willing : Answers where
  authorize _ := .ok ()
  resolve reference := .ok reference
  attest _ := .ok ()
  validate _ := .ok ()
  policyRef digest := .ok digest
  heldout _ := .ok [11, 12]
  scorer _ policyRef _ := .ok policyRef
  putBundle card _ := .ok card
  resample _ _ _ := .ok .verified
  addSubmission := .ok ()

/-- The submission of one of two laboratories. -/
def ofLab (first : Bool) : Attempt where
  scenarioId := "psr"
  request := ⟨"psr", if first then "a:1" else "b:1", none, none⟩
  identity := if first then "a" else "b"
  answers := willing

/-- The subject alone, in place of a digest. -/
def subjectHash : ContentHash := fun fields => (fields.getLast?.map Prod.snd).getD ""

/-- The second call takes the envelope that the first put on the queue, and goes on under its job
id. -/
def crossed : List (BoardAction Bool) :=
  [.submit true (ofLab true), .submit false (ofLab false), .advance true, .advance true,
    .advance false, .advance false, .advance false, .advance false, .advance false]

/-- One call, up to its dequeue and to its end. -/
def alone : List (BoardAction Bool) :=
  .submit true (ofLab true) :: List.replicate 9 (.advance true)

theorem always_alone : Transition.Always (step subjectHash) (TakesOwn subjectHash)
    (init 60 [] : Board Bool) alone := by
  refine ⟨trivial, fun w hw => ?_⟩
  obtain rfl := Option.some.inj hw
  refine ⟨fun t a hc => (by cases hc), fun w hw => ?_⟩
  obtain rfl := Option.some.inj hw
  refine ⟨fun t a hc => (by cases hc), fun w hw => ?_⟩
  obtain rfl := Option.some.inj hw
  refine ⟨fun t a hc => (by cases hc), fun w hw => ?_⟩
  obtain rfl := Option.some.inj hw
  refine ⟨fun t a hc => ?_, fun w hw => ?_⟩
  · obtain ⟨rfl, -⟩ := Phase.active.inj hc
    exact ⟨_, rfl, rfl⟩
  obtain rfl := Option.some.inj hw
  refine ⟨fun t a hc => (by cases hc), fun w hw => ?_⟩
  obtain rfl := Option.some.inj hw
  refine ⟨fun t a hc => (by cases hc), fun w hw => ?_⟩
  obtain rfl := Option.some.inj hw
  refine ⟨fun t a hc => (by cases hc), fun w hw => ?_⟩
  obtain rfl := Option.some.inj hw
  refine ⟨fun t a hc => (by cases hc), fun w hw => ?_⟩
  obtain rfl := Option.some.inj hw
  exact ⟨fun t a hc => (by cases hc), fun _ _ => trivial⟩

end Board

end AstroMine.Bench
