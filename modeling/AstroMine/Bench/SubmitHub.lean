import AstroMine.Bench.Jobs
import AstroMine.Lib.Transition

/-!
# The Hub-digest intake (`LeaderboardService.submit_hub`, `bench/leaderboard/_service.py`)

A call admits the submission, puts it on the queue, takes the head of the queue and evaluates it:
`advance` is one step of a call, between two of its effects on what the calls share. The services
behind the pipeline (policy engine, Hub registry, sandbox, object store) answer as they will;
`Answers` holds what they answer during a call. The audit log and the metrics are left out.
`Service.puts` is the history of `put_job`.

Results:
* `advance_writes`: a step puts at most one record, and a terminal one only where the call ends.
* `submitHub_eq`: a call that finds the queue empty runs to its end, and puts its records under its
  ticket, as the verdict of its intake has it.
-/

namespace AstroMine.Bench

/-! ## Requests and answers -/

/-- `HubSubmissionRequest` (`_models.py`, lines 52–72). -/
structure HubSubmissionRequest where
  scenarioId : String
  hubRef : String
  method : Option String
  author : Option String
  deriving DecidableEq

/-- `Integrity` (`_models.py`, line 29). -/
inductive Integrity
  | verified
  | flagged
  deriving DecidableEq

/-- `Submission` (`_models.py`, lines 87–124), without the scores and the digests of what it was
scored from. -/
structure Submission where
  submissionId : String
  scenarioId : String
  policyRef : String
  method : Option String
  author : Option String
  scorecardHash : String
  integrity : Integrity
  source : Option String
  provenanceHash : Option String
  deriving DecidableEq

/-- An exception of a service: one that the pipeline catches, by its message, or another one. -/
inductive Fault
  | caught (detail : String)
  | other
  deriving DecidableEq

/-- What `submit_hub` raises: `SubmissionRejected` with its HTTP status, or an exception that it did
not catch. -/
inductive Raised
  | submissionRejected (detail : String) (status : ℕ)
  | other
  deriving DecidableEq

/-- What the services answer during one call: the policy engine for a number of submissions in the
window; the registry for a Hub reference and for the digest it resolves to (attestations, manifest
interface, entrypoint); the held-out seeds; the sandbox for a scenario, a policy reference and seeds,
by the hash of the scorecard; the object store; the re-execution; and the catalog. -/
structure Answers where
  authorize : ℕ → Except Fault Unit
  resolve : String → Except Fault String
  attest : String → Except Fault Unit
  validate : String → Except Fault Unit
  policyRef : String → Except Fault String
  heldout : String → Except Fault (List ℤ)
  scorer : String → String → List ℤ → Except Fault String
  putBundle : String → String → Except Fault String
  resample : String → String → String → Except Fault Integrity
  addSubmission : Except Fault Unit

/-- A call of `submit_hub`: the scenario, the request, the identity of the principal, and what the
services answer. -/
structure Attempt where
  scenarioId : String
  request : HubSubmissionRequest
  identity : String
  answers : Answers

/-- `content_hash` of a JSON object of strings (`bench/scenario/_hash.py`, lines 38–41), taken as a
parameter. -/
abbrev ContentHash := List (String × String) → String

/-- `ticket` (lines 312–325). -/
def Attempt.ticket (hash : ContentHash) (t : Attempt) : String :=
  hash [("hub_ref", t.request.hubRef), ("scenario_id", t.request.scenarioId),
    ("subject", t.identity)]

/-! ## The service -/

/-- What the calls share: the job store, the queue, the rate limiter and the catalog, with the
history of the records put. -/
structure Service where
  jobs : JobStore
  queue : JobQueue
  rate : RateLimiter
  catalog : Dict String Submission
  puts : List JobRecord

namespace Service

/-- A service that has taken no call, with the envelopes that are in the queue. -/
def init (limit : ℕ) (queue : JobQueue) : Service := ⟨.empty, queue, ⟨limit, .empty⟩, .empty, []⟩

/-- `_transition` (lines 327–337). -/
def transition (s : Service) (job : JobRecord) : Service :=
  { s with jobs := s.jobs.putJob job, puts := s.puts ++ [job] }

end Service

/-- What the intake hands to the worker's half: `resolved.manifest_digest` and `policy_ref`. -/
structure Accepted where
  sourceDigest : String
  policyRef : String
  deriving DecidableEq

/-- The intake's answer: an exception before anything is written, a refusal that is written, or an
accepted submission. -/
inductive Verdict
  | ends (raised : Raised)
  | refused (detail : String) (status : ℕ)
  | accepted (a : Accepted)
  deriving DecidableEq

/-- A check of the intake that writes its refusal (lines 672–771). -/
def Verdict.checked {α : Type} (status : ℕ) (next : α → Verdict) : Except Fault α → Verdict
  | .ok a => next a
  | .error (.caught detail) => .refused detail status
  | .error .other => .ends .other

/-- `_resolve`, `_verify_attestations`, `_validate_interface` and `_policy_ref` (lines 514–517). -/
def Attempt.checks (t : Attempt) : Verdict :=
  Verdict.checked 404 (fun digest =>
    Verdict.checked 422 (fun _ =>
      Verdict.checked 422 (fun _ =>
        Verdict.checked 422 (fun policyRef => .accepted ⟨digest, policyRef⟩)
          (t.answers.policyRef digest))
        (t.answers.validate digest))
      (t.answers.attest digest))
    (t.answers.resolve t.request.hubRef)

/-- The window after `authorize` and `_rate_limit` (lines 232–280), and the verdict so far. -/
def Attempt.admission (t : Attempt) (rate : RateLimiter) : RateLimiter × Verdict :=
  match t.answers.authorize (rate.observed t.identity) with
  | .error (.caught reason) => (rate, .ends (.submissionRejected reason 403))
  | .error .other => (rate, .ends .other)
  | .ok () =>
    match rate.check t.identity with
    | none =>
      (rate, .refused ("'" ++ t.identity ++ "' exceeded " ++ toString rate.limit ++
        " submissions in the current window") 429)
    | some counted => (counted, t.checks)

/-! ## A call, step by step -/

/-- Where a call stands, by the effect it has next (lines 501–644). From the dequeue on it holds the
envelope it took. -/
inductive Stage
  | intake
  | publish (a : Accepted)
  | markQueued (a : Accepted)
  | consume (a : Accepted)
  | markRunning (a : Accepted) (e : SubmissionEnvelope)
  | evaluate (a : Accepted) (e : SubmissionEnvelope)
  | reject (e : SubmissionEnvelope) (detail : String) (status : ℕ)
  | markScored (a : Accepted) (e : SubmissionEnvelope) (card : String)
  | reexecute (a : Accepted) (e : SubmissionEnvelope) (card : String)
  | rank (a : Accepted) (e : SubmissionEnvelope) (card : String) (provenance : String)
      (integrity : Integrity)
  deriving DecidableEq

/-- What a step leads to. -/
inductive Next
  | stage (stage : Stage)
  | returned (record : JobRecord)
  | raised (raised : Raised)
  deriving DecidableEq

section Steps

variable (hash : ContentHash)

/-- `_heldout` and `self.scorer` (lines 556–569): a refusal is written under the job id of the
envelope. -/
def Attempt.evaluate (t : Attempt) (a : Accepted) (e : SubmissionEnvelope) : Next :=
  match t.answers.heldout t.scenarioId with
  | .error (.caught detail) => .stage (.reject e detail 404)
  | .error .other => .raised .other
  | .ok seeds =>
    match t.answers.scorer t.scenarioId a.policyRef seeds with
    | .error (.caught detail) => .stage (.reject e detail 422)
    | .error .other => .raised .other
    | .ok card => .stage (.markScored a e card)

/-- The provenance bundle and `resample_from_bundle` (lines 572–600). -/
def Attempt.reexecute (t : Attempt) (a : Accepted) (e : SubmissionEnvelope) (card : String) : Next :=
  match t.answers.putBundle card a.sourceDigest with
  | .error _ => .raised .other
  | .ok provenance =>
    match t.answers.resample provenance t.scenarioId a.policyRef with
    | .error (.caught detail) => .stage (.reject e detail 422)
    | .error .other => .raised .other
    | .ok integrity => .stage (.rank a e card provenance integrity)

/-- `build_submission` (`_eval.py`, lines 190–239) as `submit_hub` calls it (lines 606–618). -/
def Attempt.submission (t : Attempt) (a : Accepted) (card provenance : String)
    (integrity : Integrity) : Submission where
  submissionId := hash [("policy_ref", a.policyRef), ("scenario_id", t.scenarioId),
    ("scorecard", card), ("source", a.sourceDigest)]
  scenarioId := t.scenarioId
  policyRef := a.policyRef
  method := t.request.method
  author := t.request.author
  scorecardHash := card
  integrity := integrity
  source := some a.sourceDigest
  provenanceHash := some provenance

/-- The last record of an evaluation (lines 635–644). -/
def finalRecord (jobId resultId : String) : Integrity → JobRecord
  | .verified => ⟨jobId, .ranked, none, some resultId⟩
  | .flagged => ⟨jobId, .flagged, some "provenance re-execution mismatch", some resultId⟩

/-- One step of a call. -/
def advance (t : Attempt) (s : Service) : Stage → Service × Next
  | .intake =>
    match t.admission s.rate with
    | (rate, .ends raised) => ({ s with rate := rate }, .raised raised)
    | (rate, .refused detail status) =>
      (({ s with rate := rate } : Service).transition
        ⟨t.ticket hash, .rejected, some detail, none⟩,
        .raised (.submissionRejected detail status))
    | (rate, .accepted a) => ({ s with rate := rate }, .stage (.publish a))
  | .publish a =>
    ({ s with queue := s.queue ++
      [⟨t.ticket hash, t.scenarioId, t.request.hubRef, t.identity⟩] }, .stage (.markQueued a))
  | .markQueued a => (s.transition ⟨t.ticket hash, .queued, none, none⟩, .stage (.consume a))
  | .consume a =>
    match s.queue with
    | [] => (s, .raised .other)
    | e :: rest => ({ s with queue := rest }, .stage (.markRunning a e))
  | .markRunning a e => (s.transition ⟨e.jobId, .running, none, none⟩, .stage (.evaluate a e))
  | .evaluate a e => (s, t.evaluate a e)
  | .reject e detail status =>
    (s.transition ⟨e.jobId, .rejected, some detail, none⟩,
      .raised (.submissionRejected detail status))
  | .markScored a e card =>
    (s.transition ⟨e.jobId, .scored, none, none⟩, .stage (.reexecute a e card))
  | .reexecute a e card => (s, t.reexecute a e card)
  | .rank a e card provenance integrity =>
    match t.answers.addSubmission with
    | .error _ => (s, .raised .other)
    | .ok () =>
      let submission := t.submission hash a card provenance integrity
      let record := finalRecord e.jobId submission.submissionId integrity
      (({ s with catalog := s.catalog.set submission.submissionId submission } : Service).transition
        record, .returned record)

/-- What a call gives back. -/
abbrev Result := Except Raised JobRecord

/-- The call from a stage on, undisturbed, in at most `fuel` steps. -/
def drive (t : Attempt) : ℕ → Service → Stage → Option (Service × Result)
  | 0, _, _ => none
  | fuel + 1, s, stage =>
    match (advance hash t s stage).2 with
    | .stage next => drive t fuel (advance hash t s stage).1 next
    | .returned record => some ((advance hash t s stage).1, .ok record)
    | .raised raised => some ((advance hash t s stage).1, .error raised)

/-- `submit_hub` (lines 477–644). The pipeline has ten steps. -/
def submitHub (s : Service) (t : Attempt) : Option (Service × Result) := drive hash t 10 s .intake

end Steps

/-! ## What a step writes -/

/-- The job id that a stage writes under: the ticket of the call, and from the dequeue on the job id
of the envelope it took. -/
def Stage.jobId (ticket : String) : Stage → String
  | .intake => ticket
  | .publish _ => ticket
  | .markQueued _ => ticket
  | .consume _ => ticket
  | .markRunning _ e => e.jobId
  | .evaluate _ e => e.jobId
  | .reject e _ _ => e.jobId
  | .markScored _ e _ => e.jobId
  | .reexecute _ e _ => e.jobId
  | .rank _ e _ _ _ => e.jobId

/-- The service after at most one record is put. -/
structure Wrote (s s' : Service) (record : Option JobRecord) : Prop where
  jobs : s'.jobs = record.elim s.jobs s.jobs.putJob
  puts : s'.puts = s.puts ++ record.toList

variable {hash : ContentHash} {t : Attempt} {s s' : Service}

theorem Wrote.transition (s : Service) (record : JobRecord) :
    Wrote s (s.transition record) (some record) := ⟨rfl, rfl⟩

/-- **Step.** A step puts at most one record, under the job id of its stage, and a terminal one only
where the call ends. A rejected record names no result, and a result is that of the last stage. -/
theorem advance_writes (hash : ContentHash) (t : Attempt) (s : Service) (stage : Stage) :
    ∃ record, Wrote s (advance hash t s stage).1 record ∧
      ∀ r ∈ record, r.jobId = stage.jobId (t.ticket hash) ∧
        (r.status = .rejected → r.resultId = none) ∧
        (∀ next, (advance hash t s stage).2 = .stage next → r.status.isTerminal = false) ∧
        ∀ id ∈ r.resultId, ∃ a e card provenance integrity,
          stage = .rank a e card provenance integrity ∧
          id = (t.submission hash a card provenance integrity).submissionId := by
  have hnone : ∀ {s' : Service}, s'.jobs = s.jobs → s'.puts = s.puts → Wrote s s' none :=
    fun hjobs hputs => ⟨hjobs, hputs.trans (List.append_nil _).symm⟩
  cases stage with
  | intake =>
    simp only [advance]
    split
    · exact ⟨none, hnone rfl rfl, fun _ hr => by cases hr⟩
    · refine ⟨some _, ⟨rfl, rfl⟩, fun r hr => ?_⟩
      obtain rfl := Option.some.inj hr
      exact ⟨rfl, fun _ => rfl, fun _ hnext => (by cases hnext), fun _ hid => by cases hid⟩
    · exact ⟨none, hnone rfl rfl, fun _ hr => by cases hr⟩
  | publish a => exact ⟨none, hnone rfl rfl, fun _ hr => by cases hr⟩
  | consume a =>
    simp only [advance]
    split
    · exact ⟨none, hnone rfl rfl, fun _ hr => by cases hr⟩
    · exact ⟨none, hnone rfl rfl, fun _ hr => by cases hr⟩
  | evaluate a e => exact ⟨none, hnone rfl rfl, fun _ hr => by cases hr⟩
  | reexecute a e card => exact ⟨none, hnone rfl rfl, fun _ hr => by cases hr⟩
  | markQueued a | markRunning a e | markScored a e card =>
    refine ⟨_, Wrote.transition s _, fun r hr => ?_⟩
    obtain rfl := Option.some.inj hr
    exact ⟨rfl, fun hrej => (by cases hrej), fun _ _ => rfl, fun _ hid => by cases hid⟩
  | reject e detail status =>
    refine ⟨_, Wrote.transition s _, fun r hr => ?_⟩
    obtain rfl := Option.some.inj hr
    exact ⟨rfl, fun _ => rfl, fun _ hnext => (by cases hnext), fun _ hid => by cases hid⟩
  | rank a e card provenance integrity =>
    simp only [advance]
    split
    · exact ⟨none, hnone rfl rfl, fun _ hr => by cases hr⟩
    · refine ⟨some _, ⟨rfl, rfl⟩, fun r hr => ?_⟩
      obtain rfl := Option.some.inj hr
      cases integrity with
      | verified =>
        refine ⟨rfl, fun hrej => (by cases hrej), fun _ hnext => (by cases hnext), fun id hid => ?_⟩
        obtain rfl := Option.some.inj hid
        exact ⟨a, e, card, provenance, .verified, rfl, rfl⟩
      | flagged =>
        refine ⟨rfl, fun hrej => (by cases hrej), fun _ hnext => (by cases hnext), fun id hid => ?_⟩
        obtain rfl := Option.some.inj hid
        exact ⟨a, e, card, provenance, .flagged, rfl, rfl⟩

/-- How many steps a call has before it at most. -/
def Stage.left : Stage → ℕ
  | .intake => 10
  | .publish _ => 9
  | .markQueued _ => 8
  | .consume _ => 7
  | .markRunning _ _ => 6
  | .evaluate _ _ => 5
  | .markScored _ _ _ => 4
  | .reexecute _ _ _ => 3
  | .rank _ _ _ _ _ => 2
  | .reject _ _ _ => 1

theorem left_advance {stage next : Stage} (h : (advance hash t s stage).2 = .stage next) :
    next.left < stage.left := by
  cases stage with
  | intake =>
    simp only [advance] at h
    split at h
    · cases h
    · cases h
    · obtain rfl := Next.stage.inj h
      simp [Stage.left]
  | publish a | markQueued a | markRunning a e | markScored a e card =>
    obtain rfl := Next.stage.inj h
    simp [Stage.left]
  | consume a =>
    simp only [advance] at h
    split at h
    · cases h
    · obtain rfl := Next.stage.inj h
      simp [Stage.left]
  | evaluate a e =>
    simp only [advance, Attempt.evaluate] at h
    split at h
    · obtain rfl := Next.stage.inj h
      simp [Stage.left]
    · cases h
    · split at h
      · obtain rfl := Next.stage.inj h
        simp [Stage.left]
      · cases h
      · obtain rfl := Next.stage.inj h
        simp [Stage.left]
  | reexecute a e card =>
    simp only [advance, Attempt.reexecute] at h
    split at h
    · cases h
    · split at h
      · obtain rfl := Next.stage.inj h
        simp [Stage.left]
      · cases h
      · obtain rfl := Next.stage.inj h
        simp [Stage.left]
  | reject e detail status => cases h
  | rank a e card provenance integrity =>
    simp only [advance] at h
    split at h
    · cases h
    · cases h

/-! ## A call that finds the queue empty -/

/-- Where a call stands that runs undisturbed from an empty queue: the envelope that is in the queue,
or that it took, is its own. -/
def Undisturbed (ticket : String) (s : Service) : Stage → Prop
  | .intake => s.queue = []
  | .publish _ => s.queue = []
  | .markQueued _ => ∃ e, s.queue = [e] ∧ e.jobId = ticket
  | .consume _ => ∃ e, s.queue = [e] ∧ e.jobId = ticket
  | stage => s.queue = [] ∧ stage.jobId ticket = ticket

theorem Undisturbed.jobId {ticket : String} {stage : Stage} (h : Undisturbed ticket s stage) :
    stage.jobId ticket = ticket := by
  cases stage with
  | intake | publish a | markQueued a | consume a => rfl
  | markRunning a e | evaluate a e | reject e detail status | markScored a e card
  | reexecute a e card | rank a e card provenance integrity => exact h.2

/-- **Step.** A step leaves the call undisturbed, or ends it with the queue empty. -/
theorem Undisturbed.advance {stage : Stage} (h : Undisturbed (t.ticket hash) s stage) :
    (∀ next, (advance hash t s stage).2 = .stage next →
      Undisturbed (t.ticket hash) (advance hash t s stage).1 next) ∧
    ((∀ next, (advance hash t s stage).2 ≠ .stage next) →
      (advance hash t s stage).1.queue = []) := by
  cases stage with
  | intake =>
    simp only [Bench.advance]
    split
    · exact ⟨fun _ hn => (by cases hn), fun _ => h⟩
    · exact ⟨fun _ hn => (by cases hn), fun _ => h⟩
    · refine ⟨fun next hn => ?_, fun hn => absurd rfl (hn _)⟩
      obtain rfl := Next.stage.inj hn
      exact h
  | publish a =>
    refine ⟨fun next hn => ?_, fun hn => absurd rfl (hn _)⟩
    obtain rfl := Next.stage.inj hn
    have hq : s.queue = [] := h
    exact ⟨_, by simp only [Bench.advance, hq]; rfl, rfl⟩
  | markQueued a =>
    refine ⟨fun next hn => ?_, fun hn => absurd rfl (hn _)⟩
    obtain rfl := Next.stage.inj hn
    exact h
  | consume a =>
    obtain ⟨e, hq, he⟩ := h
    simp only [Bench.advance, hq]
    refine ⟨fun next hn => ?_, fun hn => absurd rfl (hn _)⟩
    obtain rfl := Next.stage.inj hn
    exact ⟨rfl, he⟩
  | markRunning a e =>
    refine ⟨fun next hn => ?_, fun hn => absurd rfl (hn _)⟩
    obtain rfl := Next.stage.inj hn
    exact h
  | evaluate a e =>
    refine ⟨fun next hn => ?_, fun _ => h.1⟩
    simp only [Bench.advance, Attempt.evaluate] at hn
    split at hn
    · obtain rfl := Next.stage.inj hn
      exact h
    · cases hn
    · split at hn
      · obtain rfl := Next.stage.inj hn
        exact h
      · cases hn
      · obtain rfl := Next.stage.inj hn
        exact h
  | reject e detail status => exact ⟨fun _ hn => (by cases hn), fun _ => h.1⟩
  | markScored a e card =>
    refine ⟨fun next hn => ?_, fun hn => absurd rfl (hn _)⟩
    obtain rfl := Next.stage.inj hn
    exact h
  | reexecute a e card =>
    refine ⟨fun next hn => ?_, fun _ => h.1⟩
    simp only [Bench.advance, Attempt.reexecute] at hn
    split at hn
    · cases hn
    · split at hn
      · obtain rfl := Next.stage.inj hn
        exact h
      · cases hn
      · obtain rfl := Next.stage.inj hn
        exact h
  | rank a e card provenance integrity =>
    simp only [Bench.advance]
    split
    · exact ⟨fun _ hn => (by cases hn), fun _ => h.1⟩
    · exact ⟨fun _ hn => (by cases hn), fun _ => h.1⟩

/-- What a call adds to the history: records under one job id, the last of which alone may be
terminal. -/
structure Additions (ticket : String) (s s' : Service) (records : List JobRecord) : Prop where
  jobs : s'.jobs = records.foldl JobStore.putJob s.jobs
  puts : s'.puts = s.puts ++ records
  jobId : ∀ r ∈ records, r.jobId = ticket
  clean : ∀ r ∈ records, r.status = .rejected → r.resultId = none
  going : ∀ r ∈ records.dropLast, r.status.isTerminal = false

theorem Additions.nil {ticket : String} (h : Wrote s s' none) : Additions ticket s s' [] :=
  ⟨h.jobs, h.puts, fun _ hr => (by cases hr), fun _ hr => (by cases hr), fun _ hr => by cases hr⟩

/-- The record of a last step. -/
theorem Additions.of_wrote {ticket : String} {record : Option JobRecord} (h : Wrote s s' record)
    (hid : ∀ r ∈ record, r.jobId = ticket)
    (hclean : ∀ r ∈ record, r.status = .rejected → r.resultId = none) :
    Additions ticket s s' record.toList := by
  cases record with
  | none => exact Additions.nil h
  | some r => exact ⟨h.jobs, h.puts, by simpa using hid, by simpa using hclean, fun _ hr => by cases hr⟩

/-- The record of a step before further records. -/
theorem Additions.cons {ticket : String} {s'' : Service} {record : Option JobRecord}
    {records : List JobRecord} (h : Wrote s s' record) (hid : ∀ r ∈ record, r.jobId = ticket)
    (hclean : ∀ r ∈ record, r.status = .rejected → r.resultId = none)
    (hgoing : ∀ r ∈ record, r.status.isTerminal = false) (hrest : Additions ticket s' s'' records) :
    Additions ticket s s'' (record.toList ++ records) := by
  refine ⟨?_, ?_, fun r hr => ?_, fun r hr => ?_, fun r hr => ?_⟩
  · rw [hrest.jobs, h.jobs, List.foldl_append]
    cases record <;> rfl
  · rw [hrest.puts, h.puts, List.append_assoc]
  · rcases List.mem_append.mp hr with hr | hr
    · exact hid r (Option.mem_toList.mp hr)
    · exact hrest.jobId r hr
  · rcases List.mem_append.mp hr with hr | hr
    · exact hclean r (Option.mem_toList.mp hr)
    · exact hrest.clean r hr
  · cases record with
    | none => exact hrest.going r hr
    | some first =>
      cases records with
      | nil => cases hr
      | cons second rest =>
        rcases List.mem_cons.mp hr with rfl | hr
        · exact hgoing r rfl
        · exact hrest.going r hr

theorem drive_stage {fuel : ℕ} {stage next : Stage}
    (h : (advance hash t s stage).2 = .stage next) :
    drive hash t (fuel + 1) s stage = drive hash t fuel (advance hash t s stage).1 next := by
  simp only [drive, h]

/-- **Run.** A call from a stage on, with fuel for the steps before it, comes to its end. -/
theorem drive_eq {fuel : ℕ} {stage : Stage} (h : Undisturbed (t.ticket hash) s stage)
    (hfuel : stage.left ≤ fuel) : ∃ s' result records,
      drive hash t fuel s stage = some (s', result) ∧ s'.queue = [] ∧
      Additions (t.ticket hash) s s' records := by
  induction fuel generalizing s stage with
  | zero => cases stage <;> simp [Stage.left] at hfuel
  | succ fuel ih =>
    obtain ⟨record, hwrote, hrecord⟩ := advance_writes hash t s stage
    have hid : ∀ r ∈ record, r.jobId = t.ticket hash := fun r hr =>
      (hrecord r hr).1.trans h.jobId
    have hclean := fun r hr => (hrecord r hr).2.1
    obtain ⟨hnext, hend⟩ := h.advance
    cases hadv : (advance hash t s stage).2 with
    | stage next =>
      have hleft := left_advance hadv
      obtain ⟨s', result, records, hdrive, hqueue, hadd⟩ := ih (hnext next hadv) (by omega)
      refine ⟨s', result, _, ?_, hqueue,
        Additions.cons hwrote hid hclean (fun r hr => (hrecord r hr).2.2.1 next hadv) hadd⟩
      exact (drive_stage hadv).trans hdrive
    | returned r =>
      refine ⟨_, .ok r, _, ?_, hend (fun _ hn => ?_), Additions.of_wrote hwrote hid hclean⟩
      · simp only [drive, hadv]
      · rw [hadv] at hn
        cases hn
    | raised e =>
      refine ⟨_, .error e, _, ?_, hend (fun _ hn => ?_), Additions.of_wrote hwrote hid hclean⟩
      · simp only [drive, hadv]
      · rw [hadv] at hn
        cases hn

/-- How the records of a call begin, by the verdict of its intake. -/
def Begins (ticket : String) (verdict : Verdict) (records : List JobRecord) : Prop :=
  match verdict with
  | .ends _ => records = []
  | .refused detail _ => records = [⟨ticket, .rejected, some detail, none⟩]
  | .accepted _ => ∃ rest, records = ⟨ticket, .queued, none, none⟩ :: rest

/-- **Run.** A call that finds the queue empty leaves it empty, and puts its records under its
ticket. -/
theorem submitHub_eq (hash : ContentHash) (t : Attempt) (hq : s.queue = []) : ∃ s' result records,
    submitHub hash s t = some (s', result) ∧ s'.queue = [] ∧
    Additions (t.ticket hash) s s' records ∧
    Begins (t.ticket hash) (t.admission s.rate).2 records := by
  obtain ⟨⟨rate, verdict⟩, hadm⟩ : ∃ p, t.admission s.rate = p := ⟨_, rfl⟩
  rw [hadm]
  cases verdict with
  | ends raised =>
    refine ⟨{ s with rate := rate }, .error raised, [], ?_, hq, Additions.nil ⟨rfl, ?_⟩, rfl⟩
    · simp only [submitHub, drive, advance, hadm]
    · exact (List.append_nil _).symm
  | refused detail status =>
    have hwrote : Wrote s (({ s with rate := rate } : Service).transition
        ⟨t.ticket hash, .rejected, some detail, none⟩)
        (some ⟨t.ticket hash, .rejected, some detail, none⟩) := ⟨rfl, rfl⟩
    refine ⟨({ s with rate := rate } : Service).transition _,
      .error (.submissionRejected detail status), _, ?_, hq,
      Additions.of_wrote hwrote (fun r hr => ?_) (fun r hr _ => ?_), rfl⟩
    · simp only [submitHub, drive, advance, hadm]
    · obtain rfl := Option.some.inj hr
      rfl
    · obtain rfl := Option.some.inj hr
      rfl
  | accepted a =>
    -- the own envelope is put on the empty queue, so that the dequeue takes it
    let e : SubmissionEnvelope := ⟨t.ticket hash, t.scenarioId, t.request.hubRef, t.identity⟩
    let queued : JobRecord := ⟨t.ticket hash, .queued, none, none⟩
    let sent : Service := { s with rate := rate, queue := s.queue ++ [e] }
    have hown : Undisturbed (t.ticket hash) (sent.transition queued) (.consume a) :=
      ⟨e, (congrArg (· ++ [e]) hq).trans rfl, rfl⟩
    obtain ⟨s', result, records, hdrive, hqueue, hadd⟩ :=
      drive_eq (show _ from hown) (show Stage.left (.consume a) ≤ 7 from le_rfl)
    have hwrote : Wrote s (sent.transition queued) (some queued) := ⟨rfl, rfl⟩
    refine ⟨s', result, _, ?_, hqueue, Additions.cons hwrote (fun r hr => ?_) (fun r hr hrej => ?_)
      (fun r hr => ?_) hadd, ⟨records, rfl⟩⟩
    · have hintake : advance hash t s .intake =
          ({ s with rate := rate }, .stage (.publish a)) := by simp only [advance, hadm]
      rw [submitHub, drive_stage (congrArg Prod.snd hintake), hintake]
      exact hdrive
    · obtain rfl := Option.some.inj hr
      rfl
    · obtain rfl := Option.some.inj hr
      rfl
    · obtain rfl := Option.some.inj hr
      rfl

end AstroMine.Bench
