import AstroMine.Lib.Dict

/-!
# Submission jobs (`bench/leaderboard/_jobs.py`)

The statuses of a submission, the record kept under a ticket, the envelope that carries an accepted
submission to a worker, and the rate limiter. The trace headers of an envelope are left out.
-/

namespace AstroMine.Bench

/-- `SubmissionStatus` (lines 44–59). -/
inductive SubmissionStatus
  | queued
  | running
  | scored
  | ranked
  | flagged
  | rejected
  deriving DecidableEq

/-- Membership in `TERMINAL_STATUSES` (lines 62–65), the states of a job that is done. -/
def SubmissionStatus.isTerminal : SubmissionStatus → Bool
  | .ranked => true
  | .flagged => true
  | .rejected => true
  | _ => false

/-- `JobRecord` (lines 68–84). -/
structure JobRecord where
  jobId : String
  status : SubmissionStatus
  detail : Option String
  resultId : Option String
  deriving DecidableEq

/-- `InMemoryJobStore` (lines 99–109): the last record put under each id. -/
abbrev JobStore := Dict String JobRecord

/-- `put_job` (lines 105–106). -/
def JobStore.putJob (jobs : JobStore) (job : JobRecord) : JobStore := jobs.set job.jobId job

/-- `SubmissionEnvelope` (lines 112–132). -/
structure SubmissionEnvelope where
  jobId : String
  scenarioId : String
  reference : String
  subject : String
  deriving DecidableEq

/-- `InMemoryJobQueue` (lines 156–169): `publish` appends, and `consume` takes the head. -/
abbrev JobQueue := List SubmissionEnvelope

/-- `InMemoryRateLimiter` (lines 197–210). -/
structure RateLimiter where
  limit : ℕ
  counts : Dict String ℕ

namespace RateLimiter

/-- `observed` (lines 220–221). -/
def observed (rate : RateLimiter) (identity : String) : ℕ := rate.counts.getD identity 0

/-- `check` (lines 212–218): the window with the submission counted, `none` where it is over the
limit. -/
def check (rate : RateLimiter) (identity : String) : Option RateLimiter :=
  if rate.limit < rate.observed identity + 1 then none
  else some { rate with counts := rate.counts.set identity (rate.observed identity + 1) }

/-- `reset` (lines 223–228). -/
def reset (rate : RateLimiter) : Option String → RateLimiter
  | none => { rate with counts := .empty }
  | some identity => { rate with counts := rate.counts.filterKeys fun k => k ≠ identity }

end RateLimiter

end AstroMine.Bench
