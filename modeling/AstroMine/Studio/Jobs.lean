import AstroMine.Lib.Dict
import AstroMine.Lib.Transition

/-!
# Design-loop jobs (`studio/orchestrate/jobs.py`, `cache.py`, `loop.py`)

A batch fans candidates and seeds out as jobs that share a store of records, a cache of results and
a semaphore. A job suspends where `run_one` awaits the semaphore or the dispatcher, and the design
loop runs in a thread of its own, so that a step of the system is what one job does between two such
points. `LocalDispatcher` is the dispatcher; the design loop is a function of the candidate, the
objective, the seed and the number of steps, and it may fail at any run of it. The event sink is left
out, and content hashes are parameters.
-/

namespace AstroMine.Studio

/-! ## Jobs and records -/

/-- `JobStatus` (`jobs.py`, lines 44–49). -/
inductive JobStatus
  | pending
  | running
  | succeeded
  | failed
  | canceled
  deriving DecidableEq

/-- `JobRecord` (lines 59–69). -/
structure JobRecord where
  jobId : String
  candidateId : String
  seed : ℤ
  cacheKey : String
  status : JobStatus
  resultDigest : Option String
  error : Option String
  cancelRequested : Bool
  deriving DecidableEq

/-- What a batch is evaluated with: the id and the content hash of a candidate, the content hash of
an objective, the hash of the three parts of a cache key, the design loop, and the digest of an
evaluated candidate. -/
structure Platform (C O R : Type) where
  id : C → String
  digest : C → String
  objectiveHash : O → String
  contentHash : String → String → ℤ → String
  designLoop : C → O → ℤ → ℕ → R
  resultDigest : R → String

/-- One evaluation that a call of `run_batch` asks for. -/
structure Job (C O : Type) where
  candidate : C
  objective : O
  seed : ℤ
  maxSteps : ℕ
  deriving DecidableEq

/-- A call of `run_batch` (lines 199–211), with whether it was given the cache, and whether its
dispatcher was. -/
structure Request (C O : Type) where
  candidates : List C
  objective : O
  seeds : List ℤ
  maxSteps : ℕ
  concurrency : ℕ
  cached : Bool
  dispatcherCached : Bool

section Keys

variable {C O R : Type} (P : Platform C O R)

/-- `job_id_for` (lines 72–74). -/
def jobIdFor (candidate : C) (seed : ℤ) : String := P.id candidate ++ "@" ++ toString seed

/-- `cache_key` (`cache.py`, lines 21–29). -/
def cacheKey (candidate : C) (objective : O) (seed : ℤ) : String :=
  P.contentHash (P.digest candidate) (P.objectiveHash objective) seed

/-- The evaluations of a call, in the order of its plan (lines 218–231). -/
def Request.jobs (q : Request C O) : List (Job C O) :=
  q.candidates.flatMap fun candidate => q.seeds.map fun seed =>
    ⟨candidate, q.objective, seed, q.maxSteps⟩

/-- The id that the job of an evaluation gets. -/
def Job.jobId (j : Job C O) : String := jobIdFor P j.candidate j.seed

/-- The key that an evaluation is cached under. -/
def Job.cacheKey (j : Job C O) : String := Studio.cacheKey P j.candidate j.objective j.seed

/-- The digest of an evaluation. -/
def Job.result (j : Job C O) : String :=
  P.resultDigest (P.designLoop j.candidate j.objective j.seed j.maxSteps)

/-- The record that a call creates for a job (lines 222–229). -/
def Job.record (j : Job C O) : JobRecord where
  jobId := j.jobId P
  candidateId := P.id j.candidate
  seed := j.seed
  cacheKey := j.cacheKey P
  status := .pending
  resultDigest := none
  error := none
  cancelRequested := false

end Keys

/-! ## The store -/

/-- `InMemoryJobStore` (lines 101–134). -/
abbrev JobStore := Dict String JobRecord

namespace JobStore

/-- `create` (lines 107–109): an existing record wins. -/
def create (store : JobStore) (record : JobRecord) : JobStore :=
  if (store.get? record.jobId).isSome then store else store.set record.jobId record

/-- A field of a record is written (lines 117–131); a record that is not there is not. -/
def modify (store : JobStore) (jobId : String) (f : JobRecord → JobRecord) : JobStore :=
  match store.get? jobId with
  | none => store
  | some record => store.set jobId (f record)

end JobStore

/-- `update` with a status and a result (lines 117–131). -/
def JobRecord.succeed (record : JobRecord) (digest : String) : JobRecord :=
  { record with status := .succeeded, resultDigest := some digest }

/-- `update` with a status and an error. -/
def JobRecord.fail (record : JobRecord) (message : String) : JobRecord :=
  { record with status := .failed, error := some message }

/-- `update` with a status. -/
def JobRecord.become (record : JobRecord) (status : JobStatus) : JobRecord :=
  { record with status := status }

/-- `request_cancel` (lines 133–134). -/
def JobRecord.requestCancel (record : JobRecord) : JobRecord :=
  { record with cancelRequested := true }

/-! ## A batch, step by step -/

/-- Where a job stands (lines 233–264, and `loop.py`, lines 24–69): before its record is read; at the
semaphore, with the cache key of its record; in the thread before the cache is read, while the design
loop runs, and before its result is cached; and back in `run_one` with the result. -/
inductive Stage (R : Type)
  | start
  | waiting (key : String)
  | dispatched (key : String)
  | computing (key : String)
  | computed (key : String) (r : R)
  | evaluated (key : String) (r : R)
  | done

/-- A job holds a slot of the semaphore. -/
def Stage.inSlot {R : Type} : Stage R → Bool
  | .start => false
  | .waiting _ => false
  | .done => false
  | _ => true

/-- A job is over. -/
def Stage.isDone {R : Type} : Stage R → Bool
  | .done => true
  | _ => false

/-- A job of the batch that runs. -/
structure Task (C O R : Type) where
  job : Job C O
  stage : Stage R

/-- The batch that runs, with the ids of the jobs that its design loop was run for. -/
structure Batch (C O R : Type) where
  request : Request C O
  tasks : List (Task C O R)
  evaluated : List String

/-- The store and the cache that the calls share, and the batch that runs. The histories are of the
evaluations that were asked for, and of the records that were returned. -/
structure LocalTier (C O R : Type) where
  store : JobStore
  cache : Dict String R
  batch : Option (Batch C O R)
  asked : List (Job C O)
  returned : List (Job C O × JobRecord)

/-- The steps: a call begins, the job at an index of its plan goes on (the design loop fails if there
is a message), a job is canceled, and the call returns. -/
inductive Action (C O : Type)
  | begin (q : Request C O)
  | advance (i : ℕ) (failure : Option String)
  | cancel (jobId : String)
  | finish

section Step

variable {C O R : Type} (P : Platform C O R)

/-- What a job does next, on the store and the cache; `none` where it waits for a slot. -/
def advanceTask (q : Request C O) (free : Bool) (failure : Option String) (store : JobStore)
    (cache : Dict String R) (j : Job C O) : Stage R → Option (JobStore × Dict String R × Stage R)
  | .start =>
    match store.get? (j.jobId P) with
    | none => none
    | some record =>
      if record.status = .succeeded then some (store, cache, .done)
      else
        match (if q.cached then cache.get? record.cacheKey else none) with
        | some r => some (store.modify (j.jobId P) (·.succeed (P.resultDigest r)), cache, .done)
        | none => some (store, cache, .waiting record.cacheKey)
  | .waiting key =>
    if free then
      if (store.get? (j.jobId P)).any JobRecord.cancelRequested then
        some (store.modify (j.jobId P) (·.become .canceled), cache, .done)
      else some (store.modify (j.jobId P) (·.become .running), cache, .dispatched key)
    else none
  | .dispatched key =>
    match (if q.dispatcherCached then cache.get? (j.cacheKey P) else none) with
    | some r => some (store, cache, .evaluated key r)
    | none => some (store, cache, .computing key)
  | .computing key =>
    match failure with
    | some message => some (store.modify (j.jobId P) (·.fail message), cache, .done)
    | none =>
      some (store, cache, .computed key (P.designLoop j.candidate j.objective j.seed j.maxSteps))
  | .computed key r =>
    some (store, if q.dispatcherCached then cache.set (j.cacheKey P) r else cache, .evaluated key r)
  | .evaluated key r =>
    some (store.modify (j.jobId P) (·.succeed (P.resultDigest r)),
      if q.cached then cache.set key r else cache, .done)
  | .done => none

/-- The design loop is run in this step. -/
def Stage.computes : Stage R → Bool
  | .computing _ => true
  | _ => false

/-- The slots of the semaphore that are held. -/
def Batch.slots (batch : Batch C O R) : ℕ := (batch.tasks.filter fun t => t.stage.inSlot).length

/-- The system after the step of one job. -/
def LocalTier.advanced (w : LocalTier C O R) (batch : Batch C O R) (i : ℕ) (task : Task C O R)
    (out : JobStore × Dict String R × Stage R) : LocalTier C O R :=
  { w with
    store := out.1
    cache := out.2.1
    batch := some { batch with
      tasks := batch.tasks.set i ⟨task.job, out.2.2⟩
      evaluated := batch.evaluated ++
        if task.stage.computes then [task.job.jobId P] else [] } }

/-- The system after the call has returned the records of its plan (line 267). -/
def LocalTier.finished (w : LocalTier C O R) (batch : Batch C O R) : LocalTier C O R :=
  { w with
    batch := none
    returned := w.returned ++ batch.tasks.filterMap fun t =>
      (w.store.get? (t.job.jobId P)).map fun record => (t.job, record) }

/-- One step of the system. -/
def LocalTier.step (w : LocalTier C O R) : Action C O → Option (LocalTier C O R)
  | .begin q =>
    match w.batch with
    | none => some { w with
        store := q.jobs.foldl (fun store j => store.create (j.record P)) w.store
        batch := some ⟨q, q.jobs.map fun j => ⟨j, .start⟩, []⟩
        asked := w.asked ++ q.jobs }
    | some _ => none
  | .advance i failure =>
    w.batch.bind fun batch => batch.tasks[i]?.bind fun task =>
      (advanceTask P batch.request (batch.slots < batch.request.concurrency) failure w.store w.cache
        task.job task.stage).map fun out => w.advanced P batch i task out
  | .cancel jobId =>
    match w.store.get? jobId with
    | none => none
    | some _ => some { w with store := w.store.modify jobId JobRecord.requestCancel }
  | .finish =>
    w.batch.bind fun batch =>
      if batch.tasks.all fun t => t.stage.isDone then some (w.finished P batch) else none

end Step

end AstroMine.Studio
