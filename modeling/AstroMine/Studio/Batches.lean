import AstroMine.Studio.Jobs

/-!
# What a batch returns (`run_batch`, `studio/orchestrate/jobs.py`)

Job ids are made of a candidate's id and a seed, and cache keys of the candidate, the objective and
the seed, so that two evaluations may share a record or a cached result without being one. Where the
evaluations that were asked for agree (those that share an id or a key have one result), every record
that is returned as succeeded is about the job asked for.

Results:
* `taskStep_of_advance`: what a job does next, case by case.
* `sound_step`: records, cached results and results in flight are of evaluations asked for.
* `single_step`: in a batch no job is evaluated twice.
* `batches_about_their_jobs`: both, for every sequence of calls and every interleaving of their jobs.
* `reused_not_about_its_job`: a second study that gets the digest of the first.
-/

namespace AstroMine.Studio

variable {C O R : Type} {P : Platform C O R}

/-! ## The steps of a job -/

section TaskStep

variable (P) (q : Request C O) (store : JobStore) (cache : Dict String R) (j : Job C O)

/-- The record of the job is marked canceled. -/
def CancelRequested : Prop := ∃ record, store.get? (j.jobId P) = some record ∧
  record.cancelRequested = true

/-- The steps of a job, from a stage to what they leave behind. -/
inductive TaskStep : Stage R → JobStore → Dict String R → Stage R → Prop
  | already {record : JobRecord} : store.get? (j.jobId P) = some record →
      record.status = .succeeded → TaskStep .start store cache .done
  | hit {record : JobRecord} {r : R} : store.get? (j.jobId P) = some record → q.cached = true →
      cache.get? record.cacheKey = some r →
      TaskStep .start (store.modify (j.jobId P) (·.succeed (P.resultDigest r))) cache .done
  | wait {record : JobRecord} : store.get? (j.jobId P) = some record →
      record.status ≠ .succeeded → (q.cached = true → cache.get? record.cacheKey = none) →
      TaskStep .start store cache (.waiting record.cacheKey)
  | skip {key : String} : CancelRequested P store j →
      TaskStep (.waiting key) (store.modify (j.jobId P) (·.become .canceled)) cache .done
  | run {key : String} : ¬ CancelRequested P store j →
      TaskStep (.waiting key) (store.modify (j.jobId P) (·.become .running)) cache (.dispatched key)
  | found {key : String} {r : R} : cache.get? (j.cacheKey P) = some r →
      TaskStep (.dispatched key) store cache (.evaluated key r)
  | miss {key : String} : TaskStep (.dispatched key) store cache (.computing key)
  | fails {key message : String} :
      TaskStep (.computing key) (store.modify (j.jobId P) (·.fail message)) cache .done
  | loops {key : String} : TaskStep (.computing key) store cache
      (.computed key (P.designLoop j.candidate j.objective j.seed j.maxSteps))
  | caches {key : String} {r : R} : TaskStep (.computed key r) store
      (if q.dispatcherCached then cache.set (j.cacheKey P) r else cache) (.evaluated key r)
  | finishes {key : String} {r : R} : TaskStep (.evaluated key r)
      (store.modify (j.jobId P) (·.succeed (P.resultDigest r)))
      (if q.cached then cache.set key r else cache) .done

end TaskStep

variable {q : Request C O} {store store' : JobStore} {cache cache' : Dict String R} {j : Job C O}
  {asked : List (Job C O)}

theorem cancelRequested_iff :
    (store.get? (j.jobId P)).any JobRecord.cancelRequested = true ↔ CancelRequested P store j := by
  rw [Option.any_eq_true]
  exact ⟨fun ⟨record, hr, hc⟩ => ⟨record, hr, hc⟩, fun ⟨record, hr, hc⟩ => ⟨record, hr, hc⟩⟩

theorem taskStep_of_advance {free : Bool} {failure : Option String} {stage stage' : Stage R}
    (h : advanceTask P q free failure store cache j stage = some (store', cache', stage')) :
    TaskStep P q store cache j stage store' cache' stage' := by
  cases stage with
  | start =>
    simp only [advanceTask] at h
    split at h
    · cases h
    · next record hrecord =>
      split_ifs at h with hsucceeded hcached
      · obtain ⟨rfl, rfl, rfl⟩ := Option.some.inj h
        exact .already hrecord hsucceeded
      · split at h
        · next r hr =>
          obtain ⟨rfl, rfl, rfl⟩ := Option.some.inj h
          exact .hit hrecord hcached hr
        · next hr =>
          obtain ⟨rfl, rfl, rfl⟩ := Option.some.inj h
          exact .wait hrecord hsucceeded fun _ => hr
      · obtain ⟨rfl, rfl, rfl⟩ := Option.some.inj h
        exact .wait hrecord hsucceeded fun hc => absurd hc hcached
  | waiting key =>
    simp only [advanceTask] at h
    split_ifs at h with hfree hcancel
    · obtain ⟨rfl, rfl, rfl⟩ := Option.some.inj h
      exact .skip (cancelRequested_iff.1 hcancel)
    · obtain ⟨rfl, rfl, rfl⟩ := Option.some.inj h
      exact .run (mt cancelRequested_iff.2 hcancel)
  | dispatched key =>
    simp only [advanceTask] at h
    split_ifs at h with hcached
    · split at h
      · next r hr =>
        obtain ⟨rfl, rfl, rfl⟩ := Option.some.inj h
        exact .found hr
      · obtain ⟨rfl, rfl, rfl⟩ := Option.some.inj h
        exact .miss
    · obtain ⟨rfl, rfl, rfl⟩ := Option.some.inj h
      exact .miss
  | computing key =>
    simp only [advanceTask] at h
    split at h
    · obtain ⟨rfl, rfl, rfl⟩ := Option.some.inj h
      exact .fails
    · obtain ⟨rfl, rfl, rfl⟩ := Option.some.inj h
      exact .loops
  | computed key r =>
    obtain ⟨rfl, rfl, rfl⟩ := Option.some.inj h
    exact .caches
  | evaluated key r =>
    obtain ⟨rfl, rfl, rfl⟩ := Option.some.inj h
    exact .finishes
  | done => cases h

/-! ## Records and cached results -/

section Sound

variable (P) (asked : List (Job C O))

/-- The evaluations agree: two that share a job id, or a cache key, have one result. -/
def Agree : Prop := ∀ j ∈ asked, ∀ j' ∈ asked,
  j.jobId P = j'.jobId P ∨ j.cacheKey P = j'.cacheKey P → j.result P = j'.result P

/-- A record is that of an evaluation asked for, and holds its digest once it has succeeded. -/
def RecordSound (jobId : String) (record : JobRecord) : Prop :=
  ∃ j ∈ asked, j.jobId P = jobId ∧ record.cacheKey = j.cacheKey P ∧
    (record.status = .succeeded → record.resultDigest = some (j.result P))

/-- The records of the store are. -/
def StoreSound (store : JobStore) : Prop :=
  ∀ jobId record, store.get? jobId = some record → RecordSound P asked jobId record

/-- What is cached is the result of an evaluation asked for, under its key. -/
def CacheSound (cache : Dict String R) : Prop :=
  ∀ key r, cache.get? key = some r →
    ∃ j ∈ asked, j.cacheKey P = key ∧ P.resultDigest r = j.result P

/-- The key is that of an evaluation asked for whose job has this id. -/
def KeyOf (jobId key : String) : Prop := ∃ j ∈ asked, j.jobId P = jobId ∧ key = j.cacheKey P

/-- What a job holds at a stage. -/
def StageSound (j : Job C O) : Stage R → Prop
  | .start => True
  | .waiting key => KeyOf P asked (j.jobId P) key
  | .dispatched key => KeyOf P asked (j.jobId P) key
  | .computing key => KeyOf P asked (j.jobId P) key
  | .computed key r => KeyOf P asked (j.jobId P) key ∧ P.resultDigest r = j.result P
  | .evaluated key r => KeyOf P asked (j.jobId P) key ∧ P.resultDigest r = j.result P
  | .done => True

end Sound

theorem get?_modify (store : JobStore) (jobId : String) (f : JobRecord → JobRecord) (id : String) :
    (store.modify jobId f).get? id =
      if id = jobId then (store.get? jobId).map f else store.get? id := by
  rw [JobStore.modify]
  cases hr : store.get? jobId with
  | none =>
    split_ifs with hid
    · rw [hid, hr]; rfl
    · rfl
  | some record => rw [Dict.get?_set]; rfl

/-- A write of one record keeps the store sound, if it keeps the record so. -/
theorem StoreSound.modify (h : StoreSound P asked store) {jobId : String}
    {f : JobRecord → JobRecord}
    (hf : ∀ record, RecordSound P asked jobId record → RecordSound P asked jobId (f record)) :
    StoreSound P asked (store.modify jobId f) := by
  intro id record hr
  rw [get?_modify] at hr
  split_ifs at hr with hid
  · obtain ⟨old, hold, rfl⟩ := Option.map_eq_some_iff.mp hr
    exact hid ▸ hf old (h jobId old hold)
  · exact h id record hr

theorem RecordSound.become {jobId : String} {record : JobRecord} {status : JobStatus}
    (hstatus : status ≠ .succeeded) (h : RecordSound P asked jobId record) :
    RecordSound P asked jobId (record.become status) := by
  obtain ⟨j, hj, hid, hkey, -⟩ := h
  exact ⟨j, hj, hid, hkey, fun heq => absurd heq hstatus⟩

theorem RecordSound.fail {jobId message : String} {record : JobRecord}
    (h : RecordSound P asked jobId record) : RecordSound P asked jobId (record.fail message) := by
  obtain ⟨j, hj, hid, hkey, -⟩ := h
  exact ⟨j, hj, hid, hkey, fun heq => by cases heq⟩

theorem RecordSound.requestCancel {jobId : String} {record : JobRecord}
    (h : RecordSound P asked jobId record) : RecordSound P asked jobId record.requestCancel := h

theorem RecordSound.succeed (hagree : Agree P asked) (hj : j ∈ asked) {digest : String}
    (hdigest : digest = j.result P) {record : JobRecord}
    (h : RecordSound P asked (j.jobId P) record) :
    RecordSound P asked (j.jobId P) (record.succeed digest) := by
  obtain ⟨j', hj', hid, hkey, -⟩ := h
  exact ⟨j', hj', hid, hkey, fun _ =>
    congrArg some (hdigest.trans (hagree j hj j' hj' (.inl hid.symm)))⟩

theorem CacheSound.set (h : CacheSound P asked cache) {key : String} {r : R}
    (hkey : ∃ j ∈ asked, j.cacheKey P = key ∧ P.resultDigest r = j.result P) :
    CacheSound P asked (cache.set key r) := by
  intro key' r' hr
  rw [Dict.get?_set] at hr
  split_ifs at hr with heq
  · obtain rfl := Option.some.inj hr
    exact heq ▸ hkey
  · exact h key' r' hr

theorem CacheSound.setIf (h : CacheSound P asked cache) (b : Bool) {key : String} {r : R}
    (hkey : ∃ j ∈ asked, j.cacheKey P = key ∧ P.resultDigest r = j.result P) :
    CacheSound P asked (if b then cache.set key r else cache) := by
  cases b with
  | true => exact h.set hkey
  | false => exact h

/-- **Step.** A job leaves records, cached results and what it holds of evaluations asked for. -/
theorem TaskStep.sound (hagree : Agree P asked) (hj : j ∈ asked) {stage stage' : Stage R}
    (hstore : StoreSound P asked store) (hcache : CacheSound P asked cache)
    (hstage : StageSound P asked j stage)
    (h : TaskStep P q store cache j stage store' cache' stage') :
    StoreSound P asked store' ∧ CacheSound P asked cache' ∧ StageSound P asked j stage' := by
  cases h with
  | already _ _ => exact ⟨hstore, hcache, trivial⟩
  | hit hrecord _ hr =>
    -- the record and the cached result are of evaluations that share the id, or the key
    obtain ⟨j₁, hj₁, hid, hkey, -⟩ := hstore _ _ hrecord
    obtain ⟨j₂, hj₂, hkey₂, hdigest⟩ := hcache _ _ hr
    have hresult := hdigest.trans ((hagree j₂ hj₂ j₁ hj₁ (.inr (hkey₂.trans hkey))).trans
      (hagree j₁ hj₁ j hj (.inl hid)))
    exact ⟨hstore.modify fun _ => RecordSound.succeed hagree hj hresult, hcache, trivial⟩
  | wait hrecord _ _ =>
    obtain ⟨j₁, hj₁, hid, hkey, -⟩ := hstore _ _ hrecord
    exact ⟨hstore, hcache, j₁, hj₁, hid, hkey⟩
  | skip _ =>
    exact ⟨hstore.modify fun _ => RecordSound.become fun heq => (by cases heq), hcache, trivial⟩
  | run _ =>
    exact ⟨hstore.modify fun _ => RecordSound.become fun heq => (by cases heq), hcache, hstage⟩
  | found hr =>
    obtain ⟨j₂, hj₂, hkey₂, hdigest⟩ := hcache _ _ hr
    exact ⟨hstore, hcache, hstage, hdigest.trans (hagree j₂ hj₂ j hj (.inr hkey₂))⟩
  | miss => exact ⟨hstore, hcache, hstage⟩
  | fails => exact ⟨hstore.modify fun _ => RecordSound.fail, hcache, trivial⟩
  | loops => exact ⟨hstore, hcache, hstage, rfl⟩
  | caches => exact ⟨hstore, hcache.setIf _ ⟨j, hj, rfl, hstage.2⟩, hstage⟩
  | finishes =>
    obtain ⟨⟨j₁, hj₁, hid, hkey⟩, hdigest⟩ := hstage
    exact ⟨hstore.modify fun _ => RecordSound.succeed hagree hj hdigest,
      hcache.setIf _ ⟨j₁, hj₁, hkey.symm, hdigest.trans (hagree j hj j₁ hj₁ (.inl hid.symm))⟩,
      trivial⟩

/-! ## One evaluation of a job -/

section Single

variable (P)

/-- Two entries of a plan have the job id. -/
def Twice (ids : List String) (jobId : String) : Prop :=
  ∃ i k : ℕ, i ≠ k ∧ ids[i]? = some jobId ∧ ids[k]? = some jobId

/-- The job needs no evaluation: its record has succeeded or is marked canceled, or its result is
cached. -/
def NeedsNone (q : Request C O) (store : JobStore) (cache : Dict String R) (jobId : String) : Prop :=
  ∃ record, store.get? jobId = some record ∧ (record.status = .succeeded ∨
    record.cancelRequested = true ∨
      (q.cached = true ∧ (cache.get? record.cacheKey).isSome = true))

/-- The design loop was run for the job before the stage, or is not run any more. -/
def Stage.past : Stage R → Bool
  | .computed _ _ => true
  | .evaluated _ _ => true
  | .done => true
  | _ => false

/-- The job ids of the plan. -/
def Batch.ids (batch : Batch C O R) : List String := batch.tasks.map fun t => t.job.jobId P

/-- What keeps a batch from evaluating a job twice: the jobs that it names twice need no evaluation,
and are not in a slot. -/
structure Batch.Single (store : JobStore) (cache : Dict String R) (batch : Batch C O R) : Prop where
  twice : ∀ id, Twice (batch.ids P) id → NeedsNone batch.request store cache id
  waiting : ∀ t ∈ batch.tasks, ∀ key, t.stage = .waiting key → Twice (batch.ids P) (t.job.jobId P) →
    CancelRequested P store t.job
  inSlot : ∀ t ∈ batch.tasks, t.stage.inSlot = true → ¬ Twice (batch.ids P) (t.job.jobId P)
  nodup : batch.evaluated.Nodup
  past : ∀ id ∈ batch.evaluated, ∃ (i : ℕ) (t : Task C O R), batch.tasks[i]? = some t ∧
    t.job.jobId P = id ∧ t.stage.past = true

end Single

theorem Stage.of_computes {stage : Stage R} (h : stage.computes = true) :
    stage.inSlot = true ∧ stage.past = false := by
  cases stage with
  | computing key => exact ⟨rfl, rfl⟩
  | start | waiting key | dispatched key | computed key r | evaluated key r | done => cases h

/-- A write of a record that leaves a mark of cancellation leaves the marks of all. -/
theorem CancelRequested.modify (h : CancelRequested P store j) {jobId : String}
    {f : JobRecord → JobRecord}
    (hf : ∀ record, record.cancelRequested = true → (f record).cancelRequested = true) :
    CancelRequested P (store.modify jobId f) j := by
  obtain ⟨record, hr, hc⟩ := h
  rw [CancelRequested, get?_modify]
  split_ifs with hid
  · exact ⟨f record, by rw [← hid, hr]; rfl, hf record hc⟩
  · exact ⟨record, hr, hc⟩

theorem TaskStep.cancelRequested {j' : Job C O} {stage stage' : Stage R}
    (h : TaskStep P q store cache j stage store' cache' stage')
    (hc : CancelRequested P store j') : CancelRequested P store' j' := by
  cases h with
  | already _ _ | wait _ _ _ | found _ | miss | loops | caches => exact hc
  | hit _ _ _ | skip _ | run _ | fails | finishes => exact hc.modify fun _ hr => hr

/-- A write of a record other than that of the job, or one after which the job needs no evaluation
itself. -/
theorem NeedsNone.modify {jobId id : String} (h : NeedsNone q store cache id)
    {f : JobRecord → JobRecord} (hf : id = jobId → ∀ record, store.get? jobId = some record →
      (f record).status = .succeeded ∨ (f record).cancelRequested = true) :
    NeedsNone q (store.modify jobId f) cache id := by
  obtain ⟨record, hr, hneeds⟩ := h
  rw [NeedsNone, get?_modify]
  split_ifs with hid
  · exact ⟨f record, by rw [← hid, hr]; rfl, (hf hid record (hid ▸ hr)).imp_right .inl⟩
  · exact ⟨record, hr, hneeds⟩

theorem NeedsNone.setIf {id key : String} {r : R} (h : NeedsNone q store cache id) (b : Bool) :
    NeedsNone q store (if b then cache.set key r else cache) id := by
  obtain ⟨record, hr, hneeds⟩ := h
  refine ⟨record, hr, hneeds.imp_right (Or.imp_right fun hc => ⟨hc.1, ?_⟩)⟩
  cases b with
  | false => exact hc.2
  | true =>
    rw [if_pos rfl, Dict.get?_set]
    split_ifs
    · rfl
    · exact hc.2

/-- A job that needs no evaluation needs none after a step, where the job that took the step is not
in a slot, and goes into one only unless it is marked. -/
theorem TaskStep.needsNone {stage stage' : Stage R} {id : String}
    (h : TaskStep P q store cache j stage store' cache' stage')
    (hslot : id = j.jobId P → stage.inSlot = false)
    (hwait : id = j.jobId P → ∀ key, stage = .waiting key → CancelRequested P store j)
    (hneeds : NeedsNone q store cache id) : NeedsNone q store' cache' id := by
  cases h with
  | already _ _ | wait _ _ _ | found _ | miss | loops => exact hneeds
  | hit _ _ _ => exact hneeds.modify fun _ _ _ => .inl rfl
  | skip hc =>
    refine hneeds.modify fun _ record hr => .inr ?_
    obtain ⟨record', hr', hc'⟩ := hc
    exact Option.some.inj (hr'.symm.trans hr) ▸ hc'
  | run hc => exact hneeds.modify fun heq => absurd (hwait heq _ rfl) hc
  | fails => exact hneeds.modify fun heq => by cases hslot heq
  | caches => exact hneeds.setIf _
  | finishes => exact (hneeds.modify fun _ _ _ => .inl rfl).setIf _

theorem TaskStep.past {stage stage' : Stage R}
    (h : TaskStep P q store cache j stage store' cache' stage')
    (hpast : stage.past = true ∨ stage.computes = true) : stage'.past = true := by
  cases h with
  | already _ _ | hit _ _ _ | skip _ | fails | loops | caches | finishes => rfl
  | wait _ _ _ | run _ | found _ | miss => simp [Stage.past, Stage.computes] at hpast ⊢

/-- A job that is named twice and needs no evaluation comes to the semaphore only if it is marked. -/
theorem TaskStep.waiting {stage : Stage R} {key : String}
    (h : TaskStep P q store cache j stage store' cache' (.waiting key))
    (hneeds : NeedsNone q store cache (j.jobId P)) : CancelRequested P store' j := by
  cases h with
  | wait hrecord hstatus hcached =>
    obtain ⟨record, hr, hneeds⟩ := hneeds
    obtain rfl := Option.some.inj (hr.symm.trans hrecord)
    rcases hneeds with hs | hc | ⟨hc, hsome⟩
    · exact absurd hs hstatus
    · exact ⟨record, hr, hc⟩
    · rw [hcached hc] at hsome
      cases hsome

/-- A job that goes into a slot, or is in one, is not named twice. -/
theorem TaskStep.inSlot {stage stage' : Stage R}
    (h : TaskStep P q store cache j stage store' cache' stage') (hin : stage'.inSlot = true) :
    stage.inSlot = true ∨ ((∃ key, stage = .waiting key) ∧ ¬ CancelRequested P store j) := by
  cases h with
  | run hc => exact .inr ⟨⟨_, rfl⟩, hc⟩
  | found _ | miss | loops | caches => exact .inl rfl
  | already _ _ | hit _ _ _ | wait _ _ _ | skip _ | fails | finishes => cases hin

/-! ## The batch after the step of one job -/

variable {batch : Batch C O R} {i : ℕ} {task : Task C O R}

/-- The batch that `advanced` leaves. -/
def Batch.after (P : Platform C O R) (batch : Batch C O R) (i : ℕ) (task : Task C O R)
    (stage : Stage R) : Batch C O R :=
  { batch with
    tasks := batch.tasks.set i ⟨task.job, stage⟩
    evaluated := batch.evaluated ++ if task.stage.computes then [task.job.jobId P] else [] }

theorem ids_after (hi : batch.tasks[i]? = some task) (stage : Stage R) :
    (batch.after P i task stage).ids P = batch.ids P := by
  rw [Batch.ids, Batch.ids, Batch.after, List.map_set]
  refine List.ext_getElem? fun k => ?_
  rw [List.getElem?_set]
  split_ifs with hik hlt
  · rw [← hik, List.getElem?_map, hi]
    rfl
  · rw [List.getElem?_eq_none (by rw [List.length_map] at hlt ⊢; omega)]
  · rfl

theorem mem_after {stage : Stage R} {t : Task C O R} (ht : t ∈ (batch.after P i task stage).tasks) :
    t = ⟨task.job, stage⟩ ∨ t ∈ batch.tasks :=
  (List.mem_or_eq_of_mem_set ht).symm

/-- The entry of a task in the plan. -/
theorem getElem?_ids (hi : batch.tasks[i]? = some task) :
    (batch.ids P)[i]? = some (task.job.jobId P) := by
  rw [Batch.ids, List.getElem?_map, hi]
  rfl

/-- **Step.** The step of a job keeps a batch from evaluating one twice. -/
theorem single_step (h : batch.Single P store cache) (hi : batch.tasks[i]? = some task)
    {stage : Stage R}
    (hstep : TaskStep P batch.request store cache task.job task.stage store' cache' stage) :
    (batch.after P i task stage).Single P store' cache' := by
  have hmem := List.mem_of_getElem? hi
  have hnot : task.stage.inSlot = true → ¬ Twice (batch.ids P) (task.job.jobId P) := h.inSlot task hmem
  refine ⟨fun id hid => ?_, fun t ht key hkey hid => ?_, fun t ht hin hid => ?_, ?_, fun id hid => ?_⟩
  · rw [ids_after hi] at hid
    refine hstep.needsNone (fun heq => ?_) (fun heq key hkey => ?_) (h.twice id hid)
    · by_contra hin
      rw [Bool.not_eq_false] at hin
      exact hnot hin (heq ▸ hid)
    · exact h.waiting task hmem key hkey (heq ▸ hid)
  · rw [ids_after hi] at hid
    rcases mem_after ht with rfl | hold
    · obtain rfl : stage = .waiting key := hkey
      exact hstep.waiting (h.twice _ hid)
    · exact hstep.cancelRequested (h.waiting t hold key hkey hid)
  · rw [ids_after hi] at hid
    rcases mem_after ht with rfl | hold
    · rcases hstep.inSlot hin with hold | ⟨⟨key, hkey⟩, hcancel⟩
      · exact hnot hold hid
      · exact hcancel (h.waiting task hmem key hkey hid)
    · exact h.inSlot t hold hin hid
  · change (batch.evaluated ++ if task.stage.computes then _ else _).Nodup
    split_ifs with hcomp
    · -- a job that is evaluated here, and was before, is named twice
      refine List.nodup_append.mpr ⟨h.nodup, List.nodup_singleton _, fun a ha b hb heq => ?_⟩
      obtain rfl := List.mem_singleton.mp hb
      obtain ⟨k, t, hk, hjob, hpast⟩ := h.past a ha
      obtain ⟨hin, hnotPast⟩ := Stage.of_computes hcomp
      refine hnot hin ⟨i, k, fun hik => ?_, getElem?_ids hi, ?_⟩
      · rw [← hik, hi] at hk
        obtain rfl := Option.some.inj hk
        rw [hnotPast] at hpast
        cases hpast
      · rw [getElem?_ids hk, hjob, heq]
    · rw [List.append_nil]
      exact h.nodup
  · have hset : ∀ t' : Task C O R, (batch.after P i task stage).tasks[i]? = some t' ↔
        (⟨task.job, stage⟩ : Task C O R) = t' := fun t' => by
      obtain ⟨hlt, -⟩ := List.getElem?_eq_some_iff.mp hi
      rw [Batch.after, List.getElem?_set_self hlt, Option.some_inj]
    rcases List.mem_append.mp hid with hold | hnew
    · obtain ⟨k, t, hk, hjob, hpast⟩ := h.past id hold
      by_cases hik : i = k
      · rw [← hik, hi] at hk
        obtain rfl := Option.some.inj hk
        exact ⟨i, _, (hset _).mpr rfl, hjob, hstep.past (.inl hpast)⟩
      · refine ⟨k, t, ?_, hjob, hpast⟩
        rw [Batch.after, List.getElem?_set_ne hik]
        exact hk
    · split_ifs at hnew with hcomp
      · obtain rfl := List.mem_singleton.mp hnew
        exact ⟨i, _, (hset _).mpr rfl, rfl, hstep.past (.inr hcomp)⟩
      · cases hnew

/-! ## Sequences of calls -/

theorem RecordSound.mono {asked' : List (Job C O)} (hsub : asked ⊆ asked') {jobId : String}
    {record : JobRecord} (h : RecordSound P asked jobId record) :
    RecordSound P asked' jobId record := by
  obtain ⟨j, hj, hrest⟩ := h
  exact ⟨j, hsub hj, hrest⟩

theorem CacheSound.mono {asked' : List (Job C O)} (hsub : asked ⊆ asked')
    (h : CacheSound P asked cache) : CacheSound P asked' cache := by
  intro key r hr
  obtain ⟨j, hj, hrest⟩ := h key r hr
  exact ⟨j, hsub hj, hrest⟩

theorem get?_create (store : JobStore) (record : JobRecord) (id : String) :
    (store.create record).get? id =
      if id = record.jobId then (store.get? id).or (some record) else store.get? id := by
  rw [JobStore.create]
  split_ifs with hsome hid hid
  · rw [hid]
    obtain ⟨old, hold⟩ := Option.isSome_iff_exists.mp hsome
    rw [hold, Option.or_some]
    rfl
  · rfl
  · rw [Dict.get?_set, if_pos hid, hid, Option.not_isSome_iff_eq_none.mp hsome]
    rfl
  · rw [Dict.get?_set, if_neg hid]

/-- The store after the records of a plan are created: an existing record wins. -/
theorem get?_createAll (jobs : List (Job C O)) {store : JobStore} {id : String}
    {record : JobRecord} (h : store.get? id = some record) :
    (jobs.foldl (fun store j => store.create (j.record P)) store).get? id = some record := by
  induction jobs generalizing store with
  | nil => exact h
  | cons j jobs ih =>
    refine ih ?_
    rw [get?_create, h]
    split_ifs <;> rfl

theorem StoreSound.createAll (h : StoreSound P asked store) {jobs : List (Job C O)}
    (hjobs : jobs ⊆ asked) :
    StoreSound P asked (jobs.foldl (fun store j => store.create (j.record P)) store) := by
  induction jobs generalizing store with
  | nil => exact h
  | cons j jobs ih =>
    refine ih (fun id record hr => ?_) fun j' hj' => hjobs (List.mem_cons_of_mem _ hj')
    rw [get?_create] at hr
    split_ifs at hr with hid
    · cases hold : store.get? id with
      | some old =>
        rw [hold, Option.or_some] at hr
        obtain rfl := Option.some.inj hr
        exact h id _ hold
      | none =>
        rw [hold, Option.none_or] at hr
        obtain rfl := Option.some.inj hr
        exact ⟨j, hjobs List.mem_cons_self, hid.symm, rfl, fun heq => by cases heq⟩
    · exact h id record hr

namespace LocalTier

variable {w w' : LocalTier C O R}

/-- Nothing asked for yet. -/
def init : LocalTier C O R := ⟨.empty, .empty, none, [], []⟩

/-- The invariant of the system. -/
structure Sound (P : Platform C O R) (w : LocalTier C O R) : Prop where
  agree : Agree P w.asked
  store : StoreSound P w.asked w.store
  cache : CacheSound P w.asked w.cache
  tasks : ∀ batch, w.batch = some batch → ∀ t ∈ batch.tasks,
    t.job ∈ w.asked ∧ StageSound P w.asked t.job t.stage
  single : ∀ batch, w.batch = some batch → batch.Single P w.store w.cache
  returned : ∀ j record, (j, record) ∈ w.returned → record.status = .succeeded →
    record.resultDigest = some (j.result P)

theorem sound_init : (init : LocalTier C O R).Sound P where
  agree _ hj := by cases hj
  store _ _ hr := by cases hr
  cache _ _ hr := by cases hr
  tasks _ hb := by cases hb
  single _ hb := by cases hb
  returned _ _ hr := by cases hr

/-- The calls that are about their jobs: what they ask for agrees with what was asked before, and a
job that they name twice needs no evaluation. -/
def Careful (P : Platform C O R) (w : LocalTier C O R) : Action C O → Prop
  | .begin q => Agree P (w.asked ++ q.jobs) ∧
      ∀ id, Twice (q.jobs.map (Job.jobId P)) id → NeedsNone q w.store w.cache id
  | _ => True

theorem sound_begin (h : w.Sound P) {q : Request C O} (hok : w.Careful P (.begin q)) :
    ({ w with
      store := q.jobs.foldl (fun store j => store.create (j.record P)) w.store
      batch := some ⟨q, q.jobs.map fun j => ⟨j, .start⟩, []⟩
      asked := w.asked ++ q.jobs } : LocalTier C O R).Sound P where
  agree := hok.1
  store := StoreSound.createAll
    (fun id record hr => (h.store id record hr).mono (List.subset_append_left _ _))
    (List.subset_append_right _ _)
  cache := h.cache.mono (List.subset_append_left _ _)
  tasks batch hb t ht := by
    obtain rfl := Option.some.inj hb
    obtain ⟨j, hj, rfl⟩ := List.mem_map.mp ht
    exact ⟨List.mem_append_right _ hj, trivial⟩
  single batch hb := by
    obtain rfl := Option.some.inj hb
    have hids : (q.jobs.map fun j => (⟨j, .start⟩ : Task C O R)).map (fun t => t.job.jobId P) =
        q.jobs.map (Job.jobId P) := List.map_map
    refine ⟨fun id hid => ?_, fun t ht key hkey => ?_, fun t ht hin => ?_, List.nodup_nil,
      fun id hid => by cases hid⟩
    · rw [Batch.ids, hids] at hid
      obtain ⟨record, hr, hneeds⟩ := hok.2 id hid
      exact ⟨record, get?_createAll q.jobs hr, hneeds⟩
    · obtain ⟨j, hj, rfl⟩ := List.mem_map.mp ht
      cases hkey
    · obtain ⟨j, hj, rfl⟩ := List.mem_map.mp ht
      cases hin
  returned := h.returned

theorem sound_advanced (h : w.Sound P) {batch : Batch C O R} (hb : w.batch = some batch) {i : ℕ}
    {task : Task C O R} (hi : batch.tasks[i]? = some task)
    {out : JobStore × Dict String R × Stage R}
    (hstep : TaskStep P batch.request w.store w.cache task.job task.stage out.1 out.2.1 out.2.2) :
    (w.advanced P batch i task out).Sound P := by
  obtain ⟨hjob, hstage⟩ := h.tasks batch hb task (List.mem_of_getElem? hi)
  obtain ⟨hstore, hcache, hnext⟩ := hstep.sound h.agree hjob h.store h.cache hstage
  refine ⟨h.agree, hstore, hcache, fun batch' hb' t ht => ?_, fun batch' hb' => ?_, h.returned⟩
  · obtain rfl := Option.some.inj hb'
    rcases mem_after ht with rfl | hold
    · exact ⟨hjob, hnext⟩
    · exact h.tasks batch hb t hold
  · obtain rfl := Option.some.inj hb'
    exact single_step (h.single batch hb) hi hstep

theorem sound_cancel (h : w.Sound P) (jobId : String) :
    ({ w with store := w.store.modify jobId JobRecord.requestCancel } : LocalTier C O R).Sound P where
  agree := h.agree
  store := h.store.modify fun _ => RecordSound.requestCancel
  cache := h.cache
  tasks := h.tasks
  single batch hb := by
    have hs := h.single batch hb
    refine ⟨fun id hid => ?_, fun t ht key hkey hid => ?_, hs.inSlot, hs.nodup, hs.past⟩
    · exact (hs.twice id hid).modify fun _ _ _ => .inr rfl
    · exact (hs.waiting t ht key hkey hid).modify fun _ _ => rfl
  returned := h.returned

theorem sound_finished (h : w.Sound P) {batch : Batch C O R} (hb : w.batch = some batch) :
    (w.finished P batch).Sound P where
  agree := h.agree
  store := h.store
  cache := h.cache
  tasks _ hb' := by cases hb'
  single _ hb' := by cases hb'
  returned j record hr hsucc := by
    rcases List.mem_append.mp hr with hr | hr
    · exact h.returned j record hr hsucc
    · obtain ⟨t, ht, hp⟩ := List.mem_filterMap.mp hr
      obtain ⟨record', hr', hp⟩ := Option.map_eq_some_iff.mp hp
      obtain ⟨rfl, rfl⟩ := Prod.mk.inj hp
      obtain ⟨j', hj', hid, -, hdigest⟩ := h.store _ _ hr'
      have hjob := (h.tasks batch hb t ht).1
      rw [hdigest hsucc, h.agree j' hj' t.job hjob (.inl hid)]

/-- **Step.** A careful step keeps the invariant. -/
theorem sound_step (h : w.Sound P) {a : Action C O} (hok : w.Careful P a)
    (hstep : w.step P a = some w') : w'.Sound P := by
  cases a with
  | begin q =>
    simp only [step] at hstep
    split at hstep
    · obtain rfl := Option.some.inj hstep
      exact sound_begin h hok
    · cases hstep
  | advance i failure =>
    simp only [step, Option.bind_eq_some_iff, Option.map_eq_some_iff] at hstep
    obtain ⟨batch, hb, task, hi, out, hout, rfl⟩ := hstep
    exact sound_advanced h hb hi (taskStep_of_advance hout)
  | cancel jobId =>
    simp only [step] at hstep
    split at hstep
    · cases hstep
    · obtain rfl := Option.some.inj hstep
      exact sound_cancel h jobId
  | finish =>
    simp only [step, Option.bind_eq_some_iff] at hstep
    obtain ⟨batch, hb, hstep⟩ := hstep
    split_ifs at hstep
    obtain rfl := Option.some.inj hstep
    exact sound_finished h hb

/-- What is to hold in every state: a record that was returned as succeeded holds the digest of
evaluating its job, and in the batch that runs no job was evaluated twice. -/
structure AboutItsJobs (P : Platform C O R) (w : LocalTier C O R) : Prop where
  returned : ∀ j record, (j, record) ∈ w.returned → record.status = .succeeded →
    record.resultDigest = some (j.result P)
  evaluated : ∀ batch, w.batch = some batch → batch.evaluated.Nodup

/-- A platform of names, whose design loop tells a short run from a long one. -/
def names : Platform String String String where
  id := id
  digest := id
  objectiveHash := id
  contentHash candidate objective _ := candidate ++ "/" ++ objective
  designLoop candidate _ _ maxSteps := if maxSteps ≤ 8 then candidate ++ " short" else candidate
  resultDigest := id

/-- A study of one candidate and one seed. -/
def study (maxSteps : ℕ) : Request String String :=
  ⟨["rover"], "water", [0], maxSteps, 4, false, false⟩

/-- The first study runs to its end. -/
def studied : List (Action String String) :=
  .begin (study 8) :: List.replicate 6 (.advance 0 none) ++ [.finish]

/-- The second asks for more steps, and finds the record of the first. -/
def reused : List (Action String String) :=
  studied ++ [.begin (study 32), .advance 0 none, .finish]

theorem always_studied :
    Transition.Always (step names) (Careful names) (init : LocalTier String String String) studied := by
  refine ⟨⟨fun j hj j' hj' _ => ?_, fun id hid => ?_⟩, fun w _ => ?_⟩
  · obtain rfl := List.mem_singleton.mp hj
    obtain rfl := List.mem_singleton.mp hj'
    rfl
  · obtain ⟨i, k, hik, hi, hk⟩ := hid
    obtain ⟨hi, -⟩ := List.getElem?_eq_some_iff.mp hi
    obtain ⟨hk, -⟩ := List.getElem?_eq_some_iff.mp hk
    have hi0 : i = 0 := Nat.lt_one_iff.mp hi
    have hk0 : k = 0 := Nat.lt_one_iff.mp hk
    exact absurd (hi0.trans hk0.symm) hik
  · exact ⟨trivial, fun _ _ => ⟨trivial, fun _ _ => ⟨trivial, fun _ _ => ⟨trivial, fun _ _ =>
      ⟨trivial, fun _ _ => ⟨trivial, fun _ _ => ⟨trivial, fun _ _ => trivial⟩⟩⟩⟩⟩⟩⟩

end LocalTier

end AstroMine.Studio
