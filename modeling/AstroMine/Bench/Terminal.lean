import AstroMine.Bench.SubmitHub

/-!
# Terminal records (`TERMINAL_STATUSES` and `submit_hub`, `bench/leaderboard`)

A job that is ranked, flagged or rejected is done. The ticket of a request does not change, so that
a resubmission meets the record of the submission before it. The history of records keeps its
terminal ones if no later record under the same id has another status or another result.

Results:
* `lastUnder_putJob`: the job store holds the last record put under each id.
* `keeps_submit`: when one call keeps the terminal records.
* `terminal_kept_iff`: when a sequence of calls does.
* `resubmitted_not_kept`: a submission that is ranked and submitted again.
-/

namespace AstroMine.Bench

/-! ## The history -/

/-- The later of two records leaves the earlier one as it is, if that is terminal and of the same
job. -/
def KeepsTerminal (p q : JobRecord) : Prop :=
  p.jobId = q.jobId → p.status.isTerminal = true →
    q.status = p.status ∧ ∀ r ∈ p.resultId, q.resultId = some r

/-- No terminal record of the history is changed to another status or loses its result. -/
def TerminalKept (puts : List JobRecord) : Prop := puts.Pairwise KeepsTerminal

/-- The last record put under an id. -/
def lastUnder (puts : List JobRecord) (jobId : String) : Option JobRecord :=
  (puts.filter fun p => p.jobId = jobId).getLast?

theorem lastUnder_append (puts records : List JobRecord) (jobId : String) :
    lastUnder (puts ++ records) jobId = (lastUnder records jobId).or (lastUnder puts jobId) := by
  rw [lastUnder, List.filter_append, List.getLast?_append]
  rfl

theorem mem_of_lastUnder {puts : List JobRecord} {jobId : String} {r : JobRecord}
    (h : lastUnder puts jobId = some r) : r ∈ puts ∧ r.jobId = jobId := by
  have hmem := List.mem_of_getLast? h
  rw [List.mem_filter, decide_eq_true_eq] at hmem
  exact hmem

/-- The job store holds the last record put under each id. -/
theorem lastUnder_putJob {puts : List JobRecord} {jobs : JobStore}
    (h : ∀ jobId, jobs.get? jobId = lastUnder puts jobId) (records : List JobRecord)
    (jobId : String) : (records.foldl JobStore.putJob jobs).get? jobId =
      lastUnder (puts ++ records) jobId := by
  induction records generalizing puts jobs with
  | nil => rw [List.append_nil]; exact h jobId
  | cons r records ih =>
    have hr : ∀ id, (jobs.putJob r).get? id = lastUnder (puts ++ [r]) id := fun id => by
      rw [JobStore.putJob, Dict.get?_set, h, lastUnder_append]
      by_cases hid : id = r.jobId
      · simp [lastUnder, hid]
      · simp [lastUnder, hid, Ne.symm hid]
    rw [List.foldl_cons, ih hr, List.append_assoc, List.singleton_append]

/-- In a history that keeps its terminal records, the last record under the id of a terminal one has
its status. -/
theorem TerminalKept.lastUnder {puts : List JobRecord} (h : TerminalKept puts) {p : JobRecord}
    (hp : p ∈ puts) (hterm : p.status.isTerminal = true) :
    ∃ r, Bench.lastUnder puts p.jobId = some r ∧ r.status = p.status := by
  induction puts using List.reverseRecOn with
  | nil => cases hp
  | append_singleton puts last ih =>
    rw [TerminalKept, List.pairwise_append] at h
    obtain ⟨hputs, -, hcross⟩ := h
    rw [lastUnder_append]
    by_cases hid : last.jobId = p.jobId
    · refine ⟨last, by simp [Bench.lastUnder, hid], ?_⟩
      rcases List.mem_append.mp hp with hp | hp
      · exact (hcross p hp last List.mem_cons_self hid.symm hterm).1
      · rw [List.mem_singleton.mp hp]
    · rcases List.mem_append.mp hp with hp | hp
      · obtain ⟨r, hr, hstatus⟩ := ih hputs hp
        exact ⟨r, by simpa [Bench.lastUnder, hid] using hr, hstatus⟩
      · exact absurd (congrArg JobRecord.jobId (List.mem_singleton.mp hp)).symm hid

/-! ## The runs -/

/-- What happens to the service: a call of `submit_hub`, or the window of the rate limiter moves on
for one identity or for all. -/
inductive Event
  | submit (t : Attempt)
  | resetWindow (identity : Option String)

section Runs

variable (hash : ContentHash)

/-- One event after the other. -/
def Service.step (s : Service) : Event → Option Service
  | .submit t => (submitHub hash s t).map Prod.fst
  | .resetWindow identity => some { s with rate := s.rate.reset identity }

/-- The calls that leave the record of their ticket alone if it is terminal: the intake ends before
it writes; or it refuses the submission, and the record is a refusal already; or there is no
terminal record. -/
def LeavesTerminal (s : Service) : Event → Prop
  | .submit t =>
    match (t.admission s.rate).2 with
    | .ends _ => True
    | .refused _ _ => ∀ r, s.jobs.get? (t.ticket hash) = some r →
        r.status.isTerminal = true → r.status = .rejected
    | .accepted _ => ∀ r, s.jobs.get? (t.ticket hash) = some r → r.status.isTerminal = false
  | .resetWindow _ => True

end Runs

/-- The invariant between two calls. -/
structure Service.Settled (s : Service) : Prop where
  queue : s.queue = []
  jobs : ∀ jobId, s.jobs.get? jobId = lastUnder s.puts jobId
  clean : ∀ r ∈ s.puts, r.status = .rejected → r.resultId = none

theorem settled_init (limit : ℕ) : (Service.init limit []).Settled where
  queue := rfl
  jobs _ := rfl
  clean _ h := by cases h

variable {hash : ContentHash} {t : Attempt} {s s' : Service}

theorem Service.Settled.additions (h : s.Settled) {records : List JobRecord}
    (hqueue : s'.queue = []) (hadd : Additions (t.ticket hash) s s' records) : s'.Settled where
  queue := hqueue
  jobs jobId := by rw [hadd.jobs, hadd.puts, lastUnder_putJob h.jobs]
  clean r hr hrej := by
    rw [hadd.puts, List.mem_append] at hr
    exact hr.elim (fun hr => h.clean r hr hrej) fun hr => hadd.clean r hr hrej

/-- The records of one call keep the terminal ones among themselves. -/
theorem Additions.terminalKept {records : List JobRecord}
    (h : Additions (t.ticket hash) s s' records) : TerminalKept records := by
  have hgoing := h.going
  clear h
  induction records with
  | nil => exact List.Pairwise.nil
  | cons r records ih =>
    cases records with
    | nil => exact List.pairwise_singleton _ _
    | cons second rest =>
      have hr := hgoing r List.mem_cons_self
      refine List.Pairwise.cons (fun q _ _ hterm => ?_) (ih fun q hq =>
        hgoing q (List.mem_cons_of_mem _ hq))
      rw [hr] at hterm
      cases hterm

/-- The last record under a ticket stands for the terminal ones before it. -/
theorem forall_terminal_iff (h : s.Settled) (hkept : TerminalKept s.puts) {ticket : String}
    {P : SubmissionStatus → Prop} :
    (∀ p ∈ s.puts, p.jobId = ticket → p.status.isTerminal = true → P p.status) ↔
      ∀ r, s.jobs.get? ticket = some r → r.status.isTerminal = true → P r.status := by
  constructor
  · intro hall r hr
    rw [h.jobs] at hr
    obtain ⟨hmem, hid⟩ := mem_of_lastUnder hr
    exact hall r hmem hid
  · rintro hlast p hp rfl hterm
    obtain ⟨r, hr, hstatus⟩ := hkept.lastUnder hp hterm
    rw [← hstatus]
    exact hlast r ((h.jobs _).trans hr) (hstatus ▸ hterm)

/-- **Step.** When the records of one call keep the terminal records of the history. -/
theorem keeps_submit (h : s.Settled) (hkept : TerminalKept s.puts) {records : List JobRecord}
    (hadd : Additions (t.ticket hash) s s' records)
    (hbegins : Begins (t.ticket hash) (t.admission s.rate).2 records) :
    (∀ p ∈ s.puts, ∀ q ∈ records, KeepsTerminal p q) ↔ LeavesTerminal hash s (.submit t) := by
  rw [LeavesTerminal]
  cases hverdict : (t.admission s.rate).2 with
  | ends raised =>
    rw [hverdict] at hbegins
    obtain rfl : records = [] := hbegins
    exact ⟨fun _ => trivial, fun _ _ _ _ hq => by cases hq⟩
  | refused detail status =>
    rw [hverdict] at hbegins
    obtain rfl : records = [⟨t.ticket hash, .rejected, some detail, none⟩] := hbegins
    rw [← forall_terminal_iff h hkept (P := fun status => status = .rejected)]
    constructor
    · intro hall p hp hid hterm
      exact ((hall p hp _ List.mem_cons_self) hid hterm).1.symm
    · intro hall p hp q hq hid hterm
      obtain rfl := List.mem_singleton.mp hq
      have hrej := hall p hp hid hterm
      refine ⟨hrej.symm, fun r hr => ?_⟩
      rw [h.clean p hp hrej] at hr
      cases hr
  | accepted a =>
    rw [hverdict] at hbegins
    obtain ⟨rest, rfl⟩ := hbegins
    have hnone : (∀ r, s.jobs.get? (t.ticket hash) = some r → r.status.isTerminal = false) ↔
        ∀ r, s.jobs.get? (t.ticket hash) = some r → r.status.isTerminal = true → False :=
      forall_congr' fun r => imp_congr_right fun _ => by simp
    rw [hnone, ← forall_terminal_iff h hkept (P := fun _ => False)]
    constructor
    · intro hall p hp hid hterm
      have hstatus := (hall p hp _ List.mem_cons_self hid hterm).1
      rw [← hstatus] at hterm
      cases hterm
    · intro hall p hp q hq hid hterm
      exact (hall p hp (hid.trans (hadd.jobId q hq)) hterm).elim

/-- **Step.** An event keeps the terminal records exactly if it leaves them alone. -/
theorem step_kept (hash : ContentHash) (h : s.Settled) (event : Event) :
    ∃ s', s.step hash event = some s' ∧ s'.Settled ∧
      (TerminalKept s'.puts ↔ TerminalKept s.puts ∧ LeavesTerminal hash s event) := by
  cases event with
  | submit t =>
    obtain ⟨s', result, records, hsubmit, hqueue, hadd, hbegins⟩ :=
      submitHub_eq hash t h.queue
    refine ⟨s', by rw [Service.step, hsubmit]; rfl, h.additions hqueue hadd, ?_⟩
    rw [TerminalKept, hadd.puts, List.pairwise_append]
    constructor
    · rintro ⟨hkept, -, hcross⟩
      exact ⟨hkept, (keeps_submit h hkept hadd hbegins).mp hcross⟩
    · rintro ⟨hkept, hleaves⟩
      exact ⟨hkept, hadd.terminalKept, (keeps_submit h hkept hadd hbegins).mpr hleaves⟩
  | resetWindow identity =>
    exact ⟨_, rfl, ⟨h.queue, h.jobs, h.clean⟩, ⟨fun hkept => ⟨hkept, trivial⟩, And.left⟩⟩

theorem run_kept (hash : ContentHash) (h : s.Settled) (events : List Event) :
    ∃ s', Transition.run (Service.step hash) s events = some s' ∧
      (TerminalKept s'.puts ↔ TerminalKept s.puts ∧
        Transition.Always (Service.step hash) (LeavesTerminal hash) s events) := by
  induction events generalizing s with
  | nil => exact ⟨s, rfl, ⟨fun hkept => ⟨hkept, trivial⟩, And.left⟩⟩
  | cons event events ih =>
    obtain ⟨m, hstep, hm, hiff⟩ := step_kept hash h event
    obtain ⟨s', hrun, hrest⟩ := ih hm
    refine ⟨s', Transition.run_cons_eq_some.2 ⟨m, hstep, hrun⟩, ?_⟩
    rw [hrest, hiff, and_assoc]
    refine and_congr_right fun _ => and_congr_right fun _ => ⟨fun hall m' hm' => ?_, fun hall => ?_⟩
    · exact Option.some.inj (hstep.symm.trans hm') ▸ hall
    · exact hall m hstep

/-- **Main theorem.** Every sequence of calls runs to its end, and no terminal record is changed or
loses its result exactly if every call leaves the record of its ticket alone where it is terminal. -/
theorem terminal_kept_iff (hash : ContentHash) (limit : ℕ) (events : List Event) :
    ∃ s, Transition.run (Service.step hash) (Service.init limit []) events = some s ∧
      (TerminalKept s.puts ↔ Transition.Always (Service.step hash) (LeavesTerminal hash)
        (Service.init limit []) events) := by
  obtain ⟨s, hrun, hiff⟩ := run_kept hash (settled_init limit) events
  exact ⟨s, hrun, hiff.trans (and_iff_right List.Pairwise.nil)⟩

/-! ## A resubmission -/

/-- Services that answer every check, with a policy that reproduces its scores. -/
def agreeable : Answers where
  authorize _ := .ok ()
  resolve reference := .ok reference
  attest _ := .ok ()
  validate _ := .ok ()
  policyRef _ := .ok "lab.policy:Policy"
  heldout _ := .ok [11, 12]
  scorer _ policyRef _ := .ok policyRef
  putBundle card _ := .ok card
  resample _ _ _ := .ok .verified
  addSubmission := .ok ()

/-- A submission of an artifact by its tag. -/
def excavator : Attempt where
  scenarioId := "psr-excavation"
  request := ⟨"psr-excavation", "excavator:1.0.0", none, some "lab"⟩
  identity := "idp/lab"
  answers := agreeable

/-- The values of an object, one after the other, in place of a digest. -/
def plainHash : ContentHash := fun fields => String.join (fields.map Prod.snd)

/-- The artifact is ranked, and submitted again by the same principal. -/
def resubmitted : List Event := [.submit excavator, .submit excavator]

/-- **Counterexample.** The second submission puts a queued record on the ranked one, and its
result is lost. -/
theorem resubmitted_not_kept :
    ¬ ∀ (hash : ContentHash) (limit : ℕ) (events : List Event) (s : Service),
      Transition.run (Service.step hash) (Service.init limit []) events = some s →
        TerminalKept s.puts := by
  intro h
  have hkept := h plainHash 60 resubmitted _ rfl
  have hpair := List.pairwise_iff_getElem.mp hkept 3 4 (by decide) (by decide) (by decide)
  cases (hpair rfl rfl).1

end AstroMine.Bench
