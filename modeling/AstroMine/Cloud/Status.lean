import AstroMine.Lib.Dict
import AstroMine.Lib.Joined
import AstroMine.Lib.Transition

/-!
# The Redis status index (`cloud/runs/status.py`)

A status is a key that expires, and the index is a set of run addresses. `set_status` writes the key
and then the index; `list_statuses` reads the index, then each key, and takes an address off the
index when its key is gone. A step of the system is one Redis command of one call, or a key that
expires. The body of a key stands for the status that it parses to.

Results:
* `wellFormed_step`: an address is taken off the index with its key in place by one kind of step.
* `mem_listStatuses`: a call that runs alone returns every status whose address is in the index.
* `index_keeps_live`: without such a step no live status is lost, in any run.
* `healedOver_not_indexed`: a run that loses one.
-/

namespace AstroMine.Cloud

/-- `RunStatus` (`cloud/runs/events.py`, line 37). -/
inductive RunStatus
  | submitted
  | started
  | completed
  | failed
  deriving DecidableEq

/-- `JobStatus` (lines 43–51). -/
structure JobStatus where
  runAddress : String
  status : RunStatus
  tenant : Option String
  runId : Option String
  deriving DecidableEq

/-! ## Redis commands -/

/-- What a key holds: the text of a status, or a set. -/
inductive Value
  | text (status : JobStatus)
  | members (addresses : List String)
  deriving DecidableEq

/-- The keys that hold something. -/
abbrev Redis := String → Option Value

namespace Redis

variable (r : Redis) (key member : String)

/-- `SET`: what the key held is replaced, of whatever type it was. -/
def set (value : JobStatus) : Redis := Function.update r key (some (.text value))

/-- `GET`, `none` where the server answers `WRONGTYPE`. -/
def get : Option (Option JobStatus) :=
  match r key with
  | none => some none
  | some (.text status) => some (some status)
  | some (.members _) => none

/-- `SMEMBERS`, `none` where the server answers `WRONGTYPE`. A key that is gone is the empty set. -/
def smembers : Option (List String) :=
  match r key with
  | none => some []
  | some (.text _) => none
  | some (.members addresses) => some addresses

/-- `SADD`. -/
def sadd : Option Redis :=
  (r.smembers key).map fun ms => Function.update r key (some (.members (ms.insert member)))

/-- `SREM`. -/
def srem : Option Redis :=
  (r.smembers key).map fun ms =>
    Function.update r key (some (.members (ms.filter fun a => a ≠ member)))

end Redis

/-! ## The calls -/

/-- `_KEY_PREFIX` (line 34). -/
def keyPrefix : String := "astro-mine:cloud:status"

/-- `_INDEX_KEY` (line 36). -/
def indexKey : String := joined keyPrefix "index"

/-- `_key` (line 116). -/
def statusKey (runAddress : String) : String := joined keyPrefix runAddress

/-- A call by the command it issues next: `set_status` at its `SET` or its `SADD` (lines 119–121),
and `list_statuses` at its `SMEMBERS`, at the `GET` of the first address that is left, or at the
`SREM` of an address whose `GET` answered nothing (lines 129–140). -/
inductive Call
  | set (status : JobStatus)
  | add (status : JobStatus)
  | list (tenant : Option String)
  | visit (tenant : Option String) (addresses : List String) (statuses : List JobStatus)
  | drop (tenant : Option String) (address : String) (addresses : List String)
      (statuses : List JobStatus)

/-- What a command leads to: another command, or the end of the call. -/
inductive Outcome
  | more (call : Call)
  | returned (statuses : List JobStatus)
  | raised

/-- The call that goes on, if it does. -/
def Outcome.next : Outcome → Option Call
  | .more call => some call
  | .returned _ => none
  | .raised => none

/-- `tenant is None or status.tenant == tenant` (line 138). -/
def wanted (tenant : Option String) (status : JobStatus) : Bool :=
  tenant.all fun t => status.tenant = some t

/-- The command of a call on the keys, and what it leads to. -/
def Call.command (r : Redis) : Call → Redis × Outcome
  | .set status => (r.set (statusKey status.runAddress) status, .more (.add status))
  | .add status =>
    match r.sadd indexKey status.runAddress with
    | some r' => (r', .returned [])
    | none => (r, .raised)
  | .list tenant =>
    match r.smembers indexKey with
    | some ms => (r, .more (.visit tenant (sortOn id ms) []))
    | none => (r, .raised)
  | .visit _ [] statuses => (r, .returned statuses)
  | .visit tenant (address :: rest) statuses =>
    match r.get (statusKey address) with
    | some (some status) =>
      (r, .more (.visit tenant rest (if wanted tenant status then statuses ++ [status]
        else statuses)))
    | some none => (r, .more (.drop tenant address rest statuses))
    | none => (r, .raised)
  | .drop tenant address rest statuses =>
    match r.srem indexKey address with
    | some r' => (r', .more (.visit tenant rest statuses))
    | none => (r, .raised)

/-- What a call returns that runs alone, in at most `fuel` commands. -/
def Call.alone : ℕ → Redis → Call → Option (List JobStatus)
  | 0, _, _ => none
  | fuel + 1, r, call =>
    match (call.command r).2 with
    | .more next => Call.alone fuel (call.command r).1 next
    | .returned statuses => some statuses
    | .raised => none

/-! ## The system -/

/-- The keys and the calls in progress, one for each client. -/
structure Store (ι : Type) where
  redis : Redis
  calls : ι → Option Call

/-- The steps: a call begins, a call issues its next command, a key expires. -/
inductive Step (ι : Type)
  | beginSet (c : ι) (status : JobStatus)
  | beginList (c : ι) (tenant : Option String)
  | command (c : ι)
  | expire (key : String)

namespace Store

variable {ι : Type}

/-- No key, and no call. -/
def init : Store ι := ⟨fun _ => none, fun _ => none⟩

/-- The call of a client after a step of it. -/
def setCall [DecidableEq ι] (w : Store ι) (c : ι) (call : Option Call) : Store ι :=
  { w with calls := Function.update w.calls c call }

/-- One step. A status is written with an expiry and the index is not, so that a text is what
expires. -/
def step [DecidableEq ι] (w : Store ι) : Step ι → Option (Store ι)
  | .beginSet c status =>
    match w.calls c with
    | none => some (w.setCall c (some (.set status)))
    | some _ => none
  | .beginList c tenant =>
    match w.calls c with
    | none => some (w.setCall c (some (.list tenant)))
    | some _ => none
  | .command c =>
    match w.calls c with
    | none => none
    | some call =>
      some { w.setCall c ((call.command w.redis).2).next with
        redis := (call.command w.redis).1 }
  | .expire key =>
    match w.redis key with
    | some (.text _) => some { w with redis := Function.update w.redis key none }
    | _ => none

/-- No call is in progress. -/
def Quiet (w : Store ι) : Prop := ∀ c, w.calls c = none

/-- A call of `set_status` for the address has its `SADD` before it. -/
def Adding (w : Store ι) (address : String) : Prop :=
  ∃ c status, w.calls c = some (.add status) ∧ status.runAddress = address

/-- The steps that lose no live status: the address is not the name of the index itself, and an
`SREM` finds the key still gone, or the address about to be added. -/
def Careful (w : Store ι) : Step ι → Prop
  | .beginSet _ status => status.runAddress ≠ "index"
  | .command c => ∀ tenant address rest statuses,
      w.calls c = some (.drop tenant address rest statuses) →
      w.redis (statusKey address) = none ∨ w.Adding address
  | _ => True

end Store

/-! ## The keys -/

namespace Redis

variable {r : Redis}

/-- The address is a member of the index. -/
def Indexed (r : Redis) (address : String) : Prop := ∃ ms ∈ r.smembers indexKey, address ∈ ms

/-- The index is a set without its own name, and the key of a run is not a set. -/
structure Sound (r : Redis) : Prop where
  index : ∀ status, r indexKey ≠ some (.text status)
  members : ¬ r.Indexed "index"
  keys : ∀ address ms, address ≠ "index" → r (statusKey address) ≠ some (.members ms)

theorem statusKey_eq_indexKey {address : String} : statusKey address = indexKey ↔ address = "index" :=
  joined_right_inj keyPrefix address "index"

theorem statusKey_inj {a b : String} : statusKey a = statusKey b ↔ a = b :=
  joined_right_inj keyPrefix a b

theorem smembers_congr {r' : Redis} {key : String} (h : r' key = r key) :
    r'.smembers key = r.smembers key := by
  simp only [smembers, h]

theorem indexed_congr {r' : Redis} (h : r' indexKey = r indexKey) (address : String) :
    r'.Indexed address ↔ r.Indexed address := by
  rw [Indexed, Indexed, smembers_congr h]

theorem Sound.smembers_eq (h : r.Sound) : ∃ ms, r.smembers indexKey = some ms := by
  rw [smembers]
  cases hr : r indexKey with
  | none => exact ⟨[], rfl⟩
  | some value =>
    cases value with
    | text status => exact absurd hr (h.index status)
    | members ms => exact ⟨ms, rfl⟩

/-- The index after its members are replaced. -/
theorem indexed_update (ms : List String) (address : String) :
    Indexed (Function.update r indexKey (some (.members ms))) address ↔ address ∈ ms := by
  simp [Indexed, smembers]

theorem Sound.update_members (h : r.Sound) {ms : List String} (hms : "index" ∉ ms) :
    Sound (Function.update r indexKey (some (.members ms))) where
  index status := by simp
  members := fun hin => hms ((indexed_update ms "index").mp hin)
  keys address ms' hne := by
    rw [Function.update_of_ne (mt statusKey_eq_indexKey.1 hne)]
    exact h.keys address ms' hne

/-- A status key that is written, or that expires, leaves the index alone. -/
theorem Sound.update_key (h : r.Sound) {key : String} (hkey : key ≠ indexKey) {value : Option Value}
    (hvalue : ∀ ms, value ≠ some (.members ms)) : Sound (Function.update r key value) where
  index status := by
    rw [Function.update_of_ne hkey.symm]
    exact h.index status
  members := by
    rw [indexed_congr (Function.update_of_ne hkey.symm _ _)]
    exact h.members
  keys address ms hne := by
    rw [Function.update_apply]
    split_ifs
    · exact hvalue ms
    · exact h.keys address ms hne

/-- A key that holds a status is not the index. -/
theorem Sound.ne_index (h : r.Sound) {address : String} {status : JobStatus}
    (hr : r (statusKey address) = some (.text status)) : address ≠ "index" := by
  intro heq
  exact h.index status ((congrArg r (statusKey_eq_indexKey.2 heq).symm).trans hr)

/-- Two states of the keys that differ at the index alone. -/
def SameKeys (r r' : Redis) : Prop :=
  ∀ address, address ≠ "index" → r' (statusKey address) = r (statusKey address)

theorem sameKeys_update (value : Option Value) : r.SameKeys (Function.update r indexKey value) :=
  fun _ hne => Function.update_of_ne (mt statusKey_eq_indexKey.1 hne) _ _

theorem Sound.sadd_eq (h : r.Sound) {address : String} (hne : address ≠ "index") :
    ∃ r', r.sadd indexKey address = some r' ∧ r'.Sound ∧ r.SameKeys r' ∧
      ∀ a, r'.Indexed a ↔ a = address ∨ r.Indexed a := by
  obtain ⟨ms, hms⟩ := h.smembers_eq
  have hin : ∀ a, r.Indexed a ↔ a ∈ ms := fun a =>
    ⟨fun ⟨ms', hms', ha⟩ => Option.some.inj (hms'.symm.trans hms) ▸ ha, fun ha => ⟨ms, hms, ha⟩⟩
  refine ⟨_, by rw [sadd, hms]; rfl, h.update_members ?_, sameKeys_update _, fun a => ?_⟩
  · rw [List.mem_insert_iff, ← hin]
    rintro (heq | hmem)
    · exact hne heq.symm
    · exact h.members hmem
  · rw [indexed_update, List.mem_insert_iff, hin]

theorem Sound.srem_eq (h : r.Sound) (address : String) :
    ∃ r', r.srem indexKey address = some r' ∧ r'.Sound ∧ r.SameKeys r' ∧
      ∀ a, r'.Indexed a ↔ r.Indexed a ∧ a ≠ address := by
  obtain ⟨ms, hms⟩ := h.smembers_eq
  have hin : ∀ a, r.Indexed a ↔ a ∈ ms := fun a =>
    ⟨fun ⟨ms', hms', ha⟩ => Option.some.inj (hms'.symm.trans hms) ▸ ha, fun ha => ⟨ms, hms, ha⟩⟩
  refine ⟨_, by rw [srem, hms]; rfl, h.update_members ?_, sameKeys_update _, fun a => ?_⟩
  · rw [List.mem_filter, ← hin]
    exact fun hmem => h.members hmem.1
  · rw [indexed_update, List.mem_filter, hin, decide_eq_true_eq]

end Redis

namespace Store

variable {ι : Type}

/-! ## What the steps keep -/

/-- The invariant: no call writes at the name of the index, and a live key is in the index or about
to be. -/
structure WellFormed (w : Store ι) : Prop where
  redis : w.redis.Sound
  set : ∀ c status, w.calls c = some (.set status) → status.runAddress ≠ "index"
  add : ∀ c status, w.calls c = some (.add status) → status.runAddress ≠ "index"
  live : ∀ address status, w.redis (statusKey address) = some (.text status) →
    w.redis.Indexed address ∨ w.Adding address

theorem wellFormed_init : (init : Store ι).WellFormed where
  redis := by
    refine ⟨(fun status h => nomatch h), ?_, fun address ms _ h => nomatch h⟩
    rintro ⟨ms, hms, hmem⟩
    obtain rfl := Option.some.inj hms
    cases hmem
  set _ _ h := by cases h
  add _ _ h := by cases h
  live _ _ h := by cases h

variable {w w' : Store ι}

/-- The invariant after the keys have changed in a way that keeps the live ones in the index. -/
theorem WellFormed.setRedis (h : w.WellFormed) {r : Redis} (hr : r.Sound)
    (hlive : ∀ address status, r (statusKey address) = some (.text status) →
      r.Indexed address ∨ w.Adding address) : ({ w with redis := r } : Store ι).WellFormed :=
  ⟨hr, h.set, h.add, hlive⟩

variable [DecidableEq ι]

/-- A call other than an `SADD` that takes a step leaves what is about to be added. -/
theorem Adding.setCall {c : ι} {call : Option Call} {address : String} (h : w.Adding address)
    (hc : ∀ status, w.calls c ≠ some (.add status)) : (w.setCall c call).Adding address := by
  obtain ⟨c', status, hcall, haddr⟩ := h
  refine ⟨c', status, ?_, haddr⟩
  have hne : c' ≠ c := fun heq => hc status (heq ▸ hcall)
  exact (Function.update_of_ne hne _ _).trans hcall

/-- The invariant after the call of a client that is not at an `SADD` has gone on, with the keys as
they are. -/
theorem WellFormed.setCall (h : w.WellFormed) {c : ι} {call : Option Call}
    (hc : ∀ status, w.calls c ≠ some (.add status))
    (hset : ∀ status, call = some (.set status) → status.runAddress ≠ "index")
    (hadd : ∀ status, call = some (.add status) → status.runAddress ≠ "index") :
    (w.setCall c call).WellFormed where
  redis := h.redis
  set c' status hs := by
    change Function.update w.calls c call c' = _ at hs
    rw [Function.update_apply] at hs
    split_ifs at hs
    · exact hset status hs
    · exact h.set c' status hs
  add c' status hs := by
    change Function.update w.calls c call c' = _ at hs
    rw [Function.update_apply] at hs
    split_ifs at hs
    · exact hadd status hs
    · exact h.add c' status hs
  live address status hs := (h.live address status hs).imp_right fun ha => ha.setCall hc

/-- The invariant after an `SADD`, with which its call is over. -/
theorem WellFormed.endAdd (h : w.WellFormed) {c : ι} {status : JobStatus} {r : Redis}
    (hc : w.calls c = some (.add status)) (hr : r.Sound) (hkeys : w.redis.SameKeys r)
    (hindex : ∀ a, r.Indexed a ↔ a = status.runAddress ∨ w.redis.Indexed a) :
    ({ w.setCall c none with redis := r } : Store ι).WellFormed where
  redis := hr
  set c' s hs := by
    change Function.update w.calls c none c' = _ at hs
    rw [Function.update_apply] at hs
    split_ifs at hs
    exact h.set c' s hs
  add c' s hs := by
    change Function.update w.calls c none c' = _ at hs
    rw [Function.update_apply] at hs
    split_ifs at hs
    exact h.add c' s hs
  live address s hs := by
    change r (statusKey address) = _ at hs
    rw [hkeys address (hr.ne_index hs)] at hs
    rcases h.live address s hs with hin | ⟨c', s', hc', haddr⟩
    · exact .inl ((hindex address).mpr (.inr hin))
    · by_cases heq : c' = c
      · obtain rfl := Call.add.inj (Option.some.inj ((heq ▸ hc').symm.trans hc))
        exact .inl ((hindex address).mpr (.inl haddr.symm))
      · exact .inr ⟨c', s', (Function.update_of_ne heq _ _).trans hc', haddr⟩

/-- The commands of the calls keep the invariant, if an `SREM` is careful. -/
theorem wellFormed_command (h : w.WellFormed) {c : ι} {call : Call} (hc : w.calls c = some call)
    (hok : w.Careful (.command c)) :
    ({ w.setCall c (call.command w.redis).2.next with
      redis := (call.command w.redis).1 } : Store ι).WellFormed := by
  have hother : (∀ status, call ≠ .add status) → ∀ status, w.calls c ≠ some (.add status) :=
    fun hne status hs => hne status (Option.some.inj (hc.symm.trans hs))
  cases call with
  | set status =>
    have hne := h.set c status hc
    have hkey : statusKey status.runAddress ≠ indexKey := mt Redis.statusKey_eq_indexKey.1 hne
    have hw : (w.setCall c (some (.add status))).WellFormed := by
      refine h.setCall (hother fun _ hs => by cases hs) (fun s hs => by cases hs) fun s hs => ?_
      obtain rfl := Call.add.inj (Option.some.inj hs)
      exact hne
    refine hw.setRedis (h.redis.update_key hkey fun _ hv => by cases hv) fun address s hs => ?_
    change (w.redis.set (statusKey status.runAddress) status).Indexed address ∨ _
    change Function.update w.redis (statusKey status.runAddress) _ (statusKey address) = _ at hs
    rw [Redis.set, Redis.indexed_congr (Function.update_of_ne hkey.symm _ _)]
    rw [Function.update_apply] at hs
    split_ifs at hs with heq
    · exact .inr ⟨c, status, Function.update_self .., (Redis.statusKey_inj.1 heq).symm⟩
    · exact hw.live address s hs
  | add status =>
    obtain ⟨r, hr, hsound, hkeys, hindex⟩ := h.redis.sadd_eq (h.add c status hc)
    simp only [Call.command, hr, Outcome.next]
    exact h.endAdd hc hsound hkeys hindex
  | list tenant =>
    obtain ⟨ms, hms⟩ := h.redis.smembers_eq
    simp only [Call.command, hms, Outcome.next]
    exact h.setCall (hother fun _ hs => by cases hs) (fun s hs => by cases hs)
      (fun s hs => by cases hs)
  | visit tenant addresses statuses =>
    have hw : ∀ next : Option Call, (∀ s, next ≠ some (.set s)) → (∀ s, next ≠ some (.add s)) →
        (w.setCall c next).WellFormed := fun next hset hadd =>
      h.setCall (hother fun _ hs => by cases hs) (fun s hs => absurd hs (hset s))
        (fun s hs => absurd hs (hadd s))
    cases addresses with
    | nil => exact hw none (fun _ hs => by cases hs) (fun _ hs => by cases hs)
    | cons address rest =>
      simp only [Call.command]
      split
      · exact hw _ (fun _ hs => by cases hs) (fun _ hs => by cases hs)
      · exact hw _ (fun _ hs => by cases hs) (fun _ hs => by cases hs)
      · exact hw _ (fun _ hs => by cases hs) (fun _ hs => by cases hs)
  | drop tenant address rest statuses =>
    obtain ⟨r, hr, hsound, hkeys, hindex⟩ := h.redis.srem_eq address
    have hw : (w.setCall c (some (.visit tenant rest statuses))).WellFormed :=
      h.setCall (hother fun _ hs => by cases hs) (fun s hs => by cases hs)
        (fun s hs => by cases hs)
    simp only [Call.command, hr, Outcome.next]
    refine hw.setRedis hsound fun a s hs => ?_
    rw [hkeys a (hsound.ne_index hs)] at hs
    rw [hindex]
    by_cases heq : a = address
    · rcases hok tenant address rest statuses hc with hgone | hadding
      · rw [heq, hgone] at hs
        cases hs
      · exact .inr ((heq ▸ hadding).setCall (hother fun _ hs => by cases hs))
    · exact (hw.live a s hs).imp_left fun hin => ⟨hin, heq⟩

/-- **Step.** A step that is careful keeps the invariant. -/
theorem wellFormed_step (h : w.WellFormed) {a : Step ι} (hok : w.Careful a)
    (hstep : w.step a = some w') : w'.WellFormed := by
  cases a with
  | beginSet c status =>
    simp only [step] at hstep
    split at hstep
    · next hc =>
      obtain rfl := Option.some.inj hstep
      refine h.setCall (fun s hs => by rw [hc] at hs; cases hs) (fun s hs => ?_)
        (fun s hs => by cases hs)
      obtain rfl := Call.set.inj (Option.some.inj hs)
      exact hok
    · cases hstep
  | beginList c tenant =>
    simp only [step] at hstep
    split at hstep
    · next hc =>
      obtain rfl := Option.some.inj hstep
      exact h.setCall (fun s hs => by rw [hc] at hs; cases hs) (fun s hs => by cases hs)
        (fun s hs => by cases hs)
    · cases hstep
  | expire key =>
    simp only [step] at hstep
    split at hstep
    · next status hkey =>
      obtain rfl := Option.some.inj hstep
      have hne : key ≠ indexKey := fun heq => h.redis.index status (heq ▸ hkey)
      refine h.setRedis (h.redis.update_key hne fun _ hv => by cases hv) fun address s hs => ?_
      rw [Redis.indexed_congr (Function.update_of_ne hne.symm _ _)]
      rw [Function.update_apply] at hs
      split_ifs at hs
      exact h.live address s hs
    · cases hstep
  | command c =>
    simp only [step] at hstep
    split at hstep
    · cases hstep
    · next call hc =>
      obtain rfl := Option.some.inj hstep
      exact wellFormed_command h hc hok

/-! ## A call that runs alone -/

end Store

namespace Redis

variable {r : Redis}

/-- On keys that are sound, a `GET` of a member of the index is answered. -/
theorem Sound.get_eq (h : r.Sound) {address : String} (hne : address ≠ "index") :
    ∃ found, r.get (statusKey address) = some found ∧
      ∀ status, r (statusKey address) = some (.text status) → found = some status := by
  rw [get]
  cases hr : r (statusKey address) with
  | none => exact ⟨none, rfl, fun status hs => by cases hs⟩
  | some value =>
    cases value with
    | text status =>
      exact ⟨some status, rfl, fun s hs => by rw [Value.text.inj (Option.some.inj hs)]⟩
    | members ms => exact absurd hr (h.keys address ms hne)

/-- The loop over the addresses that are left returns what was found so far, and the statuses of
live keys among those addresses. -/
theorem Sound.alone_visit (tenant : Option String) {addresses : List String}
    (haddr : ∀ a ∈ addresses, a ≠ "index") (h : r.Sound) (statuses : List JobStatus) :
    ∃ fuel found, Call.alone fuel r (.visit tenant addresses statuses) = some found ∧
      statuses ⊆ found ∧ ∀ address ∈ addresses, ∀ status,
        r (statusKey address) = some (.text status) → wanted tenant status → status ∈ found := by
  induction addresses generalizing r statuses with
  | nil => exact ⟨1, statuses, rfl, List.Subset.refl _, fun _ ha => by cases ha⟩
  | cons address rest ih =>
    have hrest : ∀ a ∈ rest, a ≠ "index" := fun a ha => haddr a (List.mem_cons_of_mem _ ha)
    obtain ⟨answer, hget, hlive⟩ := h.get_eq (haddr address List.mem_cons_self)
    cases answer with
    | none =>
      obtain ⟨r', hr', hsound, hkeys, -⟩ := h.srem_eq address
      obtain ⟨fuel, found, halone, hsub, hfound⟩ := ih hrest hsound statuses
      refine ⟨fuel + 2, found, ?_, hsub, fun a ha status hs hw => ?_⟩
      · simp only [Call.alone, Call.command, hget, hr']
        exact halone
      · rcases List.mem_cons.mp ha with rfl | hmem
        · cases hlive status hs
        · exact hfound a hmem status ((hkeys a (hrest a hmem)).trans hs) hw
    | some status =>
      obtain ⟨fuel, found, halone, hsub, hfound⟩ :=
        ih hrest h (if wanted tenant status then statuses ++ [status] else statuses)
      refine ⟨fuel + 1, found, ?_, ?_, fun a ha s hs hw => ?_⟩
      · simp only [Call.alone, Call.command, hget]
        exact halone
      · refine List.Subset.trans ?_ hsub
        split_ifs
        · exact List.subset_append_left _ _
        · exact List.Subset.refl _
      · rcases List.mem_cons.mp ha with rfl | hmem
        · obtain rfl := Option.some.inj (hlive s hs)
          refine hsub ?_
          rw [if_pos hw]
          exact List.mem_append_right _ (List.mem_singleton_self _)
        · exact hfound a hmem s hs hw

/-- A call of `list_statuses` that runs alone returns every live status that is in the index. -/
theorem Sound.mem_listStatuses (h : r.Sound) (tenant : Option String) :
    ∃ fuel found, Call.alone fuel r (.list tenant) = some found ∧
      ∀ address status, r.Indexed address → r (statusKey address) = some (.text status) →
        wanted tenant status → status ∈ found := by
  obtain ⟨ms, hms⟩ := h.smembers_eq
  have hne : ∀ a ∈ sortOn id ms, a ≠ "index" := fun a ha heq =>
    h.members ⟨ms, hms, heq ▸ (mem_sortOn id ms a).mp ha⟩
  obtain ⟨fuel, found, halone, -, hfound⟩ := h.alone_visit tenant hne []
  refine ⟨fuel + 1, found, ?_, fun address status hin hs hw => ?_⟩
  · simp only [Call.alone, Call.command, hms]
    exact halone
  · obtain ⟨ms', hms', hmem⟩ := hin
    obtain rfl := Option.some.inj (hms'.symm.trans hms)
    exact hfound address ((mem_sortOn id ms' address).mpr hmem) status hs hw

end Redis

namespace Store

variable {ι : Type} {w : Store ι}

/-- What is to hold where no call is in progress: a live status is in the index, and a call that
lists the statuses returns it. -/
def KeepsLive (w : Store ι) : Prop :=
  w.Quiet → ∀ address status, w.redis (statusKey address) = some (.text status) →
    w.redis.Indexed address ∧ ∀ tenant, wanted tenant status →
      ∃ fuel found, Call.alone fuel w.redis (.list tenant) = some found ∧ status ∈ found

theorem WellFormed.keepsLive (h : w.WellFormed) : w.KeepsLive := by
  intro hquiet address status hs
  have hin : w.redis.Indexed address := by
    rcases h.live address status hs with hin | ⟨c, s, hc, -⟩
    · exact hin
    · rw [hquiet c] at hc
      cases hc
  refine ⟨hin, fun tenant hw => ?_⟩
  obtain ⟨fuel, found, halone, hfound⟩ := h.redis.mem_listStatuses tenant
  exact ⟨fuel, found, halone, hfound address status hin hs hw⟩

/-- **Main theorem.** In every interleaving of the commands and the expirations whose steps are
careful, no live status is lost. -/
theorem index_keeps_live [DecidableEq ι] {steps : List (Step ι)}
    (hok : Transition.Always step Careful init steps)
    (h : Transition.run step init steps = some w) : w.KeepsLive :=
  (Transition.run_invariant_of_always WellFormed (fun _ _ _ hI hc hs => wellFormed_step hI hc hs)
    wellFormed_init hok h).keepsLive

/-! ## Two clients -/

/-- The status of a run that goes on. -/
def started : JobStatus := ⟨"run-7", .started, none, none⟩

/-- A status is set and expires, and is set again while the other client lists the statuses: before
its `SREM`, which comes after the `SADD`. -/
def healedOver : List (Step Bool) :=
  [.beginSet true started, .command true, .command true, .expire (statusKey "run-7"),
    .beginList false none, .command false, .command false, .beginSet true started, .command true,
    .command true, .command false, .command false]

/-- The listing is over before the status is set again. -/
def healedBefore : List (Step Bool) :=
  [.beginSet true started, .command true, .command true, .expire (statusKey "run-7"),
    .beginList false none, .command false, .command false, .command false, .command false,
    .beginSet true started, .command true, .command true]

theorem always_healedBefore : Transition.Always step Careful (init : Store Bool) healedBefore := by
  have hset : started.runAddress ≠ "index" := by decide
  refine ⟨hset, fun t ht => ?_⟩
  obtain rfl := Option.some.inj ht
  refine ⟨fun tenant address rest statuses hc => (by cases hc), fun t ht => ?_⟩
  obtain rfl := Option.some.inj ht
  refine ⟨fun tenant address rest statuses hc => (by cases hc), fun t ht => ?_⟩
  obtain rfl := Option.some.inj ht
  refine ⟨trivial, fun t ht => ?_⟩
  obtain rfl := Option.some.inj ht
  refine ⟨trivial, fun t ht => ?_⟩
  obtain rfl := Option.some.inj ht
  refine ⟨fun tenant address rest statuses hc => (by cases hc), fun t ht => ?_⟩
  obtain rfl := Option.some.inj ht
  refine ⟨fun tenant address rest statuses hc => (by cases hc), fun t ht => ?_⟩
  obtain rfl := Option.some.inj ht
  refine ⟨fun tenant address rest statuses hc => .inl ?_, fun t ht => ?_⟩
  · obtain ⟨rfl, rfl, rfl, rfl⟩ := Call.drop.inj (Option.some.inj hc)
    rfl
  obtain rfl := Option.some.inj ht
  refine ⟨fun tenant address rest statuses hc => (by cases hc), fun t ht => ?_⟩
  obtain rfl := Option.some.inj ht
  refine ⟨hset, fun t ht => ?_⟩
  obtain rfl := Option.some.inj ht
  refine ⟨fun tenant address rest statuses hc => (by cases hc), fun t ht => ?_⟩
  obtain rfl := Option.some.inj ht
  exact ⟨fun tenant address rest statuses hc => (by cases hc), fun t ht => trivial⟩

theorem healedBefore_keepsLive :
    ∃ w, Transition.run step (init : Store Bool) healedBefore = some w ∧ w.KeepsLive := by
  refine ⟨_, rfl, ?_⟩
  exact index_keeps_live always_healedBefore
    (show Transition.run step init healedBefore = some _ from rfl)

/-- **Counterexample.** The listing takes the address off the index after it was set again. -/
theorem healedOver_not_indexed :
    ¬ ∀ (steps : List (Step Bool)) (w : Store Bool),
      Transition.run step init steps = some w → w.KeepsLive := by
  intro h
  obtain ⟨⟨ms, hms, hmem⟩, -⟩ := h healedOver _ rfl (fun c => by cases c <;> rfl) "run-7" started rfl
  obtain rfl := Option.some.inj hms
  revert hmem
  decide

end Store

end AstroMine.Cloud
