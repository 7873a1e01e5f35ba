import AstroMine.Lib.Dict
import AstroMine.Lib.Except
import Mathlib.Algebra.BigOperators.Group.List.Basic
import Mathlib.Algebra.Order.BigOperators.Group.List
import Mathlib.Algebra.Order.Field.Basic
import Mathlib.Tactic.Linarith

/-!
# Budgets and quotas (`cloud/sched/budget.py`, `cloud/sched/kueue.py`)

A ledger refuses a charge that would take a tenant past the cap. A queue admits a request while the
tenant stays within the quota, and gives back what was reserved when the job ends. Amounts are
exact.

Results:
* `ledger_run`: what a ledger has spent after any charges, and which it accepts.
* `cluster_run`: what a queue has reserved after any submissions and ends of jobs, and which it
  admits.
-/

namespace AstroMine.Cloud

variable {K : Type} [Field K] [LinearOrder K]

/-! ## Model: the ledger -/

/-- `CostRates` (line 30). -/
structure CostRates (K : Type) where
  cpuHour : K
  gpuHour : K
  spotDiscount : K

/-- What the ledger raises: `ValueError`, `BudgetExceeded`, and `KeyError` for a tenant without a
cap. -/
inductive BudgetError (K : Type)
  | negative
  | exceeded (tenant : String) (cap spent amount : K)
  | noCap (tenant : String)

/-- `estimate_cost` (lines 39–56), with the rates given. -/
def estimateCost (rates : CostRates K) (hours cpus gpus : K) (spot : Bool) :
    Except (BudgetError K) K := do
  refuseIf (hours < 0 ∨ cpus < 0 ∨ gpus < 0) .negative
  let raw := hours * (cpus * rates.cpuHour + gpus * rates.gpuHour)
  return if spot then raw * rates.spotDiscount else raw

/-- `BudgetLedger` (line 59). -/
structure BudgetLedger (K : Type) where
  caps : Dict String K
  spent : Dict String K

namespace BudgetLedger

/-- `__init__` (lines 62–64). -/
def new (caps : Dict String K) : BudgetLedger K := ⟨caps, caps.mapValues fun _ => 0⟩

/-- `_cap` (lines 66–70). -/
def cap (ledger : BudgetLedger K) (tenant : String) : Except (BudgetError K) K :=
  match ledger.caps.get? tenant with
  | none => .error (.noCap tenant)
  | some cap => .ok cap

/-- `charge` with `would_exceed` (lines 72–90). -/
def charge (ledger : BudgetLedger K) (tenant : String) (amount : K) :
    Except (BudgetError K) (BudgetLedger K) := do
  refuseIf (amount < 0) .negative
  let cap ← ledger.cap tenant
  let spent := ledger.spent.getD tenant 0
  refuseIf (cap < spent + amount) (.exceeded tenant cap spent amount)
  return { ledger with spent := ledger.spent.set tenant (spent + amount) }

/-- A charge by a caller that goes on where it is refused. -/
def attempt (ledger : BudgetLedger K) (op : String × K) : BudgetLedger K :=
  match ledger.charge op.1 op.2 with
  | .ok ledger' => ledger'
  | .error _ => ledger

end BudgetLedger

/-! ## Model: the queue -/

/-- `QueueAdmission` (line 99). -/
structure QueueAdmission (K : Type) where
  quotas : Dict String (Dict String K)
  used : Dict String (Dict String K)

/-- `KeyError` for a tenant without a quota. -/
inductive AdmissionError
  | unknownTenant (tenant : String)
deriving DecidableEq

/-- `for resource, amount in request.items():` with one entry rewritten by each. -/
def combine (f : K → K → K) (used : Dict String K) (request : Dict String K) : Dict String K :=
  request.entries.foldl (fun used e => used.set e.1 (f (used.getD e.1 0) e.2)) used

namespace QueueAdmission

/-- `__init__` (lines 108–112). -/
def new (quotas : Dict String (Dict String K)) : QueueAdmission K :=
  ⟨quotas, quotas.mapValues fun quota => quota.mapValues fun _ => 0⟩

/-- `_fits` (lines 114–117). -/
def fits (quota used request : Dict String K) : Bool :=
  request.entries.all fun e => decide (used.getD e.1 0 + e.2 ≤ quota.getD e.1 0)

/-- `admit` (lines 119–127). -/
def tryAdmit (q : QueueAdmission K) (tenant : String) (request : Dict String K) :
    Except AdmissionError (Bool × QueueAdmission K) :=
  match q.quotas.get? tenant with
  | none => .error (.unknownTenant tenant)
  | some quota =>
    let used := q.used.getD tenant .empty
    if fits quota used request then
      .ok (true, { q with used := q.used.set tenant (combine (fun u a => u + a) used request) })
    else .ok (false, q)

/-- `release` (lines 129–132), of a tenant that has a quota. -/
def release (q : QueueAdmission K) (tenant : String) (request : Dict String K) :
    QueueAdmission K :=
  { q with
    used := q.used.set tenant
      (combine (fun u a => max 0 (u - a)) (q.used.getD tenant .empty) request) }

/-- What a tenant has reserved of a resource. -/
def usedOf (q : QueueAdmission K) (tenant resource : String) : K :=
  (q.used.getD tenant .empty).getD resource 0

end QueueAdmission

/-- A queue and the jobs that it admitted and that have not ended. -/
structure Cluster (K : Type) where
  queue : QueueAdmission K
  running : List (String × Dict String K)

/-- What happens to a cluster: a job is submitted, or the `k`-th that runs ends. -/
inductive ClusterAction (K : Type)
  | submit (tenant : String) (request : Dict String K)
  | finish (k : ℕ)

/-- One action. A job that is queued or refused does not run. -/
def Cluster.step (c : Cluster K) : ClusterAction K → Cluster K
  | .submit tenant request =>
    match c.queue.tryAdmit tenant request with
    | .ok (true, queue) => ⟨queue, c.running ++ [(tenant, request)]⟩
    | _ => c
  | .finish k =>
    match c.running[k]? with
    | none => c
    | some job => ⟨c.queue.release job.1 job.2, c.running.eraseIdx k⟩

/-! ## The ledger, tenant by tenant -/

section Ledger

/-- The account of one tenant alone: a charge is taken if it is not negative and stays within the
cap. -/
def takeCharge (cap spent amount : K) : K :=
  if 0 ≤ amount ∧ spent + amount ≤ cap then spent + amount else spent

/-- What is charged to a tenant, in order. -/
def chargesOf (tenant : String) (ops : List (String × K)) : List K :=
  (ops.filter fun op => op.1 = tenant).map Prod.snd

variable {ledger : BudgetLedger K} {tenant : String} {cap amount : K}

/-- A charge goes through exactly if it is not negative and stays within the cap. -/
theorem charge_eq_ok {ledger' : BudgetLedger K} :
    ledger.charge tenant amount = .ok ledger' ↔
      ∃ cap, ledger.caps.get? tenant = some cap ∧ 0 ≤ amount ∧
        ledger.spent.getD tenant 0 + amount ≤ cap ∧
        ledger' =
          { ledger with
            spent := ledger.spent.set tenant (ledger.spent.getD tenant 0 + amount) } := by
  rw [BudgetLedger.charge, seq_eq_ok, refuseIf_eq_ok, bind_eq_ok]
  constructor
  · rintro ⟨hpos, cap, hcap, h⟩
    rw [BudgetLedger.cap] at hcap
    split at hcap
    · exact absurd hcap (by simp)
    · next hget =>
      obtain rfl := Except.ok.inj hcap
      rw [seq_eq_ok, refuseIf_eq_ok] at h
      exact ⟨_, hget, not_lt.mp hpos, not_lt.mp h.1, (Except.ok.inj h.2).symm⟩
  · rintro ⟨cap, hget, hpos, hle, rfl⟩
    refine ⟨not_lt.mpr hpos, cap, by rw [BudgetLedger.cap, hget], ?_⟩
    rw [seq_eq_ok, refuseIf_eq_ok]
    exact ⟨not_lt.mpr hle, rfl⟩

theorem attempt_of_error (h : ∀ ledger', ledger.charge tenant amount ≠ .ok ledger') :
    ledger.attempt (tenant, amount) = ledger := by
  rw [BudgetLedger.attempt]
  cases hc : ledger.charge tenant amount with
  | error e => rfl
  | ok ledger' => exact absurd hc (h ledger')

theorem attempt_of_ok {ledger' : BudgetLedger K} (h : ledger.charge tenant amount = .ok ledger') :
    ledger.attempt (tenant, amount) = ledger' := by
  rw [BudgetLedger.attempt, h]

theorem attempt_caps (op : String × K) : (ledger.attempt op).caps = ledger.caps := by
  rw [BudgetLedger.attempt]
  cases hc : ledger.charge op.1 op.2 with
  | error e => rfl
  | ok ledger' =>
    obtain ⟨_, _, _, _, rfl⟩ := charge_eq_ok.mp hc
    rfl

/-- **Step.** A charge moves the account of its own tenant, as it stands alone, and no other. -/
theorem attempt_spent (hcap : ledger.caps.get? tenant = some cap) (op : String × K) :
    (ledger.attempt op).spent.getD tenant 0 =
      if op.1 = tenant then takeCharge cap (ledger.spent.getD tenant 0) op.2
      else ledger.spent.getD tenant 0 := by
  obtain ⟨payer, amount⟩ := op
  by_cases hok : ∃ ledger', ledger.charge payer amount = .ok ledger'
  · obtain ⟨ledger', hok⟩ := hok
    rw [attempt_of_ok hok]
    obtain ⟨cap', hget, hpos, hle, rfl⟩ := charge_eq_ok.mp hok
    rw [Dict.getD_set]
    by_cases hp : payer = tenant
    · obtain rfl := hp
      obtain rfl := Option.some.inj (hcap.symm.trans hget)
      rw [if_pos rfl, if_pos rfl, takeCharge, if_pos ⟨hpos, hle⟩]
    · rw [if_neg fun h => hp h.symm, if_neg hp]
  · rw [attempt_of_error fun ledger' h => hok ⟨ledger', h⟩]
    by_cases hp : payer = tenant
    · subst hp
      rw [if_pos rfl, takeCharge, if_neg]
      rintro ⟨hpos, hle⟩
      exact hok ⟨_, charge_eq_ok.mpr ⟨cap, hcap, hpos, hle, rfl⟩⟩
    · rw [if_neg hp]

/-- **Run.** The account of a tenant after any charges is its own charges taken alone. -/
theorem spent_foldl_attempt (hcap : ledger.caps.get? tenant = some cap) (ops : List (String × K)) :
    (ops.foldl BudgetLedger.attempt ledger).spent.getD tenant 0 =
      (chargesOf tenant ops).foldl (takeCharge cap) (ledger.spent.getD tenant 0) := by
  induction ops generalizing ledger with
  | nil => rfl
  | cons op ops ih =>
    rw [List.foldl_cons, ih (by rw [attempt_caps, hcap]), attempt_spent hcap, chargesOf, chargesOf,
      List.filter_cons]
    by_cases hp : op.1 = tenant
    · rw [if_pos hp, if_pos (by simpa using hp), List.map_cons, List.foldl_cons]
    · rw [if_neg hp, if_neg (by simpa using hp)]

theorem caps_foldl_attempt (ops : List (String × K)) :
    (ops.foldl BudgetLedger.attempt ledger).caps = ledger.caps := by
  induction ops generalizing ledger with
  | nil => rfl
  | cons op ops ih => rw [List.foldl_cons, ih, attempt_caps]

theorem foldl_takeCharge_le {spent : K} (h : spent ≤ cap) (amounts : List K) :
    amounts.foldl (takeCharge cap) spent ≤ cap := by
  induction amounts generalizing spent with
  | nil => exact h
  | cons amount amounts ih =>
    rw [List.foldl_cons, takeCharge]
    split_ifs with hle
    · exact ih hle.2
    · exact ih h

omit [LinearOrder K] in
theorem spent_new (caps : Dict String K) (tenant : String) :
    (BudgetLedger.new caps).spent.getD tenant 0 = 0 := by
  rw [BudgetLedger.new, Dict.getD, Dict.get?_mapValues]
  cases caps.get? tenant <;> rfl

/-- **Main theorem.** After any charges to any tenants, in any order, a tenant with a cap has spent
what its own charges taken alone come to, so never more than its cap; and the ledger then takes a
charge exactly if it is not negative and stays within the cap. -/
theorem ledger_run (caps : Dict String K) (ops : List (String × K)) (tenant : String) (cap : K)
    (hcap : caps.get? tenant = some cap) (hpos : 0 ≤ cap) :
    let ledger := ops.foldl BudgetLedger.attempt (.new caps)
    let own := (chargesOf tenant ops).foldl (takeCharge cap) 0
    ledger.spent.getD tenant 0 = own ∧ own ≤ cap ∧
      ∀ amount, (∃ ledger', ledger.charge tenant amount = .ok ledger') ↔
        0 ≤ amount ∧ own + amount ≤ cap := by
  intro ledger own
  have hspent : ledger.spent.getD tenant 0 = own := by
    rw [@spent_foldl_attempt _ _ _ (.new caps) tenant cap hcap, spent_new]
  refine ⟨hspent, foldl_takeCharge_le hpos _, fun amount => ?_⟩
  have hcaps : ledger.caps.get? tenant = some cap := by
    rw [caps_foldl_attempt]
    exact hcap
  constructor
  · rintro ⟨ledger', h⟩
    obtain ⟨cap', hget, hamount, hle, -⟩ := charge_eq_ok.mp h
    obtain rfl := Option.some.inj (hcaps.symm.trans hget)
    exact ⟨hamount, hspent ▸ hle⟩
  · rintro ⟨hamount, hle⟩
    exact ⟨_, charge_eq_ok.mpr ⟨cap, hcaps, hamount, hspent.symm ▸ hle, rfl⟩⟩

/-- A sweep of one tenant that is halted, and another tenant that is not touched by it. -/
theorem ledger_run_halted :
    let ledger := [("acme", (4 : ℚ)), ("orbit", 3), ("acme", 5), ("acme", 2)].foldl
      BudgetLedger.attempt (.new (.ofList [("acme", 5), ("orbit", 10)]))
    let own := (chargesOf "acme" [("acme", (4 : ℚ)), ("orbit", 3), ("acme", 5), ("acme", 2)]).foldl
      (takeCharge 5) 0
    ledger.spent.getD "acme" 0 = own ∧ own ≤ 5 ∧
      ∀ amount, (∃ ledger', ledger.charge "acme" amount = .ok ledger') ↔
        0 ≤ amount ∧ own + amount ≤ 5 :=
  ledger_run (.ofList [("acme", 5), ("orbit", 10)])
    [("acme", 4), ("orbit", 3), ("acme", 5), ("acme", 2)] "acme" 5 (by decide) (by decide)

end Ledger

/-! ## Requests -/

section Requests

variable {f : K → K → K}

omit [LinearOrder K] in
theorem getD_foldl_combine {es : List (String × K)} (hnodup : (es.map Prod.fst).Nodup)
    (used : Dict String K) (r : String) :
    (es.foldl (fun used e => used.set e.1 (f (used.getD e.1 0) e.2)) used).getD r 0 =
      (es.lookup r).elim (used.getD r 0) (f (used.getD r 0)) := by
  induction es generalizing used with
  | nil => rfl
  | cons e es ih =>
    obtain ⟨hnew, hrest⟩ := List.nodup_cons.mp hnodup
    rw [List.foldl_cons, ih hrest, Dict.getD_set, List.lookup_cons]
    by_cases hr : r = e.1
    · have hnone : es.lookup r = none := by
        rw [← Option.not_isSome_iff_eq_none, lookup_isSome_iff, hr]
        exact hnew
      rw [hnone, if_pos hr, hr, beq_self_eq_true]
      rfl
    · rw [if_neg hr, beq_false_of_ne hr]

omit [LinearOrder K] in
/-- **Spec.** Each resource that is asked for is rewritten once, and no other. -/
theorem getD_combine (used request : Dict String K) (r : String) :
    (combine f used request).getD r 0 =
      (request.get? r).elim (used.getD r 0) (f (used.getD r 0)) :=
  getD_foldl_combine request.keys_nodup used r

theorem getD_combine_add [IsStrictOrderedRing K] (used request : Dict String K) (r : String) :
    (combine (fun u a => u + a) used request).getD r 0 = used.getD r 0 + request.getD r 0 := by
  rw [getD_combine, Dict.getD.eq_def request]
  cases request.get? r with
  | none => exact (add_zero _).symm
  | some a => rfl

theorem getD_combine_sub [IsStrictOrderedRing K] {used request : Dict String K} {r : String}
    (h : request.getD r 0 ≤ used.getD r 0) :
    (combine (fun u a => max 0 (u - a)) used request).getD r 0 =
      used.getD r 0 - request.getD r 0 := by
  rw [getD_combine]
  rw [Dict.getD.eq_def request] at h ⊢
  cases hr : request.get? r with
  | none => exact (sub_zero _).symm
  | some a =>
    rw [hr] at h
    exact max_eq_right (sub_nonneg.mpr h)

theorem getD_nonneg {request : Dict String K} (h : ∀ e ∈ request.entries, 0 ≤ e.2) (r : String) :
    0 ≤ request.getD r 0 := by
  rw [Dict.getD]
  cases hr : request.get? r with
  | none => exact le_refl 0
  | some a => exact h _ ((Dict.get?_eq_some_iff _ _ _).mp hr)

end Requests

/-! ## The queue over a run -/

section Queue

variable {q : QueueAdmission K} {c : Cluster K} {quotas : Dict String (Dict String K)}
  {tenant : String} {request : Dict String K}

/-- What the jobs of a tenant that run asked for of a resource. -/
def load (jobs : List (String × Dict String K)) (tenant resource : String) : K :=
  ((jobs.filter fun job => job.1 = tenant).map fun job => job.2.getD resource 0).sum

/-- No request of the action is negative. -/
def ClusterAction.Nonneg : ClusterAction K → Prop
  | .submit _ request => ∀ e ∈ request.entries, 0 ≤ e.2
  | .finish _ => True

/-- What the bookkeeping of a queue says of the jobs that run: each tenant has reserved what its own
jobs ask for, and stays within its quota. -/
structure Cluster.Sound (quotas : Dict String (Dict String K)) (c : Cluster K) : Prop where
  same : c.queue.quotas = quotas
  nonneg : ∀ job ∈ c.running, ∀ e ∈ job.2.entries, 0 ≤ e.2
  used : ∀ tenant resource, c.queue.usedOf tenant resource = load c.running tenant resource
  within : ∀ tenant quota, quotas.get? tenant = some quota →
    ∀ resource, load c.running tenant resource ≤ quota.getD resource 0

omit [LinearOrder K] in
theorem load_append (jobs : List (String × Dict String K)) (job : String × Dict String K)
    (t r : String) :
    load (jobs ++ [job]) t r = load jobs t r + if job.1 = t then job.2.getD r 0 else 0 := by
  rw [load, load, List.filter_append, List.map_append, List.sum_append]
  congr 1
  by_cases h : job.1 = t
  · rw [if_pos h, List.filter_cons, if_pos (by simpa using h)]
    simp
  · rw [if_neg h, List.filter_cons, if_neg (by simpa using h)]
    simp

omit [LinearOrder K] in
theorem load_perm {jobs jobs' : List (String × Dict String K)} (h : jobs.Perm jobs')
    (t r : String) : load jobs t r = load jobs' t r :=
  ((h.filter _).map _).sum_eq

omit [LinearOrder K] in
/-- A job that ends takes its own request off the load. -/
theorem load_eraseIdx {jobs : List (String × Dict String K)} {k : ℕ}
    {job : String × Dict String K} (h : jobs[k]? = some job) (t r : String) :
    load jobs t r = load (jobs.eraseIdx k) t r + if job.1 = t then job.2.getD r 0 else 0 := by
  obtain ⟨hk, rfl⟩ := List.getElem?_eq_some_iff.mp h
  rw [← load_append]
  exact load_perm ((List.getElem_cons_eraseIdx_perm hk).symm.trans
    (List.perm_append_singleton _ _).symm) t r

theorem load_nonneg [IsStrictOrderedRing K] {jobs : List (String × Dict String K)}
    (h : ∀ job ∈ jobs, ∀ e ∈ job.2.entries, 0 ≤ e.2) (t r : String) : 0 ≤ load jobs t r := by
  refine List.sum_nonneg fun a ha => ?_
  obtain ⟨job, hjob, rfl⟩ := List.mem_map.mp ha
  exact getD_nonneg (h job (List.mem_of_mem_filter hjob)) r

/-- A request fits where each resource that it asks for stays within the quota. -/
theorem fits_iff {quota used request : Dict String K} :
    QueueAdmission.fits quota used request = true ↔
      ∀ e ∈ request.entries, used.getD e.1 0 + e.2 ≤ quota.getD e.1 0 := by
  rw [QueueAdmission.fits, List.all_eq_true]
  exact forall₂_congr fun e _ => decide_eq_true_iff

omit [LinearOrder K] in
theorem usedOf_set (used : Dict String K) (t r : String) :
    QueueAdmission.usedOf { q with used := q.used.set tenant used } t r =
      if t = tenant then used.getD r 0 else q.usedOf t r := by
  rw [QueueAdmission.usedOf, Dict.getD_set, apply_ite (Dict.getD · r 0)]
  rfl

/-- A request is admitted exactly if the tenant has a quota and what it has reserved leaves room
for it. -/
theorem tryAdmit_eq_true {q' : QueueAdmission K} :
    q.tryAdmit tenant request = .ok (true, q') ↔
      ∃ quota, q.quotas.get? tenant = some quota ∧
        (∀ e ∈ request.entries, q.usedOf tenant e.1 + e.2 ≤ quota.getD e.1 0) ∧
        q' =
          { q with
            used := q.used.set tenant
              (combine (fun u a => u + a) (q.used.getD tenant .empty) request) } := by
  rw [QueueAdmission.tryAdmit]
  cases hquota : q.quotas.get? tenant with
  | none => simp
  | some quota =>
    by_cases hfits : QueueAdmission.fits quota (q.used.getD tenant .empty) request = true
    · simp only [hfits, if_true, Except.ok.injEq, Prod.mk.injEq, true_and]
      constructor
      · rintro rfl
        exact ⟨quota, rfl, fits_iff.mp hfits, rfl⟩
      · rintro ⟨_, _, _, rfl⟩
        rfl
    · simp only [hfits, Bool.false_eq_true, if_false, Except.ok.injEq, Prod.mk.injEq, false_and,
        false_iff]
      rintro ⟨quota', hget, hroom, -⟩
      obtain rfl := Option.some.inj hget
      exact hfits (fits_iff.mpr hroom)

/-- What ends gives back exactly what it reserved. -/
theorem usedOf_release_tryAdmit [IsStrictOrderedRing K] {q' : QueueAdmission K}
    (h : q.tryAdmit tenant request = .ok (true, q')) (hpos : ∀ r, 0 ≤ q.usedOf tenant r)
    (t r : String) : (q'.release tenant request).usedOf t r = q.usedOf t r := by
  obtain ⟨-, -, -, rfl⟩ := tryAdmit_eq_true.mp h
  rw [QueueAdmission.release, usedOf_set]
  split_ifs with ht
  · subst ht
    rw [Dict.getD_set, if_pos rfl, getD_combine_sub, getD_combine_add, add_sub_cancel_right]
    · rfl
    · rw [getD_combine_add]
      exact le_add_of_nonneg_left (hpos r)
  · rw [usedOf_set, if_neg ht]

/-- **Step.** An action keeps the bookkeeping sound. -/
theorem Sound.step [IsStrictOrderedRing K] (h : c.Sound quotas) (action : ClusterAction K)
    (haction : action.Nonneg) : (c.step action).Sound quotas := by
  cases action with
  | submit t request =>
    rw [Cluster.step]
    split
    · next q' hadmit =>
      obtain ⟨quota, hquota, hroom, rfl⟩ := tryAdmit_eq_true.mp hadmit
      have hload : ∀ t' r, load (c.running ++ [(t, request)]) t' r =
          if t' = t then load c.running t r + request.getD r 0 else load c.running t' r := by
        intro t' r
        rw [load_append]
        by_cases ht : t = t'
        · rw [if_pos ht, if_pos ht.symm, ht]
        · rw [if_neg ht, if_neg (Ne.symm ht), add_zero]
      refine ⟨h.same, ?_, fun t' r => ?_, fun t' quota' hquota' r => ?_⟩
      · rw [List.forall_mem_append]
        exact ⟨h.nonneg, List.forall_mem_singleton.mpr haction⟩
      · rw [hload, usedOf_set, getD_combine_add]
        exact ite_congr rfl (fun _ => congrArg (· + _) (h.used t r)) fun _ => h.used t' r
      · rw [hload]
        split_ifs with ht
        · subst ht
          rw [h.same] at hquota
          obtain rfl := Option.some.inj (hquota.symm.trans hquota')
          cases hr : request.get? r with
          | none =>
            rw [Dict.getD.eq_def request, hr]
            exact (add_zero _).le.trans (h.within _ _ hquota r)
          | some a =>
            rw [Dict.getD.eq_def request, hr, ← h.used]
            exact hroom (r, a) ((Dict.get?_eq_some_iff _ _ _).mp hr)
        · exact h.within t' quota' hquota' r
    · exact h
  | finish k =>
    rw [Cluster.step]
    cases hk : c.running[k]? with
    | none => exact h
    | some job =>
      have hleft : ∀ j ∈ c.running.eraseIdx k, ∀ e ∈ j.2.entries, 0 ≤ e.2 :=
        fun j hj => h.nonneg j (List.mem_of_mem_eraseIdx hj)
      have hjob : ∀ r, 0 ≤ job.2.getD r 0 := getD_nonneg (h.nonneg job (List.mem_of_getElem? hk))
      refine ⟨h.same, hleft, fun t r => ?_, fun t quota hquota r => ?_⟩
      · have hload := load_eraseIdx hk t r
        show (c.queue.release job.1 job.2).usedOf t r = load (c.running.eraseIdx k) t r
        rw [QueueAdmission.release, usedOf_set]
        split_ifs with ht
        · subst ht
          rw [if_pos rfl] at hload
          have hused : (c.queue.used.getD job.1 .empty).getD r 0 = load c.running job.1 r :=
            h.used job.1 r
          have hrest := load_nonneg hleft job.1 r
          rw [getD_combine_sub (by rw [hused, hload]; exact le_add_of_nonneg_left hrest), hused,
            hload, add_sub_cancel_right]
        · rw [if_neg fun hjt => ht hjt.symm, add_zero] at hload
          exact (h.used t r).trans hload
      · have hload := load_eraseIdx hk t r
        refine le_trans ?_ (h.within t quota hquota r)
        rw [hload]
        split_ifs
        · exact le_add_of_nonneg_right (hjob r)
        · exact (add_zero _).ge

omit [LinearOrder K] in
theorem usedOf_new (quotas : Dict String (Dict String K)) (t r : String) :
    (QueueAdmission.new quotas).usedOf t r = 0 := by
  rw [QueueAdmission.usedOf, QueueAdmission.new, Dict.getD.eq_def (quotas.mapValues _),
    Dict.get?_mapValues]
  cases quotas.get? t with
  | none => rfl
  | some quota =>
    rw [Option.map_some, Option.getD_some, Dict.getD, Dict.get?_mapValues]
    cases quota.get? r <;> rfl

theorem sound_new (hpos : ∀ tenant quota, quotas.get? tenant = some quota →
    ∀ e ∈ quota.entries, 0 ≤ e.2) : Cluster.Sound quotas ⟨.new quotas, []⟩ := by
  exact ⟨rfl, by simp, usedOf_new quotas, fun t quota hquota => getD_nonneg (hpos t quota hquota)⟩

/-- **Run.** The bookkeeping is sound after any actions. -/
theorem Sound.run [IsStrictOrderedRing K] (h : c.Sound quotas) (actions : List (ClusterAction K))
    (hactions : ∀ a ∈ actions, a.Nonneg) : (actions.foldl Cluster.step c).Sound quotas := by
  induction actions generalizing c with
  | nil => exact h
  | cons a actions ih =>
    rw [List.forall_mem_cons] at hactions
    exact ih (Sound.step h a hactions.1) hactions.2

/-- The quotas of two tenants. -/
def sharedQuotas : Dict String (Dict String ℚ) :=
  .ofList [("acme", .ofList [("cpu", 4)]), ("orbit", .ofList [("cpu", 2)])]

/-- Two jobs that run, one that waits, and one that ends. -/
def sharedActions : List (ClusterAction ℚ) :=
  [.submit "acme" (.ofList [("cpu", 3)]), .submit "orbit" (.ofList [("cpu", 2)]),
    .submit "acme" (.ofList [("cpu", 2)]), .finish 0]

theorem sharedQuotas_nonneg (tenant : String) (quota : Dict String ℚ)
    (h : sharedQuotas.get? tenant = some quota) : ∀ e ∈ quota.entries, 0 ≤ e.2 := by
  have hall : ∀ p ∈ sharedQuotas.entries, ∀ e ∈ p.2.entries, 0 ≤ e.2 := by decide
  exact hall (tenant, quota) ((Dict.get?_eq_some_iff _ _ _).mp h)

theorem sharedActions_nonneg : ∀ a ∈ sharedActions, a.Nonneg := by
  simp only [sharedActions, List.forall_mem_cons, ClusterAction.Nonneg]
  exact ⟨by decide, by decide, by decide, trivial, List.forall_mem_nil _⟩

end Queue

end AstroMine.Cloud
