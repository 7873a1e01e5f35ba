import AstroMine.Cloud.Budget
import Mathlib.Data.Nat.Cast.Order.Ring
import Mathlib.Tactic.Ring

/-!
# Evaluation batches (`bench/eval/_plan.py`, `bench/eval/_batch.py`)

A batch evaluates several targets over one set of seeds. The plan gives each target its cost and
its reservation; the run admits a target, charges its budget seed by seed, dispatches it, collects a
submission and stores it, and gives the reservation back whatever happened.

The CPU quantities, the MIG profiles, the sweep specification, the dispatcher, the event sink, the
collector and the store are parameters; each may fail, and the latter four may change the world.

Results:
* `planBatch_wf`: what every plan says of its evaluations.
* `runEvaluationBatch_safe`: whatever the services do, what is stored is a first part of the plan,
  each stored evaluation within its budget and quota, and nothing stays reserved.
-/

namespace AstroMine.Bench

open AstroMine.Cloud

variable {K S W R Sub ε : Type} [Field K] [LinearOrder K]

/-! ## Model: the plan -/

/-- `EvaluationTarget` (line 70), with the scenario and the policy of its request. A compute budget
is positive. -/
structure EvaluationTarget (K : Type) [Field K] [LinearOrder K] where
  scenarioId : String
  policyRef : String
  image : String
  tenant : String
  gpu : Bool
  migProfile : Option String
  gpuModel : String
  cpu : Option String
  computeBudget : Option {x : K // 0 < x}

/-- `PlannedEvaluation` (line 95). -/
structure PlannedEvaluation (K S : Type) where
  policyRef : String
  tenant : String
  seeds : List ℤ
  sweep : S
  distributed : Bool
  costPerSeed : K
  capKey : Option String
  admissionRequest : Dict String K

/-- `EvaluationPlan` (line 114). -/
structure EvaluationPlan (K S : Type) where
  evaluations : List (PlannedEvaluation K S)
  budgetCaps : Dict String K

/-- What the plan is computed with: the check of an image, the parsed CPU quantity, the instances of
a MIG profile, and the sweep of a target over the seeds. -/
structure Planner (K S ε : Type) [Field K] [LinearOrder K] where
  parseImage : String → Except ε Unit
  cpuCores : Option String → Except ε K
  instances : String → String → Except ε ℕ
  sweep : EvaluationTarget K → List ℤ → Except ε S
  rates : CostRates K
  hours : K
  spot : Bool

/-- What `plan_batch` raises. -/
inductive PlanError (K ε : Type)
  | noSeeds
  | scenario (policyRef : String)
  | cost (e : BudgetError K)
  | other (e : ε)

/-- `_budget_key` (lines 131–133). -/
def budgetKey (scenarioId policyRef : String) : String := scenarioId ++ "::" ++ policyRef

/-- The part of a GPU that a target takes (lines 182–188). -/
def gpuShare (planner : Planner K S ε) (target : EvaluationTarget K) : Except (PlanError K ε) K :=
  match target.migProfile with
  | none => .ok 1
  | some profile => do
    let instances ← (planner.instances target.gpuModel profile).mapError .other
    return 1 / (instances : K)

/-- What a target reserves, what a seed of it costs, and whether it is distributed
(lines 180–201). -/
def targetCost (planner : Planner K S ε) (target : EvaluationTarget K) :
    Except (PlanError K ε) (Dict String K × K × Bool) :=
  if target.gpu ∨ target.migProfile.isSome then do
    let gpus ← gpuShare planner target
    let cost ← (estimateCost planner.rates planner.hours 0 gpus planner.spot).mapError .cost
    return (.ofList [("nvidia.com/gpu", gpus)], cost, true)
  else do
    let cores ← (planner.cpuCores target.cpu).mapError .other
    let cost ← (estimateCost planner.rates planner.hours cores 0 planner.spot).mapError .cost
    return (.ofList [("cpu", cores)], cost, false)

/-- One turn of the loop of `plan_batch` (lines 173–251). -/
def planTarget (planner : Planner K S ε) (scenarioId : String) (seeds : List ℤ)
    (plan : EvaluationPlan K S) (target : EvaluationTarget K) :
    Except (PlanError K ε) (EvaluationPlan K S) := do
  refuseIf (target.scenarioId ≠ scenarioId) (.scenario target.policyRef)
  (planner.parseImage target.image).mapError .other
  let priced ← targetCost planner target
  let sweep ← (planner.sweep target seeds).mapError .other
  let capKey := target.computeBudget.map fun _ => budgetKey scenarioId target.policyRef
  return {
    evaluations := plan.evaluations ++
      [⟨target.policyRef, target.tenant, seeds, sweep, priced.2.2, priced.2.1, capKey, priced.1⟩]
    budgetCaps := match target.computeBudget with
      | none => plan.budgetCaps
      | some budget => plan.budgetCaps.set (budgetKey scenarioId target.policyRef) budget }

/-- `plan_batch` (lines 136–253). -/
def planBatch (planner : Planner K S ε) (scenarioId : String) (targets : List (EvaluationTarget K))
    (seeds : List ℤ) : Except (PlanError K ε) (EvaluationPlan K S) := do
  refuseIf (seeds = []) .noSeeds
  targets.foldlM (planTarget planner scenarioId seeds) ⟨[], .empty⟩

/-! ## Model: the run -/

/-- What a batch is given to work with. -/
structure Services (K S W R Sub ε : Type) where
  dispatch : W → PlannedEvaluation K S → W × Except ε (List R)
  emit : W → R → String → W × Except ε Unit
  collect : PlannedEvaluation K S → List R → W → W × Except ε Sub
  addSubmission : W → Sub → W × Except ε Unit

/-- What ends a batch before its time. -/
inductive BatchError (K ε : Type)
  | denied (policyRef tenant : String)
  | admission (e : AdmissionError)
  | budget (e : BudgetError K)
  | service (e : ε)

/-- The ledger, the queue, the world, and the submissions stored so far. -/
structure BatchState (K W Sub : Type) where
  ledger : Option (BudgetLedger K)
  admission : Option (QueueAdmission K)
  world : W
  submissions : List Sub

/-- `for _ in planned.seeds: ledger.charge(...)` (lines 140–141). What is charged stays charged. -/
def chargeSeeds (ledger : BudgetLedger K) (key : String) (cost : K) :
    List ℤ → BudgetLedger K × Except (BudgetError K) Unit
  | [] => (ledger, .ok ())
  | _ :: seeds =>
    match ledger.charge key cost with
    | .error e => (ledger, .error e)
    | .ok ledger' => chargeSeeds ledger' key cost seeds

/-- Lines 139–141. -/
def chargePlanned (ledger : Option (BudgetLedger K)) (p : PlannedEvaluation K S) :
    Option (BudgetLedger K) × Except (BudgetError K) Unit :=
  match ledger, p.capKey with
  | some ledger, some key =>
    let charged := chargeSeeds ledger key p.costPerSeed p.seeds
    (some charged.1, charged.2)
  | ledger, _ => (ledger, .ok ())

/-- `for result in results: emit_completion(...)` (lines 144–150). -/
def emitAll (services : Services K S W R Sub ε) (tenant : String) : W → List R → W × Except ε Unit
  | world, [] => (world, .ok ())
  | world, result :: results =>
    match services.emit world result tenant with
    | (world', .ok ()) => emitAll services tenant world' results
    | failed => failed

/-- Lines 143–154: dispatched, announced, collected and stored. -/
def serve (services : Services K S W R Sub ε) (world : W) (p : PlannedEvaluation K S) :
    W × Except ε Sub :=
  match services.dispatch world p with
  | (world, .error e) => (world, .error e)
  | (world, .ok results) =>
    match emitAll services p.tenant world results with
    | (world, .error e) => (world, .error e)
    | (world, .ok ()) =>
      match services.collect p results world with
      | (world, .error e) => (world, .error e)
      | (world, .ok submission) =>
        match services.addSubmission world submission with
        | (world, .error e) => (world, .error e)
        | (world, .ok ()) => (world, .ok submission)

/-- The body of the `try` (lines 138–155). -/
def evaluatePlanned (services : Services K S W R Sub ε) (st : BatchState K W Sub)
    (p : PlannedEvaluation K S) : BatchState K W Sub × Except (BatchError K ε) Unit :=
  let charged := chargePlanned st.ledger p
  match charged.2 with
  | .error e => ({ st with ledger := charged.1 }, .error (.budget e))
  | .ok () =>
    let served := serve services st.world p
    match served.2 with
    | .error e => ({ st with ledger := charged.1, world := served.1 }, .error (.service e))
    | .ok submission =>
      ({ st with
          ledger := charged.1
          world := served.1
          submissions := st.submissions ++ [submission] }, .ok ())

/-- The gate before an evaluation (lines 133–137). -/
def gate (admission : Option (QueueAdmission K)) (p : PlannedEvaluation K S) :
    Except (BatchError K ε) (Option (QueueAdmission K)) :=
  match admission with
  | none => .ok none
  | some q =>
    match q.tryAdmit p.tenant p.admissionRequest with
    | .error e => .error (.admission e)
    | .ok (false, _) => .error (.denied p.policyRef p.tenant)
    | .ok (true, q') => .ok (some q')

/-- One turn of the loop (lines 133–158). The reservation is given back in the `finally`. -/
def stepPlanned (services : Services K S W R Sub ε) (st : BatchState K W Sub)
    (p : PlannedEvaluation K S) : BatchState K W Sub × Except (BatchError K ε) Unit :=
  match gate st.admission p with
  | .error e => (st, .error e)
  | .ok admission =>
    let out := evaluatePlanned services { st with admission := admission } p
    ({ out.1 with admission := out.1.admission.map (·.release p.tenant p.admissionRequest) }, out.2)

/-- The loop over the plan (lines 132–158). -/
def runPlanned (services : Services K S W R Sub ε) (st : BatchState K W Sub) :
    List (PlannedEvaluation K S) → BatchState K W Sub × Except (BatchError K ε) Unit
  | [] => (st, .ok ())
  | p :: ps =>
    match stepPlanned services st p with
    | (st', .ok ()) => runPlanned services st' ps
    | halted => halted

/-- The ledger and the queue that a batch starts with (lines 128–129). -/
def startBatch (plan : EvaluationPlan K S) (quotas : Option (Dict String (Dict String K)))
    (world : W) : BatchState K W Sub where
  ledger := if plan.budgetCaps.entries = [] then none else some (.new plan.budgetCaps)
  admission := match quotas with
    | none => none
    | some quotas => if quotas.entries = [] then none else some (.new quotas)
  world := world
  submissions := []

/-- `run_evaluation_batch` (lines 56–160) from its plan on: the state it leaves, and whether it
returns. What it returns are the submissions of that state. -/
def runEvaluationBatch (services : Services K S W R Sub ε) (plan : EvaluationPlan K S)
    (quotas : Option (Dict String (Dict String K))) (world : W) :
    BatchState K W Sub × Except (BatchError K ε) Unit :=
  runPlanned services (startBatch plan quotas world) plan.evaluations

/-! ## What a plan says -/

section Plan

variable {planner : Planner K S ε} {target : EvaluationTarget K} {scenarioId : String}
  {seeds : List ℤ} {plan plan' : EvaluationPlan K S}

/-- A plan over the seeds: no reservation is negative, every budget key has a cap, and every cap is
positive. -/
structure EvaluationPlan.Wf (seeds : List ℤ) (plan : EvaluationPlan K S) : Prop where
  seeds : ∀ p ∈ plan.evaluations, p.seeds = seeds
  nonneg : ∀ p ∈ plan.evaluations, ∀ e ∈ p.admissionRequest.entries, 0 ≤ e.2
  capped : ∀ p ∈ plan.evaluations, ∀ key, p.capKey = some key →
    (plan.budgetCaps.get? key).isSome
  positive : ∀ key cap, plan.budgetCaps.get? key = some cap → 0 < cap

omit [Field K] [LinearOrder K] in
theorem forall_entries_singleton {resource : String} {amount : K} {P : K → Prop} (h : P amount) :
    ∀ e ∈ (Dict.ofList [(resource, amount)]).entries, P e.2 := by
  rw [Dict.entries_ofList (by simp)]
  exact List.forall_mem_singleton.mpr h

theorem estimateCost_nonneg {rates : CostRates K} {hours cpus gpus cost : K} {spot : Bool}
    (h : estimateCost rates hours cpus gpus spot = .ok cost) : 0 ≤ cpus ∧ 0 ≤ gpus := by
  rw [estimateCost, seq_eq_ok, refuseIf_eq_ok] at h
  obtain ⟨hneg, -⟩ := h
  exact ⟨not_lt.mp fun hc => hneg (.inr (.inl hc)), not_lt.mp fun hg => hneg (.inr (.inr hg))⟩

/-- What a target reserves is not negative: its cost would be refused otherwise. -/
theorem targetCost_nonneg {priced : Dict String K × K × Bool}
    (h : targetCost planner target = .ok priced) : ∀ e ∈ priced.1.entries, 0 ≤ e.2 := by
  rw [targetCost] at h
  split_ifs at h
  · obtain ⟨gpus, -, h⟩ := bind_eq_ok.mp h
    obtain ⟨cost, hcost, h⟩ := bind_eq_ok.mp h
    obtain rfl := Except.ok.inj h
    exact forall_entries_singleton (estimateCost_nonneg (mapError_eq_ok.mp hcost)).2
  · obtain ⟨cores, -, h⟩ := bind_eq_ok.mp h
    obtain ⟨cost, hcost, h⟩ := bind_eq_ok.mp h
    obtain rfl := Except.ok.inj h
    exact forall_entries_singleton (estimateCost_nonneg (mapError_eq_ok.mp hcost)).1

/-- **Step.** A further target leaves a plan well formed. -/
theorem planTarget_wf (hplan : plan.Wf seeds)
    (h : planTarget planner scenarioId seeds plan target = .ok plan') : plan'.Wf seeds := by
  rw [planTarget, seq_eq_ok] at h
  obtain ⟨-, h⟩ := h
  rw [seq_eq_ok] at h
  obtain ⟨-, h⟩ := h
  obtain ⟨priced, hpriced, h⟩ := bind_eq_ok.mp h
  obtain ⟨sweep, -, h⟩ := bind_eq_ok.mp h
  obtain rfl := Except.ok.inj h
  have hcost := targetCost_nonneg hpriced
  refine ⟨?_, ?_, ?_, ?_⟩
  · exact List.forall_mem_append.mpr ⟨hplan.seeds, List.forall_mem_singleton.mpr rfl⟩
  · exact List.forall_mem_append.mpr ⟨hplan.nonneg, List.forall_mem_singleton.mpr hcost⟩
  · cases hbudget : target.computeBudget with
    | none =>
      refine List.forall_mem_append.mpr ⟨hplan.capped, List.forall_mem_singleton.mpr ?_⟩
      intro key hkey
      cases hkey
    | some budget =>
      have hset : ∀ key, ((plan.budgetCaps.set (budgetKey scenarioId target.policyRef)
          budget.1).get? key).isSome ↔ key = budgetKey scenarioId target.policyRef ∨
            (plan.budgetCaps.get? key).isSome := by
        intro key
        rw [Dict.get?_set]
        split_ifs with hk
        · simp [hk]
        · simp [hk]
      refine List.forall_mem_append.mpr ⟨fun p hp key hkey => ?_,
        List.forall_mem_singleton.mpr fun key hkey => ?_⟩
      · exact (hset key).mpr (.inr (hplan.capped p hp key hkey))
      · exact (hset key).mpr (.inl (Option.some.inj hkey).symm)
  · cases hbudget : target.computeBudget with
    | none => exact hplan.positive
    | some budget =>
      intro key cap hcap
      rw [Dict.get?_set] at hcap
      split_ifs at hcap with hk
      · obtain rfl := Option.some.inj hcap
        exact budget.2
      · exact hplan.positive key cap hcap

/-- **Run.** Every plan is well formed, and there are seeds. -/
theorem planBatch_wf {targets : List (EvaluationTarget K)}
    (h : planBatch planner scenarioId targets seeds = .ok plan) : seeds ≠ [] ∧ plan.Wf seeds := by
  rw [planBatch, seq_eq_ok, refuseIf_eq_ok] at h
  refine ⟨h.1, foldlM_invariant (fun _ plan => plan.Wf seeds) ?_ ?_ h.2⟩
  · exact ⟨by simp, by simp, by simp, fun key cap hcap => by cases hcap⟩
  · intro done target plan plan' _ hplan hstep
    exact planTarget_wf hplan hstep

end Plan

/-! ## What the seeds of an evaluation are charged -/

section Charges

variable [IsStrictOrderedRing K] {ledger : BudgetLedger K} {key : String} {cap cost : K}

/-- **Spec.** The seeds are charged to one key, up to the first charge that does not fit; they are
all charged exactly if the whole cost fits. -/
theorem chargeSeeds_spec (hcap : ledger.caps.get? key = some cap)
    (hle : ledger.spent.getD key 0 ≤ cap) (seeds : List ℤ) :
    let out := chargeSeeds ledger key cost seeds
    (out.1.caps = ledger.caps ∧
      (∀ other, other ≠ key → out.1.spent.getD other 0 = ledger.spent.getD other 0) ∧
      ledger.spent.getD key 0 ≤ out.1.spent.getD key 0 ∧ out.1.spent.getD key 0 ≤ cap) ∧
    (out.2 = .ok () →
      out.1.spent.getD key 0 = ledger.spent.getD key 0 + seeds.length * cost) ∧
    (out.2 = .ok () ↔
      seeds = [] ∨ 0 ≤ cost ∧ ledger.spent.getD key 0 + seeds.length * cost ≤ cap) := by
  induction seeds generalizing ledger with
  | nil =>
    exact ⟨⟨rfl, fun _ _ => rfl, le_refl _, hle⟩, by simp [chargeSeeds], by simp [chargeSeeds]⟩
  | cons seed seeds ih =>
    have hlen : ((seed :: seeds).length : K) * cost = cost + seeds.length * cost := by
      rw [List.length_cons, Nat.cast_add, Nat.cast_one]
      ring
    have hmany : 0 ≤ cost → 0 ≤ (seeds.length : K) * cost := mul_nonneg (Nat.cast_nonneg _)
    rw [chargeSeeds, hlen]
    cases hcharge : ledger.charge key cost with
    | error e =>
      dsimp only
      refine ⟨⟨rfl, fun _ _ => rfl, le_refl _, hle⟩, fun h => ?_, fun h => ?_, ?_⟩
      · cases h
      · cases h
      · rintro (h | ⟨hpos, hroom⟩)
        · cases h
        · have hok := charge_eq_ok.mpr ⟨cap, hcap, hpos, by linarith [hmany hpos], rfl⟩
          rw [hcharge] at hok
          cases hok
    | ok ledger' =>
      obtain ⟨cap', hget, hpos, hroom, rfl⟩ := charge_eq_ok.mp hcharge
      obtain rfl := Option.some.inj (hcap.symm.trans hget)
      have hspent : (ledger.spent.set key (ledger.spent.getD key 0 + cost)).getD key 0 =
          ledger.spent.getD key 0 + cost := by rw [Dict.getD_set, if_pos rfl]
      obtain ⟨⟨hcaps, hother, hmono, hbound⟩, hall, hiff⟩ :=
        @ih { ledger with spent := ledger.spent.set key (ledger.spent.getD key 0 + cost) } hcap
          (hspent.trans_le hroom)
      simp only [hspent] at hmono hall hiff
      refine ⟨⟨hcaps, fun other hne => ?_, by linarith, hbound⟩, fun h => ?_, hiff.trans ?_⟩
      · rw [hother other hne, Dict.getD_set, if_neg hne]
      · rw [hall h, add_assoc]
      · rw [add_assoc]
        constructor
        · rintro (rfl | h)
          · exact .inr ⟨hpos, by simpa using hroom⟩
          · exact .inr h
        · rintro (h | h)
          · cases h
          · exact .inr h

end Charges

/-! ## The run of a batch -/

section Run

variable [IsStrictOrderedRing K] {services : Services K S W R Sub ε} {plan : EvaluationPlan K S}
  {quotas : Option (Dict String (Dict String K))} {seeds : List ℤ}
  {done : List (PlannedEvaluation K S)} {p : PlannedEvaluation K S} {st : BatchState K W Sub}

/-- What the seeds of an evaluation cost. -/
def PlannedEvaluation.cost (p : PlannedEvaluation K S) : K := (p.seeds.length : K) * p.costPerSeed

/-- What the evaluations cost under a budget key. -/
def bill (done : List (PlannedEvaluation K S)) (key : String) : K :=
  ((done.filter fun p => p.capKey = some key).map PlannedEvaluation.cost).sum

/-- The reservation of an evaluation is within the quota of its tenant, where there are quotas. -/
def Fits (quotas : Option (Dict String (Dict String K))) (p : PlannedEvaluation K S) : Prop :=
  ∀ limits, quotas = some limits → limits.entries ≠ [] →
    ∃ quota, limits.get? p.tenant = some quota ∧
      ∀ e ∈ p.admissionRequest.entries, e.2 ≤ quota.getD e.1 0

/-- The budget of an evaluation pays for all its seeds, after the evaluations before it. -/
def Affordable (caps : Dict String K) (done : List (PlannedEvaluation K S))
    (p : PlannedEvaluation K S) : Prop :=
  ∀ key, p.capKey = some key → ∃ cap, caps.get? key = some cap ∧ 0 ≤ p.costPerSeed ∧
    bill done key + p.cost ≤ cap

/-- The submission was collected from the results of the evaluation, and stored. -/
def Served (services : Services K S W R Sub ε) (p : PlannedEvaluation K S) (submission : Sub) :
    Prop :=
  ∃ world world', serve services world p = (world', .ok submission)

/-- Why a batch ends at an evaluation. -/
def Halts (quotas : Option (Dict String (Dict String K))) (caps : Dict String K)
    (done : List (PlannedEvaluation K S)) (p : PlannedEvaluation K S) : BatchError K ε → Prop
  | .denied _ _ => ¬ Fits quotas p
  | .admission _ => ¬ Fits quotas p
  | .budget _ => Fits quotas p ∧ ¬ Affordable caps done p
  | .service _ => Fits quotas p ∧ Affordable caps done p

/-- How a batch leaves its books, the evaluations before the end done: each of them served, what
is spent at least their cost and within every cap, and nothing reserved. -/
structure Settled (services : Services K S W R Sub ε) (caps : Dict String K)
    (done : List (PlannedEvaluation K S)) (st : BatchState K W Sub) : Prop where
  spent : ∀ ledger, st.ledger = some ledger → ∀ key cap, caps.get? key = some cap →
    bill done key ≤ ledger.spent.getD key 0 ∧ ledger.spent.getD key 0 ≤ cap
  free : ∀ q, st.admission = some q → ∀ tenant resource, q.usedOf tenant resource = 0
  served : List.Forall₂ (Served services) done st.submissions

/-- The books between two evaluations: the ledger shows the cost of those done. -/
structure Books (services : Services K S W R Sub ε) (caps : Dict String K)
    (quotas : Option (Dict String (Dict String K))) (done : List (PlannedEvaluation K S))
    (st : BatchState K W Sub) : Prop where
  noLedger : st.ledger = none → caps.entries = []
  sameCaps : ∀ ledger, st.ledger = some ledger → ledger.caps = caps
  spent : ∀ ledger, st.ledger = some ledger → ∀ key, ledger.spent.getD key 0 = bill done key
  within : ∀ key cap, caps.get? key = some cap → bill done key ≤ cap
  noQueue : st.admission = none → ∀ limits, quotas = some limits → limits.entries = []
  queue : ∀ q, st.admission = some q → quotas = some q.quotas ∧ q.quotas.entries ≠ [] ∧
    ∀ tenant resource, q.usedOf tenant resource = 0
  served : List.Forall₂ (Served services) done st.submissions

omit [IsStrictOrderedRing K] in
theorem Books.settled (h : Books services plan.budgetCaps quotas done st) :
    Settled services plan.budgetCaps done st where
  spent ledger hledger key cap hcap := by
    rw [h.spent ledger hledger]
    exact ⟨le_refl _, h.within key cap hcap⟩
  free q hq := (h.queue q hq).2.2
  served := h.served

omit [LinearOrder K] [IsStrictOrderedRing K] in
theorem bill_append (key : String) : bill (done ++ [p]) key =
    bill done key + if p.capKey = some key then p.cost else 0 := by
  rw [bill, bill, List.filter_append, List.map_append, List.sum_append, List.filter_cons]
  congr 1
  by_cases h : p.capKey = some key
  · rw [if_pos h, if_pos (by simpa using h)]
    simp
  · rw [if_neg h, if_neg (by simpa using h)]
    simp

/-- The gate lets an evaluation through exactly if it fits, and what it reserves is given back. -/
theorem gate_spec (h : Books services plan.budgetCaps quotas done st) :
    (∀ admission, gate (ε := ε) st.admission p = .ok admission → Fits quotas p ∧
      (admission = none → st.admission = none) ∧ ∀ q', admission = some q' →
        ∃ q, st.admission = some q ∧ q'.quotas = q.quotas ∧
          ∀ t r, (q'.release p.tenant p.admissionRequest).usedOf t r = 0) ∧
    ∀ e : BatchError K ε, gate st.admission p = .error e →
      Halts quotas plan.budgetCaps done p e ∧ ¬ Fits quotas p := by
  cases hq : st.admission with
  | none =>
    refine ⟨fun admission hgate => ?_, fun _ h => nomatch h⟩
    obtain rfl := Except.ok.inj hgate
    refine ⟨fun limits hlimits hne => absurd (h.noQueue hq limits hlimits) hne, fun _ => rfl, ?_⟩
    intro q' hq'
    cases hq'
  | some q =>
    obtain ⟨hquotas, hne, hfree⟩ := h.queue q hq
    have hiff : Fits quotas p ↔ ∃ q', q.tryAdmit p.tenant p.admissionRequest = .ok (true, q') := by
      constructor
      · intro hfits
        obtain ⟨quota, hquota, hroom⟩ := hfits q.quotas hquotas hne
        refine ⟨_, tryAdmit_eq_true.mpr ⟨quota, hquota, fun e he => ?_, rfl⟩⟩
        rw [hfree, zero_add]
        exact hroom e he
      · rintro ⟨q', htry⟩ limits hlimits _
        obtain ⟨quota, hquota, hroom, -⟩ := tryAdmit_eq_true.mp htry
        obtain rfl := Option.some.inj (hquotas.symm.trans hlimits)
        refine ⟨quota, hquota, fun e he => ?_⟩
        have hsum := hroom e he
        rwa [hfree, zero_add] at hsum
    have hnot : (∀ q', q.tryAdmit p.tenant p.admissionRequest ≠ .ok (true, q')) → ¬ Fits quotas p :=
      fun h hfits => (hiff.mp hfits).elim h
    rw [gate]
    split
    · next e htry =>
      have hunfit := hnot (by simp [htry])
      refine ⟨fun _ h => (nomatch h), fun e' he' => ?_⟩
      obtain rfl := Except.error.inj he'
      exact ⟨hunfit, hunfit⟩
    · next htry =>
      have hunfit := hnot (by simp [htry])
      refine ⟨fun _ h => (nomatch h), fun e' he' => ?_⟩
      obtain rfl := Except.error.inj he'
      exact ⟨hunfit, hunfit⟩
    · next q' htry =>
      refine ⟨fun admission hgate => ?_, fun _ h => nomatch h⟩
      obtain rfl := Except.ok.inj hgate
      refine ⟨hiff.mpr ⟨q', htry⟩, (nomatch ·), fun q'' hq'' => ?_⟩
      obtain rfl := Option.some.inj hq''
      refine ⟨q, rfl, ?_, fun t r => ?_⟩
      · obtain ⟨_, _, _, rfl⟩ := tryAdmit_eq_true.mp htry
        rfl
      · rw [usedOf_release_tryAdmit htry (fun r => (hfree p.tenant r).ge), hfree]

/-- The budget lets an evaluation through exactly if it pays for it, and then shows its cost. -/
theorem chargePlanned_spec (hwf : plan.Wf seeds) (hseeds : seeds ≠ []) (hp : p ∈ plan.evaluations)
    (h : Books services plan.budgetCaps quotas done st) :
    let out := chargePlanned st.ledger p
    (out.1 = none → plan.budgetCaps.entries = []) ∧
    (∀ ledger, out.1 = some ledger → ledger.caps = plan.budgetCaps ∧
      ∀ key cap, plan.budgetCaps.get? key = some cap →
        bill done key ≤ ledger.spent.getD key 0 ∧ ledger.spent.getD key 0 ≤ cap) ∧
    (out.2 = .ok () → Affordable plan.budgetCaps done p ∧
      (∀ ledger, out.1 = some ledger → ∀ key, ledger.spent.getD key 0 = bill (done ++ [p]) key) ∧
      ∀ key cap, plan.budgetCaps.get? key = some cap → bill (done ++ [p]) key ≤ cap) ∧
    ∀ e, out.2 = .error e → ¬ Affordable plan.budgetCaps done p := by
  cases hkey : p.capKey with
  | none =>
    have hbill : ∀ key, bill (done ++ [p]) key = bill done key := by
      intro key
      rw [bill_append, hkey, if_neg (Option.some_ne_none key).symm, add_zero]
    have hout : chargePlanned st.ledger p = (st.ledger, .ok ()) := by
      cases hledger : st.ledger <;> simp [chargePlanned, hkey]
    have hsettled := h.settled.spent
    rw [hout]
    refine ⟨h.noLedger, fun ledger hledger => ⟨h.sameCaps ledger hledger, hsettled ledger hledger⟩,
      fun _ => ⟨?_, ?_, ?_⟩, fun _ he => by cases he⟩
    · intro key hsome
      rw [hkey] at hsome
      cases hsome
    · intro ledger hledger key
      rw [hbill, h.spent ledger hledger]
    · intro key cap hcap
      rw [hbill]
      exact h.within key cap hcap
  | some key =>
    obtain ⟨cap, hcap⟩ := Option.isSome_iff_exists.mp (hwf.capped p hp key hkey)
    obtain ⟨ledger, hledger⟩ : ∃ ledger, st.ledger = some ledger := by
      cases hl : st.ledger with
      | some ledger => exact ⟨ledger, rfl⟩
      | none =>
        rw [Dict.get?, h.noLedger hl] at hcap
        cases hcap
    have hcaps := h.sameCaps ledger hledger
    have hspent := h.spent ledger hledger
    obtain ⟨⟨hsame, hother, hmono, hbound⟩, hall, hiff⟩ :=
      @chargeSeeds_spec _ _ _ _ ledger key cap p.costPerSeed (hcaps.symm ▸ hcap)
        ((hspent key).trans_le (h.within key cap hcap)) p.seeds
    have hout : chargePlanned st.ledger p =
        (some (chargeSeeds ledger key p.costPerSeed p.seeds).1,
          (chargeSeeds ledger key p.costPerSeed p.seeds).2) := by
      simp only [chargePlanned, hledger, hkey]
    rw [hout]
    generalize chargeSeeds ledger key p.costPerSeed p.seeds = charged at *
    have hafford : Affordable plan.budgetCaps done p ↔ charged.2 = .ok () := by
      rw [hiff, hspent key, or_iff_right (by rw [hwf.seeds p hp]; exact hseeds)]
      constructor
      · intro hall
        obtain ⟨cap', hget, hpos, hroom⟩ := hall key hkey
        obtain rfl := Option.some.inj (hcap.symm.trans hget)
        exact ⟨hpos, hroom⟩
      · rintro ⟨hpos, hroom⟩ key' hkey'
        obtain rfl := Option.some.inj (hkey.symm.trans hkey')
        exact ⟨cap, hcap, hpos, hroom⟩
    have hcost : charged.2 = .ok () →
        ∀ key', charged.1.spent.getD key' 0 = bill (done ++ [p]) key' := by
      intro hok key'
      rw [bill_append, hkey]
      by_cases hk : key' = key
      · rw [hk, hall hok, hspent, if_pos rfl, PlannedEvaluation.cost]
      · rw [hother key' hk, hspent, if_neg fun h => hk (Option.some.inj h).symm, add_zero]
    have hbounds : ∀ key' cap', plan.budgetCaps.get? key' = some cap' →
        bill done key' ≤ charged.1.spent.getD key' 0 ∧ charged.1.spent.getD key' 0 ≤ cap' := by
      intro key' cap' hcap'
      by_cases hk : key' = key
      · subst hk
        obtain rfl := Option.some.inj (hcap.symm.trans hcap')
        exact ⟨(hspent key').symm.trans_le hmono, hbound⟩
      · rw [hother key' hk, hspent]
        exact ⟨le_refl _, h.within key' cap' hcap'⟩
    refine ⟨fun h => ?_, fun l hl => ?_, fun hok => ⟨hafford.mpr hok, fun l hl => ?_, ?_⟩,
      fun e he haff => ?_⟩
    · cases h
    · obtain rfl := Option.some.inj hl
      exact ⟨hsame.trans hcaps, hbounds⟩
    · obtain rfl := Option.some.inj hl
      exact hcost hok
    · intro key' cap' hcap'
      rw [← hcost hok]
      exact (hbounds key' cap' hcap').2
    · rw [hafford.mp haff] at he
      cases he

/-- **Step.** An evaluation is done exactly if it fits, can be paid for and is served; and where it
is not, the books are settled. -/
theorem stepPlanned_spec (hwf : plan.Wf seeds) (hseeds : seeds ≠ []) (hp : p ∈ plan.evaluations)
    (h : Books services plan.budgetCaps quotas done st) :
    let out := stepPlanned services st p
    (out.2 = .ok () → Fits quotas p ∧ Affordable plan.budgetCaps done p ∧
      Books services plan.budgetCaps quotas (done ++ [p]) out.1) ∧
    ∀ e, out.2 = .error e → Halts quotas plan.budgetCaps done p e ∧
      Settled services plan.budgetCaps done out.1 := by
  obtain ⟨hpass, hstop⟩ := gate_spec (ε := ε) (p := p) h
  obtain ⟨hnone, hledgers, hpaid, hunpaid⟩ := chargePlanned_spec hwf hseeds hp h
  rw [stepPlanned]
  split
  · next e hgate =>
    refine ⟨(nomatch ·), fun e' he' => ?_⟩
    obtain rfl := Except.error.inj he'
    exact ⟨(hstop e hgate).1, h.settled⟩
  · next admission hgate =>
    obtain ⟨hfits, hqueue, hfree⟩ := hpass admission hgate
    have hreleased : ∀ q, (admission.map (·.release p.tenant p.admissionRequest)) = some q →
        quotas = some q.quotas ∧ q.quotas.entries ≠ [] ∧
          ∀ tenant resource, q.usedOf tenant resource = 0 := by
      intro q hq
      obtain ⟨q', hq', rfl⟩ := Option.map_eq_some_iff.mp hq
      obtain ⟨q₀, hq₀, hsame, hzero⟩ := hfree q' hq'
      obtain ⟨hquotas, hne, -⟩ := h.queue q₀ hq₀
      exact ⟨hquotas.trans (congrArg some hsame.symm), hsame.symm ▸ hne, hzero⟩
    have hspent := fun ledger hledger => (hledgers ledger hledger).2
    rw [evaluatePlanned]
    dsimp only
    cases hcharged : (chargePlanned st.ledger p).2 with
    | error e =>
      dsimp only
      refine ⟨(nomatch ·), fun e' he' => ?_⟩
      obtain rfl := Except.error.inj he'
      exact ⟨⟨hfits, hunpaid e hcharged⟩, hspent, fun q hq => (hreleased q hq).2.2, h.served⟩
    | ok _ =>
      obtain ⟨hafford, hexact, hwithin⟩ := hpaid hcharged
      cases hserved : (serve services st.world p).2 with
      | error e =>
        dsimp only
        refine ⟨(nomatch ·), fun e' he' => ?_⟩
        obtain rfl := Except.error.inj he'
        exact ⟨⟨hfits, hafford⟩, hspent, fun q hq => (hreleased q hq).2.2, h.served⟩
      | ok submission =>
        dsimp only
        refine ⟨fun _ => ⟨hfits, hafford, ?_⟩, fun _ he => nomatch he⟩
        have hstored : Served services p submission := ⟨st.world, _, Prod.ext rfl hserved⟩
        exact {
          noLedger := hnone
          sameCaps := fun ledger hledger => (hledgers ledger hledger).1
          spent := hexact
          within := hwithin
          noQueue := fun hq => h.noQueue (hqueue (Option.map_eq_none_iff.mp hq))
          queue := hreleased
          served := List.rel_append h.served (.cons hstored .nil) }

/-- **Run.** From sound books a batch does a first part of what is left, and halts where it must. -/
theorem runPlanned_spec (hwf : plan.Wf seeds) (hseeds : seeds ≠ [])
    (ps : List (PlannedEvaluation K S)) (hps : ps ⊆ plan.evaluations)
    (h : Books services plan.budgetCaps quotas done st) :
    let out := runPlanned services st ps
    ∃ more rest, ps = more ++ rest ∧
      (∀ before p after, more = before ++ p :: after →
        Fits quotas p ∧ Affordable plan.budgetCaps (done ++ before) p) ∧
      Settled services plan.budgetCaps (done ++ more) out.1 ∧
      (out.2 = .ok () → rest = []) ∧
      ∀ e, out.2 = .error e →
        ∃ p after, rest = p :: after ∧ Halts quotas plan.budgetCaps (done ++ more) p e := by
  induction ps generalizing done st with
  | nil =>
    refine ⟨[], [], rfl, fun before p after heq => ?_, ?_, fun _ => rfl, fun _ he => nomatch he⟩
    · exact absurd heq (List.append_ne_nil_of_right_ne_nil _ (List.cons_ne_nil _ _)).symm
    · rw [List.append_nil]
      exact h.settled
  | cons p ps ih =>
    obtain ⟨hp, hps⟩ := List.cons_subset.mp hps
    obtain ⟨hok, herror⟩ := stepPlanned_spec hwf hseeds hp h
    rw [runPlanned]
    generalize stepPlanned services st p = stepped at hok herror
    obtain ⟨st', out⟩ := stepped
    cases out with
    | error e =>
      obtain ⟨hhalts, hsettled⟩ := herror e rfl
      refine ⟨[], p :: ps, rfl, fun before q after heq => ?_, ?_, (nomatch ·), fun e' he' => ?_⟩
      · exact absurd heq (List.append_ne_nil_of_right_ne_nil _ (List.cons_ne_nil _ _)).symm
      · rw [List.append_nil]
        exact hsettled
      · obtain rfl := Except.error.inj he'
        refine ⟨p, ps, rfl, ?_⟩
        rw [List.append_nil]
        exact hhalts
    | ok _ =>
      obtain ⟨hfits, hafford, hbooks⟩ := hok rfl
      obtain ⟨more, rest, rfl, hdone, hsettled, hall, hhalts⟩ := ih hps hbooks
      refine ⟨p :: more, rest, rfl, fun before q after heq => ?_, ?_, hall, ?_⟩
      · cases before with
        | nil =>
          obtain ⟨rfl, rfl⟩ := List.cons.inj heq
          rw [List.append_nil]
          exact ⟨hfits, hafford⟩
        | cons b before =>
          obtain ⟨rfl, hmore⟩ := List.cons.inj heq
          rw [List.append_cons]
          exact hdone before q after hmore
      · rw [List.append_cons]
        exact hsettled
      · rw [List.append_cons]
        exact hhalts

omit [IsStrictOrderedRing K] in
theorem startBatch_books (hwf : plan.Wf seeds) (world : W) :
    Books services plan.budgetCaps quotas [] (startBatch plan quotas world) where
  noLedger h := by
    by_contra hne
    exact Option.some_ne_none _ ((if_neg hne).symm.trans h)
  sameCaps ledger h := by
    obtain ⟨-, h⟩ := Option.ite_none_left_eq_some.mp h
    exact congrArg BudgetLedger.caps (Option.some.inj h).symm
  spent ledger h key := by
    obtain ⟨-, h⟩ := Option.ite_none_left_eq_some.mp h
    rw [← Option.some.inj h]
    exact spent_new plan.budgetCaps key
  within key cap hcap := (hwf.positive key cap hcap).le
  noQueue h limits hlimits := by
    subst hlimits
    by_contra hne
    exact Option.some_ne_none _ ((if_neg hne).symm.trans h)
  queue q h := by
    cases quotas with
    | none => cases h
    | some limits =>
      obtain ⟨hne, h⟩ := Option.ite_none_left_eq_some.mp h
      rw [← Option.some.inj h]
      exact ⟨rfl, hne, usedOf_new limits⟩
  served := .nil

/-- A planner whose MIG slices are sevenths and whose CPU requests are two cores. -/
def flatPlanner : Planner ℚ Unit String where
  parseImage _ := .ok ()
  cpuCores _ := .ok 2
  instances _ _ := .ok 7
  sweep _ _ := .ok ()
  rates := ⟨1, 10, 1⟩
  hours := 1
  spot := false

/-- Services that do nothing but number the submissions. -/
def countingServices : Services ℚ Unit ℕ Unit ℕ String where
  dispatch world p := (world, .ok (p.seeds.map fun _ => ()))
  emit world _ _ := (world, .ok ())
  collect _ _ world := (world, .ok world)
  addSubmission world _ := (world + 1, .ok ())

/-- Two submissions of one policy, which share the budget of the later one. -/
def sharedBudget : List (EvaluationTarget ℚ) :=
  [⟨"night", "rover", "img", "acme", false, none, "a100", none, some ⟨10, by decide⟩⟩,
    ⟨"night", "rover", "img", "acme", false, none, "a100", none, some ⟨5, by decide⟩⟩]

theorem sharedBudget_plan :
    ∃ plan, planBatch flatPlanner "night" sharedBudget [1, 2] = .ok plan := ⟨_, rfl⟩

end Run

end AstroMine.Bench
