import Mathlib.Algebra.Order.Field.Basic
import Mathlib.Data.String.Basic
import Mathlib.Tactic.Linarith
import AstroMine.Lib.LabelSetting
import AstroMine.Link.ContactGraph

/-!
# Store-and-forward delivery (`link/network/_dtn.py`)

`DeliveryModel.deliver` searches the contact graph for the earliest arrival of a bundle. Seen from
outside, a delivery is a schedule: contacts in a row, each with the time its transmission starts,
after the bundle is there and inside the contact window.

Results:
* `hopArrival_storeAndForward`: when a hop can be taken, and when it arrives.
* `DeliveryModel.noOvertaking`: storing a bundle never lets a later one overtake it.
* `DeliveryModel.deliver_storeAndForward`: the query ends, delivers exactly when a schedule exists,
  and then reports the earliest arrival and the nodes of a schedule that arrives there then.
-/

namespace AstroMine.Link

open AstroMine.Core

variable {K : Type}

/-! ## The model -/

/-- `DeliveryFidelity` (line 33). -/
inductive DeliveryFidelity
  | instantaneous
  | storeAndForward
  deriving DecidableEq

/-- `Route` (`core/messages/model.py`, lines 360–370). -/
structure Route (K : Type) where
  source : String
  dest : String
  hops : List String := []
  storeAndForward : Bool := false
  earliestDeliveryTdbS : Option K := none
  totalLatencyS : Option K := none
  earliestDelivery : Option (Epoch K) := none
  deriving DecidableEq

/-- `Delivery` (lines 36–54). -/
structure Delivery (K : Type) where
  delivered : Bool
  source : String
  dest : String
  arrival : Option (Epoch K) := none
  latencyS : Option K := none
  hops : List String := []
  route : Option (Route K) := none
  deriving DecidableEq

variable [Field K] [LinearOrder K]

/-- `DeliveryModel` (lines 57–72). -/
structure DeliveryModel (K : Type) [Field K] [LinearOrder K] where
  graph : ContactGraph K
  turnaroundS : K := 0

/-- The transmission time of a bundle over a contact (`_hop_arrival`, lines 184–186). -/
def txTime (c : Contact K) (sizeBits : K) : K :=
  match c.rateBps with
  | none => 0
  | some rate => if sizeBits > 0 ∧ rate > 0 then sizeBits / rate else 0

/-- The latency of a contact (line 189). -/
def hopLatency (c : Contact K) : K := c.latencyS.getD 0

/-- When a bundle at the contact at `t` can start being sent (`_hop_arrival`, lines 175–183). -/
def usableStart (c : Contact K) (t : K) : DeliveryFidelity → Option K
  | .instantaneous =>
    if c.window.start.tdbSeconds ≤ t ∧ t < c.window.stop.tdbSeconds then some t else none
  | .storeAndForward =>
    if max c.window.start.tdbSeconds t ≥ c.window.stop.tdbSeconds then none
    else some (max c.window.start.tdbSeconds t)

namespace DeliveryModel

variable (M : DeliveryModel K)

/-- `_hop_arrival` (lines 167–190). -/
def hopArrival (c : Contact K) (t sizeBits : K) (fidelity : DeliveryFidelity) : Option K :=
  (usableStart c t fidelity).bind fun s =>
    if s + txTime c sizeBits > c.window.stop.tdbSeconds then none
    else some (s + txTime c sizeBits + hopLatency c + M.turnaroundS)

/-- `_known` (lines 69–72). -/
def known : List String := M.graph.nodeIds ++ M.graph.nodes

/-- What `deliver` raises before it searches (lines 93–97). -/
def queryError (source dest : String) (sizeBits : K) : Option (LinkNetworkError K) :=
  if M.known ≠ [] ∧ source ∉ M.known then some (.unknownNode "source" source)
  else if M.known ≠ [] ∧ dest ∉ M.known then some (.unknownNode "dest" dest)
  else if sizeBits < 0 then some (.negativeSize sizeBits)
  else none

/-- The arrival is within the horizon (line 135). -/
def withinHorizon (send : Epoch K) (horizonS : Option K) (arrival : K) : Bool :=
  horizonS.all fun h => arrival ≤ send.tdbSeconds + h

/-- The network the query searches: the hops of the contacts within the horizon. -/
def net (send : Epoch K) (sizeBits : K) (fidelity : DeliveryFidelity) (horizonS : Option K) :
    TimedNet String K (Contact K) where
  edges := M.graph.contactsFrom
  head u c := (c.other u).getD u
  hop c t := (M.hopArrival c t sizeBits fidelity).filter (withinHorizon send horizonS)

/-- What a query from a node to itself returns (lines 103–120). -/
def immediate (source dest : String) (send : Epoch K) : Delivery K where
  delivered := true
  source := source
  dest := dest
  arrival := some send
  latencyS := some 0
  hops := [source]
  route := some
    { source := source
      dest := dest
      hops := [source]
      totalLatencyS := some 0
      earliestDeliveryTdbS := some send.tdbSeconds
      earliestDelivery := some send
      storeAndForward := false }

/-- What a query returns when its search has labelled the destination (lines 145–165). -/
def routed (source dest : String) (send : Epoch K) (fidelity : DeliveryFidelity) (arrivalS : K)
    (hops : List String) : Delivery K where
  delivered := true
  source := source
  dest := dest
  arrival := some ⟨arrivalS, send.scale⟩
  latencyS := some (arrivalS - send.tdbSeconds)
  hops := hops
  route := some
    { source := source
      dest := dest
      hops := hops
      totalLatencyS := some (arrivalS - send.tdbSeconds)
      earliestDeliveryTdbS := some arrivalS
      earliestDelivery := some ⟨arrivalS, send.scale⟩
      storeAndForward := fidelity == .storeAndForward }

/-- `deliver` (lines 74–165), its search with at most `fuel` passes and its `_reconstruct` with at
most `fuel` predecessors. -/
def deliver (fuel : ℕ) (source dest : String) (send : Epoch K) (sizeBits : K)
    (fidelity : DeliveryFidelity) (horizonS : Option K) :
    Option (Except (LinkNetworkError K) (Delivery K)) :=
  match M.queryError source dest sizeBits with
  | some err => some (.error err)
  | none =>
    if source = dest then some (.ok (immediate source dest send))
    else
      (search (M.net send sizeBits fidelity horizonS) dest fuel
          (searchStart source send.tdbSeconds)).bind fun st =>
        match st.best.get? dest with
        | none => some (.ok { delivered := false, source := source, dest := dest })
        | some arrival => (predPath st.prev source fuel dest).map fun hops =>
            .ok (routed source dest send fidelity arrival hops)

/-! ## Schedules -/

/-- A schedule of a bundle that is at `s` at `t₀`: the node it gets to, when it has been turned
around there, and the nodes it visits. Each transmission starts when the bundle is there, at a time
its contact is open, and ends inside the contact window. -/
inductive Schedule (sizeBits : K) (s : String) (t₀ : K) : String → K → List String → Prop
  | start : Schedule sizeBits s t₀ s t₀ [s]
  | send {u v : String} {t : K} {p : List String} {c : Contact K} {txStart : K} :
      Schedule sizeBits s t₀ u t p → c ∈ M.graph.contacts → c.Joins u v → t ≤ txStart →
      c.window.start.tdbSeconds ≤ txStart → txStart < c.window.stop.tdbSeconds →
      txStart + txTime c sizeBits ≤ c.window.stop.tdbSeconds →
      Schedule sizeBits s t₀ v (txStart + txTime c sizeBits + hopLatency c + M.turnaroundS)
        (p ++ [v])

/-- Latencies and turnaround are not negative. -/
structure Forward : Prop where
  turnaround : 0 ≤ M.turnaroundS
  latency : ∀ c ∈ M.graph.contacts, 0 ≤ hopLatency c

variable {M}

/-! ## Hops -/

theorem hopArrival_storeAndForward {c : Contact K} {t sizeBits a : K} :
    M.hopArrival c t sizeBits .storeAndForward = some a ↔
      max c.window.start.tdbSeconds t < c.window.stop.tdbSeconds ∧
        max c.window.start.tdbSeconds t + txTime c sizeBits ≤ c.window.stop.tdbSeconds ∧
        a = max c.window.start.tdbSeconds t + txTime c sizeBits + hopLatency c +
          M.turnaroundS := by
  rw [hopArrival, usableStart]
  split_ifs with hclosed
  · simp [not_lt.mpr hclosed]
  · rw [Option.bind_some]
    split_ifs with hfit
    · simp [not_le.mpr hfit]
    · simp [not_le.mp hclosed, not_lt.mp hfit, eq_comm]

variable [IsStrictOrderedRing K]

theorem txTime_nonneg (c : Contact K) (sizeBits : K) : 0 ≤ txTime c sizeBits := by
  rw [txTime]
  cases c.rateBps with
  | none => exact le_rfl
  | some rate =>
    simp only
    split_ifs with h
    · exact div_nonneg h.1.le h.2.le
    · exact le_rfl

omit [Field K] [IsStrictOrderedRing K] in
theorem usableStart_ge {c : Contact K} {t u : K} {fidelity : DeliveryFidelity}
    (h : usableStart c t fidelity = some u) : t ≤ u := by
  cases fidelity with
  | instantaneous =>
    rw [usableStart] at h
    split_ifs at h
    exact (Option.some.inj h).le
  | storeAndForward =>
    rw [usableStart] at h
    split_ifs at h
    exact (le_max_right _ _).trans (Option.some.inj h).le

/-- No hop of the graph arrives before it starts. -/
theorem hopArrival_ge (hM : M.Forward) {c : Contact K} (hc : c ∈ M.graph.contacts)
    {t sizeBits a : K} {fidelity : DeliveryFidelity}
    (h : M.hopArrival c t sizeBits fidelity = some a) : t ≤ a := by
  obtain ⟨u, hu, ha⟩ := Option.bind_eq_some_iff.mp h
  have htu := usableStart_ge hu
  have htx := txTime_nonneg c sizeBits
  have hlat := hM.latency c hc
  have hturn := hM.turnaround
  split_ifs at ha
  have ha' := Option.some.inj ha
  linarith

section Net

variable (M) {send : Epoch K} {sizeBits : K} {fidelity : DeliveryFidelity} {horizonS : Option K}

omit [IsStrictOrderedRing K] in
theorem hop_eq_some {c : Contact K} {t a : K} :
    (M.net send sizeBits fidelity horizonS).hop c t = some a ↔
      M.hopArrival c t sizeBits fidelity = some a ∧ withinHorizon send horizonS a = true := by
  simp only [net, Option.filter_eq_some_iff]

theorem causal (hM : M.Forward) : (M.net send sizeBits fidelity horizonS).Causal := by
  intro u c hc t a h
  rw [hop_eq_some] at h
  exact hopArrival_ge hM ((M.graph.mem_contactsFrom u c).mp hc).1 h.1

/-- Storing a bundle never lets a later one overtake it. -/
theorem noOvertaking : (M.net send sizeBits .storeAndForward horizonS).NoOvertaking := by
  intro c t t₁ a hle h
  rw [hop_eq_some, hopArrival_storeAndForward] at h
  obtain ⟨⟨hopen, hfit, rfl⟩, hwithin⟩ := h
  have hmax : max c.window.start.tdbSeconds t₁ ≤ max c.window.start.tdbSeconds t :=
    max_le_max le_rfl hle
  refine ⟨max c.window.start.tdbSeconds t₁ + txTime c sizeBits + hopLatency c + M.turnaroundS,
    ?_, by linarith⟩
  rw [hop_eq_some, hopArrival_storeAndForward]
  refine ⟨⟨hmax.trans_lt hopen, by linarith, rfl⟩, ?_⟩
  cases horizonS with
  | none => rfl
  | some h =>
    simp only [withinHorizon, Option.all_some, decide_eq_true_eq] at hwithin ⊢
    linarith

omit [IsStrictOrderedRing K] in
/-- The nodes the search can label: the source and the endpoints of the contacts. -/
theorem exists_closed_nodes (send : Epoch K) (sizeBits : K) (fidelity : DeliveryFidelity)
    (horizonS : Option K) (source : String) : ∃ V : Finset String, source ∈ V ∧
    ∀ u ∈ V, ∀ c ∈ (M.net send sizeBits fidelity horizonS).edges u,
      (M.net send sizeBits fidelity horizonS).head u c ∈ V := by
  refine ⟨insert source (M.graph.contacts.flatMap fun c => [c.nodeA, c.nodeB]).toFinset,
    Finset.mem_insert_self _ _, ?_⟩
  intro u hu c hc
  obtain ⟨hc, htouch⟩ := (M.graph.mem_contactsFrom u c).mp hc
  obtain ⟨v, hv⟩ := Option.isSome_iff_exists.mp ((c.other_isSome_iff u).mpr htouch)
  show (c.other u).getD u ∈ _
  rw [hv, Option.getD_some, Finset.mem_insert, List.mem_toFinset, List.mem_flatMap]
  refine Or.inr ⟨c, hc, ?_⟩
  rcases Contact.joins_of_other hv with ⟨-, rfl⟩ | ⟨-, rfl⟩ <;> simp

/-! ## Journeys and schedules -/

variable {M}

omit [IsStrictOrderedRing K] in
theorem head_of_joins {c : Contact K} {u v : String} (h : c.Joins u v) :
    (M.net send sizeBits fidelity horizonS).head u c = v := by
  show (c.other u).getD u = v
  rw [Contact.other_of_joins h, Option.getD_some]

omit [IsStrictOrderedRing K] in
/-- A journey of the search is a schedule that sends as soon as it can, within the horizon. -/
theorem schedule_of_travels {source v : String} {t : K} {p : List String}
    (h : (M.net send sizeBits .storeAndForward horizonS).Travels source send.tdbSeconds v t p) :
    M.Schedule sizeBits source send.tdbSeconds v t p ∧
      (v = source ∧ t = send.tdbSeconds ∨ withinHorizon send horizonS t = true) := by
  induction h with
  | start => exact ⟨.start, Or.inl ⟨rfl, rfl⟩⟩
  | @hop u t p c t' _ hc hop ih =>
    rw [hop_eq_some, hopArrival_storeAndForward] at hop
    obtain ⟨⟨hopen, hfit, rfl⟩, hwithin⟩ := hop
    obtain ⟨hc, htouch⟩ := (M.graph.mem_contactsFrom u c).mp hc
    obtain ⟨w, hw⟩ := Option.isSome_iff_exists.mp ((c.other_isSome_iff u).mpr htouch)
    have hjoin := Contact.joins_of_other hw
    rw [head_of_joins hjoin]
    exact ⟨.send ih.1 hc hjoin (le_max_right _ _) (le_max_left _ _) hopen hfit, Or.inr hwithin⟩

/-- No schedule within the horizon is earlier than all journeys. -/
theorem exists_travels_of_schedule (hM : M.Forward) {source v : String} {t : K} {p : List String}
    (h : M.Schedule sizeBits source send.tdbSeconds v t p)
    (hwithin : withinHorizon send horizonS t = true) :
    ∃ t' p', t' ≤ t ∧
      (M.net send sizeBits .storeAndForward horizonS).Travels source send.tdbSeconds v t' p' := by
  induction h with
  | start => exact ⟨_, _, le_rfl, .start⟩
  | @send u v t p c txStart hsched hc hjoin hle hstart hopen hfit ih =>
    have hlat := hM.latency c hc
    have hturn := hM.turnaround
    have htx := txTime_nonneg c sizeBits
    have hwithin' : ∀ a ≤ txStart + txTime c sizeBits + hopLatency c + M.turnaroundS,
        withinHorizon send horizonS a = true := by
      intro a ha
      cases horizonS with
      | none => rfl
      | some h =>
        simp only [withinHorizon, Option.all_some, decide_eq_true_eq] at hwithin ⊢
        linarith
    obtain ⟨t', p', hle', htr⟩ := ih (hwithin' t (by linarith))
    have hmax : max c.window.start.tdbSeconds t' ≤ txStart := max_le hstart (hle'.trans hle)
    have hedge : c ∈ (M.net send sizeBits .storeAndForward horizonS).edges u := by
      refine (M.graph.mem_contactsFrom u c).mpr ⟨hc, ?_⟩
      rw [← c.other_isSome_iff, Contact.other_of_joins hjoin]
      rfl
    refine ⟨max c.window.start.tdbSeconds t' + txTime c sizeBits + hopLatency c + M.turnaroundS,
      p' ++ [v], by linarith, ?_⟩
    have hhop : (M.net send sizeBits .storeAndForward horizonS).hop c t' =
        some (max c.window.start.tdbSeconds t' + txTime c sizeBits + hopLatency c +
          M.turnaroundS) := by
      rw [hop_eq_some, hopArrival_storeAndForward]
      exact ⟨⟨hmax.trans_lt hopen, by linarith, rfl⟩, hwithin' _ (by linarith)⟩
    have hstep := TimedNet.Travels.hop htr hedge hhop
    rwa [head_of_joins hjoin] at hstep

theorem le_of_schedule (hM : M.Forward) {source v : String} {t t₀ : K} {p : List String}
    (h : M.Schedule sizeBits source t₀ v t p) : t₀ ≤ t := by
  induction h with
  | start => exact le_rfl
  | @send u v t p c txStart _ hc _ hle _ _ _ ih =>
    have hlat := hM.latency c hc
    have hturn := hM.turnaround
    have htx := txTime_nonneg c sizeBits
    linarith

end Net

/-! ## The query -/

/-- A delivery that reports the arrival `a` over the nodes `hops`, in the message and in its
route. -/
structure Reports (d : Delivery K) (source dest : String) (send : Epoch K) (a : K)
    (hops : List String) : Prop where
  delivered : d.delivered = true
  arrival : d.arrival = some ⟨a, send.scale⟩
  latency : d.latencyS = some (a - send.tdbSeconds)
  hops_eq : d.hops = hops
  route : ∃ r, d.route = some r ∧ r.source = source ∧ r.dest = dest ∧ r.hops = hops ∧
    r.totalLatencyS = some (a - send.tdbSeconds) ∧ r.earliestDeliveryTdbS = some a ∧
    r.earliestDelivery = some ⟨a, send.scale⟩

omit [LinearOrder K] [IsStrictOrderedRing K] in
theorem immediate_reports (source dest : String) (send : Epoch K) :
    Reports (immediate source dest send) source dest send send.tdbSeconds [source] :=
  ⟨rfl, rfl, by rw [sub_self]; rfl, rfl, _, rfl, rfl, rfl, rfl, by rw [sub_self], rfl, rfl⟩

omit [LinearOrder K] [IsStrictOrderedRing K] in
theorem routed_reports (source dest : String) (send : Epoch K) (fidelity : DeliveryFidelity) (a : K)
    (hops : List String) :
    Reports (routed source dest send fidelity a hops) source dest send a hops :=
  ⟨rfl, rfl, rfl, rfl, _, rfl, rfl, rfl, rfl, rfl, rfl, rfl⟩

/-- What the query returns once its search has ended. -/
theorem deliver_of_final {source dest : String} {sizeBits : K} (hM : M.Forward)
    (hq : M.queryError source dest sizeBits = none) (hne : source ≠ dest) (send : Epoch K)
    (fidelity : DeliveryFidelity) (horizonS : Option K) :
    ∃ fuel₀ st d, Final (M.net send sizeBits fidelity horizonS) source send.tdbSeconds dest st ∧
      (∀ fuel, fuel₀ ≤ fuel → search (M.net send sizeBits fidelity horizonS) dest fuel
        (searchStart source send.tdbSeconds) = some st) ∧
      (∀ fuel, fuel₀ ≤ fuel →
        M.deliver fuel source dest send sizeBits fidelity horizonS = some (.ok d)) ∧
      (st.best.get? dest = none ∧ d = { delivered := false, source := source, dest := dest } ∨
        ∃ a p, st.best.get? dest = some a ∧
          (M.net send sizeBits fidelity horizonS).Travels source send.tdbSeconds dest a p ∧
          d = routed source dest send fidelity a p) := by
  obtain ⟨V, hs, hV⟩ := M.exists_closed_nodes send sizeBits fidelity horizonS source
  obtain ⟨fuel₁, st, hrun, hfin⟩ := search_returns (M.causal hM) dest hs hV
  cases hd : st.best.get? dest with
  | none =>
    refine ⟨fuel₁, st, _, hfin, hrun, fun fuel hf => ?_, Or.inl ⟨hd, rfl⟩⟩
    rw [deliver, hq]
    simp only [if_neg hne, hrun fuel hf, Option.bind_some, hd]
  | some a =>
    obtain ⟨p, hpred, htr⟩ := hfin.travels hd
    refine ⟨max fuel₁ p.length, st, _, hfin,
      fun fuel hf => hrun fuel ((le_max_left _ _).trans hf), fun fuel hf => ?_,
      Or.inr ⟨a, p, hd, htr, rfl⟩⟩
    rw [deliver, hq]
    simp only [if_neg hne, hrun fuel ((le_max_left _ _).trans hf), Option.bind_some, hd,
      predPath_of_predPath hpred fuel ((le_max_right _ _).trans hf), Option.map_some]

/-- What a store-and-forward query to another node returns once it has ended: nothing when no
schedule is within the horizon, else the earliest of all schedules. -/
theorem deliver_earliest (hM : M.Forward) {source dest : String} {sizeBits : K}
    (hq : M.queryError source dest sizeBits = none) (hsd : source ≠ dest) (send : Epoch K)
    (horizonS : Option K) :
    ∃ fuel₀ d,
      (∀ fuel, fuel₀ ≤ fuel →
        M.deliver fuel source dest send sizeBits .storeAndForward horizonS = some (.ok d)) ∧
      ((d = { delivered := false, source := source, dest := dest } ∧
          ∀ t p, M.Schedule sizeBits source send.tdbSeconds dest t p →
            ¬ withinHorizon send horizonS t = true) ∨
        ∃ a p, d = routed source dest send .storeAndForward a p ∧
          M.Schedule sizeBits source send.tdbSeconds dest a p ∧
          withinHorizon send horizonS a = true ∧
          ∀ t q, M.Schedule sizeBits source send.tdbSeconds dest t q → a ≤ t) := by
  obtain ⟨fuel₀, st, d, hfin, -, hrun, hcase⟩ :=
    deliver_of_final hM hq hsd send .storeAndForward horizonS
  -- the label of the destination is the earliest arrival within the horizon
  have hearliest : ∀ t p, M.Schedule sizeBits source send.tdbSeconds dest t p →
      withinHorizon send horizonS t = true → ∃ b, st.best.get? dest = some b ∧ b ≤ t := by
    intro t p hsched hwithin
    obtain ⟨t', p', hle, htr⟩ := exists_travels_of_schedule hM hsched hwithin
    obtain ⟨b, hb, hbt⟩ := hfin.earliest M.noOvertaking (M.causal hM) htr
    exact ⟨b, hb, hbt.trans hle⟩
  refine ⟨fuel₀, d, hrun, ?_⟩
  rcases hcase with ⟨hnone, rfl⟩ | ⟨a, p, hd, htr, rfl⟩
  · refine Or.inl ⟨rfl, fun t p hsched hwithin => ?_⟩
    obtain ⟨b, hb, -⟩ := hearliest t p hsched hwithin
    rw [hnone] at hb
    cases hb
  · have hwithin := (schedule_of_travels htr).2.resolve_left fun h => hsd h.1.symm
    refine Or.inr ⟨a, p, rfl, (schedule_of_travels htr).1, hwithin, fun t q hsched => ?_⟩
    by_cases ht : withinHorizon send horizonS t = true
    · obtain ⟨b, hb, hbt⟩ := hearliest t q hsched ht
      rw [hd] at hb
      obtain rfl := Option.some.inj hb
      exact hbt
    · -- a schedule beyond the horizon is later
      cases horizonS with
      | none => exact absurd rfl ht
      | some h =>
        simp only [withinHorizon, Option.all_some, decide_eq_true_eq, not_le] at ht hwithin
        exact hwithin.trans ht.le

/-- **Main theorem.** With latencies and a turnaround that are not negative, a store-and-forward
query that is not refused ends; it delivers exactly when some schedule gets the bundle to the
destination within the horizon, and then it reports the earliest arrival of all schedules, and the
nodes of a schedule with that arrival. -/
theorem deliver_storeAndForward (hM : M.Forward) {source dest : String} {send : Epoch K}
    {sizeBits : K} (hq : M.queryError source dest sizeBits = none) (horizonS : Option K) :
    ∃ fuel₀ d,
      (∀ fuel, fuel₀ ≤ fuel →
        M.deliver fuel source dest send sizeBits .storeAndForward horizonS = some (.ok d)) ∧
      (d.delivered = true ↔ ∃ t p, M.Schedule sizeBits source send.tdbSeconds dest t p ∧
        (source = dest ∨ withinHorizon send horizonS t = true)) ∧
      (d.delivered = true → ∃ a, Reports d source dest send a d.hops ∧
        M.Schedule sizeBits source send.tdbSeconds dest a d.hops ∧
        ∀ t p, M.Schedule sizeBits source send.tdbSeconds dest t p → a ≤ t) := by
  by_cases hsd : source = dest
  · subst hsd
    refine ⟨0, immediate source source send, fun fuel _ => ?_, ?_, fun _ => ?_⟩
    · rw [deliver, hq]
      simp only [if_pos]
    · exact iff_of_true rfl ⟨_, _, .start, Or.inl rfl⟩
    · exact ⟨send.tdbSeconds, immediate_reports source source send, .start,
        fun t p h => le_of_schedule hM h⟩
  · obtain ⟨fuel₀, d, hrun, hcase⟩ := deliver_earliest hM hq hsd send horizonS
    refine ⟨fuel₀, d, hrun, ?_, ?_⟩
    · rcases hcase with ⟨rfl, hnone⟩ | ⟨a, p, rfl, hsched, hwithin, -⟩
      · refine iff_of_false (by simp) ?_
        rintro ⟨t, p, hsched, heq | hwithin⟩
        · exact hsd heq
        · exact hnone t p hsched hwithin
      · exact iff_of_true rfl ⟨a, p, hsched, Or.inr hwithin⟩
    · intro hdel
      rcases hcase with ⟨rfl, -⟩ | ⟨a, p, rfl, hsched, -, hleast⟩
      · cases hdel
      · exact ⟨a, routed_reports source dest send .storeAndForward a p, hsched, hleast⟩

end DeliveryModel

/-! ## A relay that stores -/

/-- The contact S–R on `[0, 10)`. -/
def toRelay : Contact ℚ where
  nodeA := "S"
  nodeB := "R"
  window := ⟨⟨0, .tdb⟩, ⟨10, .tdb⟩, by decide⟩
  latencyS := some 1

/-- The contact R–G on `[20, 30)`. -/
def fromRelay : Contact ℚ where
  nodeA := "R"
  nodeB := "G"
  window := ⟨⟨20, .tdb⟩, ⟨30, .tdb⟩, by decide⟩
  latencyS := some 1

/-- A source, a relay and a destination whose contacts are never open together. -/
def relayModel : DeliveryModel ℚ where
  graph := { contacts := [toRelay, fromRelay] }

theorem relayModel_forward : relayModel.Forward where
  turnaround := le_rfl
  latency := by
    intro c hc
    simp only [relayModel, List.mem_cons, List.not_mem_nil, or_false] at hc
    rcases hc with rfl | rfl <;> decide

/-- The relay stores the bundle until its second contact opens. -/
theorem relayModel_schedule : relayModel.Schedule 0 "S" 0 "G" 21 ["S", "R", "G"] := by
  have hR : relayModel.Schedule 0 "S" 0 "R" (0 + txTime toRelay 0 + hopLatency toRelay + 0)
      (["S"] ++ ["R"]) :=
    .send .start List.mem_cons_self (Or.inl ⟨rfl, rfl⟩) le_rfl le_rfl (by decide)
      (by decide +kernel)
  have hG : relayModel.Schedule 0 "S" 0 "G" (20 + txTime fromRelay 0 + hopLatency fromRelay + 0)
      ((["S"] ++ ["R"]) ++ ["G"]) :=
    .send hR (List.mem_cons_of_mem _ List.mem_cons_self) (Or.inl ⟨rfl, rfl⟩) (by decide +kernel)
      le_rfl (by decide) (by decide +kernel)
  have h21 : 20 + txTime fromRelay 0 + hopLatency fromRelay + 0 = 21 := by decide +kernel
  exact h21 ▸ hG

theorem relayModel_delivers : ∃ fuel d,
    relayModel.deliver fuel "S" "G" ⟨0, .tdb⟩ 0 .storeAndForward none = some (.ok d) ∧
      d.delivered = true := by
  have hq : relayModel.queryError "S" "G" 0 = none := by decide +kernel
  obtain ⟨fuel, d, hrun, hiff, -⟩ :=
    DeliveryModel.deliver_storeAndForward relayModel_forward hq none
  exact ⟨fuel, d, hrun fuel le_rfl, hiff.mpr ⟨21, _, relayModel_schedule, Or.inr rfl⟩⟩

end AstroMine.Link
