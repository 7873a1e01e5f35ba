import Mathlib.Tactic.NormNum
import AstroMine.Link.Reach

/-!
# The instantaneous fidelity and the links open at the send epoch

In the instantaneous fidelity a hop needs its contact to be open when the bundle gets to the node,
which is later than the send epoch once the hops before it have taken time. The query agrees with
the reachability over the links open at the send epoch as long as that makes no difference at the
nodes it expands.

Results:
* `frozen_travels_iff`: journeys in the frozen network are paths of links open at the send epoch.
* `DeliveryModel.deliver_instantaneous`: where the contacts stay as they are at the send epoch, the
  instantaneous query delivers exactly when `reachable_route` finds a route over the open links.
-/

namespace AstroMine.Link

open AstroMine.Core

variable {K : Type} [Field K] [LinearOrder K]

namespace DeliveryModel

variable (M : DeliveryModel K)

/-! ## The snapshot at the send epoch -/

/-- The links open at the send epoch, as a snapshot of the sampler. -/
def openLinks (send : Epoch K) : Dict (String × String) (LinkState K) :=
  .ofList ((M.graph.contacts.filter fun c => c.openAt send).map fun c =>
    (pairKey c.nodeA c.nodeB,
      { reachable := true, rateBps := c.rateBps, latencyS := c.latencyS }))

/-- The network of the links open at the send epoch, whatever the time they are taken at. -/
def frozen (send : Epoch K) (sizeBits : K) : TimedNet String K (Contact K) where
  edges := M.graph.contactsFrom
  head u c := (c.other u).getD u
  hop c t := if c.openAt send then some (t + txTime c sizeBits + hopLatency c + M.turnaroundS)
    else none

/-- At every node, at the earliest time the bundle can get there over links open at the send epoch,
if that is not after the earliest such time at the destination: each contact of the node can be
used then exactly if it is open at the send epoch. -/
def Steady (source dest : String) (send : Epoch K) (sizeBits : K) : Prop :=
  ∀ u t p, (M.frozen send sizeBits).Travels source send.tdbSeconds u t p →
    (M.frozen send sizeBits).NotBefore source send.tdbSeconds u t →
    (M.frozen send sizeBits).NotBefore source send.tdbSeconds dest t →
    ∀ c ∈ M.graph.contacts, c.Touches u →
      ((M.hopArrival c t sizeBits .instantaneous).isSome = true ↔ c.openAt send = true)

variable {M}

omit [Field K] in
theorem pairKey_joins (c : Contact K) : c.Joins (pairKey c.nodeA c.nodeB).1
    (pairKey c.nodeA c.nodeB).2 := by
  rw [pairKey]
  split_ifs
  · exact Or.inl ⟨rfl, rfl⟩
  · exact Or.inr ⟨rfl, rfl⟩

omit [Field K] in
theorem joins_symm {c : Contact K} {u v : String} (h : c.Joins u v) : c.Joins v u := by
  rcases h with ⟨hA, hB⟩ | ⟨hB, hA⟩
  · exact Or.inr ⟨hB, hA⟩
  · exact Or.inl ⟨hA, hB⟩

/-- Two nodes are linked in the snapshot exactly when an open contact joins them. -/
theorem linked_openLinks_iff (send : Epoch K) (u v : String) :
    Linked (M.openLinks send) u v ↔ ∃ c ∈ M.graph.contacts, c.openAt send = true ∧ c.Joins u v := by
  constructor
  · rintro ⟨state, -, hget⟩
    have hkey : ∀ k, (M.openLinks send).get? k = some state →
        ∃ c ∈ M.graph.contacts, c.openAt send = true ∧ c.Joins k.1 k.2 := by
      intro k hk
      obtain ⟨c, hc, heq⟩ := List.mem_map.mp (Dict.get?_ofList_mem hk)
      obtain ⟨hc, hopen⟩ := List.mem_filter.mp hc
      obtain ⟨rfl, -⟩ := Prod.mk.inj heq
      exact ⟨c, hc, hopen, pairKey_joins c⟩
    rcases hget with hget | hget
    · exact hkey _ hget
    · obtain ⟨c, hc, hopen, hj⟩ := hkey _ hget
      exact ⟨c, hc, hopen, joins_symm hj⟩
  · rintro ⟨c, hc, hopen, hj⟩
    have hsome : ((M.openLinks send).get? (pairKey c.nodeA c.nodeB)).isSome := by
      have hm : (pairKey c.nodeA c.nodeB,
          ({ reachable := true, rateBps := c.rateBps, latencyS := c.latencyS } : LinkState K)) ∈
          (M.graph.contacts.filter fun c => c.openAt send).map fun c =>
            (pairKey c.nodeA c.nodeB,
              ({ reachable := true, rateBps := c.rateBps, latencyS := c.latencyS } :
                LinkState K)) :=
        List.mem_map.mpr ⟨c, List.mem_filter.mpr ⟨hc, hopen⟩, rfl⟩
      exact Dict.isSome_get?_ofList hm
    obtain ⟨state, hstate⟩ := Option.isSome_iff_exists.mp hsome
    have hr : state.reachable = true := by
      obtain ⟨c', -, heq⟩ := List.mem_map.mp (Dict.get?_ofList_mem hstate)
      rw [← (Prod.mk.inj heq).2]
    refine ⟨state, hr, ?_⟩
    have hpair : pairKey c.nodeA c.nodeB = (u, v) ∨ pairKey c.nodeA c.nodeB = (v, u) := by
      rw [pairKey]
      rcases hj with ⟨rfl, rfl⟩ | ⟨rfl, rfl⟩ <;> split_ifs <;> simp
    rcases hpair with hp | hp
    · exact Or.inl (hp ▸ hstate)
    · exact Or.inr (hp ▸ hstate)

/-! ## The frozen network -/

variable {send : Epoch K} {sizeBits : K}

theorem frozen_head_of_joins {c : Contact K} {u v : String} (h : c.Joins u v) :
    (M.frozen send sizeBits).head u c = v := by
  show (c.other u).getD u = v
  rw [Contact.other_of_joins h, Option.getD_some]

theorem frozen_hop_eq_some {c : Contact K} {t a : K} :
    (M.frozen send sizeBits).hop c t = some a ↔
      c.openAt send = true ∧ a = t + txTime c sizeBits + hopLatency c + M.turnaroundS := by
  rw [frozen]
  simp only
  split_ifs with h
  · simp [h, eq_comm]
  · simp [h]

/-- Journeys in the frozen network are paths of links open at the send epoch. -/
theorem frozen_travels_iff (send : Epoch K) (sizeBits : K) (source v : String) (t₀ : K) :
    (∃ t p, (M.frozen send sizeBits).Travels source t₀ v t p) ↔
      Relation.ReflTransGen (Linked (M.openLinks send)) source v := by
  constructor
  · rintro ⟨t, p, h⟩
    induction h with
    | start => exact .refl
    | @hop u t p c t' _ hc hop ih =>
      obtain ⟨hopen, -⟩ := frozen_hop_eq_some.1 hop
      obtain ⟨hc, htouch⟩ := (M.graph.mem_contactsFrom u c).mp hc
      obtain ⟨w, hw⟩ := Option.isSome_iff_exists.mp ((c.other_isSome_iff u).mpr htouch)
      have hj := Contact.joins_of_other hw
      rw [frozen_head_of_joins hj]
      exact ih.tail ((linked_openLinks_iff send u w).mpr ⟨c, hc, hopen, hj⟩)
  · intro h
    induction h with
    | refl => exact ⟨_, _, .start⟩
    | @tail u w _ hlink ih =>
      obtain ⟨t, p, htr⟩ := ih
      obtain ⟨c, hc, hopen, hj⟩ := (linked_openLinks_iff send u w).mp hlink
      have hedge : c ∈ (M.frozen send sizeBits).edges u := by
        refine (M.graph.mem_contactsFrom u c).mpr ⟨hc, ?_⟩
        rw [← c.other_isSome_iff, Contact.other_of_joins hj]
        rfl
      have hstep := TimedNet.Travels.hop htr hedge (frozen_hop_eq_some.2 ⟨hopen, rfl⟩)
      rw [frozen_head_of_joins hj] at hstep
      exact ⟨_, _, hstep⟩

variable [IsStrictOrderedRing K]

theorem frozen_causal (hM : M.Forward) : (M.frozen send sizeBits).Causal := by
  intro u c hc t a h
  obtain ⟨-, rfl⟩ := frozen_hop_eq_some.1 h
  have hlat := hM.latency c ((M.graph.mem_contactsFrom u c).mp hc).1
  have hturn := hM.turnaround
  have htx := txTime_nonneg c sizeBits
  linarith

theorem frozen_noOvertaking : (M.frozen send sizeBits).NoOvertaking := by
  intro c t t₁ a hle h
  obtain ⟨hopen, rfl⟩ := frozen_hop_eq_some.1 h
  exact ⟨_, frozen_hop_eq_some.2 ⟨hopen, rfl⟩, by linarith⟩

omit [IsStrictOrderedRing K] in
/-- A hop that can be taken at `t` exactly when it is open at the send epoch is the frozen hop. -/
theorem hop_eq_frozen {c : Contact K} {t : K}
    (h : (M.hopArrival c t sizeBits .instantaneous).isSome = true ↔ c.openAt send = true) :
    (M.net send sizeBits .instantaneous none).hop c t = (M.frozen send sizeBits).hop c t := by
  have hnet : (M.net send sizeBits .instantaneous none).hop c t =
      M.hopArrival c t sizeBits .instantaneous := by
    cases ha : M.hopArrival c t sizeBits .instantaneous with
    | none => simp [net, ha]
    | some a => simp [net, ha, withinHorizon]
  rw [hnet]
  cases ha : M.hopArrival c t sizeBits .instantaneous with
  | none =>
    rw [ha] at h
    simp only [Option.isSome_none, Bool.false_eq_true, false_iff] at h
    exact (if_neg h).symm
  | some a =>
    rw [ha] at h
    obtain ⟨u, hu, hua⟩ := Option.bind_eq_some_iff.mp ha
    rw [usableStart] at hu
    split_ifs at hu
    obtain rfl := Option.some.inj hu
    split_ifs at hua
    exact (frozen_hop_eq_some.2 ⟨h.mp rfl, (Option.some.inj hua).symm⟩).symm

/-- **Main theorem.** Where the contacts stay as they are at the send epoch while the bundle
travels, the instantaneous query delivers exactly when `reachable_route` finds a route over the
links open at the send epoch. -/
theorem deliver_instantaneous (hM : M.Forward) {source dest : String}
    (hq : M.queryError source dest sizeBits = none) (hsource : source ∈ M.known)
    (hsteady : M.Steady source dest send sizeBits) :
    ∃ fuel₀ d r,
      (∀ fuel, fuel₀ ≤ fuel →
        M.deliver fuel source dest send sizeBits .instantaneous none = some (.ok d) ∧
        reachableRoute fuel M.known (M.openLinks send) source [dest] send = some (.ok r)) ∧
      (d.delivered = true ↔ r.isSome = true) := by
  obtain ⟨fuel₁, r, hroute, hr⟩ :=
    reachableRoute_returns (M.openLinks send) hsource [dest] send
  have hr' : r.isSome = true ↔ Relation.ReflTransGen (Linked (M.openLinks send)) source dest := by
    rw [hr]
    simp
  by_cases hsd : source = dest
  · subst hsd
    refine ⟨fuel₁, immediate source source send, r, fun fuel hf => ⟨?_, hroute fuel hf⟩, ?_⟩
    · rw [deliver, hq]
      simp only [if_pos]
    · exact iff_of_true rfl (hr'.mpr .refl)
  · obtain ⟨fuel₂, st, d, -, hsearch, hrun, hcase⟩ :=
      deliver_of_final hM hq hsd send .instantaneous none
    obtain ⟨V, hs, hV⟩ := M.exists_closed_nodes send sizeBits .instantaneous none source
    obtain ⟨fuel₃, st', hsearch', hfin'⟩ : ∃ fuel₀ st,
        (∀ fuel, fuel₀ ≤ fuel → search (M.frozen send sizeBits) dest fuel
          (searchStart source send.tdbSeconds) = some st) ∧
        Final (M.frozen send sizeBits) source send.tdbSeconds dest st :=
      search_returns (frozen_causal hM) dest hs hV
    -- the search is that of the frozen network
    have hsame : st = st' := by
      have hno : (M.frozen send sizeBits).NoOvertaking := frozen_noOvertaking
      have hhop : ∀ u t p, (M.frozen send sizeBits).Travels source send.tdbSeconds u t p →
          (M.frozen send sizeBits).NotBefore source send.tdbSeconds u t →
          (M.frozen send sizeBits).NotBefore source send.tdbSeconds dest t →
          ∀ c ∈ (M.frozen send sizeBits).edges u,
            (M.net send sizeBits .instantaneous none).hop c t =
              (M.frozen send sizeBits).hop c t := by
        intro u t p htr hu hdest c hc
        obtain ⟨hc, htouch⟩ := (M.graph.mem_contactsFrom u c).mp hc
        exact hop_eq_frozen (hsteady u t p htr hu hdest c hc htouch)
      have hcongr := search_congr (frozen_causal hM) hno
        (show ∀ u, (M.net send sizeBits .instantaneous none).edges u =
          (M.frozen send sizeBits).edges u from fun _ => rfl)
        (fun _ _ => rfl) hhop (max fuel₂ fuel₃) ∅ send.tdbSeconds _
        (searchInv_start _ source send.tdbSeconds) (by simp)
      rw [hsearch _ (le_max_left _ _), hsearch' _ (le_max_right _ _)] at hcongr
      exact Option.some.inj hcongr
    refine ⟨max fuel₁ fuel₂, d, r, fun fuel hf => ⟨hrun fuel ((le_max_right _ _).trans hf),
      hroute fuel ((le_max_left _ _).trans hf)⟩, ?_⟩
    rw [hr', ← frozen_travels_iff send sizeBits source dest send.tdbSeconds]
    subst hsame
    rcases hcase with ⟨hnone, rfl⟩ | ⟨a, p, hd, -, rfl⟩
    · refine iff_of_false (by simp) ?_
      rintro ⟨t, p, htr⟩
      obtain ⟨b, hb, -⟩ := hfin'.earliest frozen_noOvertaking (frozen_causal hM) htr
      rw [hnone] at hb
      cases hb
    · obtain ⟨p', -, htr⟩ := hfin'.travels hd
      exact iff_of_true rfl ⟨a, p', htr⟩

end DeliveryModel

/-! ## A relay that is open now -/

/-- The contact R–G on `[0, stop)`. -/
def openRelay (stop : ℚ) (h : 0 < stop) : Contact ℚ where
  nodeA := "R"
  nodeB := "G"
  window := ⟨⟨0, .tdb⟩, ⟨stop, .tdb⟩, h⟩
  latencyS := some 1

/-- A source, a relay and a destination whose contacts are both open at epoch zero. -/
def openModel (stop : ℚ) (h : 0 < stop) : DeliveryModel ℚ where
  graph := { contacts := [toRelay, openRelay stop h] }

/-- The bundle gets to the relay when the contact that was open at the send epoch has closed: the
query delivers nothing, and `reachable_route` finds a route over the links open at that epoch. -/
theorem closingRelay_not_delivered :
    (openModel 1 (by decide)).deliver 4 "S" "G" ⟨0, .tdb⟩ 0 .instantaneous none =
        some (.ok { delivered := false, source := "S", dest := "G" }) ∧
      (reachableRoute 4 (openModel 1 (by decide)).known
          ((openModel 1 (by decide)).openLinks ⟨0, .tdb⟩) "S" ["G"] ⟨0, .tdb⟩).any
        (fun answer => answer.toOption.any Option.isSome) = true := by
  constructor <;> decide +kernel

theorem openModel_forward {stop : ℚ} (h : 0 < stop) : (openModel stop h).Forward where
  turnaround := le_rfl
  latency := by
    intro c hc
    simp only [openModel, List.mem_cons, List.not_mem_nil, or_false] at hc
    rcases hc with rfl | rfl
    · decide
    · exact zero_le_one

/-- With the relay open for ten seconds, both contacts stay open while the bundle travels. -/
theorem openModel_steady : (openModel 10 (by decide)).Steady "S" "G" ⟨0, .tdb⟩ 0 := by
  intro u t p htr _ hdest c hc _
  have h0 : 0 ≤ t :=
    htr.start_le (DeliveryModel.frozen_causal (openModel_forward (by decide)))
  have hS : toRelay ∈ (openModel 10 (by decide)).graph.contactsFrom "S" :=
    (ContactGraph.mem_contactsFrom _ _ _).mpr ⟨List.mem_cons_self, Or.inl rfl⟩
  have hR : ((openModel 10 (by decide)).frozen ⟨0, .tdb⟩ 0).Travels "S" 0 "R" 1 ["S", "R"] :=
    .hop (e := toRelay) .start hS (by decide +kernel)
  have hRelay : openRelay 10 (by decide) ∈
      (openModel 10 (by decide)).graph.contactsFrom "R" :=
    (ContactGraph.mem_contactsFrom _ _ _).mpr
      ⟨List.mem_cons_of_mem _ List.mem_cons_self, Or.inl rfl⟩
  have hG : ((openModel 10 (by decide)).frozen ⟨0, .tdb⟩ 0).Travels "S" 0 "G" 2
      ["S", "R", "G"] :=
    .hop (e := openRelay 10 (by decide)) hR hRelay (by decide +kernel)
  have h2 : t ≤ 2 := hdest _ _ hG
  have hopen : ∀ c ∈ (openModel 10 (by decide)).graph.contacts,
      c.window.start.tdbSeconds = 0 ∧ c.window.stop.tdbSeconds = 10 ∧ c.rateBps = none := by
    intro c hc
    simp only [openModel, List.mem_cons, List.not_mem_nil, or_false] at hc
    rcases hc with rfl | rfl <;> exact ⟨rfl, rfl, rfl⟩
  obtain ⟨hstart, hstop, hrate⟩ := hopen c hc
  have htx : txTime c 0 = 0 := by rw [txTime, hrate]
  refine iff_of_true ?_ ?_
  · rw [DeliveryModel.hopArrival, usableStart, hstart, hstop, if_pos ⟨h0, by linarith⟩,
      Option.bind_some, htx, if_neg (by linarith)]
    rfl
  · rw [Contact.openAt, hstart, hstop]
    decide

theorem openModel_delivers : ∃ fuel d r,
    (openModel 10 (by decide)).deliver fuel "S" "G" ⟨0, .tdb⟩ 0 .instantaneous none =
        some (.ok d) ∧
      reachableRoute fuel (openModel 10 (by decide)).known
        ((openModel 10 (by decide)).openLinks ⟨0, .tdb⟩) "S" ["G"] ⟨0, .tdb⟩ = some (.ok r) ∧
      (d.delivered = true ↔ r.isSome = true) := by
  obtain ⟨fuel, d, r, hrun, hiff⟩ :=
    DeliveryModel.deliver_instantaneous (openModel_forward (by decide)) (by decide +kernel)
      (by decide +kernel) openModel_steady
  exact ⟨fuel, d, r, (hrun fuel le_rfl).1, (hrun fuel le_rfl).2, hiff⟩

end AstroMine.Link
