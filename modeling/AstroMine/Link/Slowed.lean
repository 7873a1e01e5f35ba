import AstroMine.Link.Delivery

/-!
# Delivery over slower links

`DeliveryModel._hop_arrival` (`link/network/_dtn.py`, lines 167–190) takes the transmission time
of a bundle from the rate of a contact. A lower rate takes longer, down to zero: a contact whose rate
is zero sends at once. Such contacts come from the budget of a link that does not close
(`link/budget/_budget.py`, line 221).

Results:
* `txTime_le_of_lowers`: a lower rate that is not zero takes no less time.
* `Schedule.of_slowed`: what the slower contacts can do, the faster ones can, no later.
* `deliver_slowed_iff`: slower links never help, exactly when no rate is lowered to zero.
-/

namespace AstroMine.Link

open AstroMine.Core

variable {K : Type} [Field K] [LinearOrder K]

/-! ## Lower rates -/

/-- The contact with its rate lowered, to zero at the least. -/
structure Lowers (c c' : Contact K) : Prop where
  nodeA : c'.nodeA = c.nodeA
  nodeB : c'.nodeB = c.nodeB
  window : c'.window = c.window
  latency : c'.latencyS = c.latencyS
  rate : ∃ r r', c.rateBps = some r ∧ c'.rateBps = some r' ∧ 0 ≤ r' ∧ r' < r

namespace DeliveryModel

/-- The model with the rates of some contacts lowered, each by one of the changes `R`. -/
structure Slowed (R : Contact K → Contact K → Prop) (M M' : DeliveryModel K) : Prop where
  turnaround : M'.turnaroundS = M.turnaroundS
  declared : M'.graph.declared = M.graph.declared
  contacts : List.Forall₂ (fun c c' => c' = c ∨ R c c') M.graph.contacts M'.graph.contacts

/-- Whenever the second outcome delivers, the first does, and arrives no later. -/
def NoLater (o o' : Except (LinkNetworkError K) (Delivery K)) : Prop :=
  ∀ d', o' = .ok d' → d'.delivered = true → ∃ d a a', o = .ok d ∧ d.delivered = true ∧
    d.arrival.map Epoch.tdbSeconds = some a ∧ d'.arrival.map Epoch.tdbSeconds = some a' ∧ a ≤ a'

/-- Both queries return, and the one over the slower links delivers nothing else and nothing
earlier. -/
def SlowerNeverHelps (M M' : DeliveryModel K) (source dest : String) (send : Epoch K)
    (sizeBits : K) (horizonS : Option K) : Prop :=
  ∃ fuel₀ o o', (∀ fuel, fuel₀ ≤ fuel →
      M.deliver fuel source dest send sizeBits .storeAndForward horizonS = some o ∧
        M'.deliver fuel source dest send sizeBits .storeAndForward horizonS = some o') ∧
    NoLater o o'

/-! ## Endpoints -/

/-- What a query raises depends on the nodes that are known. -/
theorem queryError_congr {M M' : DeliveryModel K} (h : ∀ u, u ∈ M'.known ↔ u ∈ M.known)
    (source dest : String) (sizeBits : K) :
    M'.queryError source dest sizeBits = M.queryError source dest sizeBits := by
  have hnil : M'.known = [] ↔ M.known = [] := by
    simp only [List.eq_nil_iff_forall_not_mem, h]
  simp only [queryError, h, ne_eq, hnil]

section Slowed

variable {R : Contact K → Contact K → Prop} {M M' : DeliveryModel K} {sizeBits : K}

/-- A slowed contact has its counterpart, which differs in nothing but the rate. -/
theorem Slowed.exists_contact (hR : ∀ c c', R c c' → Lowers c c') (h : Slowed R M M')
    {c' : Contact K} (hc' : c' ∈ M'.graph.contacts) :
    ∃ c ∈ M.graph.contacts, (c' = c ∨ R c c') ∧ c'.nodeA = c.nodeA ∧ c'.nodeB = c.nodeB ∧
      c'.window = c.window ∧ c'.latencyS = c.latencyS := by
  obtain ⟨i, hi, rfl⟩ := List.mem_iff_getElem.mp hc'
  have hlen := h.contacts.length_eq
  have hrel := (List.forall₂_iff_get.mp h.contacts).2 i (by omega) hi
  refine ⟨M.graph.contacts[i], List.getElem_mem _, hrel, ?_⟩
  rcases hrel with heq | hlow
  · have heq' : M'.graph.contacts[i] = M.graph.contacts[i] := heq
    rw [heq']
    exact ⟨rfl, rfl, rfl, rfl⟩
  · have hlow' := hR _ _ hlow
    exact ⟨hlow'.nodeA, hlow'.nodeB, hlow'.window, hlow'.latency⟩

/-- The changes keep the endpoints. -/
theorem touches_iff_of_forall₂ (hR : ∀ c c', R c c' → Lowers c c') {cs cs' : List (Contact K)}
    (h : List.Forall₂ (fun c c' => c' = c ∨ R c c') cs cs') (u : String) :
    (∃ c' ∈ cs', c'.Touches u) ↔ ∃ c ∈ cs, c.Touches u := by
  induction h with
  | nil => simp
  | @cons c c' cs cs' hc _ ih =>
    have htouch : c'.Touches u ↔ c.Touches u := by
      rcases hc with rfl | hlow
      · exact Iff.rfl
      · rw [Contact.Touches, (hR _ _ hlow).nodeA, (hR _ _ hlow).nodeB, Contact.Touches]
    simp only [List.mem_cons, exists_eq_or_imp, htouch, ih]

theorem Slowed.mem_known (hR : ∀ c c', R c c' → Lowers c c') (h : Slowed R M M') (u : String) :
    u ∈ M'.known ↔ u ∈ M.known := by
  have hnodes : ∀ u, u ∈ M'.graph.nodes ↔ u ∈ M.graph.nodes := by
    intro u
    rw [ContactGraph.mem_nodes, ContactGraph.mem_nodes]
    exact touches_iff_of_forall₂ hR h.contacts u
  have hids : u ∈ M'.graph.nodeIds ↔ u ∈ M.graph.nodeIds := by
    rw [ContactGraph.nodeIds, ContactGraph.nodeIds, h.declared]
    cases M.graph.declared with
    | none => exact hnodes u
    | some ids => exact Iff.rfl
  rw [known, known, List.mem_append, List.mem_append, hids, hnodes]

/-- No change takes a rate to zero, or the bundle takes no time to send. -/
def NoneSilenced (R : Contact K → Contact K → Prop) (sizeBits : K) : Prop :=
  sizeBits ≤ 0 ∨ ∀ c c', R c c' → 0 ≤ hopLatency c → c.nodeA ≠ c.nodeB → c'.rateBps ≠ some 0

variable [IsStrictOrderedRing K]

/-- A lower rate that is not zero takes no less time. -/
theorem txTime_le_of_lowers {c c' : Contact K} (h : Lowers c c')
    (hz : sizeBits ≤ 0 ∨ c'.rateBps ≠ some 0) : txTime c sizeBits ≤ txTime c' sizeBits := by
  obtain ⟨r, r', hr, hr', hpos, hlt⟩ := h.rate
  rw [txTime, txTime, hr, hr']
  simp only
  by_cases hsize : sizeBits > 0
  · have hr'0 : r' ≠ 0 := by
      rintro rfl
      exact (hz.resolve_left (not_le.mpr hsize)) hr'
    have hr'pos : 0 < r' := lt_of_le_of_ne hpos (Ne.symm hr'0)
    rw [if_pos ⟨hsize, hr'pos.trans hlt⟩, if_pos ⟨hsize, hr'pos⟩]
    exact div_le_div_of_nonneg_left hsize.le hr'pos hlt.le
  · rw [if_neg fun h => hsize h.1, if_neg fun h => hsize h.1]

/-- **Run.** What a bundle can do over the slower contacts it can do over the faster ones, no
    later. -/
theorem Schedule.of_slowed (hR : ∀ c c', R c c' → Lowers c c') (h : Slowed R M M') (hM : M.Forward)
    (hz : NoneSilenced R sizeBits) {s v : String} {t₀ t' : K} {p : List String}
    (hsched : M'.Schedule sizeBits s t₀ v t' p) :
    ∃ t q, t ≤ t' ∧ M.Schedule sizeBits s t₀ v t q := by
  induction hsched with
  | start => exact ⟨t₀, [s], le_rfl, .start⟩
  | @send u v t' p c' txStart _ hc' hjoin hle hstart hopen hfit ih =>
    obtain ⟨t, q, htt, hq⟩ := ih
    obtain ⟨c, hc, hrel, hA, hB, hwin, hlat⟩ := h.exists_contact hR hc'
    have hhop : hopLatency c' = hopLatency c := by rw [hopLatency, hopLatency, hlat]
    rw [hwin] at hstart hopen hfit
    rw [Contact.Joins, hA, hB] at hjoin
    rw [hhop, h.turnaround]
    -- a loop goes nowhere
    by_cases huv : u = v
    · have htx := txTime_nonneg c' sizeBits
      have hnn := hM.latency c hc
      have hturn := hM.turnaround
      subst huv
      exact ⟨t, q, by linarith, hq⟩
    · have htx : txTime c sizeBits ≤ txTime c' sizeBits := by
        rcases hrel with rfl | hlow
        · exact le_rfl
        · refine txTime_le_of_lowers (hR _ _ hlow) (hz.imp_right fun hz => ?_)
          refine hz c c' hlow (hM.latency c hc) fun hAB => huv ?_
          rcases hjoin with ⟨rfl, rfl⟩ | ⟨rfl, rfl⟩
          · exact hAB
          · exact hAB.symm
      refine ⟨txStart + txTime c sizeBits + hopLatency c + M.turnaroundS, q ++ [v], by linarith, ?_⟩
      exact .send hq hc hjoin (htt.trans hle) hstart hopen (by linarith)

omit [IsStrictOrderedRing K] in
theorem Slowed.forward (hR : ∀ c c', R c c' → Lowers c c') (h : Slowed R M M') (hM : M.Forward) :
    M'.Forward := by
  refine ⟨by rw [h.turnaround]; exact hM.turnaround, fun c' hc' => ?_⟩
  obtain ⟨c, hc, -, -, -, -, hlat⟩ := h.exists_contact hR hc'
  have hnn := hM.latency c hc
  rwa [hopLatency, hlat]

/-- Without a rate that is taken to zero, slower links never help. -/
theorem slowerNeverHelps (hR : ∀ c c', R c c' → Lowers c c') (h : Slowed R M M') (hM : M.Forward)
    (hz : NoneSilenced R sizeBits) (source dest : String) (send : Epoch K) (horizonS : Option K) :
    SlowerNeverHelps M M' source dest send sizeBits horizonS := by
  have hquery := queryError_congr (h.mem_known hR) source dest sizeBits
  cases hq : M.queryError source dest sizeBits with
  | some err =>
    refine ⟨0, .error err, .error err, fun fuel _ => ⟨?_, ?_⟩, fun d' hd' => by cases hd'⟩
    · rw [deliver, hq]
    · rw [deliver, hquery, hq]
  | none =>
    by_cases hsd : source = dest
    · refine ⟨0, .ok (immediate source dest send), .ok (immediate source dest send),
        fun fuel _ => ⟨?_, ?_⟩, fun d' hd' _ => ?_⟩
      · rw [deliver, hq]
        simp only [if_pos hsd]
      · rw [deliver, hquery, hq]
        simp only [if_pos hsd]
      · cases hd'
        exact ⟨_, _, _, rfl, rfl, rfl, rfl, le_rfl⟩
    · obtain ⟨fuel, d, hrun, hcase⟩ := deliver_earliest hM hq hsd send horizonS
      obtain ⟨fuel', d', hrun', hcase'⟩ :=
        deliver_earliest (h.forward hR hM) (hquery.trans hq) hsd send horizonS
      refine ⟨max fuel fuel', .ok d, .ok d', fun n hn => ⟨hrun n ((le_max_left _ _).trans hn),
        hrun' n ((le_max_right _ _).trans hn)⟩, fun e he hdel => ?_⟩
      cases he
      rcases hcase' with ⟨rfl, -⟩ | ⟨a', p', rfl, hsched', hwithin', -⟩
      · cases hdel
      obtain ⟨t, q, hle, hsched⟩ := hsched'.of_slowed hR h hM hz
      have hwithin : withinHorizon send horizonS t = true := by
        cases horizonS with
        | none => rfl
        | some h =>
          simp only [withinHorizon, Option.all_some, decide_eq_true_eq] at hwithin' ⊢
          exact hle.trans hwithin'
      rcases hcase with ⟨-, hnone⟩ | ⟨a, p, rfl, -, -, hleast⟩
      · exact absurd hwithin (hnone t q hsched)
      · exact ⟨_, a, a', rfl, rfl, rfl, rfl, (hleast t q hsched).trans hle⟩

end Slowed

/-! ## A rate taken to zero -/

/-- A network of one contact. -/
def alone (c : Contact K) : DeliveryModel K where
  graph := { contacts := [c] }

section Alone

variable [IsStrictOrderedRing K] {c : Contact K} {sizeBits : K}

omit [IsStrictOrderedRing K] in
theorem alone_forward (hlat : 0 ≤ hopLatency c) : (alone c).Forward where
  turnaround := le_rfl
  latency := by
    intro c' hc'
    obtain rfl := List.mem_singleton.mp hc'
    exact hlat

omit [IsStrictOrderedRing K] in
theorem alone_queryError (hsize : 0 ≤ sizeBits) :
    (alone c).queryError c.nodeA c.nodeB sizeBits = none := by
  have hA : c.nodeA ∈ (alone c).known :=
    List.mem_append_right _ ((ContactGraph.mem_nodes _ _).2 ⟨c, List.mem_singleton_self c, Or.inl rfl⟩)
  have hB : c.nodeB ∈ (alone c).known :=
    List.mem_append_right _ ((ContactGraph.mem_nodes _ _).2 ⟨c, List.mem_singleton_self c, Or.inr rfl⟩)
  rw [queryError, if_neg fun h => h.2 hA, if_neg fun h => h.2 hB, if_neg (not_lt.mpr hsize)]

/-- A bundle that crosses the contact is there no earlier than its transmission allows. -/
theorem alone_le (hlat : 0 ≤ hopLatency c) {s v : String} {t₀ t : K} {p : List String}
    (h : (alone c).Schedule sizeBits s t₀ v t p) :
    v = s ∨ c.window.start.tdbSeconds + txTime c sizeBits + hopLatency c ≤ t := by
  cases h with
  | start => exact Or.inl rfl
  | @send u v t p c' txStart _ hc' _ _ hstart _ _ =>
    obtain rfl := List.mem_singleton.mp hc'
    refine Or.inr ?_
    have hzero : (alone c').turnaroundS = 0 := rfl
    rw [hzero]
    linarith

omit [IsStrictOrderedRing K] in
/-- From one end to the other when the contact opens, a bundle that fits arrives. -/
theorem alone_schedule (hfit : c.window.start.tdbSeconds + txTime c sizeBits ≤
    c.window.stop.tdbSeconds) :
    (alone c).Schedule sizeBits c.nodeA c.window.start.tdbSeconds c.nodeB
      (c.window.start.tdbSeconds + txTime c sizeBits + hopLatency c + 0) [c.nodeA, c.nodeB] :=
  .send .start (List.mem_singleton_self c) (Or.inl ⟨rfl, rfl⟩) le_rfl le_rfl c.window.start_lt_stop hfit

/-- A rate taken to zero sends at once what took its time before. -/
theorem not_slowerNeverHelps {c' : Contact K} (h : Lowers c c') (hlat : 0 ≤ hopLatency c)
    (hAB : c.nodeA ≠ c.nodeB) (hsize : 0 < sizeBits) (hzero : c'.rateBps = some 0) :
    ¬ SlowerNeverHelps (alone c) (alone c') c.nodeA c.nodeB c.window.start sizeBits none := by
  obtain ⟨r, r', hr, -, hpos, hlt⟩ := h.rate
  have htx : 0 < txTime c sizeBits := by
    rw [txTime, hr]
    simp only
    rw [if_pos ⟨hsize, hpos.trans_lt hlt⟩]
    exact div_pos hsize (hpos.trans_lt hlt)
  have htx' : txTime c' sizeBits = 0 := by
    rw [txTime, hzero]
    simp
  have hlat' : hopLatency c' = hopLatency c := by rw [hopLatency, hopLatency, h.latency]
  rintro ⟨fuel, o, o', hrun, hno⟩
  have hq := alone_queryError (c := c) hsize.le
  have hq' := alone_queryError (c := c') hsize.le
  rw [h.nodeA, h.nodeB] at hq'
  obtain ⟨fuel₁, d, hd, hcase⟩ :=
    deliver_earliest (alone_forward hlat) hq hAB c.window.start none
  obtain ⟨fuel₂, d', hd', hcase'⟩ :=
    deliver_earliest (alone_forward (hlat'.symm ▸ hlat)) hq' hAB c.window.start none
  have hn := hrun (max fuel (max fuel₁ fuel₂)) (le_max_left _ _)
  rw [hd _ ((le_max_left _ _).trans (le_max_right _ _)),
    hd' _ ((le_max_right _ _).trans (le_max_right _ _))] at hn
  obtain ⟨ho, ho'⟩ := hn
  obtain rfl := Option.some.inj ho
  obtain rfl := Option.some.inj ho'
  have hfit' : c'.window.start.tdbSeconds + txTime c' sizeBits ≤ c'.window.stop.tdbSeconds := by
    rw [htx', add_zero]
    exact c'.window.start_lt_stop.le
  have hsched' := alone_schedule hfit'
  rw [htx', hlat', h.nodeA, h.nodeB, h.window] at hsched'
  rcases hcase' with ⟨-, hnone⟩ | ⟨a', p', rfl, -, -, hleast'⟩
  · exact hnone _ _ hsched' rfl
  obtain ⟨e, a, a'', he, hdel, harr, harr', hle⟩ := hno _ rfl rfl
  cases he
  rcases hcase with ⟨rfl, -⟩ | ⟨b, p, rfl, hsched, -, -⟩
  · cases hdel
  obtain rfl : b = a := Option.some.inj harr
  obtain rfl : a' = a'' := Option.some.inj harr'
  have hb := (alone_le hlat hsched).resolve_left fun h => hAB h.symm
  have ha' := hleast' _ _ hsched'
  linarith

end Alone

/-- **Main theorem.** Whatever rates are lowered by the changes `R`, a store-and-forward query over
    the slower links delivers nothing else and nothing earlier, exactly when no change takes the
    rate between two nodes to zero or the bundle is empty. -/
theorem deliver_slowed_iff [IsStrictOrderedRing K] {R : Contact K → Contact K → Prop}
    (hR : ∀ c c', R c c' → Lowers c c') (sizeBits : K) :
    (∀ M M' : DeliveryModel K, M.Forward → Slowed R M M' → ∀ source dest send horizonS,
      SlowerNeverHelps M M' source dest send sizeBits horizonS) ↔ NoneSilenced R sizeBits := by
  constructor
  · intro h
    by_contra hz
    rw [NoneSilenced] at hz
    push Not at hz
    obtain ⟨hsize, c, c', hRc, hlat, hAB, hzero⟩ := hz
    refine not_slowerNeverHelps (hR c c' hRc) hlat hAB hsize hzero ?_
    refine h (alone c) (alone c') (alone_forward hlat) ⟨rfl, rfl, ?_⟩ _ _ _ _
    exact .cons (Or.inr hRc) .nil
  · intro hz M M' hM h source dest send horizonS
    exact slowerNeverHelps hR h hM hz source dest send horizonS

/-! ## A contact of ten seconds -/

/-- The contact S–G on `[0, 10)` with the rate. -/
def linkAt (rate : ℚ) : Contact ℚ where
  nodeA := "S"
  nodeB := "G"
  window := toRelay.window
  rateBps := some rate
  latencyS := some 1

theorem linkAt_lowers {rate rate' : ℚ} (hnonneg : 0 ≤ rate') (hlt : rate' < rate) :
    Lowers (linkAt rate) (linkAt rate') :=
  ⟨rfl, rfl, rfl, rfl, rate, rate', rfl, rfl, hnonneg, hlt⟩

/-- Five bits at two bits a second, then at one. -/
theorem deliver_slowed_iff_halved :
    SlowerNeverHelps (alone (linkAt 2)) (alone (linkAt 1)) "S" "G" ⟨0, .tdb⟩ 5 none ∧
      NoneSilenced (fun c c' => c = linkAt 2 ∧ c' = linkAt 1) (5 : ℚ) := by
  have hR : ∀ c c', c = linkAt 2 ∧ c' = linkAt 1 → Lowers c c' := by
    rintro c c' ⟨rfl, rfl⟩
    exact linkAt_lowers (by norm_num) (by norm_num)
  have hz : NoneSilenced (fun c c' => c = linkAt 2 ∧ c' = linkAt 1) (5 : ℚ) := by
    refine Or.inr ?_
    rintro c c' ⟨rfl, rfl⟩ - -
    decide
  have hlat : 0 ≤ hopLatency (linkAt 2) := by decide
  have hslow : Slowed (fun c c' => c = linkAt 2 ∧ c' = linkAt 1) (alone (linkAt 2))
      (alone (linkAt 1)) :=
    ⟨rfl, rfl, .cons (Or.inr ⟨rfl, rfl⟩) .nil⟩
  exact ⟨(deliver_slowed_iff hR 5).2 hz _ _ (alone_forward hlat) hslow _ _ _ _, hz⟩

/-- **Counterexample.** Twenty bits do not fit at one bit a second, and are sent at once when the
    link is down to zero. -/
theorem deliver_silenced :
    (alone (linkAt 1)).deliver 9 "S" "G" ⟨0, .tdb⟩ 20 .storeAndForward none =
        some (.ok { delivered := false, source := "S", dest := "G" }) ∧
      (alone (linkAt 0)).deliver 9 "S" "G" ⟨0, .tdb⟩ 20 .storeAndForward none =
        some (.ok (routed "S" "G" ⟨0, .tdb⟩ .storeAndForward 1 ["S", "G"])) ∧
      ¬ SlowerNeverHelps (alone (linkAt 1)) (alone (linkAt 0)) "S" "G" ⟨0, .tdb⟩ 20 none := by
  refine ⟨by decide +kernel, by decide +kernel, ?_⟩
  exact not_slowerNeverHelps (linkAt_lowers le_rfl (by norm_num)) (by decide) (by decide)
    (by norm_num) rfl

end DeliveryModel

end AstroMine.Link
