import AstroMine.Lib.Dict
import AstroMine.Lib.Transition

/-!
# The durable event log (`cloud/runs/eventlog.py`)

Producers append to one log, and subscribers drain it under a durable name: a drain fetches a batch
above the ack floor of its name, handles the events one by one and acks each after it is handled.
A step of the system is one of these calls, so that the drains of subscribers that share a name
overlap in every way. `World.handled` is the history of the calls of handlers that returned.

Results:
* `fetch_prefix`: a fetched batch is what follows the ack floor, without a gap.
* `step_wellFormed`: everything up to a floor, and everything before a batch, has been handled.
* `floor_le_step`: no step moves a floor down.
* `delivery_at_least_once`: both, for every run.
-/

namespace AstroMine.Cloud

variable {S E : Type}

/-! ## The log -/

/-- `enumerate(events, start=1)`. -/
def enumerate (events : List E) : List (ℕ × E) := (events.zipIdx 1).map Prod.swap

/-- `InMemoryEventLog` (lines 55–67). -/
structure EventLog (E : Type) where
  events : List E
  ackFloor : Dict String ℕ

namespace EventLog

/-- `InMemoryEventLog.__init__` (lines 65–67). -/
def empty : EventLog E := ⟨[], .empty⟩

/-- `self._ack_floor.get(durable, 0)`. -/
def floor (log : EventLog E) (durable : String) : ℕ := log.ackFloor.getD durable 0

/-- `append` (lines 69–71): the sequence number of the event, and the log with it. -/
def append (log : EventLog E) (event : E) : ℕ × EventLog E :=
  (log.events.length + 1, { log with events := log.events ++ [event] })

/-- `fetch` (lines 73–76). -/
def fetch (log : EventLog E) (durable : String) (batch : ℕ) : List (ℕ × E) :=
  ((enumerate log.events).filter fun p => log.floor durable < p.1).take batch

/-- `ack` (lines 78–79). -/
def ack (log : EventLog E) (durable : String) (seq : ℕ) : EventLog E :=
  { log with ackFloor := log.ackFloor.set durable (max (log.floor durable) seq) }

end EventLog

/-! ## The system -/

/-- Where a call of `drain` stands (lines 96–104): the rest of its batch, whether the first event of
it was handled and its ack is due, and `handled`. -/
structure Drain (E : Type) where
  pending : List (ℕ × E)
  ackDue : Bool
  handled : ℕ

/-- The log, the drains in progress, and the history of the events that handlers returned from,
each with the subscriber it was delivered to. -/
structure World (S E : Type) where
  log : EventLog E
  drains : S → Option (Drain E)
  handled : List (S × ℕ × E)

/-- The steps: a producer appends; a subscriber begins a drain, its handler returns or raises, it
acks, its drain returns, and it stops. -/
inductive Action (S E : Type)
  | append (event : E)
  | fetch (s : S)
  | handle (s : S)
  | raises (s : S)
  | ack (s : S)
  | returns (s : S)
  | stop (s : S)

/-- The batch size that `drain` fetches with, the default of `fetch`. -/
def defaultBatch : ℕ := 64

/-- Nothing appended, and no drain in progress. -/
def World.init : World S E := ⟨.empty, fun _ => none, []⟩

section Step

variable [DecidableEq S] (durable : S → String)

/-- The drain of a subscriber after a step of it. -/
def World.setDrain (w : World S E) (s : S) (d : Option (Drain E)) : World S E :=
  { w with drains := Function.update w.drains s d }

/-- One step, where `durable` is the name that each subscriber was created with. A handler that
raises ends the drain, and the event is left unacked. -/
def step (w : World S E) : Action S E → Option (World S E)
  | .append event => some { w with log := (w.log.append event).2 }
  | .fetch s =>
    match w.drains s with
    | none => some (w.setDrain s (some ⟨w.log.fetch (durable s) defaultBatch, false, 0⟩))
    | some _ => none
  | .handle s =>
    match w.drains s with
    | some ⟨(seq, event) :: rest, false, handled⟩ =>
      some { w.setDrain s (some ⟨(seq, event) :: rest, true, handled⟩) with
        handled := w.handled ++ [(s, seq, event)] }
    | _ => none
  | .raises s =>
    match w.drains s with
    | some ⟨_ :: _, false, _⟩ => some (w.setDrain s none)
    | _ => none
  | .ack s =>
    match w.drains s with
    | some ⟨(seq, _) :: rest, true, handled⟩ =>
      some { w.setDrain s (some ⟨rest, false, handled + 1⟩) with
        log := w.log.ack (durable s) seq }
    | _ => none
  | .returns s =>
    match w.drains s with
    | some ⟨[], _, _⟩ => some (w.setDrain s none)
    | _ => none
  | .stop s => some (w.setDrain s none)

end Step

/-! ## Sequence numbers -/

theorem enumerate_append (events : List E) (event : E) :
    enumerate (events ++ [event]) = enumerate events ++ [(events.length + 1, event)] := by
  simp [enumerate, List.zipIdx_append, Nat.add_comm]

@[simp]
theorem length_enumerate (events : List E) : (enumerate events).length = events.length := by
  simp [enumerate]

theorem getElem?_enumerate (events : List E) (i : ℕ) :
    (enumerate events)[i]? = events[i]?.map fun event => (i + 1, event) := by
  simp only [enumerate, List.getElem?_map, List.getElem?_zipIdx, Option.map_map]
  refine congrArg (fun f => Option.map f events[i]?) (funext fun event => ?_)
  simp [Nat.add_comm]

theorem mem_enumerate {events : List E} {seq : ℕ} {event : E} :
    (seq, event) ∈ enumerate events ↔ 0 < seq ∧ events[seq - 1]? = some event := by
  rw [List.mem_iff_getElem?]
  constructor
  · rintro ⟨i, hi⟩
    rw [getElem?_enumerate, Option.map_eq_some_iff] at hi
    obtain ⟨e, he, hp⟩ := hi
    obtain ⟨rfl, rfl⟩ := Prod.mk.injEq .. ▸ hp
    exact ⟨Nat.succ_pos i, he⟩
  · rintro ⟨hpos, he⟩
    refine ⟨seq - 1, ?_⟩
    rw [getElem?_enumerate, he, Option.map_some, Nat.sub_add_cancel hpos]

/-- The events above a floor are those after the first `floor` of the log. -/
theorem filter_enumerate (events : List E) (floor : ℕ) :
    ((enumerate events).filter fun p => floor < p.1) = (enumerate events).drop floor := by
  induction events using List.reverseRecOn with
  | nil => simp [enumerate]
  | append_singleton events event ih =>
    rw [enumerate_append, List.filter_append, ih, List.drop_append, length_enumerate]
    congr 1
    by_cases h : floor < events.length + 1
    · have hzero : floor - events.length = 0 := by omega
      simp [h, hzero]
    · have hpos : floor - events.length ≠ 0 := by omega
      obtain ⟨n, hn⟩ := Nat.exists_eq_succ_of_ne_zero hpos
      simp [h, hn]

theorem fetch_prefix (log : EventLog E) (durable : String) (batch : ℕ) :
    log.fetch durable batch <+: (enumerate log.events).drop (log.floor durable) := by
  rw [EventLog.fetch, filter_enumerate]
  exact List.take_prefix batch _

theorem floor_ack (log : EventLog E) (durable other : String) (seq : ℕ) :
    (log.ack durable seq).floor other =
      if other = durable then max (log.floor durable) seq else log.floor other := by
  rw [EventLog.floor, EventLog.ack, Dict.getD, Dict.get?_set]
  split_ifs with h
  · rfl
  · rfl

/-! ## What lies below a floor -/

section Settled

variable (durable : S → String)

/-- A subscriber of the durable name has handled the event. -/
def HandledUnder (w : World S E) (name : String) (p : ℕ × E) : Prop :=
  ∃ s, durable s = name ∧ (s, p) ∈ w.handled

/-- Every event up to `k` is in the log and has been handled under the durable name. -/
def Settled (w : World S E) (name : String) (k : ℕ) : Prop :=
  k ≤ w.log.events.length ∧ ∀ p ∈ enumerate w.log.events, p.1 ≤ k → HandledUnder durable w name p

/-- A drain of the name goes on where everything has been handled, along the log, and an event whose
ack is due has been handled. -/
def Drain.Sound (w : World S E) (name : String) (d : Drain E) : Prop :=
  ∃ k, Settled durable w name k ∧ d.pending <+: (enumerate w.log.events).drop k ∧
    (d.ackDue = true → ∀ p ∈ d.pending.head?, HandledUnder durable w name p)

/-- The invariant of the system. -/
structure World.WellFormed (w : World S E) : Prop where
  floors : ∀ name, Settled durable w name (w.log.floor name)
  drains : ∀ s d, w.drains s = some d → d.Sound durable w (durable s)

end Settled

/-- `w'` extends `w`: the log and the history only grow. -/
structure Extends (w w' : World S E) : Prop where
  events : w.log.events <+: w'.log.events
  handled : w.handled ⊆ w'.handled

variable {durable : S → String} {w w' : World S E}

theorem enumerate_initial {xs ys : List E} (h : xs <+: ys) : enumerate xs <+: enumerate ys := by
  obtain ⟨zs, rfl⟩ := h
  rw [enumerate, enumerate, List.zipIdx_append, List.map_append]
  exact List.prefix_append _ _

theorem HandledUnder.extends {name : String} {p : ℕ × E} (h : HandledUnder durable w name p)
    (hw : Extends w w') : HandledUnder durable w' name p := by
  obtain ⟨s, hs, hp⟩ := h
  exact ⟨s, hs, hw.handled hp⟩

theorem Settled.extends {name : String} {k : ℕ} (h : Settled durable w name k)
    (hw : Extends w w') : Settled durable w' name k := by
  refine ⟨h.1.trans hw.events.length_le, fun p hmem hle => ?_⟩
  obtain ⟨seq, event⟩ := p
  rw [mem_enumerate] at hmem
  have hlt : seq - 1 < w.log.events.length := by
    have := h.1
    simp only at hle
    omega
  refine (h.2 (seq, event) (mem_enumerate.2 ⟨hmem.1, ?_⟩) hle).extends hw
  rw [← hmem.2, List.prefix_iff_getElem?.mp hw.events _ hlt, List.getElem?_eq_getElem hlt]

theorem Drain.Sound.extends {name : String} {d : Drain E} (h : d.Sound durable w name)
    (hw : Extends w w') : d.Sound durable w' name := by
  obtain ⟨k, hk, hpre, hdue⟩ := h
  refine ⟨k, hk.extends hw, hpre.trans ?_, fun hd p hp => (hdue hd p hp).extends hw⟩
  exact (enumerate_initial hw.events).drop k

/-- The first event of a drain is the one after the settled ones, and what is left of the batch
follows it. -/
theorem pending_cons {events : List E} {k seq : ℕ} {event : E} {rest : List (ℕ × E)}
    (h : (seq, event) :: rest <+: (enumerate events).drop k) :
    seq = k + 1 ∧ events[k]? = some event ∧ rest <+: (enumerate events).drop (k + 1) := by
  obtain ⟨tail, ht⟩ := h
  have hhead : (enumerate events)[k]? = some (seq, event) := by
    rw [← List.head?_drop, ← ht]
    rfl
  rw [getElem?_enumerate, Option.map_eq_some_iff] at hhead
  obtain ⟨e, he, hp⟩ := hhead
  obtain ⟨rfl, rfl⟩ := Prod.mk.injEq .. ▸ hp
  refine ⟨rfl, he, ⟨tail, ?_⟩⟩
  rw [← List.tail_drop, ← ht]
  rfl

/-- Once the event after the settled ones has been handled, it is settled. -/
theorem Settled.succ {name : String} {k : ℕ} {event : E} (h : Settled durable w name k)
    (he : w.log.events[k]? = some event) (hh : HandledUnder durable w name (k + 1, event)) :
    Settled durable w name (k + 1) := by
  obtain ⟨hlt, -⟩ := List.getElem?_eq_some_iff.mp he
  refine ⟨hlt, fun p hmem hle => ?_⟩
  obtain ⟨seq, event'⟩ := p
  by_cases hseq : seq ≤ k
  · exact h.2 (seq, event') hmem hseq
  · obtain rfl : seq = k + 1 := le_antisymm hle (Nat.lt_of_not_le hseq)
    rw [mem_enumerate, Nat.add_sub_cancel, he] at hmem
    exact Option.some.inj hmem.2 ▸ hh

theorem Settled.max {name : String} {k l : ℕ} (hk : Settled durable w name k)
    (hl : Settled durable w name l) : Settled durable w name (max k l) := by
  rcases le_total k l with h | h
  · exact (max_eq_right h).symm ▸ hl
  · exact (max_eq_left h).symm ▸ hk

theorem wellFormed_init : (World.init : World S E).WellFormed durable where
  floors _ := ⟨le_rfl, fun _ hmem _ => by cases hmem⟩
  drains _ _ h := by cases h

/-- The invariant after a step that extends the system and leaves the floors to be checked. -/
theorem World.WellFormed.extends (h : w.WellFormed durable) (hw : Extends w w')
    (hdrains : w'.drains = w.drains)
    (hfloors : ∀ name, Settled durable w' name (w'.log.floor name)) : w'.WellFormed durable :=
  ⟨hfloors, fun s d hs => (h.drains s d (hdrains ▸ hs)).extends hw⟩

section Step

variable [DecidableEq S] {s : S}

theorem World.WellFormed.setDrain (h : w.WellFormed durable) {d : Option (Drain E)}
    (hd : ∀ d' ∈ d, d'.Sound durable w (durable s)) : (w.setDrain s d).WellFormed durable := by
  refine ⟨h.floors, fun s' d' hs' => ?_⟩
  change Function.update w.drains s d s' = some d' at hs'
  rw [Function.update_apply] at hs'
  split_ifs at hs' with heq
  · exact heq ▸ hd d' hs'
  · exact h.drains s' d' hs'

/-- **Step.** Every step of a producer or a subscriber keeps the invariant. -/
theorem step_wellFormed (h : w.WellFormed durable) {a : Action S E}
    (hstep : step durable w a = some w') : w'.WellFormed durable := by
  cases a with
  | append event =>
    obtain rfl := Option.some.inj hstep
    have hw : Extends w { w with log := (w.log.append event).2 } :=
      ⟨List.prefix_append _ _, List.Subset.refl _⟩
    exact h.extends hw rfl fun name => (h.floors name).extends hw
  | fetch s =>
    simp only [step] at hstep
    split at hstep
    · obtain rfl := Option.some.inj hstep
      refine h.setDrain fun d' hd' => ?_
      obtain rfl := Option.some.inj hd'
      exact ⟨_, h.floors (durable s), fetch_prefix w.log (durable s) defaultBatch,
        fun hdue => by cases hdue⟩
    · cases hstep
  | handle s =>
    simp only [step] at hstep
    split at hstep
    · next seq event rest handled hs =>
      obtain rfl := Option.some.inj hstep
      obtain ⟨k, hk, hpre, -⟩ := h.drains s _ hs
      have hw : Extends w { w with handled := w.handled ++ [(s, seq, event)] } :=
        ⟨List.prefix_rfl, List.subset_append_left _ _⟩
      refine (h.extends hw rfl fun name => (h.floors name).extends hw).setDrain fun d' hd' => ?_
      obtain rfl := Option.some.inj hd'
      refine ⟨k, hk.extends hw, hpre, fun _ p hp => ?_⟩
      obtain rfl := Option.some.inj hp
      exact ⟨s, rfl, List.mem_append_right _ (List.mem_singleton_self _)⟩
    · cases hstep
  | raises s =>
    simp only [step] at hstep
    split at hstep
    · obtain rfl := Option.some.inj hstep
      exact h.setDrain fun d' hd' => by cases hd'
    · cases hstep
  | ack s =>
    simp only [step] at hstep
    split at hstep
    · next seq event rest handled hs =>
      obtain rfl := Option.some.inj hstep
      obtain ⟨k, hk, hpre, hdue⟩ := h.drains s _ hs
      obtain ⟨rfl, he, hrest⟩ := pending_cons hpre
      have hsucc := hk.succ he (hdue rfl _ rfl)
      have hw : Extends w { w with log := w.log.ack (durable s) (k + 1) } :=
        ⟨List.prefix_rfl, List.Subset.refl _⟩
      have hfloors : ∀ name, Settled durable { w with log := w.log.ack (durable s) (k + 1) }
          name ((w.log.ack (durable s) (k + 1)).floor name) := fun name => by
        rw [floor_ack]
        split_ifs with hname
        · exact hname ▸ ((h.floors (durable s)).max hsucc).extends hw
        · exact (h.floors name).extends hw
      refine (h.extends hw rfl hfloors).setDrain fun d' hd' => ?_
      obtain rfl := Option.some.inj hd'
      exact ⟨k + 1, hsucc.extends hw, hrest, fun hdue => by cases hdue⟩
    · cases hstep
  | returns s =>
    simp only [step] at hstep
    split at hstep
    · obtain rfl := Option.some.inj hstep
      exact h.setDrain fun d' hd' => by cases hd'
    · cases hstep
  | stop s =>
    obtain rfl := Option.some.inj hstep
    exact h.setDrain fun d' hd' => by cases hd'

/-- **Step.** No step moves a floor down. -/
theorem floor_le_step (name : String) {a : Action S E} (hstep : step durable w a = some w') :
    w.log.floor name ≤ w'.log.floor name := by
  cases a with
  | ack s =>
    simp only [step] at hstep
    split at hstep
    · next seq event rest handled hs =>
      obtain rfl := Option.some.inj hstep
      change _ ≤ (w.log.ack (durable s) seq).floor name
      rw [floor_ack]
      split_ifs with hname
      · exact hname ▸ le_max_left _ _
      · exact le_rfl
    · cases hstep
  | append event | stop s =>
    obtain rfl := Option.some.inj hstep
    exact le_rfl
  | fetch s | handle s | raises s | returns s =>
    simp only [step] at hstep
    split at hstep
    · obtain rfl := Option.some.inj hstep
      exact le_rfl
    · cases hstep

/-- **Main theorem.** In every interleaving of the calls, each event at or below a floor has been
handled by a subscriber of the name, and from there on the floor is not moved down. -/
theorem delivery_at_least_once (durable : S → String) {actions more : List (Action S E)}
    {later : World S E} (h : Transition.run (step durable) World.init actions = some w)
    (hmore : Transition.run (step durable) w more = some later) (name : String) :
    (∀ seq event, (seq, event) ∈ enumerate w.log.events → seq ≤ w.log.floor name →
      ∃ s, durable s = name ∧ (s, seq, event) ∈ w.handled) ∧
    w.log.floor name ≤ later.log.floor name := by
  have hw := Transition.run_invariant (World.WellFormed durable)
    (fun _ _ _ hI hs => step_wellFormed hI hs) wellFormed_init h
  refine ⟨fun seq event hmem hle => (hw.floors name).2 (seq, event) hmem hle, ?_⟩
  exact Transition.run_le (fun w : World S E => w.log.floor name)
    (fun _ _ _ hs => floor_le_step name hs) hmore

end Step

/-! ## Two subscribers of one name -/

/-- Both fetch the same two events. The first acks one of them after the second has acked both. -/
def overlapping : List (Action Bool String) :=
  [.append "queued", .append "done", .fetch true, .fetch false, .handle true, .handle false,
    .ack false, .handle false, .ack false, .ack true]

theorem overlapping_delivered :
    ∃ w later : World Bool String,
      Transition.run (step fun _ => "bench") World.init overlapping = some w ∧
      Transition.run (step fun _ => "bench") w [.stop true, .returns false] = some later ∧
      w.log.floor "bench" = 2 ∧
      ((∀ seq event, (seq, event) ∈ enumerate w.log.events → seq ≤ w.log.floor "bench" →
        ∃ s, "bench" = "bench" ∧ (s, seq, event) ∈ w.handled) ∧
      w.log.floor "bench" ≤ later.log.floor "bench") := by
  refine ⟨_, _, rfl, rfl, by decide, ?_⟩
  exact delivery_at_least_once (fun _ => "bench")
    (show Transition.run _ World.init overlapping = some _ from rfl)
    (show Transition.run _ _ [.stop true, .returns false] = some _ from rfl) "bench"

end AstroMine.Cloud
