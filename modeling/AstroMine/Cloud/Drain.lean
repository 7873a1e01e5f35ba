import AstroMine.Cloud.EventLog

/-!
# Draining a backlog (`cloud/runs/eventlog.py`)

One call of `DurableSubscriber.drain`, from the fetch to the return. The handler does not raise; it
acts on a state of its own, and it may append to the log. `Drained.calls` is the history of its
calls.

Results:
* `drainLoop_calls`, `drainLoop_events`, `drainLoop_floor`: what the loop makes of a fetched batch.
* `drain_backlog_iff`: a call leaves nothing of the backlog exactly when the backlog fits a batch.
-/

namespace AstroMine.Cloud

variable {W E : Type}

/-! ## The call -/

/-- What is pending for a durable name: the events above its floor, without a bound. -/
def EventLog.pending (log : EventLog E) (durable : String) : List (ℕ × E) :=
  (enumerate log.events).filter fun p => log.floor durable < p.1

/-- A handler: its state after an event, and what it has appended to the log meanwhile. -/
abbrev Handler (W E : Type) := W → E → W × List E

/-- The appends of a handler, one by one. -/
def EventLog.appendAll (log : EventLog E) (events : List E) : EventLog E :=
  events.foldl (fun log event => (log.append event).2) log

/-- The log, the state of the handler, the calls it has had, and the variable `handled`. -/
structure Drained (W E : Type) where
  log : EventLog E
  world : W
  calls : List E
  handled : ℕ

/-- One iteration of `drain` (lines 100–103). -/
def drainStep (handler : Handler W E) (durable : String) (st : Drained W E) (p : ℕ × E) :
    Drained W E :=
  let (world, appended) := handler st.world p.2
  { log := (st.log.appendAll appended).ack durable p.1
    world := world
    calls := st.calls ++ [p.2]
    handled := st.handled + 1 }

/-- The loop of `drain` over a fetched batch. -/
def drainLoop (handler : Handler W E) (durable : String) (st : Drained W E)
    (batch : List (ℕ × E)) : Drained W E :=
  batch.foldl (drainStep handler durable) st

/-- `drain` (lines 96–104): the number it returns is `handled`. -/
def drain (handler : Handler W E) (durable : String) (log : EventLog E) (w : W) : Drained W E :=
  drainLoop handler durable ⟨log, w, [], 0⟩ (log.fetch durable defaultBatch)

/-- What a handler appends to the log while it is given the events. -/
def appends (handler : Handler W E) : W → List E → List E
  | _, [] => []
  | w, event :: events => (handler w event).2 ++ appends handler (handler w event).1 events

/-! ## The loop -/

variable {handler : Handler W E} {durable : String} {log : EventLog E}

@[simp]
theorem appendAll_events (events : List E) :
    (log.appendAll events).events = log.events ++ events := by
  induction events generalizing log with
  | nil => exact (List.append_nil _).symm
  | cons event events ih =>
    rw [EventLog.appendAll, List.foldl_cons, ← EventLog.appendAll, ih]
    simp only [EventLog.append, List.append_assoc, List.singleton_append]

@[simp]
theorem appendAll_floor (events : List E) (name : String) :
    (log.appendAll events).floor name = log.floor name := by
  induction events generalizing log with
  | nil => rfl
  | cons event events ih =>
    rw [EventLog.appendAll, List.foldl_cons, ← EventLog.appendAll, ih]
    rfl

@[simp]
theorem drainStep_events (st : Drained W E) (p : ℕ × E) :
    (drainStep handler durable st p).log.events =
      st.log.events ++ (handler st.world p.2).2 :=
  appendAll_events _

theorem drainStep_floor (st : Drained W E) (p : ℕ × E) :
    (drainStep handler durable st p).log.floor durable = max (st.log.floor durable) p.1 := by
  simp only [drainStep, floor_ack, if_true, appendAll_floor]

/-- **Run.** The handler has had the events of the batch, one by one. -/
theorem drainLoop_calls (st : Drained W E) (batch : List (ℕ × E)) :
    (drainLoop handler durable st batch).calls = st.calls ++ batch.map Prod.snd ∧
    (drainLoop handler durable st batch).handled = st.handled + batch.length := by
  induction batch generalizing st with
  | nil => exact ⟨(List.append_nil _).symm, rfl⟩
  | cons p batch ih =>
    obtain ⟨hcalls, hhandled⟩ := ih (drainStep handler durable st p)
    rw [drainLoop, List.foldl_cons, ← drainLoop, hcalls, hhandled]
    refine ⟨?_, ?_⟩
    · simp only [drainStep, List.append_assoc, List.singleton_append, List.map_cons]
    · simp only [drainStep, List.length_cons]
      omega

/-- **Run.** The log has grown by what the handler appended. -/
theorem drainLoop_events (st : Drained W E) (batch : List (ℕ × E)) :
    (drainLoop handler durable st batch).log.events =
      st.log.events ++ appends handler st.world (batch.map Prod.snd) := by
  induction batch generalizing st with
  | nil => exact (List.append_nil _).symm
  | cons p batch ih =>
    rw [drainLoop, List.foldl_cons, ← drainLoop, ih, drainStep_events, List.append_assoc]
    rfl

/-- **Run.** A batch that follows the floor moves it to its end. -/
theorem drainLoop_floor (events : List E) (st : Drained W E) (batch : List (ℕ × E))
    (h : batch <+: (enumerate events).drop (st.log.floor durable)) :
    (drainLoop handler durable st batch).log.floor durable =
      st.log.floor durable + batch.length := by
  induction batch generalizing st with
  | nil => rfl
  | cons p batch ih =>
    obtain ⟨seq, event⟩ := p
    obtain ⟨hseq, -, hrest⟩ := pending_cons h
    have hfloor : (drainStep handler durable st (seq, event)).log.floor durable =
        st.log.floor durable + 1 := by
      rw [drainStep_floor, hseq]
      exact max_eq_right (Nat.le_succ _)
    rw [← hfloor] at hrest
    rw [drainLoop, List.foldl_cons, ← drainLoop, ih _ hrest, hfloor, List.length_cons]
    omega

/-! ## The backlog -/

theorem pending_eq_drop : log.pending durable = (enumerate log.events).drop (log.floor durable) :=
  filter_enumerate _ _

theorem fetch_eq_take (log : EventLog E) (durable : String) (batch : ℕ) :
    log.fetch durable batch = (log.pending durable).take batch :=
  rfl

theorem length_pending : (log.pending durable).length =
    log.events.length - log.floor durable := by
  rw [pending_eq_drop, List.length_drop, length_enumerate]

/-- The number of events that a call leaves: those past its batch, and those appended meanwhile. -/
theorem length_pending_drain (handler : Handler W E) (durable : String) (log : EventLog E) (w : W) :
    ((drain handler durable log w).log.pending durable).length =
      ((log.pending durable).length - defaultBatch) +
        (appends handler w ((log.fetch durable defaultBatch).map Prod.snd)).length := by
  have hbatch : log.fetch durable defaultBatch <+:
      (enumerate log.events).drop (log.floor durable) := fetch_prefix log durable defaultBatch
  have hlength := congrArg List.length (fetch_eq_take log durable defaultBatch)
  have hfloor : (drain handler durable log w).log.floor durable =
      log.floor durable + (log.fetch durable defaultBatch).length :=
    drainLoop_floor log.events ⟨log, w, [], 0⟩ _ hbatch
  have hevents : (drain handler durable log w).log.events =
      log.events ++ appends handler w ((log.fetch durable defaultBatch).map Prod.snd) :=
    drainLoop_events ⟨log, w, [], 0⟩ _
  rw [length_pending, hfloor, hevents, List.length_append]
  rw [List.length_take, length_pending] at hlength
  by_cases hempty : log.fetch durable defaultBatch = []
  · rw [hempty] at hlength ⊢
    rw [length_pending]
    simp only [List.length_nil, List.map_nil, appends] at hlength ⊢
    omega
  · have hpos := List.length_pos_of_ne_nil hempty
    rw [length_pending]
    omega

/-- The call hands each pending event to the handler once, in the order of the log, returns their
number, and leaves nothing pending. -/
def DrainsBacklog (handler : Handler W E) (durable : String) (log : EventLog E) (w : W) : Prop :=
  (drain handler durable log w).calls = (log.pending durable).map Prod.snd ∧
    (drain handler durable log w).handled = (log.pending durable).length ∧
    (drain handler durable log w).log.pending durable = []

/-- **Main theorem.** A call drains the backlog exactly when the backlog fits the default batch of
`fetch` and the handler appends nothing on it. -/
theorem drain_backlog_iff (handler : Handler W E) (durable : String) (log : EventLog E) (w : W) :
    DrainsBacklog handler durable log w ↔
    (log.pending durable).length ≤ defaultBatch ∧
      appends handler w ((log.pending durable).map Prod.snd) = [] := by
  have hleft := length_pending_drain handler durable log w
  have hcalls : (drain handler durable log w).calls =
      (log.fetch durable defaultBatch).map Prod.snd := (drainLoop_calls ⟨log, w, [], 0⟩ _).1
  have hhandled : (drain handler durable log w).handled =
      0 + (log.fetch durable defaultBatch).length := (drainLoop_calls ⟨log, w, [], 0⟩ _).2
  have hfits : (log.pending durable).length ≤ defaultBatch →
      log.fetch durable defaultBatch = log.pending durable := List.take_of_length_le
  constructor
  · rintro ⟨-, -, hnone⟩
    rw [hnone, List.length_nil] at hleft
    have hle : (log.pending durable).length ≤ defaultBatch := by omega
    rw [hfits hle] at hleft
    exact ⟨hle, List.eq_nil_of_length_eq_zero (by omega)⟩
  · rintro ⟨hle, happends⟩
    rw [hfits hle, happends] at hleft
    rw [DrainsBacklog, hcalls, hhandled, hfits hle, Nat.zero_add]
    refine ⟨rfl, rfl, List.eq_nil_of_length_eq_zero ?_⟩
    rw [hleft, List.length_nil]
    omega

/-- A log of 65 events that nobody has read. -/
def unread : EventLog String := EventLog.empty.appendAll (List.replicate 65 "done")

/-- **Counterexample.** The last of 65 events is left. -/
theorem unread_not_drained : ¬ DrainsBacklog (fun (_ : Unit) _ => ((), [])) "bench" unread () := by
  rintro ⟨-, hhandled, -⟩
  revert hhandled
  decide +kernel

end AstroMine.Cloud
