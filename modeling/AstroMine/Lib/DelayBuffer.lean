import Mathlib.Data.Int.Interval
import Mathlib.Data.List.Perm.Subperm
import AstroMine.Lib.Dict

/-!
# A bounded buffer of delayed messages

Messages are sent at ticks and released some ticks later. A buffer holds those that were pushed to
it; when it is full, the ones that are released first go. The last release is what is known.

A buffer with room for more messages than the longest delay loses nothing that matters, where at
most one message is sent at a tick: what goes was released before something else that stays.

Results:
* `pending_length_le`: how many messages are on their way.
* `Tells.advance`, `Tells.push`: what a later tick and a push keep.
* `Tells.pending`, `Tells.arrives_iff`, `Tells.latest`: the buffer tells what the history does.
-/

namespace AstroMine.DelayBuffer

variable {α : Type}

/-- A message on its way, or the last one known. -/
structure InFlight (α : Type) where
  release : ℤ
  payload : α
  deriving DecidableEq

/-- A message that was sent at a tick with a delay. -/
structure Sent (α : Type) where
  tick : ℤ
  delay : ℕ
  payload : α
  deriving DecidableEq

/-- The tick at which it is released. -/
def Sent.release (m : Sent α) : ℤ := m.tick + m.delay

/-- What is put into the buffer for it. -/
def Sent.item (m : Sent α) : InFlight α := ⟨m.release, m.payload⟩

/-- Put a message into a buffer; over the capacity, those that are released first go. -/
def push (capacity : ℕ) (buf : List (InFlight α)) (m : InFlight α) : List (InFlight α) :=
  let all := buf ++ [m]
  if all.length ≤ capacity then all
  else (sortOn InFlight.release all).drop (all.length - capacity)

/-- The first of the messages that were released last. -/
def latestReleased (buf : List (InFlight α)) (tick : ℤ) : Option (InFlight α) :=
  buf.foldl (fun best m =>
    if m.release ≤ tick ∧ best.all (·.release < m.release) then some m else best) none

/-! ## What is on its way -/

/-- The messages that are not released yet were sent at different ticks, not longer ago than their
delays: they are at most as many as the longest delay. -/
theorem pending_length_le {history : List (Sent α)} {bound : ℕ} {tick : ℤ}
    (hticks : history.Pairwise fun m m' => m.tick < m'.tick)
    (hpast : ∀ m ∈ history, m.tick ≤ tick) (hdelay : ∀ m ∈ history, m.delay ≤ bound) :
    (history.filter fun m => tick < m.release).length ≤ bound := by
  have hnodup : ((history.filter fun m => tick < m.release).map Sent.tick).Nodup := by
    rw [List.nodup_iff_pairwise_ne, List.pairwise_map]
    exact (hticks.filter _).imp fun h => h.ne
  have hsubset : ((history.filter fun m => tick < m.release).map Sent.tick).toFinset ⊆
      Finset.Ioc (tick - bound) tick := by
    intro x hx
    obtain ⟨m, hm, rfl⟩ := List.mem_map.mp (List.mem_toFinset.mp hx)
    obtain ⟨hm, hpending⟩ := List.mem_filter.mp hm
    rw [decide_eq_true_eq, Sent.release] at hpending
    have hbound := hdelay m hm
    have hold := hpast m hm
    exact Finset.mem_Ioc.mpr ⟨by omega, hold⟩
  have hcard := Finset.card_le_card hsubset
  rw [List.toFinset_card_of_nodup hnodup, List.length_map, Int.card_Ioc] at hcard
  omega

/-! ## The invariant -/

/-- The buffer tells at a tick what the history does: it holds nothing else, and each message that
it does not hold was released, and not after one that it holds. -/
structure Tells (bound : ℕ) (tick : ℤ) (history : List (Sent α)) (buf : List (InFlight α)) :
    Prop where
  held : buf.Subperm (history.map Sent.item)
  kept : ∀ m ∈ history, m.item ∈ buf ∨ ∃ x ∈ buf, m.release ≤ x.release ∧ x.release ≤ tick
  ticks : history.Pairwise fun m m' => m.tick < m'.tick
  past : ∀ m ∈ history, m.tick ≤ tick
  delays : ∀ m ∈ history, m.delay ≤ bound

variable {bound : ℕ} {tick : ℤ} {history : List (Sent α)} {buf : List (InFlight α)}

theorem Tells.empty (bound : ℕ) (tick : ℤ) : Tells bound tick ([] : List (Sent α)) [] :=
  ⟨List.Subperm.refl _, by simp, List.Pairwise.nil, by simp, by simp⟩

/-- It still does at a later tick. -/
theorem Tells.advance {tick' : ℤ} (h : Tells bound tick history buf) (hle : tick ≤ tick') :
    Tells bound tick' history buf where
  held := h.held
  kept m hm := (h.kept m hm).imp_right fun ⟨x, hx, hm, hx'⟩ => ⟨x, hx, hm, hx'.trans hle⟩
  ticks := h.ticks
  past m hm := (h.past m hm).trans hle
  delays := h.delays

/-- More messages than can be on their way are not all on their way. -/
theorem exists_released {items : List (InFlight α)} {tick : ℤ}
    (hheld : items.Subperm (history.map Sent.item))
    (hticks : history.Pairwise fun m m' => m.tick < m'.tick)
    (hpast : ∀ m ∈ history, m.tick ≤ tick) (hdelay : ∀ m ∈ history, m.delay ≤ bound)
    (hmany : bound < items.length) : ∃ x ∈ items, x.release ≤ tick := by
  by_contra hall
  push Not at hall
  have hfilter := hheld.filter fun x => decide (tick < x.release)
  rw [List.filter_eq_self.mpr fun x hx => by simpa using hall x hx] at hfilter
  have hlength := hfilter.length_le
  rw [List.filter_map, List.length_map] at hlength
  have hpending := pending_length_le hticks hpast hdelay
  have hsame : (history.filter ((fun x : InFlight α => decide (tick < x.release)) ∘ Sent.item)) =
      history.filter fun m => tick < m.release := rfl
  rw [hsame] at hlength
  omega

/-- Of a sorted list what is cut off at the front was released before the rest. -/
theorem release_le_of_drop {items : List (InFlight α)} {n : ℕ} {x y : InFlight α}
    (hx : x ∈ items) (hy : y ∈ (sortOn InFlight.release items).drop n)
    (hcut : x ∉ (sortOn InFlight.release items).drop n) : x.release ≤ y.release := by
  have hsorted := sortOn_pairwise InFlight.release items
  rw [← List.take_append_drop n (sortOn InFlight.release items), List.pairwise_append] at hsorted
  rw [← mem_sortOn InFlight.release, ← List.take_append_drop n (sortOn InFlight.release items),
    List.mem_append] at hx
  exact hsorted.2.2 x (hx.resolve_right hcut) y hy

/-- **Step.** A message that is sent at a later tick can be pushed into a buffer with room for more
messages than the longest delay. -/
theorem Tells.push {capacity : ℕ} (hcapacity : bound < capacity) {m : Sent α}
    (h : Tells bound tick history buf) (hlater : tick < m.tick) (hdelay : m.delay ≤ bound) :
    Tells bound m.tick (history ++ [m]) (DelayBuffer.push capacity buf m.item) := by
  have hticks : (history ++ [m]).Pairwise fun m m' => m.tick < m'.tick := by
    rw [List.pairwise_append]
    refine ⟨h.ticks, List.pairwise_singleton _ _, fun x hx y hy => ?_⟩
    obtain rfl := List.mem_singleton.mp hy
    exact (h.past x hx).trans_lt hlater
  have hpast : ∀ x ∈ history ++ [m], x.tick ≤ m.tick := by
    simp only [List.mem_append, List.mem_singleton]
    rintro x (hx | rfl)
    · exact (h.past x hx).trans hlater.le
    · exact le_rfl
  have hdelays : ∀ x ∈ history ++ [m], x.delay ≤ bound := by
    simp only [List.mem_append, List.mem_singleton]
    rintro x (hx | rfl)
    · exact h.delays x hx
    · exact hdelay
  have hheld : (buf ++ [m.item]).Subperm ((history ++ [m]).map Sent.item) := by
    rw [List.map_append]
    exact h.held.append (List.Subperm.refl _)
  have hkept : ∀ x ∈ history ++ [m], x.item ∈ buf ++ [m.item] ∨
      ∃ y ∈ buf ++ [m.item], x.release ≤ y.release ∧ y.release ≤ m.tick := by
    simp only [List.mem_append, List.mem_singleton]
    rintro x (hx | rfl)
    · obtain hx | ⟨y, hy, hxy, hnow⟩ := h.kept x hx
      · exact Or.inl (Or.inl hx)
      · exact Or.inr ⟨y, Or.inl hy, hxy, hnow.trans hlater.le⟩
    · exact Or.inl (Or.inr rfl)
  unfold DelayBuffer.push
  dsimp only
  split_ifs with hfull
  · exact ⟨hheld, hkept, hticks, hpast, hdelays⟩
  · generalize hn : (buf ++ [m.item]).length - capacity = n
    have hrest : ((sortOn InFlight.release (buf ++ [m.item])).drop n).Subperm
        ((history ++ [m]).map Sent.item) :=
      ((List.drop_sublist n _).subperm.trans (sortOn_perm _ _).subperm).trans hheld
    have hlength : bound < ((sortOn InFlight.release (buf ++ [m.item])).drop n).length := by
      rw [List.length_drop, (sortOn_perm _ _).length_eq, ← hn]
      omega
    -- of what is left something is released, since it cannot all be on its way
    obtain ⟨z, hz, hznow⟩ := exists_released hrest hticks hpast hdelays hlength
    refine ⟨hrest, fun x hx => ?_, hticks, hpast, hdelays⟩
    obtain hx | ⟨y, hy, hxy, hnow⟩ := hkept x hx
    · by_cases hstay : x.item ∈ (sortOn InFlight.release (buf ++ [m.item])).drop n
      · exact Or.inl hstay
      · exact Or.inr ⟨z, hz, release_le_of_drop hx hz hstay, hznow⟩
    · by_cases hstay : y ∈ (sortOn InFlight.release (buf ++ [m.item])).drop n
      · exact Or.inr ⟨y, hstay, hxy, hnow⟩
      · exact Or.inr ⟨z, hz, hxy.trans (release_le_of_drop hy hz hstay), hznow⟩

/-! ## What the buffer tells -/

/-- A message of the history stands behind each item of the buffer. -/
theorem Tells.exists_sent (h : Tells bound tick history buf) {x : InFlight α} (hx : x ∈ buf) :
    ∃ m ∈ history, m.item = x :=
  List.mem_map.mp (h.held.subset hx)

/-- A message that is not released yet is held. -/
theorem Tells.pending (h : Tells bound tick history buf) {m : Sent α} (hm : m ∈ history)
    (hpending : tick < m.release) : m.item ∈ buf := by
  obtain hheld | ⟨x, -, hmx, hx⟩ := h.kept m hm
  · exact hheld
  · omega

/-- Something is released now in the buffer exactly if a message is. -/
theorem Tells.arrives_iff (h : Tells bound tick history buf) :
    (∃ x ∈ buf, x.release = tick) ↔ ∃ m ∈ history, m.release = tick := by
  constructor
  · rintro ⟨x, hx, hnow⟩
    obtain ⟨m, hm, rfl⟩ := h.exists_sent hx
    exact ⟨m, hm, hnow⟩
  · rintro ⟨m, hm, hnow⟩
    obtain hheld | ⟨x, hx, hmx, hxnow⟩ := h.kept m hm
    · exact ⟨m.item, hheld, hnow⟩
    · exact ⟨x, hx, le_antisymm hxnow (hnow ▸ hmx)⟩

theorem latestReleased_append (buf : List (InFlight α)) (m : InFlight α) (tick : ℤ) :
    latestReleased (buf ++ [m]) tick =
      if m.release ≤ tick ∧ (latestReleased buf tick).all (·.release < m.release) then some m
      else latestReleased buf tick := by
  rw [latestReleased, List.foldl_append]
  rfl

/-- What is found is released, nothing in the buffer was released after it, and only where nothing
is released nothing is found. -/
theorem latestReleased_spec (buf : List (InFlight α)) (tick : ℤ) :
    (∀ x, latestReleased buf tick = some x →
      x ∈ buf ∧ x.release ≤ tick ∧ ∀ y ∈ buf, y.release ≤ tick → y.release ≤ x.release) ∧
    (latestReleased buf tick = none → ∀ y ∈ buf, ¬y.release ≤ tick) := by
  induction buf using List.reverseRecOn with
  | nil => exact ⟨fun x h => (by cases h), fun _ y hy => (by cases hy)⟩
  | append_singleton buf m ih =>
    obtain ⟨hsome, hnone⟩ := ih
    rw [latestReleased_append]
    simp only [List.mem_append, List.mem_singleton]
    by_cases hnow : m.release ≤ tick
    · cases hbest : latestReleased buf tick with
      | none =>
        rw [if_pos ⟨hnow, rfl⟩]
        refine ⟨fun x hx => ?_, fun h => (by cases h)⟩
        obtain rfl := Option.some.inj hx
        refine ⟨Or.inr rfl, hnow, fun y hy hynow => ?_⟩
        obtain hy | rfl := hy
        · exact absurd hynow (hnone hbest y hy)
        · exact le_rfl
      | some best =>
        obtain ⟨hmem, hbestnow, hlast⟩ := hsome best hbest
        simp only [hnow, Option.all_some, decide_eq_true_eq, true_and]
        split_ifs with hlater
        · refine ⟨fun x hx => ?_, fun h => (by cases h)⟩
          obtain rfl := Option.some.inj hx
          refine ⟨Or.inr rfl, hnow, fun y hy hynow => ?_⟩
          obtain hy | rfl := hy
          · exact (hlast y hy hynow).trans hlater.le
          · exact le_rfl
        · refine ⟨fun x hx => ?_, fun h => (by cases h)⟩
          obtain rfl := Option.some.inj hx
          refine ⟨Or.inl hmem, hbestnow, fun y hy hynow => ?_⟩
          obtain hy | rfl := hy
          · exact hlast y hy hynow
          · exact not_lt.mp hlater
    · rw [if_neg fun h => hnow h.1]
      refine ⟨fun x hx => ?_, fun h y hy => ?_⟩
      · obtain ⟨hmem, hxnow, hlast⟩ := hsome x hx
        refine ⟨Or.inl hmem, hxnow, fun y hy hynow => ?_⟩
        obtain hy | rfl := hy
        · exact hlast y hy hynow
        · exact absurd hynow hnow
      · obtain hy | rfl := hy
        · exact hnone h y hy
        · exact hnow

/-- Of the messages that were released last one is found. -/
theorem Tells.latest (h : Tells bound tick history buf) {x : InFlight α}
    (hx : latestReleased buf tick = some x) :
    ∃ m ∈ history, m.item = x ∧ m.release ≤ tick ∧
      ∀ m' ∈ history, m'.release ≤ tick → m'.release ≤ m.release := by
  obtain ⟨hheld, hnow, hlast⟩ := (latestReleased_spec buf tick).1 x hx
  obtain ⟨m, hm, rfl⟩ := h.exists_sent hheld
  refine ⟨m, hm, rfl, hnow, fun m' hm' hnow' => ?_⟩
  obtain hheld' | ⟨y, hy, hmy, hynow⟩ := h.kept m' hm'
  · exact hlast m'.item hheld' hnow'
  · exact hmy.trans (hlast y hy hynow)

/-- Where a message was released, one is found. -/
theorem Tells.exists_latest (h : Tells bound tick history buf) {m : Sent α} (hm : m ∈ history)
    (hnow : m.release ≤ tick) : ∃ x, latestReleased buf tick = some x := by
  refine Option.ne_none_iff_exists'.mp fun hnone => ?_
  have hall := (latestReleased_spec buf tick).2 hnone
  obtain hheld | ⟨y, hy, -, hynow⟩ := h.kept m hm
  · exact hall m.item hheld hnow
  · exact hall y hy hynow

end AstroMine.DelayBuffer
