import Mathlib.Data.Int.Order.Basic
import Mathlib.Tactic.Linarith

/-!
# Moments (`datetime`)

A `datetime` is a reading of a clock, in microseconds, with the `tzinfo` of that clock. Two readings
of one clock are compared as they stand, also where the clock was set back between them; readings of
different clocks are compared in UTC; a naive reading does not compare with an aware one.

Results:
* `lt_fixed`, `fixed_lt`: a reading with a fixed offset is compared in UTC.
* `lt_eq_none_iff`: which comparisons raise.
* `restored_lt`, `lt_restored`: what is read back from a document is compared in UTC.
-/

namespace AstroMine.Seal

/-- A `tzinfo`: a `timezone`, or another one by its identity, with the offset it gives here. -/
inductive Tzinfo
  | fixed (offset : ℤ)
  | region (name : String) (offset : ℤ)
  deriving DecidableEq, Repr

/-- `tzinfo.utcoffset`. -/
def Tzinfo.utcoffset : Tzinfo → ℤ
  | .fixed offset => offset
  | .region _ offset => offset

/-- A `datetime`. One whose `tzinfo` gives no offset is naive. -/
structure Moment where
  wall : ℤ
  tzinfo : Option Tzinfo
  deriving DecidableEq, Repr

namespace Moment

/-- The moment on the clock of UTC, where a naive reading is one of that clock. -/
def utc (m : Moment) : ℤ := m.wall - (m.tzinfo.map Tzinfo.utcoffset).getD 0

/-- A reading of a clock that is known. -/
def Aware (m : Moment) : Prop := m.tzinfo ≠ none

instance (m : Moment) : Decidable m.Aware := inferInstanceAs (Decidable (m.tzinfo ≠ none))

/-- Whether two readings are compared as they stand: those of one clock, and with one offset. -/
def sameClock : Option Tzinfo → Option Tzinfo → Bool
  | none, none => true
  | some (.region name _), some (.region name' _) => name = name'
  | _, _ => false

/-- `<` of `datetime`; none where it raises a `TypeError`. -/
def lt (m m' : Moment) : Option Bool :=
  if sameClock m.tzinfo m'.tzinfo then some (m.wall < m'.wall)
  else match m.tzinfo, m'.tzinfo with
    | some tz, some tz' => some (m.wall - tz.utcoffset < m'.wall - tz'.utcoffset)
    | _, _ => none

/-- `datetime.fromisoformat` of `isoformat`: the reading with its offset. -/
def isoRead (m : Moment) : Moment := ⟨m.wall, m.tzinfo.map fun tz => .fixed tz.utcoffset⟩

/-- `moment.replace(tzinfo=UTC)` of a naive one. -/
def assumeUtc (m : Moment) : Moment :=
  if m.tzinfo = none then { m with tzinfo := some (.fixed 0) } else m

/-! ## Comparisons -/

/-- A reading with a fixed offset is compared in UTC. -/
theorem fixed_lt {m m' : Moment} {offset : ℤ} (h : m.tzinfo = some (.fixed offset))
    (h' : m'.Aware) : m.lt m' = some (decide (m.utc < m'.utc)) := by
  obtain ⟨tz, htz⟩ := Option.ne_none_iff_exists'.mp h'
  cases tz <;> simp [lt, utc, h, htz, sameClock, Tzinfo.utcoffset] <;> rfl

/-- A reading is compared in UTC with one that has a fixed offset. -/
theorem lt_fixed {m m' : Moment} {offset : ℤ} (h : m.Aware)
    (h' : m'.tzinfo = some (.fixed offset)) : m.lt m' = some (decide (m.utc < m'.utc)) := by
  obtain ⟨tz, htz⟩ := Option.ne_none_iff_exists'.mp h
  cases tz <;> simp [lt, utc, h', htz, sameClock, Tzinfo.utcoffset] <;> rfl

/-- The comparisons that raise are those of a naive and an aware reading. -/
theorem lt_eq_none_iff {m m' : Moment} : m.lt m' = none ↔ ¬(m.Aware ↔ m'.Aware) := by
  unfold lt Aware
  cases htz : m.tzinfo with
  | none => cases htz' : m'.tzinfo <;> simp [sameClock]
  | some tz =>
    cases htz' : m'.tzinfo with
    | none => cases tz <;> simp [sameClock]
    | some tz' =>
      simp only [ne_eq, reduceCtorEq, not_false_eq_true, iff_self, not_true_eq_false, iff_false]
      split_ifs <;> simp

/-! ## What is read back -/

/-- The moment that a document gives back for one that was written to it. -/
def restored (m : Moment) : Moment := m.isoRead.assumeUtc

/-- It has a fixed offset. -/
theorem restored_tzinfo (m : Moment) : ∃ offset, m.restored.tzinfo = some (.fixed offset) := by
  cases htz : m.tzinfo with
  | none => exact ⟨0, by simp [restored, isoRead, assumeUtc, htz]⟩
  | some tz => exact ⟨tz.utcoffset, by simp [restored, isoRead, assumeUtc, htz]⟩

theorem restored_aware (m : Moment) : m.restored.Aware := by
  obtain ⟨offset, h⟩ := restored_tzinfo m
  simp [Aware, h]

/-- It is the same moment in UTC. -/
theorem utc_restored (m : Moment) : m.restored.utc = m.utc := by
  cases htz : m.tzinfo with
  | none => simp [restored, isoRead, assumeUtc, utc, htz, Tzinfo.utcoffset]
  | some tz => simp [restored, isoRead, assumeUtc, utc, htz, Tzinfo.utcoffset]

/-- Comparing with it is comparing in UTC. -/
theorem restored_lt (m : Moment) {m' : Moment} (h : m'.Aware) :
    m.restored.lt m' = some (decide (m.utc < m'.utc)) := by
  obtain ⟨offset, htz⟩ := restored_tzinfo m
  rw [fixed_lt htz h, utc_restored]

theorem lt_restored {m : Moment} (m' : Moment) (h : m.Aware) :
    m.lt m'.restored = some (decide (m.utc < m'.utc)) := by
  obtain ⟨offset, htz⟩ := restored_tzinfo m'
  rw [lt_fixed h htz, utc_restored]

end Moment

end AstroMine.Seal
