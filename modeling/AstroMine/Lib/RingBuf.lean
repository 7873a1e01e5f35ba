import Mathlib.Data.List.Basic
import Mathlib.Data.Nat.ModEq

/-!
# Ring buffers of fixed capacity

A ring buffer overwrites its oldest slot and reads back by age. `Holds b hist n` says that `b`
is what `n` pushes of `hist 0, …, hist (n - 1)` leave, wherever the head has wrapped to.

Results:
* `Holds.push`: a push of the next value keeps the invariant.
* `Holds.ago`: the read at age `k` is `hist (n - 1 - k)` for the ages that are still held, and
  `none` for every other age.
-/

namespace AstroMine

/-- A ring buffer: the slots, their number, the next slot to write and the number in use. -/
structure RingBuf (α : Type) where
  data : List α
  cap : ℕ
  head : ℕ
  len : ℕ
  deriving DecidableEq

namespace RingBuf

variable {α : Type}

/-- An empty buffer of at least one slot, all filled with `z`. -/
def new (z : α) (cap : ℕ) : RingBuf α :=
  let cap := max cap 1
  { data := List.replicate cap z, cap := cap, head := 0, len := 0 }

/-- Write the next slot. -/
def push (b : RingBuf α) (v : α) : RingBuf α :=
  { b with
    data := b.data.set b.head v
    head := (b.head + 1) % b.cap
    len := if b.len < b.cap then b.len + 1 else b.len }

/-- The value pushed `k` pushes ago; `ago 0` is the latest. -/
def ago (b : RingBuf α) (k : ℕ) : Option α :=
  if b.len ≤ k then none else b.data[(b.head + b.cap - 1 - k) % b.cap]?

@[simp] theorem push_cap (b : RingBuf α) (v : α) : (b.push v).cap = b.cap := rfl
@[simp] theorem new_cap (z : α) (cap : ℕ) : (new z cap).cap = max cap 1 := rfl

/-! ## The invariant -/

/-- `b` holds the last `b.cap` of the `n` values `hist 0, …, hist (n - 1)`. -/
structure Holds (b : RingBuf α) (hist : ℕ → α) (n : ℕ) : Prop where
  cap_pos : 0 < b.cap
  data_length : b.data.length = b.cap
  head_eq : b.head = n % b.cap
  len_eq : b.len = min n b.cap
  slot : ∀ m, m < n → n ≤ m + b.cap → b.data[m % b.cap]? = some (hist m)

theorem new_holds (z : α) (cap : ℕ) (hist : ℕ → α) : (new z cap).Holds hist 0 where
  cap_pos := by simp
  data_length := by simp [new]
  head_eq := by simp [new]
  len_eq := by simp [new]
  slot := by
    intro m hm
    omega

/-- Slots less than a revolution apart are different. -/
theorem mod_ne_mod {m n cap : ℕ} (hlt : m < n) (hcap : n < m + cap) : m % cap ≠ n % cap := by
  intro h
  have hdvd : cap ∣ n - m := (Nat.modEq_iff_dvd' hlt.le).mp h
  have := Nat.le_of_dvd (by omega) hdvd
  omega

theorem Holds.push {b : RingBuf α} {hist : ℕ → α} {n : ℕ} (h : b.Holds hist n) :
    (b.push (hist n)).Holds hist (n + 1) where
  cap_pos := h.cap_pos
  data_length := by simp [RingBuf.push, h.data_length]
  head_eq := by
    simp only [RingBuf.push, h.head_eq]
    rw [Nat.mod_add_mod]
  len_eq := by
    simp only [RingBuf.push, h.len_eq]
    split_ifs <;> omega
  slot := by
    intro m hm hcap
    simp only [push_cap] at hcap ⊢
    simp only [RingBuf.push, h.head_eq]
    by_cases hmn : m = n
    · subst hmn
      rw [List.getElem?_set_self]
      rw [h.data_length]
      exact Nat.mod_lt _ h.cap_pos
    · have hlt : m < n := by omega
      rw [List.getElem?_set_ne (mod_ne_mod hlt (by omega)).symm]
      exact h.slot m hlt (by omega)

/-- The slot of age `k` is the slot of the push that is `k` before the last. -/
theorem ago_index {n k cap : ℕ} (hk : k < cap) (hkn : k < n) :
    (n % cap + cap - 1 - k) % cap = (n - 1 - k) % cap := by
  have hn : cap * (n / cap) + n % cap = n := Nat.div_add_mod n cap
  calc (n % cap + cap - 1 - k) % cap
      = (n % cap + cap - 1 - k + cap * (n / cap)) % cap := by rw [Nat.add_mul_mod_self_left]
    _ = (n - 1 - k + cap) % cap := by congr 1; omega
    _ = (n - 1 - k) % cap := Nat.add_mod_right _ _

theorem Holds.ago {b : RingBuf α} {hist : ℕ → α} {n : ℕ} (h : b.Holds hist n) (k : ℕ) :
    b.ago k = if k < n ∧ k < b.cap then some (hist (n - 1 - k)) else none := by
  unfold RingBuf.ago
  rw [h.len_eq]
  by_cases hk : k < n ∧ k < b.cap
  · obtain ⟨hkn, hkc⟩ := hk
    rw [if_neg (by omega), if_pos ⟨hkn, hkc⟩, h.head_eq, ago_index hkc hkn]
    exact h.slot _ (by omega) (by omega)
  · rw [if_neg hk, if_pos (by omega)]

end RingBuf

end AstroMine
