import Mathlib.Data.List.TakeWhile
import Mathlib.Data.String.Basic

/-!
# Decimal numbers in strings

The decimal digits of a number, and numbers joined by a separator. A separator with a character
that is no digit keeps the numbers apart, wherever in it that character stands.

Results:
* `toList_toString_injective`: the digits of a number tell it.
* `joinedBy_injective`: as many numbers, joined, tell them all.
-/

namespace AstroMine.Decimal

/-! ## One number -/

theorem isDigit_of_mem_repr {n : ℕ} {c : Char} (h : c ∈ n.repr.toList) : c.isDigit := by
  rw [Nat.toList_repr] at h
  exact Nat.isDigit_of_mem_toDigits (by decide) (by decide) h

theorem repr_injective : Function.Injective Nat.repr := by
  intro n m h
  have hdigits : Nat.toDigits 10 n = Nat.toDigits 10 m := by
    rw [← Nat.toList_repr, ← Nat.toList_repr, h]
  rw [← Nat.ofDigitChars_ten_toDigits (n := n), hdigits, Nat.ofDigitChars_ten_toDigits]

/-- A number that is not negative has digits only, and a negative one a sign before them. -/
theorem toList_toString (n : ℤ) : (toString n).toList =
    if 0 ≤ n then n.natAbs.repr.toList else '-' :: n.natAbs.repr.toList := by
  cases n with
  | ofNat n => rfl
  | negSucc n => simp [toString, Int.repr]

theorem mem_toString {n : ℤ} {c : Char} (h : c ∈ (toString n).toList) : c.isDigit ∨ c = '-' := by
  rw [toList_toString] at h
  split_ifs at h
  · exact .inl (isDigit_of_mem_repr h)
  · rcases List.mem_cons.mp h with h | h
    · exact .inr h
    · exact .inl (isDigit_of_mem_repr h)

/-- The digits of a number tell it. -/
theorem toString_injective : Function.Injective (toString : ℤ → String) := by
  intro n m h
  have hlist : (toString n).toList = (toString m).toList := congrArg _ h
  have hsign : ∀ k : ℕ, '-' ∉ k.repr.toList := fun k hmem => by
    have hdigit := isDigit_of_mem_repr hmem
    revert hdigit
    decide
  rw [toList_toString, toList_toString] at hlist
  split_ifs at hlist with hn hm hm
  · have habs := repr_injective (String.toList_inj.mp hlist)
    omega
  · exact absurd (hlist ▸ List.mem_cons_self) (hsign n.natAbs)
  · exact absurd (hlist ▸ List.mem_cons_self) (hsign m.natAbs)
  · have habs := repr_injective (String.toList_inj.mp (List.cons.inj hlist).2)
    omega

/-! ## Numbers joined by a separator -/

/-- The numbers, joined: `sep.join(str(i) for i in index)`. -/
def joinedBy (sep : String) : List ℕ → List Char
  | [] => []
  | [n] => n.repr.toList
  | n :: m :: rest => n.repr.toList ++ (sep.toList ++ joinedBy sep (m :: rest))

/-- Two lists are cut at the first item that fails the test. -/
theorem append_cons_inj {α : Type*} {p : α → Bool} {xs xs' ys ys' : List α} {c c' : α}
    (hxs : ∀ x ∈ xs, p x = true) (hxs' : ∀ x ∈ xs', p x = true) (hc : p c = false)
    (hc' : p c' = false) (h : xs ++ c :: ys = xs' ++ c' :: ys') : xs = xs' ∧ ys = ys' := by
  have htake : ∀ {as bs : List α} {d : α}, (∀ x ∈ as, p x = true) → p d = false →
      (as ++ d :: bs).takeWhile p = as := by
    intro as bs d has hd
    rw [List.takeWhile_append_of_pos has, List.takeWhile_cons, hd]
    simp
  have hxs_eq : xs = xs' := by rw [← htake hxs hc, h, htake hxs' hc']
  subst hxs_eq
  exact ⟨rfl, (List.cons.inj (List.append_cancel_left h)).2⟩

/-- As many numbers, joined by a separator that is not all digits, tell them all. -/
theorem joinedBy_injective {sep : String} (hsep : ∃ c ∈ sep.toList, c.isDigit = false)
    {ns ms : List ℕ} (hlen : ns.length = ms.length) (h : joinedBy sep ns = joinedBy sep ms) :
    ns = ms := by
  -- The separator up to its first character that is no digit stands behind the first number.
  obtain ⟨digits, c, rest, hsplit, hdigits, hc⟩ : ∃ digits c rest,
      sep.toList = digits ++ c :: rest ∧ (∀ d ∈ digits, d.isDigit = true) ∧ c.isDigit = false := by
    have hne : sep.toList.dropWhile Char.isDigit ≠ [] := by
      obtain ⟨c, hmem, hc⟩ := hsep
      rw [Ne, List.dropWhile_eq_nil_iff]
      intro hall
      have hdigit := hall c hmem
      rw [hc] at hdigit
      cases hdigit
    obtain ⟨c, rest, hrest⟩ := List.exists_cons_of_ne_nil hne
    refine ⟨sep.toList.takeWhile Char.isDigit, c, rest, ?_, fun d => List.mem_takeWhile_imp, ?_⟩
    · rw [← hrest, List.takeWhile_append_dropWhile]
    · have hhead := List.head_dropWhile_not Char.isDigit hne
      simpa [hrest] using hhead
  induction ns generalizing ms with
  | nil => exact (List.eq_nil_of_length_eq_zero hlen.symm).symm
  | cons n ns ih =>
    cases ms with
    | nil => cases hlen
    | cons m ms =>
      cases ns with
      | nil =>
        cases ms with
        | nil => rw [repr_injective (String.toList_inj.mp h)]
        | cons _ _ => cases hlen
      | cons n' ns =>
        cases ms with
        | nil => cases hlen
        | cons m' ms =>
          have hgroup : ∀ word tail : List Char, word ++ (digits ++ c :: rest ++ tail) =
              word ++ digits ++ c :: (rest ++ tail) := by simp
          rw [joinedBy, joinedBy, hsplit, hgroup, hgroup] at h
          have hword : ∀ k : ℕ, ∀ d ∈ k.repr.toList ++ digits, d.isDigit = true := by
            intro k
            exact List.forall_mem_append.mpr ⟨fun d hd => isDigit_of_mem_repr hd, hdigits⟩
          obtain ⟨hfirst, hrest⟩ := append_cons_inj (hword n) (hword m) hc hc h
          have hn := repr_injective (String.toList_inj.mp (List.append_cancel_right hfirst))
          have hns := ih (Nat.succ.inj hlen) (List.append_cancel_left hrest)
          rw [hn, hns]

end AstroMine.Decimal
