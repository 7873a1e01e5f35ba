import Mathlib.Data.String.Basic
import Mathlib.Data.List.Basic
import Mathlib.Data.List.TakeWhile

/-!
# Strings joined by a colon

`joined a b` is `a:b`, and `partition` cuts a string at a character. The two parts are lost in the
joined string as far as they hold colons themselves.

Results:
* `joined_eq_iff`: two pairs join to one string exactly if they are one pair, or a colon of one
  first part, or of one second part, is the separator of the other.
* `partition_eq_some_iff`: what a string is cut into.
-/

namespace AstroMine

/-- `f"{a}:{b}"`. -/
def joined (a b : String) : String := a ++ ":" ++ b

theorem toList_joined (a b : String) : (joined a b).toList = a.toList ++ ':' :: b.toList := by
  simp [joined]

/-- Two lists with a separator in the middle are one list: at one separator, or at two. -/
theorem append_cons_eq_iff {α : Type*} (c : α) (a s a' s' : List α) :
    a ++ c :: s = a' ++ c :: s' ↔ (a = a' ∧ s = s') ∨ (∃ u, a = a' ++ c :: u ∧ s' = u ++ c :: s) ∨
      ∃ u, a' = a ++ c :: u ∧ s = u ++ c :: s' := by
  rw [List.append_eq_append_iff]
  constructor
  · rintro (⟨t, rfl, h⟩ | ⟨t, rfl, h⟩)
    · cases t with
      | nil =>
        rw [List.nil_append, List.cons.injEq] at h
        exact .inl ⟨(List.append_nil a).symm, h.2⟩
      | cons d u =>
        rw [List.cons_append, List.cons.injEq] at h
        exact .inr (.inr ⟨u, by rw [h.1], h.2⟩)
    · cases t with
      | nil =>
        rw [List.nil_append, List.cons.injEq] at h
        exact .inl ⟨List.append_nil a', h.2.symm⟩
      | cons d u =>
        rw [List.cons_append, List.cons.injEq] at h
        exact .inr (.inl ⟨u, by rw [h.1], h.2⟩)
  · rintro (⟨rfl, rfl⟩ | ⟨u, rfl, rfl⟩ | ⟨u, rfl, rfl⟩)
    · exact .inl ⟨[], by simp⟩
    · exact .inr ⟨c :: u, by simp⟩
    · exact .inl ⟨c :: u, by simp⟩

/-- Two pairs join to one string exactly if they are one pair, or the first part of one goes on
behind the separator of the other. -/
theorem joined_eq_iff (a b a' b' : String) :
    joined a b = joined a' b' ↔ (a = a' ∧ b = b') ∨ (∃ u, a = joined a' u ∧ b' = joined u b) ∨
      ∃ u, a' = joined a u ∧ b = joined u b' := by
  have hstring : ∀ {x y : String}, x = y ↔ x.toList = y.toList := String.toList_inj.symm
  rw [hstring, toList_joined, toList_joined, append_cons_eq_iff, hstring, hstring]
  refine or_congr Iff.rfl (or_congr ?_ ?_)
  · constructor
    · rintro ⟨u, ha, hb⟩
      exact ⟨String.ofList u, by rw [hstring, toList_joined, ha, String.toList_ofList],
        by rw [hstring, toList_joined, hb, String.toList_ofList]⟩
    · rintro ⟨u, rfl, rfl⟩
      exact ⟨u.toList, toList_joined _ _, toList_joined _ _⟩
  · constructor
    · rintro ⟨u, ha, hb⟩
      exact ⟨String.ofList u, by rw [hstring, toList_joined, ha, String.toList_ofList],
        by rw [hstring, toList_joined, hb, String.toList_ofList]⟩
    · rintro ⟨u, rfl, rfl⟩
      exact ⟨u.toList, toList_joined _ _, toList_joined _ _⟩

/-- The second part is what stands behind the first. -/
theorem joined_right_inj (a b b' : String) : joined a b = joined a b' ↔ b = b' := by
  rw [← String.toList_inj, toList_joined, toList_joined, List.append_cancel_left_eq, List.cons.injEq,
    ← String.toList_inj]
  exact and_iff_right rfl

theorem joined_assoc (a b c : String) : joined (joined a b) c = joined a (joined b c) := by
  simp [joined, String.append_assoc]

/-- Without colons of their own, the parts are told from the joined string. -/
theorem joined_inj_of_notMem {a b a' b' : String} (ha : ':' ∉ a.toList) (ha' : ':' ∉ a'.toList) :
    joined a b = joined a' b' ↔ a = a' ∧ b = b' := by
  rw [joined_eq_iff]
  refine ⟨?_, .inl⟩
  rintro (h | ⟨u, rfl, -⟩ | ⟨u, rfl, -⟩)
  · exact h
  · exact absurd (by simp [toList_joined]) ha
  · exact absurd (by simp [toList_joined]) ha'

/-- Without colons in the second parts, both are told from the joined string. -/
theorem joined_inj_of_notMem_right {a b a' b' : String} (hb : ':' ∉ b.toList)
    (hb' : ':' ∉ b'.toList) : joined a b = joined a' b' ↔ a = a' ∧ b = b' := by
  rw [joined_eq_iff]
  refine ⟨?_, .inl⟩
  rintro (h | ⟨u, -, rfl⟩ | ⟨u, -, rfl⟩)
  · exact h
  · exact absurd (by simp [toList_joined]) hb'
  · exact absurd (by simp [toList_joined]) hb

/-- A string with a colon is joined. -/
theorem exists_joined_of_mem {s : String} (h : ':' ∈ s.toList) : ∃ a b, s = joined a b := by
  obtain ⟨a, b, hab⟩ := List.append_of_mem h
  refine ⟨String.ofList a, String.ofList b, ?_⟩
  rw [← String.toList_inj, toList_joined, String.toList_ofList, String.toList_ofList, hab]

/-- A joined string starts with its first part and the colon. -/
theorem startsWith_joined_iff (a s : String) :
    (a ++ ":").toList <+: s.toList ↔ ∃ b, s = joined a b := by
  constructor
  · rintro ⟨rest, h⟩
    refine ⟨String.ofList rest, ?_⟩
    rw [← String.toList_inj, toList_joined, String.toList_ofList, ← h]
    simp
  · rintro ⟨b, rfl⟩
    exact ⟨b.toList, by simp [joined]⟩

/-! ## Cutting a string -/

/-- `s.partition(c)`: what stands in front of the first `c`, and what stands behind it. -/
def partition (c : Char) (s : String) : Option (String × String) :=
  match s.toList.dropWhile (· ≠ c) with
  | [] => none
  | _ :: rest => some (String.ofList (s.toList.takeWhile (· ≠ c)), String.ofList rest)

theorem partition_eq_none_iff (c : Char) (s : String) : partition c s = none ↔ c ∉ s.toList := by
  unfold partition
  split
  · rename_i h
    rw [List.dropWhile_eq_nil_iff] at h
    refine ⟨fun _ hc => ?_, fun _ => rfl⟩
    simpa using h c hc
  · rename_i d rest h
    refine ⟨fun hn => (by cases hn), fun hc => ?_⟩
    have hall : s.toList.dropWhile (· ≠ c) = [] := by
      rw [List.dropWhile_eq_nil_iff]
      intro x hx
      simpa using fun heq : x = c => hc (heq ▸ hx)
    rw [hall] at h
    cases h

/-- A string is cut at its first `c`. -/
theorem partition_eq_some_iff (c : Char) (s a b : String) :
    partition c s = some (a, b) ↔ s.toList = a.toList ++ c :: b.toList ∧ c ∉ a.toList := by
  constructor
  · intro h
    unfold partition at h
    split at h
    · cases h
    · rename_i d rest hdrop
      rw [Option.some.injEq, Prod.mk.injEq] at h
      obtain ⟨rfl, rfl⟩ := h
      have hd : d = c := by
        have hhead := List.head?_dropWhile_not (· ≠ c) s.toList
        rw [hdrop] at hhead
        simpa using hhead
      have hcut := List.takeWhile_append_dropWhile (p := (· ≠ c)) (l := s.toList)
      rw [hdrop, hd] at hcut
      rw [String.toList_ofList, String.toList_ofList]
      refine ⟨hcut.symm, fun hc => ?_⟩
      simpa using List.mem_takeWhile_imp hc
  · rintro ⟨hs, hc⟩
    have hall : ∀ x ∈ a.toList, decide (x ≠ c) = true := by
      intro x hx
      simpa using fun heq : x = c => hc (heq ▸ hx)
    unfold partition
    rw [hs, List.dropWhile_append_of_pos hall, List.takeWhile_append_of_pos hall]
    simp

theorem partition_colon_iff (s a b : String) :
    partition ':' s = some (a, b) ↔ s = joined a b ∧ ':' ∉ a.toList := by
  rw [partition_eq_some_iff, ← toList_joined, String.toList_inj]

end AstroMine
