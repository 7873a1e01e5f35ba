import Mathlib.Data.List.Infix
import Mathlib.Data.List.Forall2
import Mathlib.Tactic.Common

/-!
# Case mappings of texts

A case mapping replaces each letter of a text by a few letters: those of a simple alphabet by one
letter each, all others by something that a word over that alphabet does not contain. Such a mapping
finds the same words as the mapping that treats the simple letters alone.

Results:
* `infix_iff_of_mapsBy`: a word occurs in the mapped text when it occurs after the simple mapping.
* `eq_iff_of_mapsBy`: a word is the mapped text when it is the simply mapped one.
* `toLower_eq_iff`: the two mappings of ASCII find the same capital letter.
-/

namespace AstroMine.CaseMap

variable {α β : Type}

/-- The text is mapped piece by piece. -/
def MapsBy (piece : α → List β → Prop) (s : List α) (t : List β) : Prop :=
  ∃ ps, List.Forall₂ piece s ps ∧ t = ps.flatten

variable {simple : α → β} {letters : β → Prop} {s : List α} {t word : List β}

/-- The piece of the simple mapping, or a piece without letters of the words. -/
def Foreign (simple : α → β) (letters : β → Prop) (a : α) (p : List β) : Prop :=
  p = [simple a] ∨ (p ≠ [] ∧ ∀ b ∈ p, ¬ letters b) ∧ ¬ letters (simple a)

/-- A word does not begin with what is no letter. -/
theorem not_prefix_cons {b : β} {rest : List β} (hb : ¬ letters b) (hne : word ≠ [])
    (hword : ∀ b ∈ word, letters b) : ¬ word <+: b :: rest := by
  obtain ⟨c, word, rfl⟩ := List.exists_cons_of_ne_nil hne
  rw [List.cons_prefix_cons]
  rintro ⟨rfl, -⟩
  exact hb (hword c List.mem_cons_self)

/-- A word begins the mapped text when it begins the simply mapped one. -/
theorem prefix_flatten_iff {ps : List (List β)} (h : List.Forall₂ (Foreign simple letters) s ps)
    (hword : ∀ b ∈ word, letters b) : word <+: ps.flatten ↔ word <+: s.map simple := by
  induction h generalizing word with
  | nil => exact Iff.rfl
  | @cons a p s ps hpiece _ ih =>
    cases word with
    | nil => exact iff_of_true List.nil_prefix List.nil_prefix
    | cons b word =>
      have hb : letters b := hword b List.mem_cons_self
      have hrest : ∀ b ∈ word, letters b := fun c hc => hword c (List.mem_cons_of_mem b hc)
      rw [List.flatten_cons, List.map_cons]
      obtain rfl | ⟨⟨hne, hforeign⟩, hsimple⟩ := hpiece
      · rw [List.singleton_append, List.cons_prefix_cons, List.cons_prefix_cons, ih hrest]
      · obtain ⟨q, qs, rfl⟩ := List.exists_cons_of_ne_nil hne
        rw [List.cons_append, List.cons_prefix_cons, List.cons_prefix_cons]
        refine iff_of_false ?_ ?_
        · rintro ⟨rfl, -⟩
          exact hforeign b List.mem_cons_self hb
        · rintro ⟨rfl, -⟩
          exact hsimple hb

/-- A word does not begin within a piece without letters. -/
theorem infix_append_iff {p rest : List β} (hp : ∀ b ∈ p, ¬ letters b) (hne : word ≠ [])
    (hword : ∀ b ∈ word, letters b) : word <:+: p ++ rest ↔ word <:+: rest := by
  induction p with
  | nil => exact Iff.rfl
  | cons q p ih =>
    rw [List.cons_append, List.infix_cons_iff, ih fun b hb => hp b (List.mem_cons_of_mem q hb)]
    exact or_iff_right (not_prefix_cons (hp q List.mem_cons_self) hne hword)

/-- A word occurs in the mapped text when it occurs after the simple mapping. -/
theorem infix_iff_of_mapsBy (h : MapsBy (Foreign simple letters) s t) (hne : word ≠ [])
    (hword : ∀ b ∈ word, letters b) : word <:+: t ↔ word <:+: s.map simple := by
  obtain ⟨ps, hps, rfl⟩ := h
  induction hps with
  | nil => exact Iff.rfl
  | @cons a p s ps hpiece hrest ih =>
    rw [List.flatten_cons, List.map_cons, List.infix_cons_iff]
    obtain rfl | ⟨⟨-, hforeign⟩, hsimple⟩ := hpiece
    · have hmaps : List.Forall₂ (Foreign simple letters) (a :: s) ([simple a] :: ps) :=
        .cons (.inl rfl) hrest
      have hbegin := prefix_flatten_iff hmaps hword
      rw [List.flatten_cons, List.singleton_append, List.map_cons] at hbegin
      rw [List.singleton_append, List.infix_cons_iff, hbegin, ih]
    · rw [infix_append_iff hforeign hne hword, ih, or_iff_right]
      exact not_prefix_cons hsimple hne hword

/-- The piece of the simple mapping, or a piece with something that no word contains. -/
def Strange (simple : α → β) (letters : β → Prop) (a : α) (p : List β) : Prop :=
  p = [simple a] ∨ (∃ b ∈ p, ¬ letters b) ∧ ¬ letters (simple a)

/-- A word is the mapped text when it is the simply mapped one. -/
theorem eq_iff_of_mapsBy (h : MapsBy (Strange simple letters) s t)
    (hword : ∀ b ∈ word, letters b) : t = word ↔ s.map simple = word := by
  obtain ⟨ps, hps, rfl⟩ := h
  induction hps generalizing word with
  | nil => exact Iff.rfl
  | @cons a p s ps hpiece _ ih =>
    rw [List.flatten_cons, List.map_cons]
    obtain rfl | ⟨⟨b, hb, hforeign⟩, hsimple⟩ := hpiece
    · cases word with
      | nil => exact iff_of_false (List.cons_ne_nil _ _) (List.cons_ne_nil _ _)
      | cons c word =>
        rw [List.singleton_append, List.cons.injEq, List.cons.injEq,
          ih fun d hd => hword d (List.mem_cons_of_mem c hd)]
    · refine iff_of_false ?_ ?_
      · rintro rfl
        exact hforeign (hword b (List.mem_append_left _ hb))
      · rintro rfl
        exact hsimple (hword _ List.mem_cons_self)

/-- The simple mapping is a case mapping. -/
theorem mapsBy_map {piece : α → List β → Prop} (h : ∀ a, piece a [simple a]) (s : List α) :
    MapsBy piece s (s.map simple) := by
  refine ⟨s.map fun a => [simple a], ?_, List.map_eq_flatMap.trans (List.flatMap_def ..)⟩
  exact List.forall₂_map_right_iff.mpr (List.forall₂_same.mpr fun a _ => h a)

/-! ## The letters of ASCII -/

theorem toNat_toLower (c : Char) :
    c.toLower.toNat = if 65 ≤ c.toNat ∧ c.toNat ≤ 90 then c.toNat + 32 else c.toNat := by
  have hA : ('A'.val ≤ c.val) = (65 ≤ c.toNat) := rfl
  have hZ : (c.val ≤ 'Z'.val) = (c.toNat ≤ 90) := rfl
  unfold Char.toLower
  simp only [ge_iff_le, hA, hZ]
  split_ifs with h
  · have hlt : c.toNat + 32 < 2 ^ 32 := by omega
    exact Nat.mod_eq_of_lt hlt
  · rfl

theorem toNat_toUpper (c : Char) :
    c.toUpper.toNat = if 97 ≤ c.toNat ∧ c.toNat ≤ 122 then c.toNat - 32 else c.toNat := by
  have ha : ('a'.val ≤ c.val) = (97 ≤ c.toNat) := rfl
  have hz : (c.val ≤ 'z'.val) = (c.toNat ≤ 122) := rfl
  have hstep : ('A'.val - 'a'.val).toNat = 2 ^ 32 - 32 := by decide
  unfold Char.toUpper
  simp only [ha, hz]
  split_ifs with h
  · have hsum : c.toNat + (2 ^ 32 - 32) = c.toNat - 32 + 2 ^ 32 := by omega
    have hlt : c.toNat - 32 < 2 ^ 32 := by omega
    have hval : (c.val + ('A'.val - 'a'.val)).toNat = c.toNat - 32 := by
      rw [UInt32.toNat_add, hstep, ← Char.toNat, hsum, Nat.add_mod_right, Nat.mod_eq_of_lt hlt]
    exact hval
  · rfl

/-- A letter is the same as a capital one up to its case if it is that letter as a capital. -/
theorem toLower_eq_iff {u : Char} (hu : 65 ≤ u.toNat ∧ u.toNat ≤ 90) (c : Char) :
    c.toLower = u.toLower ↔ c.toUpper = u := by
  have hext (a b : Char) : a = b ↔ a.toNat = b.toNat := by
    rw [Char.ext_iff, ← UInt32.toNat_inj]
    rfl
  rw [hext, hext, toNat_toLower, toNat_toLower, toNat_toUpper]
  split_ifs <;> omega

/-- A text is the same as a word of capital letters up to its case if it is that word in capitals. -/
theorem map_toLower_eq_iff {us : List Char} (hus : ∀ u ∈ us, 65 ≤ u.toNat ∧ u.toNat ≤ 90)
    (cs : List Char) : cs.map Char.toLower = us.map Char.toLower ↔ cs.map Char.toUpper = us := by
  induction cs generalizing us with
  | nil => cases us <;> simp
  | cons c cs ih =>
    cases us with
    | nil => simp
    | cons u us =>
      obtain ⟨hu, hus⟩ := List.forall_mem_cons.mp hus
      rw [List.map_cons, List.map_cons, List.map_cons, List.cons.injEq, List.cons.injEq,
        toLower_eq_iff hu, ih hus]

end AstroMine.CaseMap
