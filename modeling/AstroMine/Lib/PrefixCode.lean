import Mathlib.Data.List.Basic
import Mathlib.Data.String.Basic
import Mathlib.Logic.Function.Basic

/-!
# Prefix codes

Codes as texts that tell where they end, so that the codes of different values, whatever follows
them, differ. They are put together from codes of parts.

Results:
* `PrefixCode.injective`: different values have different codes.
* `prefixCode_list`, `prefixCode_pair`, `prefixCode_sum`: codes of lists, pairs and alternatives.
-/

namespace AstroMine

/-- From a text that starts with a code, the value and the rest can be told. -/
def PrefixCode {α : Type} (code : α → List Char) : Prop :=
  ∀ a b x y, code a ++ x = code b ++ y → a = b ∧ x = y

variable {α β : Type} {code : α → List Char} {code' : β → List Char}

theorem PrefixCode.injective (h : PrefixCode code) : Function.Injective code := by
  intro a b heq
  exact (h a b [] [] (by rw [heq])).1

/-- A code of the image is a code, if the image tells the value. -/
theorem PrefixCode.comap (h : PrefixCode code) {f : β → α} (hf : Function.Injective f) :
    PrefixCode (code ∘ f) := by
  intro a b x y heq
  obtain ⟨hab, hxy⟩ := h _ _ _ _ heq
  exact ⟨hf hab, hxy⟩

theorem prefixCode_char : PrefixCode fun c : Char => [c] := by
  intro a b x y heq
  exact List.cons.inj heq

/-- A list: its elements, each behind a sign, and a sign for the end. -/
def listCode (code : α → List Char) : List α → List Char
  | [] => ['-']
  | a :: as => '+' :: (code a ++ listCode code as)

theorem prefixCode_list (h : PrefixCode code) : PrefixCode (listCode code) := by
  intro as bs x y heq
  induction as generalizing bs with
  | nil =>
    cases bs with
    | nil => exact ⟨rfl, (List.cons.inj heq).2⟩
    | cons b bs => exact absurd (List.cons.inj heq).1 (by decide)
  | cons a as ih =>
    cases bs with
    | nil => exact absurd (List.cons.inj heq).1 (by decide)
    | cons b bs =>
      rw [listCode, listCode, List.cons_append, List.cons_append, List.cons.injEq,
        List.append_assoc, List.append_assoc] at heq
      obtain ⟨rfl, hrest⟩ := h _ _ _ _ heq.2
      obtain ⟨rfl, hxy⟩ := ih bs hrest
      exact ⟨rfl, hxy⟩

/-- A pair: one part, and the other. -/
def pairCode (code : α → List Char) (code' : β → List Char) (p : α × β) : List Char :=
  code p.1 ++ code' p.2

theorem prefixCode_pair (h : PrefixCode code) (h' : PrefixCode code') :
    PrefixCode (pairCode code code') := by
  rintro ⟨a, a'⟩ ⟨b, b'⟩ x y heq
  rw [pairCode, pairCode, List.append_assoc, List.append_assoc] at heq
  obtain ⟨hab, hrest⟩ := h _ _ _ _ heq
  obtain ⟨hab', hxy⟩ := h' _ _ _ _ hrest
  exact ⟨Prod.ext hab hab', hxy⟩

/-- An alternative: a sign for the side, and the value. -/
def sumCode (code : α → List Char) (code' : β → List Char) : α ⊕ β → List Char
  | .inl a => '<' :: code a
  | .inr b => '>' :: code' b

theorem prefixCode_sum (h : PrefixCode code) (h' : PrefixCode code') :
    PrefixCode (sumCode code code') := by
  rintro (a | a) (b | b) x y heq
  · obtain ⟨rfl, hxy⟩ := h a b x y (List.cons.inj heq).2
    exact ⟨rfl, hxy⟩
  · exact absurd (List.cons.inj heq).1 (by decide)
  · exact absurd (List.cons.inj heq).1 (by decide)
  · obtain ⟨rfl, hxy⟩ := h' a b x y (List.cons.inj heq).2
    exact ⟨rfl, hxy⟩

/-- A text: its characters. -/
def textCode (s : String) : List Char := listCode (fun c => [c]) s.toList

theorem prefixCode_text : PrefixCode textCode :=
  (prefixCode_list prefixCode_char).comap fun _ _ => String.toList_inj.mp

/-- An option: the list of its value. -/
def optionCode (code : α → List Char) (o : Option α) : List Char := listCode code o.toList

theorem prefixCode_option (h : PrefixCode code) : PrefixCode (optionCode code) :=
  (prefixCode_list h).comap fun o o' heq => by
    rw [← Option.head?_toList (o := o), heq, Option.head?_toList]

/-- A number: so many signs. -/
def natCode (n : ℕ) : List Char := listCode (fun _ : Unit => []) (List.replicate n ())

theorem prefixCode_nat : PrefixCode natCode := by
  have hunit : PrefixCode fun _ : Unit => ([] : List Char) := fun _ _ _ _ heq => ⟨rfl, heq⟩
  exact (prefixCode_list hunit).comap (List.replicate_left_injective ())

end AstroMine
