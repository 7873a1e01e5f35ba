import Mathlib.Data.List.DropRight

/-!
# Lines and the white space around them

Texts are lists of symbols. `strip` drops the white space at both ends, `splitLines` splits a text
after each line break (LF, CR or CR LF), `tidyLines` strips a text and each of its lines.

Results:
* `strip_eq_self`: what is not dropped.
* `splitLines_join`: joined lines split again.
* `tidyLines_idem`: a tidied text is tidy.
-/

namespace AstroMine

variable {α : Type}

/-! ## White space at the ends -/

/-- Drop the white space at both ends. -/
def strip (space : α → Bool) (xs : List α) : List α := (xs.dropWhile space).rdropWhile space

/-- No white space at the ends. -/
structure Solid (space : α → Bool) (xs : List α) : Prop where
  head : ∀ x ∈ xs.head?, space x = false
  last : ∀ x ∈ xs.getLast?, space x = false

theorem strip_eq_self {space : α → Bool} {xs : List α} (h : Solid space xs) :
    strip space xs = xs := by
  have hhead : xs.dropWhile space = xs := by
    cases xs with
    | nil => rfl
    | cons x xs =>
      have hx := h.head x rfl
      simp [hx]
  rw [strip, hhead, List.rdropWhile_eq_self_iff]
  intro hne
  rw [h.last _ (List.getLast?_eq_some_getLast hne)]
  exact Bool.false_ne_true

/-- What is dropped is white space. -/
theorem exists_strip (space : α → Bool) (xs : List α) :
    ∃ before after, xs = before ++ strip space xs ++ after ∧ (∀ x ∈ before, space x = true) ∧
      ∀ x ∈ after, space x = true := by
  refine ⟨xs.takeWhile space, (xs.dropWhile space).rtakeWhile space, ?_, ?_, ?_⟩
  · rw [strip, List.append_assoc, List.rdropWhile_append_rtakeWhile,
      List.takeWhile_append_dropWhile]
  · exact fun x hx => List.mem_takeWhile_imp hx
  · exact fun x hx => List.mem_rtakeWhile_imp hx

theorem strip_solid (space : α → Bool) (xs : List α) : Solid space (strip space xs) := by
  constructor
  · intro x hx
    have hfirst : (xs.dropWhile space).head? = some x := by
      have hparts : strip space xs ++ _ = xs.dropWhile space := List.rdropWhile_append_rtakeWhile
      rw [← hparts, List.head?_append]
      exact congrArg (Option.or · _) hx
    have hnot := List.head?_dropWhile_not space xs
    rwa [hfirst] at hnot
  · intro x hx
    obtain ⟨hne, rfl⟩ := List.mem_getLast?_eq_getLast hx
    exact Bool.eq_false_iff.mpr (List.rdropWhile_last_not space _ hne)

theorem mem_of_mem_strip {space : α → Bool} {xs : List α} {x : α} (hx : x ∈ strip space xs) :
    x ∈ xs := by
  obtain ⟨before, after, heq, -, -⟩ := exists_strip space xs
  rw [heq]
  exact List.mem_append_left _ (List.mem_append_right _ hx)

/-- A symbol that is no white space is not dropped. -/
theorem mem_strip {space : α → Bool} {xs : List α} {x : α} (hx : x ∈ xs)
    (hspace : space x = false) : x ∈ strip space xs := by
  obtain ⟨before, after, heq, hbefore, hafter⟩ := exists_strip space xs
  rw [heq] at hx
  rcases List.mem_append.mp hx with hx | hx
  · rcases List.mem_append.mp hx with hx | hx
    · rw [hbefore x hx] at hspace
      cases hspace
    · exact hx
  · rw [hafter x hx] at hspace
    cases hspace

/-! ## Lines -/

variable [DecidableEq α]

/-- Put a symbol in front of the first line. -/
def consLine (x : α) : List (List α) → List (List α)
  | [] => [[x]]
  | line :: lines => (x :: line) :: lines

/-- Split after each line break; an empty text has no lines. -/
def splitLines (cr lf : α) : List α → List (List α)
  | [] => []
  | x :: xs =>
    if x = cr ∧ xs.head? = some lf then splitLines cr lf xs
    else if x = cr ∨ x = lf then [] :: splitLines cr lf xs
    else consLine x (splitLines cr lf xs)

/-- Put a line feed between the lines. -/
def joinLines (lf : α) : List (List α) → List α
  | [] => []
  | [line] => line
  | line :: lines => line ++ lf :: joinLines lf lines

/-- Strip a text and each of its lines. -/
def tidyLines (space : α → Bool) (cr lf : α) (xs : List α) : List α :=
  joinLines lf ((splitLines cr lf (strip space xs)).map (strip space))

/-- No line break in a line. -/
def Unbroken (cr lf : α) (line : List α) : Prop := cr ∉ line ∧ lf ∉ line

theorem unbroken_of_mem_splitLines {cr lf : α} {xs line : List α}
    (h : line ∈ splitLines cr lf xs) : Unbroken cr lf line := by
  induction xs generalizing line with
  | nil => cases h
  | cons x xs ih =>
    rw [splitLines] at h
    split_ifs at h with hcrlf hbreak
    · exact ih h
    · rcases List.mem_cons.mp h with rfl | h
      · exact ⟨List.not_mem_nil, List.not_mem_nil⟩
      · exact ih h
    · obtain ⟨hcr, hlf⟩ := not_or.mp hbreak
      cases hlines : splitLines cr lf xs with
      | nil =>
        rw [hlines] at h
        obtain rfl := List.mem_singleton.mp h
        exact ⟨fun hmem => hcr (List.mem_singleton.mp hmem).symm,
          fun hmem => hlf (List.mem_singleton.mp hmem).symm⟩
      | cons first lines =>
        rw [hlines] at h ih
        rcases List.mem_cons.mp h with rfl | h
        · obtain ⟨hfirst, hfirst'⟩ := ih List.mem_cons_self
          exact ⟨List.not_mem_cons_of_ne_of_not_mem (Ne.symm hcr) hfirst,
            List.not_mem_cons_of_ne_of_not_mem (Ne.symm hlf) hfirst'⟩
        · exact ih (List.mem_cons_of_mem _ h)

/-- A line in front of a line feed. -/
theorem splitLines_append {cr lf : α} (hne : cr ≠ lf) {line : List α}
    (hline : Unbroken cr lf line) (rest : List α) :
    splitLines cr lf (line ++ lf :: rest) = line :: splitLines cr lf rest := by
  induction line with
  | nil =>
    rw [List.nil_append, splitLines, if_neg (fun h => hne h.1.symm), if_pos (Or.inr rfl)]
  | cons x line ih =>
    obtain ⟨hcr, hlf⟩ := hline
    rw [List.mem_cons, not_or] at hcr hlf
    rw [List.cons_append, splitLines, if_neg (fun h => hcr.1 h.1.symm),
      if_neg (fun h => h.elim (fun h => hcr.1 h.symm) fun h => hlf.1 h.symm),
      ih ⟨hcr.2, hlf.2⟩]
    rfl

/-- A last line that is not empty. -/
theorem splitLines_single {cr lf : α} {line : List α} (hline : Unbroken cr lf line)
    (hne : line ≠ []) : splitLines cr lf line = [line] := by
  induction line with
  | nil => exact absurd rfl hne
  | cons x line ih =>
    obtain ⟨hcr, hlf⟩ := hline
    rw [List.mem_cons, not_or] at hcr hlf
    rw [splitLines, if_neg (fun h => hcr.1 h.1.symm),
      if_neg (fun h => h.elim (fun h => hcr.1 h.symm) fun h => hlf.1 h.symm)]
    cases line with
    | nil => rfl
    | cons y line =>
      rw [ih ⟨hcr.2, hlf.2⟩ (List.cons_ne_nil _ _)]
      rfl

/-- Joined lines split again, if the last one is not empty. -/
theorem splitLines_join {cr lf : α} (hne : cr ≠ lf) {lines : List (List α)}
    (hlines : ∀ line ∈ lines, Unbroken cr lf line) (hlast : ∀ line ∈ lines.getLast?, line ≠ []) :
    splitLines cr lf (joinLines lf lines) = lines := by
  induction lines with
  | nil => rfl
  | cons line lines ih =>
    cases lines with
    | nil => exact splitLines_single (hlines line List.mem_cons_self) (hlast line rfl)
    | cons next lines =>
      rw [joinLines, splitLines_append hne (hlines line List.mem_cons_self),
        ih (fun l hl => hlines l (List.mem_cons_of_mem _ hl)) hlast]
      exact List.cons_ne_nil _ _

/-! ## Tidied texts -/

/-- The lines of a tidy text: solid, and the first and the last one are not empty. -/
structure TidyLines (space : α → Bool) (cr lf : α) (lines : List (List α)) : Prop where
  unbroken : ∀ line ∈ lines, Unbroken cr lf line
  solid : ∀ line ∈ lines, Solid space line
  first : ∀ line ∈ lines.head?, line ≠ []
  last : ∀ line ∈ lines.getLast?, line ≠ []

omit [DecidableEq α] in
/-- The ends of a text are those of its first and its last line. -/
theorem joinLines_solid {space : α → Bool} {cr lf : α} {lines : List (List α)}
    (h : TidyLines space cr lf lines) : Solid space (joinLines lf lines) := by
  constructor
  · intro x hx
    cases lines with
    | nil => cases hx
    | cons line lines =>
      obtain ⟨y, line, rfl⟩ := List.exists_cons_of_ne_nil (h.first line rfl)
      refine (h.solid _ List.mem_cons_self).head x ?_
      cases lines <;> exact hx
  · intro x hx
    obtain rfl | ⟨lines, line, rfl⟩ := List.eq_nil_or_concat' lines
    · cases hx
    · have hline : line ≠ [] := h.last line (by simp)
      have hsuffix : ∃ before, joinLines lf (lines ++ [line]) = before ++ line := by
        clear h hx
        induction lines with
        | nil => exact ⟨[], rfl⟩
        | cons first lines ih =>
          obtain ⟨before, ih⟩ := ih
          refine ⟨first ++ lf :: before, ?_⟩
          have hnext : joinLines lf (first :: (lines ++ [line])) =
              first ++ lf :: joinLines lf (lines ++ [line]) := by
            cases lines <;> rfl
          rw [List.cons_append, hnext, ih, List.append_assoc, List.cons_append]
      obtain ⟨before, hbefore⟩ := hsuffix
      refine (h.solid line (by simp)).last x ?_
      rwa [hbefore, List.getLast?_append_of_ne_nil _ hline] at hx

/-- A tidy text stays as it is. -/
theorem tidyLines_eq_self {space : α → Bool} {cr lf : α} (hne : cr ≠ lf)
    {lines : List (List α)} (h : TidyLines space cr lf lines) :
    tidyLines space cr lf (joinLines lf lines) = joinLines lf lines := by
  rw [tidyLines, strip_eq_self (joinLines_solid h), splitLines_join hne h.unbroken h.last]
  congr 1
  exact (List.map_congr_left fun line hline => strip_eq_self (h.solid line hline)).trans
    (List.map_id lines)

/-- The first symbol of a text, where it is no break, is in its first line. -/
theorem mem_first_line {cr lf x : α} (xs : List α) (hcr : x ≠ cr) (hlf : x ≠ lf) :
    ∃ line lines, splitLines cr lf (x :: xs) = line :: lines ∧ x ∈ line := by
  rw [splitLines, if_neg (fun h => hcr h.1), if_neg (fun h => h.elim hcr hlf)]
  cases splitLines cr lf xs with
  | nil => exact ⟨[x], [], rfl, List.mem_cons_self⟩
  | cons line lines => exact ⟨x :: line, lines, rfl, List.mem_cons_self⟩

/-- The last symbol of a text, where it is no break, is in its last line. -/
theorem mem_last_line {cr lf x : α} (xs : List α) (hcr : x ≠ cr) (hlf : x ≠ lf) :
    ∃ lines line, splitLines cr lf (xs ++ [x]) = lines ++ [line] ∧ x ∈ line := by
  induction xs with
  | nil =>
    refine ⟨[], [x], ?_, List.mem_cons_self⟩
    rw [List.nil_append, splitLines, if_neg (fun h => hcr h.1), if_neg (fun h => h.elim hcr hlf)]
    rfl
  | cons y xs ih =>
    obtain ⟨lines, line, heq, hx⟩ := ih
    rw [List.cons_append, splitLines, heq]
    split_ifs
    · exact ⟨lines, line, rfl, hx⟩
    · exact ⟨[] :: lines, line, rfl, hx⟩
    · cases lines with
      | nil => exact ⟨[], y :: line, rfl, List.mem_cons_of_mem _ hx⟩
      | cons first lines => exact ⟨(y :: first) :: lines, line, rfl, hx⟩

/-- The lines of a tidied text are tidy. -/
theorem tidyLines_tidy {space : α → Bool} {cr lf : α} (hcr : space cr = true)
    (hlf : space lf = true) (xs : List α) :
    TidyLines space cr lf ((splitLines cr lf (strip space xs)).map (strip space)) := by
  have hsolid := strip_solid space xs
  -- a line with a symbol that is no white space is not empty when it is stripped
  have hkept {line : List α} {x : α} (hx : x ∈ line) (hspace : space x = false) :
      strip space line ≠ [] := List.ne_nil_of_mem (mem_strip hx hspace)
  have hbreak {x : α} (hspace : space x = false) : x ≠ cr ∧ x ≠ lf := by
    constructor <;> rintro rfl
    · rw [hcr] at hspace
      cases hspace
    · rw [hlf] at hspace
      cases hspace
  refine ⟨?_, ?_, ?_, ?_⟩
  · intro line hline
    obtain ⟨raw, hraw, rfl⟩ := List.mem_map.mp hline
    obtain ⟨hnocr, hnolf⟩ := unbroken_of_mem_splitLines hraw
    exact ⟨fun h => hnocr (mem_of_mem_strip h), fun h => hnolf (mem_of_mem_strip h)⟩
  · intro line hline
    obtain ⟨line, -, rfl⟩ := List.mem_map.mp hline
    exact strip_solid space line
  · intro line hline
    cases htext : strip space xs with
    | nil =>
      rw [htext] at hline
      cases hline
    | cons x text =>
      have hspace := hsolid.head x (by rw [htext]; rfl)
      obtain ⟨first, lines, heq, hx⟩ :=
        mem_first_line text (hbreak hspace).1 (hbreak hspace).2
      rw [htext, heq] at hline
      obtain rfl : strip space first = line := Option.some.inj hline
      exact hkept hx hspace
  · intro line hline
    obtain htext | ⟨text, x, htext⟩ := List.eq_nil_or_concat' (strip space xs)
    · rw [htext] at hline
      cases hline
    · have hspace := hsolid.last x (by rw [htext]; simp)
      obtain ⟨lines, last, heq, hx⟩ :=
        mem_last_line text (hbreak hspace).1 (hbreak hspace).2
      rw [htext, heq, List.map_append, List.map_cons, List.map_nil, List.getLast?_concat] at hline
      obtain rfl : strip space last = line := Option.some.inj hline
      exact hkept hx hspace

/-- A tidied text is tidy. -/
theorem tidyLines_idem {space : α → Bool} {cr lf : α} (hne : cr ≠ lf) (hcr : space cr = true)
    (hlf : space lf = true) (xs : List α) :
    tidyLines space cr lf (tidyLines space cr lf xs) = tidyLines space cr lf xs :=
  tidyLines_eq_self hne (tidyLines_tidy hcr hlf xs)

end AstroMine
