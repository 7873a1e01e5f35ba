import Mathlib.Algebra.BigOperators.Group.Finset.Basic
import Mathlib.Algebra.Order.BigOperators.Group.Finset

/-!
# Marking with a worklist

A stack of nodes, popped one by one: a node that was not processed yet is visited, which pushes its
children and adds its marks. A visit may fail, and takes the whole loop down then.

Results:
* `mark_eq_ok`: over finitely many nodes the loop ends, and marks exactly what the nodes reached
  from the seeds mark.
-/

namespace AstroMine.Worklist

variable {N M ε : Type} [DecidableEq N]

/-- The nodes reached from the seeds. -/
inductive Reach (children : N → List N) (seeds : List N) : N → Prop
  | seed {n : N} : n ∈ seeds → Reach children seeds n
  | step {n c : N} : Reach children seeds n → c ∈ children n → Reach children seeds c

/-- The loop, with at most `fuel` nodes popped: the worklist (its top in front), the nodes
processed, and the marks. -/
def mark (visit : N → Except ε (List N × List M)) :
    ℕ → List N → List N → List M → Except ε (Option (List M))
  | 0, _, _, _ => .ok none
  | _ + 1, [], _, marks => .ok (some marks)
  | fuel + 1, n :: work, processed, marks =>
    if n ∈ processed then mark visit fuel work processed marks
    else
      match visit n with
      | .error e => .error e
      | .ok (children, marked) =>
        mark visit fuel (children.reverse ++ work) (n :: processed) (marks ++ marked)

/-- Where the loop stands: what is processed or waits was reached, and nothing is left out. -/
structure Progress (children : N → List N) (marksOf : N → List M) (seeds : List N) (init : List M)
    (work processed : List N) (marks : List M) : Prop where
  reached : ∀ n, n ∈ work ∨ n ∈ processed → Reach children seeds n
  seeds : ∀ n ∈ seeds, n ∈ work ∨ n ∈ processed
  closed : ∀ n ∈ processed, ∀ c ∈ children n, c ∈ work ∨ c ∈ processed
  marks : ∀ m, m ∈ marks ↔ m ∈ init ∨ ∃ n ∈ processed, m ∈ marksOf n

variable {children : N → List N} {marksOf : N → List M} {seeds : List N} {init : List M}
variable {n : N} {work processed : List N} {marks : List M}

omit [DecidableEq N] in
theorem progress_start : Progress children marksOf seeds init seeds [] init := by
  refine ⟨?_, ?_, ?_, ?_⟩
  · rintro n (hn | hn)
    · exact .seed hn
    · cases hn
  · intro n hn
    exact .inl hn
  · intro n hn
    cases hn
  · simp

omit [DecidableEq N] in
/-- A node that was processed before is passed over. -/
theorem progress_skip (h : Progress children marksOf seeds init (n :: work) processed marks)
    (hn : n ∈ processed) : Progress children marksOf seeds init work processed marks := by
  have hwaits : ∀ m, m ∈ n :: work ∨ m ∈ processed → m ∈ work ∨ m ∈ processed := by
    rintro m (hm | hm)
    · rcases List.mem_cons.mp hm with rfl | hm
      · exact .inr hn
      · exact .inl hm
    · exact .inr hm
  refine ⟨?_, ?_, ?_, h.marks⟩
  · intro m hm
    exact h.reached m (hm.imp_left (List.mem_cons_of_mem n))
  · intro m hm
    exact hwaits m (h.seeds m hm)
  · intro m hm c hc
    exact hwaits c (h.closed m hm c hc)

omit [DecidableEq N] in
/-- A node that is visited leaves its children to wait. -/
theorem progress_visit (h : Progress children marksOf seeds init (n :: work) processed marks) :
    Progress children marksOf seeds init ((children n).reverse ++ work) (n :: processed)
      (marks ++ marksOf n) := by
  have hreach : Reach children seeds n := h.reached n (.inl List.mem_cons_self)
  have hwaits : ∀ m, m ∈ n :: work ∨ m ∈ processed →
      m ∈ (children n).reverse ++ work ∨ m ∈ n :: processed := by
    rintro m (hm | hm)
    · rcases List.mem_cons.mp hm with rfl | hm
      · exact .inr List.mem_cons_self
      · exact .inl (List.mem_append_right _ hm)
    · exact .inr (List.mem_cons_of_mem n hm)
  refine ⟨?_, ?_, ?_, ?_⟩
  · rintro m (hm | hm)
    · rcases List.mem_append.mp hm with hm | hm
      · exact .step hreach (List.mem_reverse.mp hm)
      · exact h.reached m (.inl (List.mem_cons_of_mem n hm))
    · rcases List.mem_cons.mp hm with rfl | hm
      · exact hreach
      · exact h.reached m (.inr hm)
  · intro m hm
    exact hwaits m (h.seeds m hm)
  · intro m hm c hc
    rcases List.mem_cons.mp hm with rfl | hm
    · exact .inl (List.mem_append_left _ (List.mem_reverse.mpr hc))
    · exact hwaits c (h.closed m hm c hc)
  · intro m
    rw [List.mem_append, h.marks m, or_assoc]
    simp only [List.mem_cons, exists_eq_or_imp]
    exact or_congr_right or_comm

omit [DecidableEq N] in
/-- When nothing waits, everything reached was processed. -/
theorem mem_processed_of_progress (h : Progress children marksOf seeds init [] processed marks)
    (hn : Reach children seeds n) : n ∈ processed := by
  have hnil : ∀ m : N, m ∈ ([] : List N) ∨ m ∈ processed → m ∈ processed := by
    rintro m (hm | hm)
    · cases hm
    · exact hm
  induction hn with
  | seed hs => exact hnil _ (h.seeds _ hs)
  | step _ hc ih => exact hnil _ (h.closed _ ih _ hc)

/-- The children of the nodes that are not processed yet. -/
def pending (children : N → List N) (nodes : Finset N) (processed : List N) : ℕ :=
  ∑ n ∈ nodes.filter (· ∉ processed), (children n).length

theorem pending_visit {nodes : Finset N} (hmem : n ∈ nodes) (hn : n ∉ processed) :
    pending children nodes (n :: processed) + (children n).length =
      pending children nodes processed := by
  have hfilter : nodes.filter (· ∉ processed) =
      insert n (nodes.filter (· ∉ n :: processed)) := by
    ext m
    simp only [Finset.mem_filter, Finset.mem_insert, List.mem_cons, not_or]
    constructor
    · rintro ⟨hm, hp⟩
      by_cases heq : m = n
      · exact .inl heq
      · exact .inr ⟨hm, heq, hp⟩
    · rintro (rfl | ⟨hm, -, hp⟩)
      · exact ⟨hmem, hn⟩
      · exact ⟨hm, hp⟩
  rw [pending, pending, hfilter, Finset.sum_insert (by simp), add_comm]

variable {visit : N → Except ε (List N × List M)}

/-- The loop from where it stands to its end. -/
theorem mark_of_progress {nodes : Finset N} (hnodes : ∀ n, Reach children seeds n → n ∈ nodes)
    (hvisit : ∀ n, Reach children seeds n → visit n = .ok (children n, marksOf n)) (fuel : ℕ)
    (h : Progress children marksOf seeds init work processed marks)
    (hfuel : work.length + pending children nodes processed < fuel) :
    ∃ marks', mark visit fuel work processed marks = .ok (some marks') ∧
      ∀ m, m ∈ marks' ↔ m ∈ init ∨ ∃ n, Reach children seeds n ∧ m ∈ marksOf n := by
  induction fuel generalizing work processed marks with
  | zero => omega
  | succ fuel ih =>
    cases work with
    | nil =>
      refine ⟨marks, rfl, fun m => (h.marks m).trans (or_congr_right ?_)⟩
      constructor
      · rintro ⟨n, hn, hm⟩
        exact ⟨n, h.reached n (.inr hn), hm⟩
      · rintro ⟨n, hn, hm⟩
        exact ⟨n, mem_processed_of_progress h hn, hm⟩
    | cons n work =>
      have hreach : Reach children seeds n := h.reached n (.inl List.mem_cons_self)
      rw [List.length_cons] at hfuel
      by_cases hn : n ∈ processed
      · rw [mark, if_pos hn]
        exact ih (progress_skip h hn) (by omega)
      · have hpending : pending children nodes (n :: processed) + (children n).length =
            pending children nodes processed := pending_visit (hnodes n hreach) hn
        rw [mark, if_neg hn, hvisit n hreach]
        refine ih (progress_visit h) ?_
        rw [List.length_append, List.length_reverse]
        omega

/-- The loop ends, and marks what the nodes reached mark. -/
theorem mark_eq_ok {nodes : Finset N} (hnodes : ∀ n, Reach children seeds n → n ∈ nodes)
    (hvisit : ∀ n, Reach children seeds n → visit n = .ok (children n, marksOf n)) {fuel : ℕ}
    (hfuel : seeds.length + ∑ n ∈ nodes, (children n).length < fuel) :
    ∃ marks', mark visit fuel seeds [] init = .ok (some marks') ∧
      ∀ m, m ∈ marks' ↔ m ∈ init ∨ ∃ n, Reach children seeds n ∧ m ∈ marksOf n := by
  refine mark_of_progress hnodes hvisit fuel progress_start ?_
  have hall : nodes.filter (· ∉ ([] : List N)) = nodes := by simp
  rw [pending, hall]
  exact hfuel

omit [DecidableEq N] in
/-- More seeds and more children reach more. -/
theorem Reach.mono {children' : N → List N} {seeds' : List N}
    (hseeds : ∀ n ∈ seeds, n ∈ seeds')
    (hchildren : ∀ n, Reach children seeds n → ∀ c ∈ children n, c ∈ children' n)
    (h : Reach children seeds n) : Reach children' seeds' n := by
  induction h with
  | seed hs => exact .seed (hseeds _ hs)
  | step hn hc ih => exact .step ih (hchildren _ hn _ hc)

end AstroMine.Worklist
