import AstroMine.Lib.Joined
import AstroMine.Allocate.Compile

/-!
# The names of an IR

`compile_request` spells a name for each element of a request (`ir/compile.py:87-113`): the ids of
the element, joined by `::` or `->` behind a prefix for its family. Ids are free text and may hold
a separator, and a precedence list may hold one predecessor twice.

Results:
* `zeroPadded_injective`, `windowSelectVarId_inj`: the selectors of windows are told apart.
* `namesDistinct_iff`: the names are distinct when the request is `Separable`.
* `compileRequest_ok_iff`: exactly the separable requests compile.
* `separable_of_plain`: ids without colons and dashes are always told apart.
* `compileRequest_not_total`: a repeated predecessor and an id that holds `::` are rejected.
-/

namespace AstroMine.Allocate

/-! ## Joined ids -/

/-- `a` and `b` around a separator of two characters. -/
theorem toList_append_sep (a b : String) {sep : String} {c d : Char} (hsep : sep.toList = [c, d]) :
    (a ++ sep ++ b).toList = (a.toList ++ [c]) ++ d :: b.toList := by
  simp [hsep]

/-- A separator whose last character does not occur in the second parts tells the parts. -/
theorem sep_inj_of_notMem {a a' b b' sep : String} {c d : Char} (hsep : sep.toList = [c, d])
    (hb : d ∉ b.toList) (hb' : d ∉ b'.toList) (h : a ++ sep ++ b = a' ++ sep ++ b') :
    a = a' ∧ b = b' := by
  have hlist := congrArg String.toList h
  rw [toList_append_sep a b hsep, toList_append_sep a' b' hsep, append_cons_eq_iff] at hlist
  obtain ⟨hl, hr⟩ | ⟨u, -, hr⟩ | ⟨u, -, hr⟩ := hlist
  · exact ⟨String.toList_inj.mp (List.append_cancel_right hl), String.toList_inj.mp hr⟩
  · exact absurd (by rw [hr]; simp) hb'
  · exact absurd (by rw [hr]; simp) hb

/-- So does one whose first character does not occur in the first parts. -/
theorem sep_left_eq_of_notMem {a a' b b' sep : String} {c d : Char} (hsep : sep.toList = [c, d])
    (ha : c ∉ a.toList) (ha' : c ∉ a'.toList) (h : a ++ sep ++ b = a' ++ sep ++ b') : a = a' := by
  have hlist := congrArg String.toList h
  simp only [String.toList_append, hsep, List.append_assoc, List.cons_append, List.nil_append] at hlist
  obtain ⟨hl, -⟩ | ⟨u, hl, -⟩ | ⟨u, hl, -⟩ := (append_cons_eq_iff _ _ _ _ _).1 hlist
  · exact String.toList_inj.mp hl
  · exact absurd (by rw [hl]; simp) ha
  · exact absurd (by rw [hl]; simp) ha'

/-- The second part is what stands behind the first. -/
theorem sep_right_inj {a b b' sep : String} (h : a ++ sep ++ b = a ++ sep ++ b') : b = b' :=
  String.append_right_inj _ |>.mp h

/-! ## Indices -/

theorem toList_zeroPadded (i : ℕ) :
    (zeroPadded i).toList = List.replicate (3 - (toString i).length) '0' ++ Nat.toDigits 10 i := by
  simp [zeroPadded]

/-- An index is read back from its padded text. -/
theorem zeroPadded_injective : Function.Injective zeroPadded := by
  intro i j h
  have hread (k : ℕ) : Nat.ofDigitChars 10 (zeroPadded k).toList 0 = k := by
    rw [toList_zeroPadded, Nat.ofDigitChars_append, Nat.ofDigitChars_replicate_zero, Nat.mul_zero,
      Nat.ofDigitChars_ten_toDigits]
  rw [← hread i, h, hread j]

theorem colon_notMem_zeroPadded (i : ℕ) : ':' ∉ (zeroPadded i).toList := by
  rw [toList_zeroPadded, List.mem_append]
  rintro (h | h)
  · exact absurd (List.eq_of_mem_replicate h) (by decide)
  · exact absurd (Nat.isDigit_of_mem_toDigits (by decide) (by decide) h) (by decide)

/-! ## The families -/

/-- The prefixes of the names. -/
def families : List String :=
  ["assign::", "start::", "window::", "cover::", "twin_pick::", "twin_lo::", "twin_hi::", "prec::",
    "no_overlap::"]

/-- A name tells its family and what stands behind the prefix. -/
theorem family_inj {p q s s' : String} (hp : p ∈ families) (hq : q ∈ families)
    (h : p ++ s = q ++ s') : p = q ∧ s = s' := by
  have hlen : ∀ r ∈ families, 6 ≤ r.toList.length := by decide
  have hcut : ∀ r ∈ families, ∀ r' ∈ families, r.toList.take 6 = r'.toList.take 6 → r = r' := by
    decide
  have hlist := congrArg (fun x : String => x.toList.take 6) h
  simp only [String.toList_append, List.take_append_of_le_length (hlen p hp),
    List.take_append_of_le_length (hlen q hq)] at hlist
  obtain rfl := hcut p hp q hq hlist
  exact ⟨rfl, (String.append_right_inj p).mp h⟩

theorem startVarId_inj {t u : String} (h : startVarId t = startVarId u) : t = u :=
  (family_inj (by decide) (by decide) h).2

theorem noOverlapConstraintId_inj {a b : String}
    (h : noOverlapConstraintId a = noOverlapConstraintId b) : a = b :=
  (family_inj (by decide) (by decide) h).2

theorem assignmentVarId_eq (t a : String) : assignmentVarId t a = "assign::" ++ (t ++ "::" ++ a) := by
  simp only [assignmentVarId, String.append_assoc]

theorem windowSelectVarId_eq (t : String) (i : ℕ) :
    windowSelectVarId t i = "window::" ++ (t ++ "::" ++ zeroPadded i) := by
  simp only [windowSelectVarId, String.append_assoc]

theorem precedenceConstraint_id (t : Task) (p : String) :
    (precedenceConstraint t p).id = "prec::" ++ (p ++ "->" ++ t.taskId) := by
  simp only [precedenceConstraint, String.append_assoc]

/-- A selector tells its task and its window, whatever the task id holds. -/
theorem windowSelectVarId_inj {t u : String} {i j : ℕ}
    (h : windowSelectVarId t i = windowSelectVarId u j) : t = u ∧ i = j := by
  rw [windowSelectVarId_eq, windowSelectVarId_eq] at h
  obtain ⟨-, h⟩ := family_inj (by decide) (by decide) h
  obtain ⟨htu, hij⟩ := sep_inj_of_notMem (show "::".toList = [':', ':'] from rfl)
    (colon_notMem_zeroPadded i)
    (colon_notMem_zeroPadded j) h
  exact ⟨htu, zeroPadded_injective hij⟩

/-! ## Separable requests -/

/-- The ids of a request are told apart where they are joined, and no predecessor is repeated. -/
structure Separable (request : AllocationRequest) : Prop where
  pairs : ∀ t ∈ request.tasks, ∀ u ∈ request.tasks, ∀ a ∈ eligible request t,
    ∀ b ∈ eligible request u, t.taskId ++ "::" ++ a = u.taskId ++ "::" ++ b → t = u
  precedence_nodup : ∀ t ∈ request.tasks, t.precedence.Nodup
  arrows : ∀ t ∈ request.tasks, ∀ u ∈ request.tasks, ∀ p ∈ t.precedence, ∀ q ∈ u.precedence,
    p ++ "->" ++ t.taskId = q ++ "->" ++ u.taskId → t = u

variable {request : AllocationRequest}

/-- Names of the members of disjoint parts of a list. -/
theorem nodup_map_flatMap {α β γ : Type*} {l : List α} (hl : l.Nodup) {f : α → List β} {g : β → γ}
    (hin : ∀ a ∈ l, ((f a).map g).Nodup)
    (hout : ∀ a ∈ l, ∀ b ∈ l, ∀ x ∈ f a, ∀ y ∈ f b, g x = g y → a = b) :
    ((l.flatMap f).map g).Nodup := by
  rw [List.map_flatMap, List.nodup_flatMap]
  refine ⟨hin, hl.pairwise_of_forall_ne fun a ha b hb hab z hz hz' => hab ?_⟩
  obtain ⟨x, hx, rfl⟩ := List.mem_map.mp hz
  obtain ⟨y, hy, hyx⟩ := List.mem_map.mp hz'
  exact hout a ha b hb x hx y hy hyx.symm

theorem sortedTasks_nodup (request : AllocationRequest) : (sortedTasks request).Nodup :=
  sortOn_nodup.2 request.taskIds_nodup.of_map

/-- Two variables with one name are one variable of one task. -/
theorem Separable.variable_inj (h : Separable request) {t u : Task} (ht : t ∈ request.tasks)
    (hu : u ∈ request.tasks) {v w : DecisionVariable} (hv : v ∈ taskVariables request t)
    (hw : w ∈ taskVariables request u) (hid : v.id = w.id) : t = u ∧ v = w := by
  have hfam {p q s s' : String} (hp : p ∈ families) (hq : q ∈ families) (hpq : p ≠ q)
      (heq : p ++ s = q ++ s') : False := hpq (family_inj hp hq heq).1
  obtain ⟨a, ha, rfl⟩ | rfl | hv := mem_taskVariables.1 hv
  · have hid' : "assign::" ++ (t.taskId ++ "::" ++ a) = w.id := (assignmentVarId_eq _ _).symm.trans hid
    obtain ⟨b, hb, rfl⟩ | rfl | hw := mem_taskVariables.1 hw
    · have hjoin := (family_inj (by decide) (by decide) (hid'.trans (assignmentVarId_eq _ _))).2
      obtain rfl := h.pairs t ht u hu a ha b hb hjoin
      obtain rfl := sep_right_inj hjoin
      exact ⟨rfl, rfl⟩
    · exact (hfam (by decide) (by decide) (by decide) hid').elim
    · obtain ⟨-, j, -, rfl⟩ := mem_windowSelectors.1 hw
      exact (hfam (by decide) (by decide) (by decide)
        (hid'.trans (windowSelectVarId_eq _ _))).elim
  · obtain ⟨b, hb, rfl⟩ | rfl | hw := mem_taskVariables.1 hw
    · exact (hfam (by decide) (by decide) (by decide) (Eq.trans hid (assignmentVarId_eq _ _))).elim
    · obtain rfl := task_eq_of_taskId ht hu (startVarId_inj hid)
      exact ⟨rfl, rfl⟩
    · obtain ⟨-, j, -, rfl⟩ := mem_windowSelectors.1 hw
      exact (hfam (by decide) (by decide) (by decide) (Eq.trans hid (windowSelectVarId_eq _ _))).elim
  · obtain ⟨-, i, -, rfl⟩ := mem_windowSelectors.1 hv
    have hid' := (windowSelectVarId_eq _ _).symm.trans hid
    obtain ⟨b, hb, rfl⟩ | rfl | hw := mem_taskVariables.1 hw
    · exact (hfam (by decide) (by decide) (by decide) (hid'.trans (assignmentVarId_eq _ _))).elim
    · exact (hfam (by decide) (by decide) (by decide) hid').elim
    · obtain ⟨-, j, -, rfl⟩ := mem_windowSelectors.1 hw
      obtain ⟨htu, rfl⟩ := windowSelectVarId_inj hid
      obtain rfl := task_eq_of_taskId ht hu htu
      exact ⟨rfl, rfl⟩

theorem taskVariables_nodup (request : AllocationRequest) (t : Task) :
    (taskVariables request t).Nodup := by
  have hassign : ((eligible request t).map (assignmentVariable t.taskId)).Nodup := by
    refine (eligible_nodup request t).map fun a b hab => ?_
    exact Option.some.inj (congrArg DecisionVariable.assetRef hab)
  have hselect : (windowSelectors t).Nodup := by
    unfold windowSelectors
    split_ifs
    · exact List.nodup_nil
    · refine List.nodup_range.map fun i j hij => ?_
      exact (windowSelectVarId_inj (congrArg DecisionVariable.id hij)).2
  refine List.nodup_append.mpr ⟨hassign, List.nodup_cons.mpr ⟨fun h => ?_, hselect⟩, ?_⟩
  · obtain ⟨-, i, -, h⟩ := mem_windowSelectors.1 h
    cases congrArg DecisionVariable.semantic h
  · rintro v hv w hw rfl
    obtain ⟨a, -, rfl⟩ := List.mem_map.mp hv
    obtain h | h := List.mem_cons.mp hw
    · cases congrArg DecisionVariable.semantic h
    · obtain ⟨-, i, -, h⟩ := mem_windowSelectors.1 h
      cases congrArg DecisionVariable.semantic h

theorem Separable.variableIds_nodup (h : Separable request) :
    ((requestVariables request).map DecisionVariable.id).Nodup := by
  rw [requestVariables, ((sortOn_perm _ _).map DecisionVariable.id).nodup_iff]
  refine nodup_map_flatMap (sortedTasks_nodup request) (fun t ht => ?_) ?_
  · rw [mem_sortedTasks] at ht
    exact (taskVariables_nodup request t).map_on fun v hv w hw hid =>
      (h.variable_inj ht ht hv hw hid).2
  · intro t ht u hu v hv w hw hid
    exact (h.variable_inj (mem_sortedTasks.1 ht) (mem_sortedTasks.1 hu) hv hw hid).1

/-! ## Constraints -/

/-- A cover or a window constraint is named by its family and its task. -/
theorem taskConstraint_id {t : Task} {c : Constraint} (hc : c ∈ taskConstraints request t) :
    ∃ p ∈ families, p ≠ "prec::" ∧ p ≠ "no_overlap::" ∧ c.id = p ++ t.taskId := by
  obtain rfl | hw := List.mem_cons.mp hc
  · exact ⟨"cover::", by decide, by decide, by decide, rfl⟩
  · obtain ⟨w, -, rfl | rfl⟩ | ⟨-, rfl | rfl | rfl⟩ := mem_windowConstraints.1 hw
    · exact ⟨"twin_lo::", by decide, by decide, by decide, rfl⟩
    · exact ⟨"twin_hi::", by decide, by decide, by decide, rfl⟩
    · exact ⟨"twin_pick::", by decide, by decide, by decide, rfl⟩
    · exact ⟨"twin_lo::", by decide, by decide, by decide, rfl⟩
    · exact ⟨"twin_hi::", by decide, by decide, by decide, rfl⟩

theorem taskConstraintIds_nodup (request : AllocationRequest) :
    (((sortedTasks request).flatMap (taskConstraints request)).map Constraint.id).Nodup := by
  refine nodup_map_flatMap (sortedTasks_nodup request) (fun t _ => ?_) ?_
  · have hne {p q : String} (hp : p ∈ families) (hq : q ∈ families) (hpq : p ≠ q) :
        p ++ t.taskId ≠ q ++ t.taskId := fun h => hpq (family_inj hp hq h).1
    unfold taskConstraints windowConstraints
    split
    · exact List.nodup_singleton _
    · simp only [List.map_cons, List.map_nil, coverConstraint, singleWindowLo, singleWindowHi]
      simp [hne (p := "cover::") (q := "twin_lo::") (by decide) (by decide) (by decide),
        hne (p := "cover::") (q := "twin_hi::") (by decide) (by decide) (by decide),
        hne (p := "twin_lo::") (q := "twin_hi::") (by decide) (by decide) (by decide)]
    · simp only [List.map_cons, List.map_nil, coverConstraint, twinPick, twinLo, twinHi]
      simp [hne (p := "cover::") (q := "twin_lo::") (by decide) (by decide) (by decide),
        hne (p := "cover::") (q := "twin_hi::") (by decide) (by decide) (by decide),
        hne (p := "cover::") (q := "twin_pick::") (by decide) (by decide) (by decide),
        hne (p := "twin_pick::") (q := "twin_lo::") (by decide) (by decide) (by decide),
        hne (p := "twin_pick::") (q := "twin_hi::") (by decide) (by decide) (by decide),
        hne (p := "twin_lo::") (q := "twin_hi::") (by decide) (by decide) (by decide)]
  · intro t ht u hu c hc d hd hid
    obtain ⟨p, hp, -, -, hcp⟩ := taskConstraint_id hc
    obtain ⟨q, hq, -, -, hdq⟩ := taskConstraint_id hd
    rw [hcp, hdq] at hid
    exact task_eq_of_taskId (mem_sortedTasks.1 ht) (mem_sortedTasks.1 hu) (family_inj hp hq hid).2

/-- The precedence constraints have distinct names when no predecessor is repeated and the pairs
    can be told apart. -/
theorem Separable.precedenceIds_nodup (h : Separable request) :
    (((sortedTasks request).flatMap precedenceConstraints).map Constraint.id).Nodup := by
  refine nodup_map_flatMap (sortedTasks_nodup request) (fun t ht => ?_) ?_
  · rw [precedenceConstraints, List.map_map]
    refine (sortOn_nodup.2 (h.precedence_nodup t (mem_sortedTasks.1 ht))).map fun p q hpq => ?_
    simp only [Function.comp_apply, precedenceConstraint_id] at hpq
    have hjoin := (family_inj (by decide) (by decide) hpq).2
    exact (String.append_left_inj _).mp ((String.append_left_inj _).mp hjoin)
  · intro t ht u hu c hc d hd hid
    obtain ⟨p, hp, rfl⟩ := List.mem_map.mp hc
    obtain ⟨q, hq, rfl⟩ := List.mem_map.mp hd
    rw [precedenceConstraint_id, precedenceConstraint_id] at hid
    exact h.arrows t (mem_sortedTasks.1 ht) u (mem_sortedTasks.1 hu) p ((mem_sortOn _ _ _).1 hp) q
      ((mem_sortOn _ _ _).1 hq) (family_inj (by decide) (by decide) hid).2

theorem noOverlapIds_nodup (pairs : Dict String (List String)) (sizes : Dict Pair ℚ)
    (forbidden : List Pair) :
    ((noOverlapConstraints pairs sizes forbidden).map Constraint.id).Nodup := by
  have hid : ∀ a c, noOverlapConstraint pairs sizes forbidden a = some c →
      c.id = noOverlapConstraintId a := by
    intro a c hc
    obtain ⟨-, -, rfl⟩ := noOverlapConstraint_eq_some.1 hc
    rfl
  rw [noOverlapConstraints, List.map_filterMap]
  refine List.Nodup.filterMap ?_ (sortOn_nodup.2 (Dict.nodup_keys _))
  intro a b n ha hb
  obtain ⟨c, hc, rfl⟩ := Option.map_eq_some_iff.mp ha
  obtain ⟨d, hd, hdn⟩ := Option.map_eq_some_iff.mp hb
  rw [hid a c hc, hid b d hd] at hdn
  exact (noOverlapConstraintId_inj hdn).symm

theorem Separable.constraintIds_nodup (h : Separable request) :
    ((requestConstraints request).map Constraint.id).Nodup := by
  rw [requestConstraints, ((sortOn_perm _ _).map Constraint.id).nodup_iff, linearConstraints,
    List.map_append, List.map_append]
  have hprec : ∀ c ∈ (sortedTasks request).flatMap precedenceConstraints,
      ∃ s, c.id = "prec::" ++ s := by
    intro c hc
    obtain ⟨t, -, hc⟩ := List.mem_flatMap.mp hc
    obtain ⟨p, -, rfl⟩ := List.mem_map.mp hc
    exact ⟨_, precedenceConstraint_id t p⟩
  have htask : ∀ c ∈ (sortedTasks request).flatMap (taskConstraints request),
      ∃ p ∈ families, p ≠ "prec::" ∧ p ≠ "no_overlap::" ∧ ∃ s, c.id = p ++ s := by
    intro c hc
    obtain ⟨t, -, hc⟩ := List.mem_flatMap.mp hc
    obtain ⟨p, hp, hpp, hpn, hid⟩ := taskConstraint_id hc
    exact ⟨p, hp, hpp, hpn, _, hid⟩
  have hover : ∀ c ∈ noOverlapConstraints (eligibleByTask request) (nominalSizes request) [],
      ∃ s, c.id = "no_overlap::" ++ s := by
    intro c hc
    obtain ⟨a, -, -, rfl⟩ := mem_noOverlapConstraints.1 hc
    exact ⟨a, rfl⟩
  refine List.nodup_append.mpr ⟨List.nodup_append.mpr ⟨taskConstraintIds_nodup request,
    h.precedenceIds_nodup, ?_⟩, noOverlapIds_nodup _ _ _, ?_⟩
  · rintro n hn m hm rfl
    obtain ⟨c, hc, rfl⟩ := List.mem_map.mp hn
    obtain ⟨d, hd, hid⟩ := List.mem_map.mp hm
    obtain ⟨p, hp, hpp, -, s, hcs⟩ := htask c hc
    obtain ⟨s', hds⟩ := hprec d hd
    rw [hcs, hds] at hid
    exact hpp (family_inj (by decide) hp hid).1.symm
  · rintro n hn m hm rfl
    obtain ⟨d, hd, hid⟩ := List.mem_map.mp hm
    obtain ⟨s', hds⟩ := hover d hd
    rw [hds] at hid
    obtain hn | hn := List.mem_append.mp hn
    · obtain ⟨c, hc, rfl⟩ := List.mem_map.mp hn
      obtain ⟨p, hp, -, hpn, s, hcs⟩ := htask c hc
      rw [hcs] at hid
      exact hpn (family_inj (by decide) hp hid).1.symm
    · obtain ⟨c, hc, rfl⟩ := List.mem_map.mp hn
      obtain ⟨s, hcs⟩ := hprec c hc
      rw [hcs] at hid
      exact absurd (family_inj (by decide) (by decide) hid).1 (by decide)

theorem Separable.objectiveIds_nodup (h : Separable request) :
    ((requestObjective request).map ObjectiveTerm.id).Nodup := by
  rw [requestObjective, ((sortOn_perm _ _).map ObjectiveTerm.id).nodup_iff]
  have hassign {t u : Task} (ht : t ∈ request.tasks) (hu : u ∈ request.tasks) {a b : String}
      (ha : a ∈ eligible request t) (hb : b ∈ eligible request u)
      (hid : (objectiveTerm t a).id = (objectiveTerm u b).id) : t = u ∧ a = b := by
    obtain ⟨htu, hv⟩ := h.variable_inj ht hu (mem_taskVariables.2 (Or.inl ⟨a, ha, rfl⟩))
      (mem_taskVariables.2 (Or.inl ⟨b, hb, rfl⟩)) ((String.append_right_inj _).mp hid)
    exact ⟨htu, Option.some.inj (congrArg DecisionVariable.assetRef hv)⟩
  refine nodup_map_flatMap (sortedTasks_nodup request) (fun t ht => ?_) ?_
  · rw [List.map_map]
    refine (eligible_nodup request t).map_on fun a ha b hb hid => ?_
    exact (hassign (mem_sortedTasks.1 ht) (mem_sortedTasks.1 ht) ha hb hid).2
  · intro t ht u hu o ho o' ho' hid
    obtain ⟨a, ha, rfl⟩ := List.mem_map.mp ho
    obtain ⟨b, hb, rfl⟩ := List.mem_map.mp ho'
    exact (hassign (mem_sortedTasks.1 ht) (mem_sortedTasks.1 hu) ha hb hid).1

/-! ## Exactly the separable requests compile -/

theorem Separable.namesDistinct (h : Separable request) : NamesDistinct request :=
  ⟨h.variableIds_nodup, h.constraintIds_nodup, h.objectiveIds_nodup⟩

theorem precedenceConstraint_mem {t : Task} (ht : t ∈ request.tasks) {p : String}
    (hp : p ∈ t.precedence) : precedenceConstraint t p ∈ requestConstraints request :=
  mem_requestConstraints.2 (Or.inl (mem_linearConstraints.2 ⟨t, ht, Or.inr (Or.inr ⟨p, hp, rfl⟩)⟩))

/-- Distinct names are told apart. -/
theorem NamesDistinct.separable (h : NamesDistinct request) : Separable request where
  pairs := by
    intro t ht u hu a ha b hb hjoin
    have hid : (assignmentVariable t.taskId a).id = (assignmentVariable u.taskId b).id := by
      show assignmentVarId t.taskId a = assignmentVarId u.taskId b
      rw [assignmentVarId_eq, hjoin, assignmentVarId_eq]
    have hv := List.inj_on_of_nodup_map h.variableIds
      (mem_requestVariables.2 ⟨t, ht, mem_taskVariables.2 (Or.inl ⟨a, ha, rfl⟩)⟩)
      (mem_requestVariables.2 ⟨u, hu, mem_taskVariables.2 (Or.inl ⟨b, hb, rfl⟩)⟩) hid
    exact task_eq_of_taskId ht hu (Option.some.inj (congrArg DecisionVariable.taskRef hv))
  precedence_nodup := by
    intro t ht
    have hids := h.constraintIds
    rw [requestConstraints, ((sortOn_perm _ _).map Constraint.id).nodup_iff, linearConstraints,
      List.map_append, List.map_append] at hids
    have hprec := ((List.nodup_append.mp (List.nodup_append.mp hids).1).2.1).of_map
    have htask := (List.nodup_flatMap.mp hprec).1 t (mem_sortedTasks.2 ht)
    exact sortOn_nodup.1 htask.of_map
  arrows := by
    intro t ht u hu p hp q hq hjoin
    have hid : (precedenceConstraint t p).id = (precedenceConstraint u q).id := by
      rw [precedenceConstraint_id, hjoin, precedenceConstraint_id]
    have hc := List.inj_on_of_nodup_map h.constraintIds (precedenceConstraint_mem ht hp)
      (precedenceConstraint_mem hu hq) hid
    have hterms := congrArg Constraint.terms hc
    simp only [precedenceConstraint, List.cons.injEq, ConstraintTerm.mk.injEq] at hterms
    exact task_eq_of_taskId ht hu (startVarId_inj hterms.1.1)

theorem namesDistinct_iff : NamesDistinct request ↔ Separable request :=
  ⟨NamesDistinct.separable, Separable.namesDistinct⟩

theorem namesDistinct_of_compileRequest {ir : AllocationIR} (h : compileRequest request = .ok ir) :
    NamesDistinct request := by
  obtain ⟨hv, hc, ho, -⟩ := compileRequest_eq_ok h
  exact ⟨hv ▸ ir.variableIds_nodup, hc ▸ ir.constraintIds_nodup, ho ▸ ir.objectiveIds_nodup⟩

/-- A name of the IR belongs to one element of the request. -/
structure Unaliased (request : AllocationRequest) : Prop where
  start : ∀ t ∈ request.tasks, ∀ u ∈ request.tasks,
    startVarId t.taskId = startVarId u.taskId → t = u
  assignment : ∀ t ∈ request.tasks, ∀ u ∈ request.tasks, ∀ a ∈ eligible request t,
    ∀ b ∈ eligible request u, assignmentVarId t.taskId a = assignmentVarId u.taskId b →
      t = u ∧ a = b
  window : ∀ t ∈ request.tasks, ∀ u ∈ request.tasks, ∀ i j,
    windowSelectVarId t.taskId i = windowSelectVarId u.taskId j → t = u ∧ i = j
  precedence : ∀ t ∈ request.tasks, ∀ u ∈ request.tasks, ∀ p ∈ t.precedence, ∀ q ∈ u.precedence,
    (precedenceConstraint t p).id = (precedenceConstraint u q).id → t = u ∧ p = q
  noOverlap : ∀ a b, noOverlapConstraintId a = noOverlapConstraintId b → a = b

theorem Separable.unaliased (h : Separable request) : Unaliased request where
  start t ht u hu hid := task_eq_of_taskId ht hu (startVarId_inj hid)
  assignment := by
    intro t ht u hu a ha b hb hid
    obtain ⟨htu, hv⟩ := h.variable_inj ht hu (mem_taskVariables.2 (Or.inl ⟨a, ha, rfl⟩))
      (mem_taskVariables.2 (Or.inl ⟨b, hb, rfl⟩)) hid
    exact ⟨htu, Option.some.inj (congrArg DecisionVariable.assetRef hv)⟩
  window := by
    intro t ht u hu i j hid
    obtain ⟨htu, hij⟩ := windowSelectVarId_inj hid
    exact ⟨task_eq_of_taskId ht hu htu, hij⟩
  precedence := by
    intro t ht u hu p hp q hq hid
    rw [precedenceConstraint_id, precedenceConstraint_id] at hid
    have hjoin := (family_inj (by decide) (by decide) hid).2
    obtain rfl := h.arrows t ht u hu p hp q hq hjoin
    exact ⟨rfl, (String.append_left_inj _).mp ((String.append_left_inj _).mp hjoin)⟩
  noOverlap _ _ := noOverlapConstraintId_inj

/-- **Main theorem.** A request compiles, and its names are told apart, if and only if no two
    eligible pairs spell one text when joined by `::`, no two precedence pairs spell one text when
    joined by `->`, and no task lists a predecessor twice. -/
theorem compileRequest_ok_iff (request : AllocationRequest) :
    ((∃ ir, compileRequest request = .ok ir) ∧ Unaliased request) ↔ Separable request := by
  constructor
  · rintro ⟨⟨ir, hir⟩, -⟩
    exact (namesDistinct_of_compileRequest hir).separable
  · intro h
    exact ⟨exists_compileRequest_eq_ok h.namesDistinct, h.unaliased⟩

/-- Task ids without colons and dashes are told apart. -/
theorem separable_of_plain (hcolon : ∀ t ∈ request.tasks, ':' ∉ t.taskId.toList)
    (hdash : ∀ t ∈ request.tasks, '-' ∉ t.taskId.toList)
    (hnodup : ∀ t ∈ request.tasks, t.precedence.Nodup) : Separable request where
  pairs := by
    intro t ht u hu a _ b _ hjoin
    exact task_eq_of_taskId ht hu
      (sep_left_eq_of_notMem (show "::".toList = [':', ':'] from rfl) (hcolon t ht) (hcolon u hu)
        hjoin)
  precedence_nodup := hnodup
  arrows := by
    intro t ht u hu p hp q hq hjoin
    have hpred {t : Task} (ht : t ∈ request.tasks) {p : String} (hp : p ∈ t.precedence) :
        '-' ∉ p.toList := by
      obtain ⟨v, hv, rfl⟩ := List.mem_map.mp (request.precedence_known t ht p hp)
      exact hdash v hv
    obtain rfl := sep_left_eq_of_notMem (show "->".toList = ['-', '>'] from rfl)
      (hpred ht hp) (hpred hu hq) hjoin
    exact task_eq_of_taskId ht hu (sep_right_inj hjoin)

/-! ## Requests that do not compile -/

/-- A rover that declares no capability. -/
def rover : AssetRef := ⟨"rover", [], Dict.empty⟩

theorem rover_ne_nil : [rover] ≠ [] := List.cons_ne_nil _ _

theorem rover_nodup : ([rover].map AssetRef.assetId).Nodup := List.nodup_singleton _

theorem zero_nonneg : (0 : ℚ) ≤ 0 := le_rfl

theorem one_nonneg : (0 : ℚ) ≤ 1 := by norm_num

theorem five_nonneg : (0 : ℚ) ≤ 5 := by norm_num

theorem ten_nonneg : (0 : ℚ) ≤ 10 := by norm_num

/-- A point task without windows. -/
def pointTask (taskId : String) (precedence : List String) : Task where
  taskId := taskId
  kind := .sample
  location := none
  resourceTargetRef := none
  requiredCapabilities := []
  timeWindows := []
  precedence := precedence
  durationS := 0
  valueMean := 1
  duration_nonneg := zero_nonneg

theorem pointTask_nonneg (taskId : String) : 0 ≤ (pointTask taskId []).durationS := le_rfl

/-- `haul` lists `dig` twice. -/
def repeatedPredecessor : AllocationRequest where
  tasks := [pointTask "dig" [], pointTask "haul" ["dig", "dig"]]
  assets := [rover]
  objective := ⟨.maximize, Dict.empty⟩
  tasks_ne_nil := by decide
  assets_ne_nil := rover_ne_nil
  taskIds_nodup := by decide
  assetIds_nodup := rover_nodup
  precedence_irrefl := by decide
  precedence_known := by decide
  precedence_acyclic := by decide +kernel

/-- Task `a` on asset `b::c`, task `a::b` on asset `c`. -/
def joinedIds : AllocationRequest where
  tasks := [pointTask "a" [], pointTask "a::b" []]
  assets := [⟨"b::c", [], Dict.empty⟩, ⟨"c", [], Dict.empty⟩]
  objective := ⟨.maximize, Dict.empty⟩
  tasks_ne_nil := by decide
  assets_ne_nil := by decide
  taskIds_nodup := by decide
  assetIds_nodup := by decide
  precedence_irrefl := by decide
  precedence_known := by decide
  precedence_acyclic := by decide +kernel

/-- **Counterexample.** The validator accepts a request that repeats a predecessor, and one whose
    ids hold the separator; neither compiles. -/
theorem compileRequest_not_total :
    (¬ ∃ ir, compileRequest repeatedPredecessor = .ok ir) ∧
      ¬ ∃ ir, compileRequest joinedIds = .ok ir := by
  constructor
  · rintro ⟨ir, hir⟩
    have hnodup := (namesDistinct_of_compileRequest hir).separable.precedence_nodup
      (pointTask "haul" ["dig", "dig"]) (by simp [repeatedPredecessor])
    exact absurd hnodup (by decide)
  · rintro ⟨ir, hir⟩
    have hpairs := (namesDistinct_of_compileRequest hir).separable.pairs
      (pointTask "a" []) (by simp [joinedIds]) (pointTask "a::b" []) (by simp [joinedIds])
      "b::c" (mem_eligibleAssetIds.2 ⟨⟨"b::c", [], Dict.empty⟩, by simp [joinedIds], rfl, by
        simp [pointTask]⟩)
      "c" (mem_eligibleAssetIds.2 ⟨⟨"c", [], Dict.empty⟩, by simp [joinedIds], rfl, by
        simp [pointTask]⟩) (by decide)
    exact absurd (congrArg Task.taskId hpairs) (by decide)

end AstroMine.Allocate
