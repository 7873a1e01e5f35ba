import AstroMine.Hub.Resolve

/-!
# What a request should resolve to

`Candidate` says which versions a request asks for, and `Exact` that a result is the highest of them,
or a refusal when there is none. `assert_core_compatible` reads an empty map of provided interfaces
as the one of this Core (`core/compat/__init__.py`, line 103), so a host that provides nothing is
taken for one that provides everything.

Results:
* `entryMatches_eq`: which entries match.
* `resolveRequest_exactOn`: resolution is exact for the map it looks at.
* `resolveRequest_perm`: it does not depend on the order of the catalog.
* `resolve_exact_iff`: when it is exact for the map that the request names.
-/

namespace AstroMine.Hub

variable {V : Type}

/-! ## Comparing interface versions -/

/-- A version with this reading is satisfied by the other one. -/
def Satisfied (required provided : ℕ × ℕ × ℕ) : Prop :=
  required.1 = provided.1 ∧
    if required.1 = 0 then provided.2.1 = required.2.1 else required.2.1 ≤ provided.2.1

theorem Satisfied.trans {a b c : ℕ × ℕ × ℕ} (hab : Satisfied a b) (hbc : Satisfied b c) :
    Satisfied a c := by
  refine ⟨hab.1.trans hbc.1, ?_⟩
  have h1 := hab.2
  have h2 := hbc.2
  rw [← hab.1] at h2
  by_cases h0 : a.1 = 0
  · rw [if_pos h0] at h1 h2 ⊢
    exact h2.trans h1
  · rw [if_neg h0] at h1 h2 ⊢
    exact h1.trans h2

/-- The rule, on the readings of the two versions. -/
theorem checkCompatible_eq_true_iff {number : String → Option ℕ} {required provided : String} :
    checkCompatible number required provided = .ok true ↔
      ∃ r p, parseVersion number required = .ok r ∧ parseVersion number provided = .ok p ∧
        Satisfied r p := by
  rw [checkCompatible]
  cases hr : parseVersion number required with
  | error e => exact iff_of_false (fun h => by cases h) (fun ⟨_, _, h, _⟩ => by cases h)
  | ok r =>
    cases hp : parseVersion number provided with
    | error e => exact iff_of_false (fun h => by cases h) (fun ⟨_, _, _, h, _⟩ => by cases h)
    | ok p =>
      have hread : (∃ r' p', (Except.ok r : Except VersionError _) = .ok r' ∧
          (Except.ok p : Except VersionError _) = .ok p' ∧ Satisfied r' p') ↔ Satisfied r p := by
        constructor
        · rintro ⟨r', p', hr', hp', h⟩
          cases hr'
          cases hp'
          exact h
        · exact fun h => ⟨r, p, rfl, rfl, h⟩
      rw [hread, Satisfied]
      obtain ⟨rMajor, rMinor, rPatch⟩ := r
      obtain ⟨pMajor, pMinor, pPatch⟩ := p
      show (if rMajor ≠ pMajor then (pure false : Except VersionError Bool)
        else if rMajor = 0 then pure (pMinor = rMinor) else pure (rMinor ≤ pMinor)) = .ok true ↔ _
      by_cases hmajor : rMajor = pMajor
      · subst hmajor
        rw [if_neg (not_not.mpr rfl)]
        by_cases h0 : rMajor = 0
        · simp [h0, pure, Except.pure]
        · simp [h0, pure, Except.pure]
      · rw [if_pos hmajor]
        exact iff_of_false (fun h => by cases h) fun h => hmajor h.1

/-- Two versions are compared when both are versions. -/
theorem exists_checkCompatible_iff {number : String → Option ℕ} {required provided : String} :
    (∃ b, checkCompatible number required provided = .ok b) ↔
      (∃ r, parseVersion number required = .ok r) ∧ ∃ p, parseVersion number provided = .ok p := by
  rw [checkCompatible]
  cases hr : parseVersion number required with
  | error e => exact iff_of_false (fun ⟨_, h⟩ => by cases h) (fun ⟨⟨_, h⟩, _⟩ => by cases h)
  | ok r =>
    cases hp : parseVersion number provided with
    | error e => exact iff_of_false (fun ⟨_, h⟩ => by cases h) (fun ⟨_, _, h⟩ => by cases h)
    | ok p =>
      refine iff_of_true ?_ ⟨⟨r, rfl⟩, p, rfl⟩
      show ∃ b, (if r.1 ≠ p.1 then (pure false : Except VersionError Bool)
        else if r.1 = 0 then pure (p.2.1 = r.2.1) else pure (r.2.1 ≤ p.2.1)) = .ok b
      split_ifs
      exacts [⟨_, rfl⟩, ⟨_, rfl⟩, ⟨_, rfl⟩]

variable (W : Versions V)

/-- The versions that are compared can be read. -/
def Parseable (available : Dict String String) (claimed : List (String × String)) : Prop :=
  ∀ q ∈ claimed, ∀ p, available.get? q.1 = some p → ∃ b, checkCompatible W.number q.2 p = .ok b

/-- Every interface is there in a version that satisfies the claimed one. -/
def Runnable (available : Dict String String) (claimed : List (String × String)) : Prop :=
  ∀ q ∈ claimed, ∃ p, available.get? q.1 = some p ∧ checkCompatible W.number q.2 p = .ok true

/-- The loop of `assert_core_compatible` accepts what is runnable. -/
theorem coreCompatible_of_parseable {available : Dict String String}
    {claimed : List (String × String)} (h : Parseable W available claimed) :
    ∃ b, coreCompatible W available claimed = .ok b ∧
      (b = true ↔ Runnable W available claimed) := by
  induction claimed with
  | nil => exact ⟨true, rfl, iff_of_true rfl fun q hq => by cases hq⟩
  | cons q rest ih =>
    obtain ⟨interface, required⟩ := q
    obtain ⟨others, hothers, hiff⟩ := ih fun q hq => h q (List.mem_cons_of_mem _ hq)
    rw [coreCompatible]
    cases hget : available.get? interface with
    | none =>
      refine ⟨false, by rw [hothers]; rfl, iff_of_false Bool.false_ne_true fun hall => ?_⟩
      obtain ⟨p, hp, -⟩ := hall (interface, required) List.mem_cons_self
      rw [hget] at hp
      cases hp
    | some p =>
      obtain ⟨b, hb⟩ := h (interface, required) List.mem_cons_self p hget
      refine ⟨b && others, by simp only [hb, hothers]; rfl, ?_⟩
      rw [Bool.and_eq_true, hiff, Runnable, Runnable, List.forall_mem_cons]
      refine and_congr_left fun _ => ?_
      simp only [hget, Option.some.injEq, exists_eq_left', hb, Except.ok.injEq]

/-- When the loop returns, it has returned on the rest and has read the first two versions. -/
theorem coreCompatible_cons {available : Dict String String} {q : String × String}
    {rest : List (String × String)} {b : Bool}
    (h : coreCompatible W available (q :: rest) = .ok b) :
    (∃ others, coreCompatible W available rest = .ok others) ∧
      ∀ p, available.get? q.1 = some p → ∃ fits, checkCompatible W.number q.2 p = .ok fits := by
  rw [coreCompatible] at h
  cases hrest : coreCompatible W available rest with
  | error err =>
    rw [hrest] at h
    cases hget : available.get? q.1 with
    | none =>
      rw [hget] at h
      cases h
    | some p =>
      simp only [hget] at h
      cases hp : checkCompatible W.number q.2 p with
      | error err' =>
        rw [hp] at h
        cases h
      | ok fits =>
        rw [hp] at h
        cases h
  | ok others =>
    refine ⟨⟨others, rfl⟩, fun p hget => ?_⟩
    simp only [hget] at h
    obtain ⟨fits, hfits, -⟩ := bind_eq_ok.1 h
    exact ⟨fits, hfits⟩

/-- A version that cannot be read is raised. -/
theorem parseable_of_coreCompatible {available : Dict String String}
    {claimed : List (String × String)} {b : Bool} (h : coreCompatible W available claimed = .ok b) :
    Parseable W available claimed := by
  induction claimed generalizing b with
  | nil => exact fun q hq => by cases hq
  | cons q rest ih =>
    obtain ⟨⟨others, hothers⟩, hhead⟩ := coreCompatible_cons W h
    intro q' hq'
    rcases List.mem_cons.mp hq' with rfl | hq'
    · exact hhead
    · exact ih hothers q' hq'

/-- `satisfies` accepts the interfaces that are declared in versions that satisfy them. -/
theorem satisfiesInterfaces_of_parseable {declared : Dict String String}
    {required : List (String × String)} (h : Parseable W declared required) :
    ∃ b, satisfiesInterfaces W.number declared required = .ok b ∧
      (b = true ↔ Runnable W declared required) := by
  induction required with
  | nil => exact ⟨true, rfl, iff_of_true rfl fun q hq => by cases hq⟩
  | cons q rest ih =>
    obtain ⟨interface, version⟩ := q
    obtain ⟨others, hothers, hiff⟩ := ih fun q hq => h q (List.mem_cons_of_mem _ hq)
    rw [satisfiesInterfaces]
    cases hget : declared.get? interface with
    | none =>
      refine ⟨false, rfl, iff_of_false Bool.false_ne_true fun hall => ?_⟩
      obtain ⟨p, hp, -⟩ := hall (interface, version) List.mem_cons_self
      rw [hget] at hp
      cases hp
    | some p =>
      obtain ⟨b, hb⟩ := h (interface, version) List.mem_cons_self p hget
      refine ⟨b && others, ?_, ?_⟩
      · simp only [hb]
        cases b with
        | false => rfl
        | true => exact hothers
      · rw [Bool.and_eq_true, hiff, Runnable, Runnable, List.forall_mem_cons]
        refine and_congr_left fun _ => ?_
        simp only [hget, Option.some.injEq, exists_eq_left', hb, Except.ok.injEq]

/-- What runs on the provided versions can be compared with whatever those satisfy too. -/
theorem parseable_of_runnable {available declared : Dict String String}
    {required : List (String × String)} (hdeclared : Runnable W available declared.entries)
    (hrequired : Runnable W available required) : Parseable W declared required := by
  intro q hq v hv
  obtain ⟨p, -, hp⟩ := hrequired q hq
  obtain ⟨r, -, hr, -, -⟩ := checkCompatible_eq_true_iff.1 hp
  obtain ⟨p', -, hp'⟩ := hdeclared (q.1, v) ((Dict.get?_eq_some_iff declared q.1 v).mp hv)
  obtain ⟨v', -, hv', -, -⟩ := checkCompatible_eq_true_iff.1 hp'
  exact exists_checkCompatible_iff.2 ⟨⟨r, hr⟩, v', hv'⟩

/-- What is declared in versions that the provided ones satisfy is provided. -/
theorem Runnable.trans {available declared : Dict String String} {required : List (String × String)}
    (hdeclared : Runnable W available declared.entries)
    (hrequired : Runnable W declared required) : Runnable W available required := by
  intro q hq
  obtain ⟨v, hv, hqv⟩ := hrequired q hq
  obtain ⟨p, hp, hvp⟩ := hdeclared (q.1, v) ((Dict.get?_eq_some_iff declared q.1 v).mp hv)
  obtain ⟨r, v₁, hr, hv₁, hrv⟩ := checkCompatible_eq_true_iff.1 hqv
  obtain ⟨v₂, p', hv₂, hp', hvp'⟩ := checkCompatible_eq_true_iff.1 hvp
  obtain rfl := Except.ok.inj (hv₁.symm.trans hv₂)
  exact ⟨p, hp, checkCompatible_eq_true_iff.2 ⟨r, p', hr, hp', hrv.trans hvp'⟩⟩

/-! ## Candidates -/

/-- The interfaces a request names. -/
def ResolutionRequest.required (request : ResolutionRequest) : List (String × String) :=
  (request.interfaces.getD .empty).entries

/-- The entry is of the name, not yanked, and of a version in the range. -/
structure InRange (request : ResolutionRequest) (entry : CatalogEntry) : Prop where
  name : entry.manifest.name = request.name
  not_yanked : entry.yanked = false
  version : ∃ version fits, W.version entry.manifest.version = some version ∧
    W.specifier request.versionSpec = some fits ∧ fits request.includePrereleases version = true

/-- The entry is one that the request asks for, on a host that provides these interfaces. -/
structure Candidate (provided : Dict String String) (request : ResolutionRequest)
    (entry : CatalogEntry) : Prop extends InRange W request entry where
  runs : Runnable W provided entry.manifest.coreInterfaces.entries
  interfaces : Runnable W entry.manifest.coreInterfaces request.required
  tags : ∀ tag ∈ request.capabilityTags, tag ∈ entry.manifest.capabilityTags

/-- `available` of `assert_core_compatible` (line 103). -/
def availableOf (provided : Dict String String) : Dict String String :=
  if provided.entries = [] then W.coreInterfaces else provided

section Matches

variable {W} {request : ResolutionRequest} {fits : Bool → V → Bool} {entry : CatalogEntry}

theorem entryMatches_of_not_inRange (hfits : W.specifier request.versionSpec = some fits)
    (h : ¬ InRange W request entry) : entryMatches W request fits entry = .ok false := by
  rw [entryMatches]
  by_cases hskip : entry.manifest.name ≠ request.name ∨ entry.yanked = true
  · rw [if_pos hskip]
    rfl
  · rw [if_neg hskip]
    obtain ⟨hname, hyanked⟩ := not_or.mp hskip
    cases hv : W.version entry.manifest.version with
    | none => rfl
    | some v =>
      by_cases hf : fits request.includePrereleases v = false
      · simp only [hf, if_true]
        rfl
      · exact absurd ⟨not_not.mp hname, Bool.eq_false_of_not_eq_true hyanked, v, fits, hv, hfits,
          Bool.eq_true_of_not_eq_false hf⟩ h

/-- The rest of the checks on an entry in the range. -/
theorem entryMatches_of_inRange (hfits : W.specifier request.versionSpec = some fits)
    (h : InRange W request entry) :
    entryMatches W request fits entry = (do
      if ← assertCoreCompatible W entry.manifest.coreInterfaces (request.provided W) then
        entry.manifest.satisfies W.number request.required request.capabilityTags
      else return false) := by
  obtain ⟨v, fits', hv, hfits', hf⟩ := h.version
  obtain rfl := Option.some.inj (hfits.symm.trans hfits')
  rw [entryMatches, if_neg (not_or.mpr ⟨not_not.mpr h.name, by rw [h.not_yanked]; simp⟩)]
  simp only [hv, hf, Bool.true_eq_false, if_false]
  rfl

/-- Which entries match, when the versions that are compared can be read. -/
theorem entryMatches_eq (hfits : W.specifier request.versionSpec = some fits)
    (hrequired : Runnable W (availableOf W (request.provided W)) request.required)
    (hread : InRange W request entry →
      Parseable W (availableOf W (request.provided W)) entry.manifest.coreInterfaces.entries) :
    ∃ b, entryMatches W request fits entry = .ok b ∧
      (b = true ↔ Candidate W (availableOf W (request.provided W)) request entry) := by
  by_cases hin : InRange W request entry
  · rw [entryMatches_of_inRange hfits hin]
    obtain ⟨runs, hruns, hiff⟩ := coreCompatible_of_parseable W (hread hin)
    have hassert : assertCoreCompatible W entry.manifest.coreInterfaces (request.provided W) =
        .ok runs := hruns
    rw [hassert]
    cases runs with
    | false =>
      exact ⟨false, rfl, iff_of_false Bool.false_ne_true fun h => by simpa using hiff.2 h.runs⟩
    | true =>
      have hdeclared := hiff.1 rfl
      obtain ⟨b, hb, hsat⟩ :=
        satisfiesInterfaces_of_parseable W (parseable_of_runnable W hdeclared hrequired)
      refine ⟨b && request.capabilityTags.all fun tag => tag ∈ entry.manifest.capabilityTags, ?_, ?_⟩
      · show entry.manifest.satisfies W.number request.required request.capabilityTags = _
        rw [PluginManifest.satisfies, hb]
        cases b <;> rfl
      · rw [Bool.and_eq_true, hsat, List.all_eq_true]
        simp only [decide_eq_true_eq]
        exact ⟨fun h => ⟨hin, hdeclared, h.1, h.2⟩, fun h => ⟨h.interfaces, h.tags⟩⟩
  · refine ⟨false, entryMatches_of_not_inRange hfits hin, ?_⟩
    exact iff_of_false Bool.false_ne_true fun h => hin h.toInRange

/-- An entry in the range with a version that cannot be read raises. -/
theorem entryMatches_raises (hfits : W.specifier request.versionSpec = some fits)
    (hin : InRange W request entry)
    (hread : ¬ Parseable W (availableOf W (request.provided W))
      entry.manifest.coreInterfaces.entries) :
    ∀ b, entryMatches W request fits entry ≠ .ok b := by
  intro b h
  rw [entryMatches_of_inRange hfits hin] at h
  obtain ⟨runs, hruns, -⟩ := bind_eq_ok.1 h
  exact hread (parseable_of_coreCompatible W hruns)

end Matches

/-! ## Resolution -/

variable [LinearOrder V]

/-- The result is the highest candidate on a host that provides these interfaces, or a refusal when
there is none. -/
def ExactOn (provided : Dict String String) (entries : List CatalogEntry)
    (request : ResolutionRequest) : Except ResolutionError ResolvedArtifact → Prop
  | .ok resolved => ∃ entry ∈ entries, Candidate W provided request entry ∧
      resolved = ⟨entry.reference, entry.digest, entry.manifest.version⟩ ∧
      ∀ e ∈ entries, Candidate W provided request e → candidateRank W e ≤ candidateRank W entry
  | .error (.version _) => False
  | .error _ => ∀ e ∈ entries, ¬ Candidate W provided request e

/-- What is exact does not depend on the order of the entries. -/
theorem ExactOn.perm {W : Versions V} {provided : Dict String String}
    {entries entries' : List CatalogEntry} {request : ResolutionRequest}
    {result : Except ResolutionError ResolvedArtifact}
    (h : ExactOn W provided entries request result) (hperm : entries'.Perm entries) :
    ExactOn W provided entries' request result := by
  cases result with
  | error err =>
    cases err with
    | version err => exact h
    | _ => exact fun e he => h e (hperm.mem_iff.mp he)
  | ok resolved =>
    obtain ⟨entry, hentry, hcand, heq, hhighest⟩ := h
    exact ⟨entry, hperm.mem_iff.mpr hentry, hcand, heq,
      fun e he => hhighest e (hperm.mem_iff.mp he)⟩

/-- The versions that resolution comes to compare can be read. -/
structure Legible (catalog : InMemoryCatalog) (request : ResolutionRequest) : Prop where
  required : Parseable W (availableOf W (request.provided W)) request.required
  declared : Runnable W (availableOf W (request.provided W)) request.required →
    ∀ e ∈ catalog.all, InRange W request e →
      Parseable W (availableOf W (request.provided W)) e.manifest.coreInterfaces.entries

section Resolve

variable {W} {catalog : InMemoryCatalog} {request : ResolutionRequest}

omit [LinearOrder V] in
/-- The check of the request, when its versions can be read. -/
theorem checkRequest_of_parseable
    (h : Parseable W (availableOf W (request.provided W)) request.required) :
    (Runnable W (availableOf W (request.provided W)) request.required →
        checkRequest W request = .ok ()) ∧
      (¬ Runnable W (availableOf W (request.provided W)) request.required →
        checkRequest W request = .error .unresolvable) := by
  obtain ⟨b, hb, hiff⟩ := coreCompatible_of_parseable W h
  have hassert : assertCoreCompatible W (request.interfaces.getD .empty) (request.provided W) =
      .ok b := hb
  constructor
  · intro hrun
    rw [checkRequest, runIf_eq_ok, hassert, hiff.2 hrun]
    exact fun _ => rfl
  · intro hrun
    obtain rfl : b = false := Bool.eq_false_of_not_eq_true fun hb => hrun (hiff.1 hb)
    have hne : (request.interfaces.getD .empty).entries ≠ [] := by
      intro hnil
      refine hrun fun q hq => ?_
      rw [ResolutionRequest.required, hnil] at hq
      cases hq
    rw [checkRequest, runIf, if_pos hne, hassert]
    rfl

omit [LinearOrder V] in
theorem checkRequest_raises
    (h : ¬ Parseable W (availableOf W (request.provided W)) request.required) :
    ∃ err, checkRequest W request = .error (.version err) := by
  cases hx : assertCoreCompatible W (request.interfaces.getD .empty) (request.provided W) with
  | ok b => exact absurd (parseable_of_coreCompatible W hx) h
  | error err =>
    have hne : (request.interfaces.getD .empty).entries ≠ [] := by
      intro hnil
      refine h fun q hq => ?_
      rw [ResolutionRequest.required, hnil] at hq
      cases hq
    refine ⟨err, ?_⟩
    rw [checkRequest, runIf, if_pos hne, hx]
    rfl

omit [LinearOrder V] in
/-- The entries that are kept are the candidates. -/
theorem filterE_entryMatches (h : Legible W catalog request)
    (hrun : Runnable W (availableOf W (request.provided W)) request.required)
    {fits : Bool → V → Bool} (hfits : W.specifier request.versionSpec = some fits) :
    filterE (entryMatches W request fits) catalog.all =
        .ok (catalog.all.filter (accepts (entryMatches W request fits))) ∧
      ∀ e ∈ catalog.all, accepts (entryMatches W request fits) e = true ↔
        Candidate W (availableOf W (request.provided W)) request e := by
  have hmatch : ∀ e ∈ catalog.all, entryMatches W request fits e =
      .ok (accepts (entryMatches W request fits) e) ∧
        (accepts (entryMatches W request fits) e = true ↔
          Candidate W (availableOf W (request.provided W)) request e) := by
    intro e he
    obtain ⟨b, hb, hiff⟩ := entryMatches_eq hfits hrun (h.declared hrun e he)
    have haccepts : accepts (entryMatches W request fits) e = b := by
      rw [accepts, hb]
      rfl
    rw [haccepts]
    exact ⟨hb, hiff⟩
  exact ⟨filterE_eq_ok fun e he => (hmatch e he).1, fun e he => (hmatch e he).2⟩

/-- Resolution after the checks of the request. -/
theorem resolveRequest_eq {fits : Bool → V → Bool} (hcheck : checkRequest W request = .ok ())
    (hfits : W.specifier request.versionSpec = some fits) :
    resolveRequest W catalog request =
      ((filterE (entryMatches W request fits) catalog.all).mapError ResolutionError.version >>=
        bestMatch W request) := by
  have hread : readSpecifier W request.versionSpec = .ok fits := by rw [readSpecifier, hfits]
  rw [resolveRequest, hcheck, hread]
  rfl

/-- Resolution is exact for the map of interfaces that it looks at. -/
theorem resolveRequest_exactOn (h : Legible W catalog request) :
    ExactOn W (availableOf W (request.provided W)) catalog.all request
      (resolveRequest W catalog request) := by
  by_cases hrun : Runnable W (availableOf W (request.provided W)) request.required
  · have hcheck := (checkRequest_of_parseable h.required).1 hrun
    cases hspec : W.specifier request.versionSpec with
    | none =>
      rw [resolveRequest, hcheck, readSpecifier, hspec]
      intro e _ hcand
      obtain ⟨_, _, -, hsome, -⟩ := hcand.version
      rw [hspec] at hsome
      cases hsome
    | some fits =>
      obtain ⟨hfilter, hiff⟩ := filterE_entryMatches h hrun hspec
      rw [resolveRequest_eq hcheck hspec, hfilter]
      show ExactOn W _ catalog.all request (bestMatch W request _)
      rw [bestMatch]
      split
      · rename_i hnone
        intro e he hcand
        have hmem := List.mem_filter.mpr ⟨he, (hiff e he).2 hcand⟩
        rw [List.argmax_eq_none.mp hnone] at hmem
        cases hmem
      · rename_i best hbest
        obtain ⟨hmem, hacc⟩ := List.mem_filter.mp (List.argmax_mem hbest)
        refine ⟨best, hmem, (hiff best hmem).1 hacc, rfl, fun e he hcand => ?_⟩
        exact List.le_of_mem_argmax (List.mem_filter.mpr ⟨he, (hiff e he).2 hcand⟩) hbest
  · rw [resolveRequest, (checkRequest_of_parseable h.required).2 hrun]
    intro e _ hcand
    exact hrun (hcand.runs.trans W hcand.interfaces)

/-- A version that cannot be read is raised. -/
theorem resolveRequest_raises (h : ¬ Legible W catalog request) :
    ∃ err, resolveRequest W catalog request = .error (.version err) := by
  by_cases hread : Parseable W (availableOf W (request.provided W)) request.required
  · by_cases hrun : Runnable W (availableOf W (request.provided W)) request.required
    · obtain ⟨e, he, hin, hn⟩ : ∃ e ∈ catalog.all, InRange W request e ∧
          ¬ Parseable W (availableOf W (request.provided W)) e.manifest.coreInterfaces.entries := by
        by_contra hall
        push Not at hall
        exact h ⟨hread, fun _ => hall⟩
      obtain ⟨-, fits, -, hfits, -⟩ := hin.version
      rw [resolveRequest_eq ((checkRequest_of_parseable hread).1 hrun) hfits]
      cases hx : filterE (entryMatches W request fits) catalog.all with
      | error err => exact ⟨err, rfl⟩
      | ok found =>
        -- the filter asks every entry
        have hanswers := filterE_toOption (entryMatches W request fits) catalog.all
        rw [hx] at hanswers
        by_cases hall : catalog.all.all (answers (entryMatches W request fits)) = true
        · have hone := List.all_eq_true.mp hall e he
          cases hm : entryMatches W request fits e with
          | error err =>
            rw [answers, hm] at hone
            cases hone
          | ok b => exact absurd hm (entryMatches_raises hfits hin hn b)
        · rw [if_neg hall] at hanswers
          cases hanswers
    · exact absurd ⟨hread, fun hrun' => absurd hrun' hrun⟩ h
  · obtain ⟨err, herr⟩ := checkRequest_raises hread
    rw [resolveRequest, herr]
    exact ⟨err, rfl⟩

/-! ## The order of the catalog -/

omit [LinearOrder V] in
/-- Entries of one catalog with the same rank are the same. -/
theorem candidateRank_inj (hkeyed : catalog.Keyed) {e e' : CatalogEntry} (he : e ∈ catalog.all)
    (he' : e' ∈ catalog.all) (h : candidateRank W e = candidateRank W e') : e = e' := by
  have href : e.reference = e'.reference := (Prod.ext_iff.mp (toLex.injective h)).2
  exact List.inj_on_of_nodup_map (InMemoryCatalog.references_nodup hkeyed) he he' href

/-- The best match of a permutation of the entries. -/
theorem bestMatch_perm (hkeyed : catalog.Keyed) {found found' : List CatalogEntry}
    (hsub : ∀ e ∈ found, e ∈ catalog.all) (hperm : found'.Perm found) :
    bestMatch W request found' = bestMatch W request found := by
  rw [bestMatch, bestMatch]
  cases hbest : found.argmax (candidateRank W) with
  | none =>
    rw [List.argmax_eq_none.mp hbest] at hperm
    rw [hperm.eq_nil]
    rfl
  | some best =>
    have hmem := List.argmax_mem hbest
    cases hbest' : found'.argmax (candidateRank W) with
    | none =>
      rw [List.argmax_eq_none.mp hbest'] at hperm
      rw [hperm.symm.eq_nil] at hmem
      cases hmem
    | some best' =>
      have hmem' := hperm.mem_iff.mp (List.argmax_mem hbest')
      have hrank := le_antisymm (List.le_of_mem_argmax hmem' hbest)
        (List.le_of_mem_argmax (hperm.mem_iff.mpr hmem) hbest')
      rw [candidateRank_inj hkeyed (hsub best' hmem') (hsub best hmem) hrank]

/-- The result does not depend on the order of the catalog. -/
theorem resolveRequest_perm (hkeyed : catalog.Keyed) (h : Legible W catalog request)
    {catalog' : InMemoryCatalog} (hperm : catalog'.all.Perm catalog.all) :
    resolveRequest W catalog' request = resolveRequest W catalog request := by
  have h' : Legible W catalog' request :=
    ⟨h.required, fun hrun e he => h.declared hrun e (hperm.mem_iff.mp he)⟩
  by_cases hrun : Runnable W (availableOf W (request.provided W)) request.required
  · have hcheck := (checkRequest_of_parseable h.required).1 hrun
    cases hspec : W.specifier request.versionSpec with
    | none =>
      rw [resolveRequest, resolveRequest, hcheck, readSpecifier, hspec]
      rfl
    | some fits =>
      rw [resolveRequest_eq hcheck hspec, resolveRequest_eq hcheck hspec,
        (filterE_entryMatches h hrun hspec).1, (filterE_entryMatches h' hrun hspec).1]
      exact bestMatch_perm hkeyed (fun e he => (List.mem_filter.mp he).1) (hperm.filter _)
  · have hcheck := (checkRequest_of_parseable h.required).2 hrun
    rw [resolveRequest, resolveRequest, hcheck]
    rfl

/-! ## A host that provides nothing -/

/-- The request names an empty map of provided interfaces. -/
def ProvidesNothing (request : ResolutionRequest) : Prop :=
  ∃ m, request.providedInterfaces = some m ∧ m.entries = []

omit [LinearOrder V] in
/-- Any other request is looked at with the map that it names. -/
theorem availableOf_provided (h : ¬ ProvidesNothing request) :
    availableOf W (request.provided W) = request.provided W := by
  rw [availableOf]
  by_cases hnil : (request.provided W).entries = []
  · rw [if_pos hnil]
    cases hm : request.providedInterfaces with
    | none => rw [ResolutionRequest.provided, hm, Option.getD_none]
    | some m =>
      rw [ResolutionRequest.provided, hm, Option.getD_some] at hnil
      exact absurd ⟨m, hm, hnil⟩ h
  · rw [if_neg hnil]

omit [LinearOrder V] in
/-- A host that provides nothing is taken for this Core. -/
theorem availableOf_providesNothing (h : ProvidesNothing request) :
    availableOf W (request.provided W) = W.coreInterfaces := by
  obtain ⟨m, hm, hnil⟩ := h
  rw [availableOf, ResolutionRequest.provided, hm, Option.getD_some, if_pos hnil]

omit [LinearOrder V] in
/-- What runs on a host that provides nothing. -/
theorem runnable_of_nothing {provided : Dict String String} (h : provided.entries = [])
    {claimed : List (String × String)} : Runnable W provided claimed ↔ claimed = [] := by
  constructor
  · intro hrun
    cases claimed with
    | nil => rfl
    | cons q rest =>
      obtain ⟨p, hp, -⟩ := hrun q List.mem_cons_self
      have hmem := (Dict.get?_eq_some_iff provided q.1 p).mp hp
      rw [h] at hmem
      cases hmem
  · rintro rfl q hq
    cases hq

omit [LinearOrder V] in
/-- The candidates on a host that provides nothing require nothing. -/
theorem candidate_of_nothing {provided : Dict String String} (h : provided.entries = [])
    {entry : CatalogEntry} :
    Candidate W provided request entry ↔
      Candidate W W.coreInterfaces request entry ∧ entry.manifest.coreInterfaces.entries = [] := by
  have hnil : Runnable W W.coreInterfaces [] := fun q hq => by cases hq
  constructor
  · intro hcand
    have hempty := (runnable_of_nothing h).1 hcand.runs
    refine ⟨⟨hcand.toInRange, ?_, hcand.interfaces, hcand.tags⟩, hempty⟩
    rw [hempty]
    exact hnil
  · rintro ⟨hcand, hempty⟩
    exact ⟨hcand.toInRange, (runnable_of_nothing h).2 hempty, hcand.interfaces, hcand.tags⟩

/-- No version that requires an interface is above all those that require none. -/
def BareHighest (W : Versions V) (catalog : InMemoryCatalog) (request : ResolutionRequest) :
    Prop :=
  ∀ e ∈ catalog.all, Candidate W W.coreInterfaces request e →
    e.manifest.coreInterfaces.entries ≠ [] →
      ∃ e' ∈ catalog.all, Candidate W W.coreInterfaces request e' ∧
        e'.manifest.coreInterfaces.entries = [] ∧ candidateRank W e ≤ candidateRank W e'

/-- When what is exact for this Core is exact for a host that provides nothing. -/
theorem exactOn_nothing_iff (hkeyed : catalog.Keyed) {provided : Dict String String}
    (h : provided.entries = []) {result : Except ResolutionError ResolvedArtifact}
    (hcore : ExactOn W W.coreInterfaces catalog.all request result) :
    ExactOn W provided catalog.all request result ↔ BareHighest W catalog request := by
  cases result with
  | error err =>
    cases err with
    | version err => exact absurd hcore id
    | _ =>
      refine iff_of_true (fun e he hcand => hcore e he ((candidate_of_nothing h).1 hcand).1) ?_
      exact fun e he hcand => absurd hcand (hcore e he)
  | ok resolved =>
    obtain ⟨best, hbest, hcand, rfl, hhighest⟩ := hcore
    constructor
    · rintro ⟨entry, hentry, hcand', heq, -⟩
      have href : best.reference = entry.reference := congrArg ResolvedArtifact.reference heq
      obtain rfl := List.inj_on_of_nodup_map (InMemoryCatalog.references_nodup hkeyed) hbest hentry
        href
      intro e he hcore' _
      exact ⟨best, hbest, hcand, ((candidate_of_nothing h).1 hcand').2, hhighest e he hcore'⟩
    · intro hbare
      have hempty : best.manifest.coreInterfaces.entries = [] := by
        by_contra hne
        obtain ⟨e', he', hcand', hempty', hle⟩ := hbare best hbest hcand hne
        have hrank := le_antisymm hle (hhighest e' he' hcand')
        rw [candidateRank_inj hkeyed hbest he' hrank] at hne
        exact hne hempty'
      refine ⟨best, hbest, (candidate_of_nothing h).2 ⟨hcand, hempty⟩, rfl, fun e he hcand' => ?_⟩
      exact hhighest e he ((candidate_of_nothing h).1 hcand').1

/-- **Main theorem.** Resolution is exact for the map of interfaces that the request names, whatever
the order of the catalog, when the versions it compares can be read and, on a host that provides
nothing, no version that requires an interface is above all those that require none. -/
theorem resolve_exact_iff (W : Versions V) (catalog : InMemoryCatalog) (hkeyed : catalog.Keyed)
    (request : ResolutionRequest) :
    (∀ catalog' : InMemoryCatalog, catalog'.all.Perm catalog.all →
        ExactOn W (request.provided W) catalog'.all request (resolveRequest W catalog' request) ∧
          resolveRequest W catalog' request = resolveRequest W catalog request) ↔
      Legible W catalog request ∧ (ProvidesNothing request → BareHighest W catalog request) := by
  constructor
  · intro hexact
    obtain ⟨hown, -⟩ := hexact catalog (.refl _)
    have hlegible : Legible W catalog request := by
      by_contra hn
      obtain ⟨err, herr⟩ := resolveRequest_raises hn
      rw [herr] at hown
      exact hown
    refine ⟨hlegible, fun hnothing => ?_⟩
    have hcore := resolveRequest_exactOn hlegible
    rw [availableOf_providesNothing hnothing] at hcore
    obtain ⟨m, hm, hnil⟩ := hnothing
    rw [ResolutionRequest.provided, hm, Option.getD_some] at hown
    exact (exactOn_nothing_iff hkeyed hnil hcore).1 hown
  · rintro ⟨hlegible, hbare⟩ catalog' hperm
    have hsame := resolveRequest_perm hkeyed hlegible hperm
    refine ⟨?_, hsame⟩
    have hcore := resolveRequest_exactOn hlegible
    have hexact : ExactOn W (request.provided W) catalog.all request
        (resolveRequest W catalog request) := by
      by_cases hnothing : ProvidesNothing request
      · rw [availableOf_providesNothing hnothing] at hcore
        obtain ⟨m, hm, hnil⟩ := id hnothing
        rw [ResolutionRequest.provided, hm, Option.getD_some]
        exact (exactOn_nothing_iff hkeyed hnil hcore).2 (hbare hnothing)
      · rw [availableOf_provided hnothing] at hcore
        exact hcore
    rw [hsame]
    exact hexact.perm hperm

end Resolve

/-- Digits are read as such, and this Core provides the policy interface. -/
def policyVersions : Versions ℕ where
  version s := if s = "1.0.0" then some 100 else none
  specifier _ := some fun _ _ => true
  number s := if s = "0" then some 0 else if s = "1" then some 1 else none
  coreInterfaces := .ofList [("policy", "0.1.0")]

/-- An artifact built against the policy interface. -/
def artEntry : CatalogEntry where
  manifest := ⟨"art", "1.0.0", .policy, .ofList [("policy", "0.1.0")], [], [], [], none, none⟩
  digest := "sha256:a"
  publisher := "p"

/-- Only that artifact. -/
def artCatalog : InMemoryCatalog := InMemoryCatalog.empty.add artEntry

theorem artCatalog_keyed : artCatalog.Keyed := InMemoryCatalog.keyed_add InMemoryCatalog.keyed_empty _

theorem checkCompatible_policy :
    checkCompatible policyVersions.number "0.1.0" "0.1.0" = .ok true := by
  have hsplit : "0.1.0".splitOn "." = ["0", "1", "0"] := by
    simp +decide [String.splitOn, String.splitOnAux]
  have hparse : parseVersion policyVersions.number "0.1.0" = .ok (0, 1, 0) := by
    rw [parseVersion, hsplit]
    rfl
  exact checkCompatible_eq_true_iff.2 ⟨_, _, hparse, hparse, rfl, rfl⟩

theorem artEntry_runnable :
    Runnable policyVersions policyVersions.coreInterfaces artEntry.manifest.coreInterfaces.entries := by
  intro q hq
  obtain rfl := List.mem_singleton.mp hq
  exact ⟨"0.1.0", rfl, checkCompatible_policy⟩

/-- Requests for the artifact that name no interface, on what is taken for this Core. -/
theorem artCatalog_legible (request : ResolutionRequest) (hinterfaces : request.interfaces = none)
    (havailable : availableOf policyVersions (request.provided policyVersions) =
      policyVersions.coreInterfaces) : Legible policyVersions artCatalog request := by
  have hnone : request.required = [] := by rw [ResolutionRequest.required, hinterfaces]; rfl
  constructor
  · rw [hnone]
    exact fun q hq => by cases hq
  · intro _ e he _ q hq p hp
    obtain rfl := List.mem_singleton.mp he
    obtain rfl := List.mem_singleton.mp hq
    rw [havailable] at hp
    obtain rfl := Option.some.inj hp
    exact ⟨true, checkCompatible_policy⟩

/-- The artifact, on a host that provides nothing. -/
def bareRequest : ResolutionRequest := { name := "art", providedInterfaces := some .empty }

/-- The artifact, on a host that provides the policy interface. -/
def policyRequest : ResolutionRequest :=
  { name := "art", providedInterfaces := some (.ofList [("policy", "0.1.0")]) }

/-- **Counterexample.** On a host that provides nothing, an artifact that requires the policy
interface is resolved. -/
theorem bareRequest_not_exact :
    resolveRequest policyVersions artCatalog bareRequest =
        .ok ⟨"art:1.0.0", "sha256:a", "1.0.0"⟩ ∧
      ¬ ∀ catalog' : InMemoryCatalog, catalog'.all.Perm artCatalog.all →
        ExactOn policyVersions (bareRequest.provided policyVersions) catalog'.all bareRequest
            (resolveRequest policyVersions catalog' bareRequest) ∧
          resolveRequest policyVersions catalog' bareRequest =
            resolveRequest policyVersions artCatalog bareRequest := by
  have hcore := resolveRequest_exactOn (artCatalog_legible bareRequest rfl rfl)
  have hcand : Candidate policyVersions policyVersions.coreInterfaces bareRequest artEntry :=
    ⟨⟨rfl, rfl, 100, fun _ _ => true, rfl, rfl, rfl⟩, artEntry_runnable,
      fun q hq => absurd hq List.not_mem_nil, fun tag htag => absurd htag List.not_mem_nil⟩
  have hruns : resolveRequest policyVersions artCatalog bareRequest =
      .ok ⟨"art:1.0.0", "sha256:a", "1.0.0"⟩ := by
    cases hresult : resolveRequest policyVersions artCatalog bareRequest with
    | error err =>
      rw [hresult] at hcore
      cases err with
      | version err => exact absurd hcore id
      | _ => exact absurd hcand (hcore artEntry List.mem_cons_self)
    | ok resolved =>
      rw [hresult] at hcore
      obtain ⟨entry, hentry, -, rfl, -⟩ := hcore
      rw [List.mem_singleton.mp hentry]
      rfl
  refine ⟨hruns, fun hexact => ?_⟩
  obtain ⟨hown, -⟩ := hexact artCatalog (.refl _)
  rw [hruns] at hown
  obtain ⟨entry, hentry, hrunnable, -⟩ := hown
  obtain rfl := List.mem_singleton.mp hentry
  have hnil := (runnable_of_nothing rfl).1 hrunnable.runs
  cases hnil

/-- It is resolved as it should be on a host that provides the interface. -/
theorem resolve_exact_iff_policy :
    Legible policyVersions artCatalog policyRequest ∧
      ExactOn policyVersions (policyRequest.provided policyVersions) artCatalog.all policyRequest
        (resolveRequest policyVersions artCatalog policyRequest) := by
  have hlegible := artCatalog_legible policyRequest rfl rfl
  have hexact := (resolve_exact_iff policyVersions artCatalog artCatalog_keyed policyRequest).2
    ⟨hlegible, fun ⟨m, hm, hnil⟩ => by
      obtain rfl := Option.some.inj hm
      cases hnil⟩
  exact ⟨hlegible, (hexact artCatalog (.refl _)).1⟩

end AstroMine.Hub
