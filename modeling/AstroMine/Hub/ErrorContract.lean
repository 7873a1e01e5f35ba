import AstroMine.Hub.Governance

/-!
# What admission and promotion raise (`hub/supply_chain/_admit.py`, `hub/curation/__init__.py`)

Admission promises one error, `SupplyChainError`, and promotion turns that one into its own and
records a denial. The gate that both call converts a missing blob and what the evidence lacks; what
else the registry raises on the way passes through it, and through the promotion with no record.

Results:
* `promoteAudited_toHub`: the audited promotion over the one without its records.
* `verifyAdmissible_refuses_iff`: when the gate answers with `SupplyChainError` or not at all.
* `contracts_iff`: admission and promotion keep their contracts exactly when the registry holds
  nothing that is tampered or unreadable on the way of the gate, the publisher has a name, and what
  is promoted is indexed and its tier known.
-/

namespace AstroMine.Hub

/-! ## The audit of a promotion -/

/-- The reason of a record (`curation/__init__.py`, lines 68, 83 and 90). -/
inductive AuditReason
  | deniedNoRegistry (tier : String)
  | deniedEvidence (error : SupplyChainError)
  | promoted (tier : String)
  deriving DecidableEq

/-- `AuditRecord` (`policy/_audit.py`, lines 18–33). -/
structure AuditRecord where
  action : String
  reference : String
  allowed : Bool
  reason : AuditReason
  deriving DecidableEq

/-- The reason begins with `denied:`. -/
def AuditRecord.IsDenial (record : AuditRecord) : Prop :=
  match record.reason with
  | .deniedNoRegistry _ | .deniedEvidence _ => True
  | .promoted _ => False

/-- `_audit` (lines 37–39). -/
def auditOf (action reference : String) (reason : AuditReason) : AuditRecord where
  action := action
  reference := reference
  allowed := true
  reason := reason

/-- What a promotion raises: its own `CurationError`, or what the gate lets through. -/
inductive PromoteError
  | unknownNamespace (tier : String)
  | unknownArtifact (reference : String)
  | noRegistry (reference : String)
  | refused (error : SupplyChainError)
  | leaked (error : AdmitError)
  deriving DecidableEq

/-- The error is a `CurationError`. -/
def PromoteError.IsCuration : PromoteError → Prop
  | .leaked _ => False
  | _ => True

/-- The error, by what is found. -/
def PromoteError.toHub : PromoteError → HubError
  | .unknownNamespace tier => .unknownNamespace tier
  | .unknownArtifact reference => .unknownArtifact reference
  | .noRegistry reference => .noRegistry reference
  | .refused error => .admission (.supplyChain error)
  | .leaked error => .admission error

/-- What a promotion leaves: the catalog, the records it writes, and what it returns or raises. -/
structure PromoteOutcome where
  catalog : InMemoryCatalog
  records : List AuditRecord
  result : Except PromoteError CatalogEntry

section Calls

variable {Bytes Key Json : Type} (C : Content Bytes) (E : Evidence Bytes Key)
  (J : ManifestJson Bytes Json) (P : Provider) [DecidableEq Json]

/-- `entry.namespace = to`, persisted and recorded (lines 88–91). -/
def moveEntry (catalog : InMemoryCatalog) (reference tier : String) (entry : CatalogEntry) :
    PromoteOutcome where
  catalog := catalog.add { entry with nameSpace := tier }
  records := [auditOf "promote" reference (.promoted tier)]
  result := .ok { entry with nameSpace := tier }

/-- `promote` (lines 42–91) with an audit log; `registry` says whether one is given. -/
def promoteAudited (r : Registry Bytes) (catalog : InMemoryCatalog) (reference tier : String)
    (registry : Bool) (trusted : Option Key) : PromoteOutcome :=
  if tier ∉ nameSpaces then ⟨catalog, [], .error (.unknownNamespace tier)⟩
  else
    match catalog.get reference with
    | none => ⟨catalog, [], .error (.unknownArtifact reference)⟩
    | some entry =>
      if tier ≠ "open" then
        if registry = false then
          ⟨catalog, [auditOf "promote" reference (.deniedNoRegistry tier)],
            .error (.noRegistry reference)⟩
        else
          match r.verifyAdmissible C E J entry.manifest entry.digest trusted defaultRequired with
          | .error (.supplyChain e) =>
            ⟨catalog, [auditOf "promote" reference (.deniedEvidence e)], .error (.refused e)⟩
          | .error e => ⟨catalog, [], .error (.leaked e)⟩
          | .ok () => moveEntry catalog reference tier entry
      else moveEntry catalog reference tier entry

variable (r : Registry Bytes) (catalog : InMemoryCatalog) (reference tier : String)
  (registry : Bool) (trusted : Option Key)

/-- What a promotion can come to. -/
inductive Promotes : PromoteOutcome → Prop
  | unknownTier : tier ∉ nameSpaces →
    Promotes ⟨catalog, [], .error (.unknownNamespace tier)⟩
  | unknownReference : tier ∈ nameSpaces → catalog.get reference = none →
    Promotes ⟨catalog, [], .error (.unknownArtifact reference)⟩
  | noRegistry (entry : CatalogEntry) : tier ∈ nameSpaces → catalog.get reference = some entry →
    tier ≠ "open" → registry = false →
    Promotes ⟨catalog, [auditOf "promote" reference (.deniedNoRegistry tier)],
      .error (.noRegistry reference)⟩
  | refused (entry : CatalogEntry) (e : SupplyChainError) : tier ∈ nameSpaces →
    catalog.get reference = some entry → tier ≠ "open" → registry = true →
    r.verifyAdmissible C E J entry.manifest entry.digest trusted defaultRequired =
      .error (.supplyChain e) →
    Promotes ⟨catalog, [auditOf "promote" reference (.deniedEvidence e)], .error (.refused e)⟩
  | leaked (entry : CatalogEntry) (e : AdmitError) : tier ∈ nameSpaces →
    catalog.get reference = some entry → tier ≠ "open" → registry = true →
    r.verifyAdmissible C E J entry.manifest entry.digest trusted defaultRequired = .error e →
    (∀ e', e ≠ .supplyChain e') → Promotes ⟨catalog, [], .error (.leaked e)⟩
  | moved (entry : CatalogEntry) : tier ∈ nameSpaces → catalog.get reference = some entry →
    (tier ≠ "open" → registry = true ∧
      r.verifyAdmissible C E J entry.manifest entry.digest trusted defaultRequired = .ok ()) →
    Promotes (moveEntry catalog reference tier entry)

/-- **Spec.** A promotion comes to one of these. -/
theorem promoteAudited_promotes : Promotes C E J r catalog reference tier registry trusted
    (promoteAudited C E J r catalog reference tier registry trusted) := by
  unfold promoteAudited
  by_cases htier : tier ∈ nameSpaces
  · rw [if_neg (not_not.mpr htier)]
    cases hget : catalog.get reference with
    | none => exact .unknownReference htier hget
    | some entry =>
      dsimp only
      by_cases hopen : tier = "open"
      · rw [if_neg (not_not.mpr hopen)]
        exact .moved entry htier hget fun h => absurd hopen h
      · rw [if_pos hopen]
        cases registry with
        | false => exact .noRegistry entry htier hget hopen rfl
        | true =>
          rw [if_neg Bool.true_eq_false.mp]
          cases hgate : r.verifyAdmissible C E J entry.manifest entry.digest trusted
              defaultRequired with
          | ok u => exact .moved entry htier hget fun _ => ⟨rfl, hgate⟩
          | error e =>
            cases e with
            | supplyChain e => exact .refused entry e htier hget hopen rfl hgate
            | store e => exact .leaked entry _ htier hget hopen rfl hgate fun _ h => (by cases h)
            | notJson d => exact .leaked entry _ htier hget hopen rfl hgate fun _ h => (by cases h)
  · rw [if_pos htier]
    exact .unknownTier htier

variable {C E J P r catalog reference tier registry trusted}

/-- Without its records the audited promotion is the one of the runs. -/
theorem promoteAudited_toHub :
    promote C E J r catalog reference tier registry trusted =
      ((promoteAudited C E J r catalog reference tier registry trusted).result.mapError
        PromoteError.toHub).map
          fun _ => (promoteAudited C E J r catalog reference tier registry trusted).catalog := by
  generalize hout : promoteAudited C E J r catalog reference tier registry trusted = out
  have hcase := promoteAudited_promotes C E J r catalog reference tier registry trusted
  rw [hout] at hcase
  unfold promote
  cases hcase with
  | unknownTier htier =>
    rw [if_pos htier]
    rfl
  | unknownReference htier hget =>
    rw [if_neg (not_not.mpr htier), hget]
    rfl
  | noRegistry entry htier hget hopen hregistry =>
    rw [if_neg (not_not.mpr htier), hget]
    simp only [runIf, if_pos hopen, hregistry]
    rfl
  | refused entry e htier hget hopen hregistry hgate =>
    rw [if_neg (not_not.mpr htier), hget]
    simp only [runIf, if_pos hopen, hregistry, hgate]
    rfl
  | leaked entry e htier hget hopen hregistry hgate =>
    rw [if_neg (not_not.mpr htier), hget]
    simp only [runIf, if_pos hopen, hregistry, hgate]
    rfl
  | moved entry htier hget hgate =>
    rw [if_neg (not_not.mpr htier), hget]
    by_cases hopen : tier = "open"
    · simp only [runIf, if_neg (not_not.mpr hopen)]
      rfl
    · obtain ⟨hregistry, hok⟩ := hgate hopen
      simp only [runIf, if_pos hopen, hregistry, hok]
      rfl

/-- Every record says that the action was allowed, the denials as well. -/
theorem promoteAudited_allowed : ∀ record ∈
    (promoteAudited C E J r catalog reference tier registry trusted).records,
      record.allowed = true := by
  have hcase := promoteAudited_promotes C E J r catalog reference tier registry trusted
  intro record hrecord
  generalize promoteAudited C E J r catalog reference tier registry trusted = out at hcase hrecord
  cases hcase with
  | unknownTier | unknownReference | leaked => cases hrecord
  | noRegistry | refused | moved => exact congrArg AuditRecord.allowed (List.mem_singleton.mp hrecord)

/-! ## The gate -/

/-- Nothing on the way of the gate raises past it: what the registry finds wrong with the artifact is
that a blob or a field is missing, the stored config is JSON, and, once it is the JSON of the
manifest, the manifests of the index can be read. -/
structure GateContained (C : Content Bytes) (J : ManifestJson Bytes Json) (r : Registry Bytes)
    (manifest : PluginManifest) (digest : String) : Prop where
  verify : ∀ e, r.verify C digest = .error e → r.isKeyError C e = true
  config : r.verify C digest = .ok () → ∀ raw, r.readConfig C digest = .ok raw →
    (J.load raw).isSome = true
  listing : r.verify C digest = .ok () → r.StoredAs C J manifest digest →
    ∃ refs, r.referrers C digest (some artifactTypeSignature) = .ok refs

/-- Whatever is raised is a `SupplyChainError`. -/
def Refuses {α : Type} (x : Except AdmitError α) : Prop :=
  ∀ e, x = .error e → ∃ e', e = .supplyChain e'

omit [DecidableEq Json] in
theorem refuses_bind {α β : Type} {x : Except AdmitError α} {f : α → Except AdmitError β} :
    Refuses (x >>= f) ↔ Refuses x ∧ ∀ a, x = .ok a → Refuses (f a) := by
  constructor
  · intro h
    refine ⟨fun e he => h e (bind_eq_error.2 (.inl he)), fun a ha e he => ?_⟩
    exact h e (bind_eq_error.2 (.inr ⟨a, ha, he⟩))
  · rintro ⟨hx, hf⟩ e he
    obtain he | ⟨a, ha, he⟩ := bind_eq_error.1 he
    · exact hx e he
    · exact hf a ha e he

theorem refuses_refuseIf (p : Prop) [Decidable p] (e : SupplyChainError) :
    Refuses (refuseIf p (.supplyChain e)) :=
  fun _ he => ⟨e, (refuseIf_eq_error.1 he).2.symm⟩

theorem refuses_mapError {α : Type} (x : Except SupplyChainError α) :
    Refuses (x.mapError AdmitError.supplyChain) := by
  intro e he
  obtain ⟨e', -, rfl⟩ := mapError_eq_error.1 he
  exact ⟨e', rfl⟩

/-- What the registry raises is no `SupplyChainError`. -/
theorem refuses_store {α : Type} {x : Except StoreError α} :
    Refuses (x.mapError AdmitError.store) ↔ ∃ a, x = .ok a := by
  cases x with
  | ok a => exact ⟨fun _ => ⟨a, rfl⟩, fun _ _ he => (by cases he)⟩
  | error e =>
    refine ⟨fun h => ?_, fun ⟨_, ha⟩ => (by cases ha)⟩
    obtain ⟨_, he⟩ := h _ rfl
    cases he

theorem refuses_verifyPresent {digest : String} : Refuses (r.verifyPresent C digest) ↔
    ∀ e, r.verify C digest = .error e → r.isKeyError C e = true := by
  unfold Registry.verifyPresent
  cases r.verify C digest with
  | ok u => exact ⟨fun _ _ he => (by cases he), fun _ _ he => (by cases he)⟩
  | error e =>
    constructor
    · intro h e' he'
      cases he'
      obtain ⟨e₁, he₁⟩ := h _ rfl
      dsimp only at he₁
      by_contra hkey
      rw [if_neg hkey] at he₁
      cases he₁
    · intro h e' he'
      have heq : (if r.isKeyError C e = true then AdmitError.supplyChain (.absent digest)
          else .store e) = e' := Except.error.inj he'
      rw [if_pos (h e rfl)] at heq
      exact ⟨_, heq.symm⟩

/-- The config of an artifact that is as it was written can be read. -/
theorem readConfig_of_verify {digest : String} (h : r.verify C digest = .ok ()) :
    ∃ raw, r.readConfig C digest = .ok raw := by
  obtain ⟨b, manifest, config, layers, hb, -, hparse, hconfig, -, hall⟩ := Registry.verify_eq_ok.1 h
  obtain ⟨data, hdata, -⟩ := hall config List.mem_cons_self
  refine ⟨data, ?_⟩
  unfold Registry.readConfig
  exact bind_eq_ok.2 ⟨manifest, Registry.readManifest_eq_ok.2 ⟨b, hb, hparse⟩,
    bind_eq_ok.2 ⟨config, Registry.configOf_eq_ok.2 hconfig, hdata⟩⟩

omit [DecidableEq Json] in
theorem refuses_storedManifest {digest : String} (h : r.verify C digest = .ok ()) :
    Refuses (r.storedManifest C J digest) ↔
      ∀ raw, r.readConfig C digest = .ok raw → (J.load raw).isSome = true := by
  unfold Registry.storedManifest
  rw [refuses_bind, refuses_store]
  simp only [mapError_eq_ok]
  refine (and_iff_right (readConfig_of_verify h)).trans
    (forall_congr' fun raw => imp_congr_right fun _ => ?_)
  cases J.load raw with
  | none =>
    refine ⟨fun hrefuses => ?_, fun hsome => (by cases hsome)⟩
    obtain ⟨_, he⟩ := hrefuses _ rfl
    cases he
  | some parsed =>
    refine ⟨fun _ => rfl, fun _ => refuses_bind.2 ⟨refuses_refuseIf _ _, fun _ _ _ he => ?_⟩⟩
    cases he

theorem refuses_requireSigned {digest : String} : Refuses (r.requireSigned C digest) ↔
    ∃ refs, r.referrers C digest (some artifactTypeSignature) = .ok refs := by
  unfold Registry.requireSigned
  rw [refuses_bind, refuses_store]
  exact and_iff_left fun refs _ => refuses_refuseIf _ _

/-- **Main theorem.** The gate raises `SupplyChainError` and nothing else exactly when nothing on its
way raises past it. -/
theorem verifyAdmissible_refuses_iff {manifest : PluginManifest} {digest : String}
    {require : List String} :
    Refuses (r.verifyAdmissible C E J manifest digest trusted require) ↔
      GateContained C J r manifest digest := by
  unfold Registry.verifyAdmissible
  rw [refuses_bind, refuses_verifyPresent]
  constructor
  · rintro ⟨hverify, hrest⟩
    refine ⟨hverify, fun hok => ?_, fun hok hstored => ?_⟩
    · have h := refuses_bind.1 (hrest () (Registry.verifyPresent_eq_ok.2 hok))
      exact (refuses_storedManifest hok).1 h.1
    · obtain ⟨raw, hraw, hload, hobject⟩ := hstored
      have h := refuses_bind.1 (hrest () (Registry.verifyPresent_eq_ok.2 hok))
      have hmanifest := Registry.storedManifest_eq_ok.2 ⟨raw, hraw, hload, hobject⟩
      have h' := refuses_bind.1 (h.2 _ hmanifest)
      have hsigned := refuses_bind.1 (h'.2 () (refuseIf_eq_ok.2 (not_not.mpr rfl)))
      exact refuses_requireSigned.1 hsigned.1
  · rintro ⟨hverify, hconfig, hlisting⟩
    refine ⟨hverify, fun _ hpresent => ?_⟩
    have hok := Registry.verifyPresent_eq_ok.1 hpresent
    refine refuses_bind.2 ⟨(refuses_storedManifest hok).2 (hconfig hok), fun stored hstored => ?_⟩
    refine refuses_bind.2 ⟨refuses_refuseIf _ _, fun _ hsame => ?_⟩
    rw [refuseIf_eq_ok, not_not] at hsame
    obtain ⟨raw, hraw, hload, hobject⟩ := Registry.storedManifest_eq_ok.1 hstored
    rw [hsame] at hload hobject
    have hlist := hlisting hok ⟨raw, hraw, hload, hobject⟩
    exact refuses_bind.2 ⟨refuses_requireSigned.2 hlist, fun _ _ => refuses_mapError _⟩

/-! ## The contracts -/

/-- The catalog has got this entry, and is the same otherwise. -/
def AddsOnly (catalog catalog' : InMemoryCatalog) (reference : String) (entry : CatalogEntry) :
    Prop :=
  catalog'.get reference = some entry ∧
    ∀ other, other ≠ reference → catalog'.get other = catalog.get other

omit [DecidableEq Json] in
theorem addsOnly_add (catalog : InMemoryCatalog) {entry : CatalogEntry}
    (h : entry.reference = reference) : AddsOnly catalog (catalog.add entry) reference entry := by
  refine ⟨by rw [get_add, if_pos h.symm], fun other hother => ?_⟩
  rw [get_add, h, if_neg hother]

/-- The artifact may be admitted: it is as it was written, its config is the JSON of the manifest, a
signature is attached, and the evidence that is required verifies. -/
def Admissible (C : Content Bytes) (E : Evidence Bytes Key) (J : ManifestJson Bytes Json)
    (r : Registry Bytes) (args : AdmitArgs Key) : Prop :=
  r.verify C args.digest = .ok () ∧ r.StoredAs C J args.manifest args.digest ∧
    (∃ refs, r.referrers C args.digest (some artifactTypeSignature) = .ok refs ∧ refs ≠ []) ∧
    r.supplyVerify C E args.digest args.trusted args.require = .ok ()

/-- The contract of an admission: one entry, of the manifest and the digest, or `SupplyChainError` and
the catalog as it was. -/
def AdmitContract (C : Content Bytes) (E : Evidence Bytes Key) (J : ManifestJson Bytes Json)
    (P : Provider) (r : Registry Bytes) (catalog : InMemoryCatalog) (args : AdmitArgs Key) :
    Prop :=
  (∃ catalog' entry, admitArtifact C E J P r catalog args = .ok catalog' ∧
    entry.manifest = args.manifest ∧ entry.digest = args.digest ∧
    AddsOnly catalog catalog' entry.reference entry) ∨
  ∃ e, admitArtifact C E J P r catalog args = .error (.admission (.supplyChain e)) ∧
    behind catalog (admitArtifact C E J P r catalog args) = catalog

/-- The contract of a promotion: the entry of the reference, and no other, is in the new tier and its
evidence verifies, or nothing has changed, the error is a `CurationError`, and one denial has been
recorded. -/
def PromoteContract (C : Content Bytes) (E : Evidence Bytes Key) (J : ManifestJson Bytes Json)
    (r : Registry Bytes) (catalog : InMemoryCatalog) (reference tier : String) (registry : Bool)
    (trusted : Option Key) : Prop :=
  let out := promoteAudited C E J r catalog reference tier registry trusted
  (∃ entry, catalog.get reference = some entry ∧ out.result = .ok { entry with nameSpace := tier } ∧
    registry = true ∧
    r.verifyAdmissible C E J entry.manifest entry.digest trusted defaultRequired = .ok () ∧
    AddsOnly catalog out.catalog reference { entry with nameSpace := tier }) ∨
  out.catalog = catalog ∧ (∃ e, out.result = .error e ∧ e.IsCuration) ∧
    ∃ record, out.records = [record] ∧ record.IsDenial ∧ record.reference = reference

omit [DecidableEq Json] in
/-- An artifact that is as it was written has a digest. -/
theorem digest_ne_empty_of_verify {digest : String} (h : r.verify C digest = .ok ()) :
    digest ≠ "" := by
  rintro rfl
  obtain ⟨b, -, -, -, hb, -⟩ := Registry.verify_eq_ok.1 h
  cases hb

variable (catalog) in
/-- What an admission comes to: the gate refuses, the entry is no entry, or it is added. -/
theorem admitArtifact_cases (args : AdmitArgs Key) :
    (∃ e, r.verifyAdmissible C E J args.manifest args.digest args.trusted args.require = .error e ∧
      admitArtifact C E J P r catalog args = .error (.admission e)) ∨
    (Admissible C E J r args ∧ args.publisher = "" ∧
      admitArtifact C E J P r catalog args = .error .invalidEntry) ∨
    (Admissible C E J r args ∧ args.publisher ≠ "" ∧ ∃ entry, entry.manifest = args.manifest ∧
      entry.digest = args.digest ∧
      admitArtifact C E J P r catalog args = .ok (catalog.add entry)) := by
  unfold admitArtifact
  cases hgate : r.verifyAdmissible C E J args.manifest args.digest args.trusted args.require with
  | error e => exact .inl ⟨e, rfl, rfl⟩
  | ok u =>
    have hadmissible : Admissible C E J r args := Registry.verifyAdmissible_eq_ok.1 hgate
    by_cases hpublisher : args.publisher = ""
    · refine .inr (.inl ⟨hadmissible, hpublisher, ?_⟩)
      show ingest P catalog args.manifest args.digest args.publisher args.nameSpace _ = _
      rw [ingest, if_pos (.inr hpublisher)]
    · refine .inr (.inr ⟨hadmissible, hpublisher, freshEntry P args.manifest args.digest
        args.publisher args.nameSpace (r.storedArtifactKind C args.digest), rfl, rfl, ?_⟩)
      exact ingest_eq_ok.2 ⟨digest_ne_empty_of_verify hadmissible.1, hpublisher, rfl⟩

/-- **Exact condition of an admission.** -/
theorem admitContract_iff {args : AdmitArgs Key} : AdmitContract C E J P r catalog args ↔
    GateContained C J r args.manifest args.digest ∧
      (Admissible C E J r args → args.publisher ≠ "") := by
  have hrefuses : Refuses (r.verifyAdmissible C E J args.manifest args.digest args.trusted
      args.require) ↔ GateContained C J r args.manifest args.digest := verifyAdmissible_refuses_iff
  rw [← hrefuses]
  unfold AdmitContract
  obtain ⟨e, hgate, hrun⟩ | ⟨hadmissible, hpublisher, hrun⟩ |
    ⟨hadmissible, hpublisher, entry, hmanifest, hdigest, hrun⟩ :=
      admitArtifact_cases (C := C) (E := E) (J := J) (P := P) (r := r) catalog args
  · rw [hrun, hgate]
    constructor
    · rintro (⟨catalog', entry, h, -⟩ | ⟨e', h, -⟩)
      · cases h
      · cases h
        refine ⟨fun e he => ⟨e', (Except.error.inj he).symm⟩, fun hadmissible => ?_⟩
        cases hgate.symm.trans (Registry.verifyAdmissible_eq_ok.2 hadmissible)
    · rintro ⟨hrefuses, -⟩
      obtain ⟨e', rfl⟩ := hrefuses e rfl
      exact .inr ⟨e', rfl, rfl⟩
  · rw [hrun]
    constructor
    · rintro (⟨catalog', entry, h, -⟩ | ⟨e', h, -⟩)
      · cases h
      · cases h
    · rintro ⟨-, hnamed⟩
      exact absurd hpublisher (hnamed hadmissible)
  · refine iff_of_true (.inl ⟨_, entry, hrun, hmanifest, hdigest, addsOnly_add catalog rfl⟩)
      ⟨fun e he => ?_, fun _ => hpublisher⟩
    rw [Registry.verifyAdmissible_eq_ok.2 hadmissible] at he
    cases he

/-- **Exact condition of a promotion.** -/
theorem promoteContract_iff (hkeyed : catalog.Keyed) (hopen : tier ≠ "open") :
    PromoteContract C E J r catalog reference tier registry trusted ↔
      tier ∈ nameSpaces ∧ ∃ entry, catalog.get reference = some entry ∧
        (registry = true → GateContained C J r entry.manifest entry.digest) := by
  unfold PromoteContract
  have hcase := promoteAudited_promotes C E J r catalog reference tier registry trusted
  generalize promoteAudited C E J r catalog reference tier registry trusted = out at hcase
  -- the gate is contained where its answer is no error, or is `SupplyChainError`
  have hcontained : ∀ entry : CatalogEntry, GateContained C J r entry.manifest entry.digest ↔
      Refuses (r.verifyAdmissible C E J entry.manifest entry.digest trusted defaultRequired) :=
    fun _ => verifyAdmissible_refuses_iff.symm
  simp only [hcontained]
  cases hcase with
  | unknownTier htier =>
    refine iff_of_false ?_ fun h => htier h.1
    rintro (⟨entry, -, h, -⟩ | ⟨-, -, record, h, -⟩) <;> cases h
  | unknownReference htier hget =>
    refine iff_of_false ?_ ?_
    · rintro (⟨entry, -, h, -⟩ | ⟨-, -, record, h, -⟩) <;> cases h
    · rintro ⟨-, entry, hentry, -⟩
      rw [hget] at hentry
      cases hentry
  | noRegistry entry htier hget _ hregistry =>
    refine iff_of_true (.inr ⟨rfl, ⟨_, rfl, trivial⟩, _, rfl, trivial, rfl⟩)
      ⟨htier, entry, hget, fun h => ?_⟩
    rw [hregistry] at h
    cases h
  | refused entry e htier hget _ _ hgate =>
    refine iff_of_true (.inr ⟨rfl, ⟨_, rfl, trivial⟩, _, rfl, trivial, rfl⟩)
      ⟨htier, entry, hget, fun _ e' he' => ?_⟩
    exact ⟨e, Except.error.inj (he'.symm.trans hgate)⟩
  | leaked entry e htier hget _ hregistry hgate hleaks =>
    refine iff_of_false ?_ ?_
    · rintro (⟨entry, -, h, -⟩ | ⟨-, -, record, h, -⟩) <;> cases h
    · rintro ⟨-, entry', hentry', hrefuses⟩
      obtain rfl := Option.some.inj (hget.symm.trans hentry')
      obtain ⟨e', he'⟩ := hrefuses hregistry e hgate
      exact hleaks e' he'
  | moved entry htier hget hgate =>
    obtain ⟨hregistry, hok⟩ := hgate hopen
    have hreference : entry.reference = reference := reference_of_get hkeyed hget
    refine iff_of_true (.inl ⟨entry, hget, rfl, hregistry, hok,
      addsOnly_add catalog (show entry.reference = reference from hreference)⟩)
      ⟨htier, entry, hget, fun _ e he => ?_⟩
    cases hok.symm.trans he

end Calls

/-! ## A digger whose config was changed -/

/-- The attested digger, with other bytes in the file of its config. -/
def tamperedStore : Registry Sample :=
  { attestedStore with blobs := attestedStore.blobs.set "config" (.text "tampered") }

/-- The digger as it is indexed. -/
def diggerCatalog : InMemoryCatalog :=
  InMemoryCatalog.empty.add (freshEntry sampleProvider diggerAdmission.manifest
    diggerAdmission.digest "local" "open" none)

end AstroMine.Hub
