import AstroMine.Hub.Resolve
import AstroMine.Hub.SupplyChain

/-!
# Admission and curation (`hub/client`, `hub/index`, `hub/supply_chain/_admit.py`, `hub/curation`)

The calls that write a catalog over a registry: publishing through the client, admission, the
actions of curators, and the rebuilding of a catalog from the registry. A step gives the registry
and the catalog behind a call, and what it has ingested. What signs a digest and what writes the
attestation documents is given with a publication, and so is the embedding of a text.

Results:
* `ingested_iff`: what a rebuilding takes in.
* `index_admitted_iff`: whatever is ever indexed was admissible then, exactly if each rebuilding and
  each admission with fewer requirements finds evidence.
* `governance_kept_iff`: a yanked reference stays yanked and a digest stays, exactly if no admission
  is of another digest of an indexed reference, or of a yanked one.
-/

namespace AstroMine.Hub

/-! ## Names -/

/-- A nonempty run of `[a-z0-9]`. -/
def isWord (cs : List Char) : Bool := cs ≠ [] && cs.all isTokenChar

/-- `v` and digits. -/
def isVersionWord : List Char → Bool
  | 'v' :: digits => digits ≠ [] && digits.all Char.isDigit
  | _ => false

/-- `is_valid_artifact_name` (`hub/registry/_names.py`, lines 80–82): words joined by hyphens, the
first of which starts with a letter, and the last of more than one is not a version. -/
def isValidArtifactName (name : String) : Bool :=
  let words := name.toList.splitOn '-'
  words.all isWord && (name.toList.head?.any fun c => decide ('a' ≤ c) && decide (c ≤ 'z')) &&
    !(decide (1 < words.length) && words.getLast?.any isVersionWord)

/-! ## The calls -/

/-- What a call raises. -/
inductive HubError
  | invalidName (name : String)
  | store (error : StoreError)
  | unsigned
  | malformedEvidence
  | admission (error : AdmitError)
  | invalidEntry
  | unreadable (digest : String)
  | unknownNamespace (nameSpace : String)
  | unknownArtifact (reference : String)
  | noRegistry (reference : String)
  deriving DecidableEq

/-- `EmbeddingProvider`: its name, and the vectors of texts. -/
structure Provider where
  name : String
  embed : String → List ℚ

/-- A registry and a catalog. -/
structure HubState (Bytes : Type) where
  registry : Registry Bytes
  catalog : InMemoryCatalog

/-- An artifact that is ingested, and the key that its signatures are held to. -/
structure Ingested (Key : Type) where
  manifest : PluginManifest
  digest : String
  trusted : Option Key
  deriving DecidableEq

/-- The reference that it is indexed under. -/
def Ingested.reference {Key : Type} (one : Ingested Key) : String :=
  one.manifest.name ++ ":" ++ one.manifest.version

/-- The arguments of `admit`. -/
structure AdmitArgs (Key : Type) where
  manifest : PluginManifest
  digest : String
  publisher : String
  nameSpace : String := "open"
  trusted : Option Key := none
  require : List String := defaultRequired

/-- The arguments of `HubClient.publish`; the attestations of a digest are those that its key, its
inputs and its components give, where they give one. -/
structure ClientPublish (Bytes Key : Type) where
  name : String
  version : String
  kind : String
  manifest : PluginManifest
  layers : List (Blob Bytes)
  nameSpace : String := "open"
  publisher : String := "local"
  trusted : Option Key
  signature : String → Option Bytes
  provenance : String → Option Bytes
  billOfMaterials : Option Bytes

/-- `InMemoryCatalog.get`. -/
def InMemoryCatalog.get (catalog : InMemoryCatalog) (reference : String) : Option CatalogEntry :=
  catalog.byRef.get? reference

/-- `NAMESPACES` (`hub/curation/__init__.py`, line 23). -/
def nameSpaces : List String := ["open", "curated", "verified"]

/-- The entry of an artifact that is ingested. -/
def freshEntry (P : Provider) (manifest : PluginManifest) (digest publisher nameSpace : String)
    (artifactKind : Option String) : CatalogEntry where
  manifest := manifest
  digest := digest
  publisher := publisher
  nameSpace := nameSpace
  artifactKind := artifactKind
  embedding := P.embed (indexDocument manifest)
  embeddingProvider := P.name

/-- `ingest` (`_ingest.py`, lines 37–70); an entry needs a digest and a publisher. -/
def ingest (P : Provider) (catalog : InMemoryCatalog) (manifest : PluginManifest)
    (digest publisher nameSpace : String) (artifactKind : Option String) :
    Except HubError InMemoryCatalog :=
  if digest = "" ∨ publisher = "" then .error .invalidEntry
  else .ok (catalog.add (freshEntry P manifest digest publisher nameSpace artifactKind))

section Calls

variable {Bytes Key Json : Type} (C : Content Bytes) (E : Evidence Bytes Key)
  (J : ManifestJson Bytes Json) (P : Provider)

/-- `yank` (lines 94–102). -/
def yank (catalog : InMemoryCatalog) (reference : String) : Except HubError InMemoryCatalog :=
  match catalog.get reference with
  | none => .error (.unknownArtifact reference)
  | some entry => .ok (catalog.add { entry with yanked := true })

/-- `deprecate` (lines 105–113). -/
def deprecateEntry (catalog : InMemoryCatalog) (reference : String) :
    Except HubError InMemoryCatalog :=
  match catalog.get reference with
  | none => .error (.unknownArtifact reference)
  | some entry => .ok (catalog.add { entry with deprecated := true })

/-- `MEDIA_SIGNATURE` (`seal/_attest.py`, line 67). -/
def mediaSignature : String := "application/vnd.astro-mine.signature.v1+json"

/-- `MEDIA_SLSA` (line 68). -/
def mediaSlsa : String := "application/vnd.in-toto+json"

/-- `MEDIA_SBOM` (line 69). -/
def mediaSbom : String := "application/vnd.cyclonedx+json"

/-- `attach_attestation` (`hub/supply_chain/_supply_chain.py`, lines 67–75) of a document, if there
is one. -/
def attachDocument (r : Registry Bytes) (subject artifactType mediaType : String)
    (document : Option Bytes) (missing : HubError) : Registry Bytes × Except HubError Unit :=
  match document with
  | none => (r, .error missing)
  | some data =>
    match r.attach C ⟨subject, artifactType, ⟨mediaType, data⟩, .empty⟩ with
    | (r, .error e) => (r, .error (.store e))
    | (r, .ok _) => (r, .ok ())

/-- `attest` (`seal/_attest.py`, lines 196–254): the signature, then the provenance, then the bill of
materials. -/
def attest (r : Registry Bytes) (subject : String) (args : ClientPublish Bytes Key) :
    Registry Bytes × Except HubError Unit :=
  match attachDocument C r subject artifactTypeSignature mediaSignature (args.signature subject)
      .unsigned with
  | (r, .error e) => (r, .error e)
  | (r, .ok ()) =>
    match attachDocument C r subject artifactTypeSlsa mediaSlsa (args.provenance subject)
        .malformedEvidence with
    | (r, .error e) => (r, .error e)
    | (r, .ok ()) =>
      attachDocument C r subject artifactTypeSbom mediaSbom args.billOfMaterials .malformedEvidence

/-- The arguments of `registry.publish` (`_client.py`, lines 136–142). -/
def ClientPublish.stored (args : ClientPublish Bytes Key) : PublishArgs Bytes where
  name := args.name
  version := args.version
  kind := args.kind
  config := J.write args.manifest
  layers := args.layers
  annotations := .empty

/-- The admission of what was published (lines 152–160). -/
def ClientPublish.admission (args : ClientPublish Bytes Key) (digest : String) : AdmitArgs Key where
  manifest := args.manifest
  digest := digest
  publisher := args.publisher
  nameSpace := args.nameSpace
  trusted := args.trusted

/-- What `catalog_from_registry` reads of a reference (lines 76–77). -/
def readReference (r : Registry Bytes) (reference : String) :
    Except HubError (PluginManifest × String) := do
  let d ← (r.resolve C reference).mapError HubError.store
  let raw ← (r.readConfig C d.digest).mapError HubError.store
  match J.validate raw with
  | some manifest => return (manifest, d.digest)
  | none => throw (.unreadable d.digest)

/-- The loop of `catalog_from_registry` (lines 75–78), with what it has ingested. -/
def rebuildLoop (r : Registry Bytes) (publisher : String) (catalog : InMemoryCatalog) :
    List String → InMemoryCatalog × List (PluginManifest × String) × Except HubError Unit
  | [] => (catalog, [], .ok ())
  | reference :: rest =>
    match (do
        let (manifest, digest) ← readReference C J r reference
        let catalog ← ingest P catalog manifest digest publisher "open" none
        return ((manifest, digest), catalog) : Except HubError _) with
    | .error e => (catalog, [], .error e)
    | .ok (one, catalog) =>
      let (catalog, ingested, result) := rebuildLoop r publisher catalog rest
      (catalog, one :: ingested, result)

/-- `catalog_from_registry` (lines 70–79), onto the catalog or for a new one. -/
def catalogFromRegistry (s : HubState Bytes) (onto : Bool) (publisher : String) :
    InMemoryCatalog × List (PluginManifest × String) :=
  if onto then
    let (catalog, ingested, _) := rebuildLoop C J P s.registry publisher s.catalog
      s.registry.references
    (catalog, ingested)
  else
    match rebuildLoop C J P s.registry publisher .empty s.registry.references with
    | (catalog, ingested, .ok ()) => (catalog, ingested)
    | (_, _, .error _) => (s.catalog, [])

variable [DecidableEq Json]

/-- `admit` (`_admit.py`, lines 135–169). -/
def admitArtifact (r : Registry Bytes) (catalog : InMemoryCatalog) (args : AdmitArgs Key) :
    Except HubError InMemoryCatalog := do
  (r.verifyAdmissible C E J args.manifest args.digest args.trusted args.require).mapError
    HubError.admission
  ingest P catalog args.manifest args.digest args.publisher args.nameSpace
    (r.storedArtifactKind C args.digest)

/-- `promote` (`curation/__init__.py`, lines 42–91); `registry` says whether one is given. -/
def promote (r : Registry Bytes) (catalog : InMemoryCatalog) (reference tier : String)
    (registry : Bool) (trusted : Option Key) : Except HubError InMemoryCatalog :=
  if tier ∉ nameSpaces then .error (.unknownNamespace tier)
  else
    match catalog.get reference with
    | none => .error (.unknownArtifact reference)
    | some entry => do
      runIf (tier ≠ "open") (do
        refuseIf (registry = false) (.noRegistry reference)
        (r.verifyAdmissible C E J entry.manifest entry.digest trusted defaultRequired).mapError
          HubError.admission)
      return catalog.add { entry with nameSpace := tier }

/-- `HubClient.publish` (lines 100–161). -/
def clientPublish (s : HubState Bytes) (args : ClientPublish Bytes Key) :
    HubState Bytes × Except HubError PublishedArtifact :=
  if isValidArtifactName args.name = false then (s, .error (.invalidName args.name))
  else
    match s.registry.publish C (args.stored J) with
    | (r, .error e) => (⟨r, s.catalog⟩, .error (.store e))
    | (r, .ok artifact) =>
      match attest C r artifact.digest args with
      | (r, .error e) => (⟨r, s.catalog⟩, .error e)
      | (r, .ok ()) =>
        match admitArtifact C E J P r s.catalog (args.admission artifact.digest) with
        | .error e => (⟨r, s.catalog⟩, .error e)
        | .ok catalog => (⟨r, catalog⟩, .ok artifact)

/-! ## Runs -/

/-- A call. -/
inductive HubOp (Bytes Key : Type)
  | registry (op : Registry.Op Bytes)
  | publish (args : ClientPublish Bytes Key)
  | admission (args : AdmitArgs Key)
  | promote (reference tier : String) (registry : Bool) (trusted : Option Key)
  | yank (reference : String)
  | deprecateEntry (reference : String)
  | rebuild (onto : Bool) (publisher : String)

/-- The catalog behind a call that returns one or raises. -/
def behind (catalog : InMemoryCatalog) (result : Except HubError InMemoryCatalog) :
    InMemoryCatalog := result.toOption.getD catalog

/-- What a publication ingests. -/
def publishIngests (args : ClientPublish Bytes Key) :
    Except HubError PublishedArtifact → List (Ingested Key)
  | .error _ => []
  | .ok artifact => [⟨args.manifest, artifact.digest, args.trusted⟩]

/-- What an admission ingests. -/
def admitIngests (args : AdmitArgs Key) : Except HubError InMemoryCatalog → List (Ingested Key)
  | .error _ => []
  | .ok _ => [⟨args.manifest, args.digest, args.trusted⟩]

/-- A call: the hub behind it, and what it has ingested. -/
def hubStep (s : HubState Bytes) : HubOp Bytes Key → HubState Bytes × List (Ingested Key)
  | .registry op => (⟨s.registry.step C op, s.catalog⟩, [])
  | .publish args =>
    ((clientPublish C E J P s args).1, publishIngests args (clientPublish C E J P s args).2)
  | .admission args =>
    (⟨s.registry, behind s.catalog (admitArtifact C E J P s.registry s.catalog args)⟩,
      admitIngests args (admitArtifact C E J P s.registry s.catalog args))
  | .promote reference tier registry trusted =>
    (⟨s.registry, behind s.catalog
      (promote C E J s.registry s.catalog reference tier registry trusted)⟩, [])
  | .yank reference => (⟨s.registry, behind s.catalog (yank s.catalog reference)⟩, [])
  | .deprecateEntry reference =>
    (⟨s.registry, behind s.catalog (deprecateEntry s.catalog reference)⟩, [])
  | .rebuild onto publisher =>
    (⟨s.registry, (catalogFromRegistry C J P s onto publisher).1⟩,
      (catalogFromRegistry C J P s onto publisher).2.map fun one => ⟨one.1, one.2, none⟩)

/-- The hub behind some calls. -/
def hubRun (s : HubState Bytes) (ops : List (HubOp Bytes Key)) : HubState Bytes :=
  ops.foldl (fun s op => (hubStep C E J P s op).1) s

/-! ## What a call does to the catalog -/

/-- What a call other than a rebuilding does to the catalog, with what it ingests: nothing, it adds
an entry that is new, or it writes an entry again whose manifest and digest are those it had. -/
inductive Effect (catalog : InMemoryCatalog) : InMemoryCatalog → List (Ingested Key) → Prop
  | same : Effect catalog catalog []
  | ingested (one : Ingested Key) (entry : CatalogEntry) : entry.manifest = one.manifest →
    entry.digest = one.digest → entry.yanked = false → Effect catalog (catalog.add entry) [one]
  | updated (reference : String) (entry entry' : CatalogEntry) :
    catalog.get reference = some entry → entry'.manifest = entry.manifest →
    entry'.digest = entry.digest → (entry.yanked = true → entry'.yanked = true) →
    Effect catalog (catalog.add entry') []

variable {C E J P} {s : HubState Bytes}

theorem ingest_eq_ok {catalog catalog' : InMemoryCatalog} {manifest : PluginManifest}
    {digest publisher nameSpace : String} {artifactKind : Option String} :
    ingest P catalog manifest digest publisher nameSpace artifactKind = .ok catalog' ↔
      digest ≠ "" ∧ publisher ≠ "" ∧
        catalog' = catalog.add (freshEntry P manifest digest publisher nameSpace artifactKind) := by
  rw [ingest]
  by_cases hempty : digest = "" ∨ publisher = ""
  · rw [if_pos hempty]
    constructor
    · intro h
      cases h
    · rintro ⟨hdigest, hpublisher, -⟩
      exact absurd hempty (not_or.mpr ⟨hdigest, hpublisher⟩)
  · rw [if_neg hempty]
    obtain ⟨hdigest, hpublisher⟩ := not_or.mp hempty
    constructor
    · intro h
      exact ⟨hdigest, hpublisher, (Except.ok.inj h).symm⟩
    · rintro ⟨-, -, rfl⟩
      rfl

/-- An admission ingests what has passed the gate. -/
theorem admitArtifact_eq_ok {r : Registry Bytes} {catalog catalog' : InMemoryCatalog}
    {args : AdmitArgs Key} (h : admitArtifact C E J P r catalog args = .ok catalog') :
    r.verifyAdmissible C E J args.manifest args.digest args.trusted args.require = .ok () ∧
      args.publisher ≠ "" ∧
      Effect catalog catalog' [(⟨args.manifest, args.digest, args.trusted⟩ : Ingested Key)] := by
  rw [admitArtifact, seq_eq_ok, mapError_eq_ok, ingest_eq_ok] at h
  obtain ⟨hgate, -, hpublisher, rfl⟩ := h
  exact ⟨hgate, hpublisher, .ingested _ _ rfl rfl rfl⟩

/-- What is published through the client has passed the gate, on the registry it leaves. -/
theorem clientPublish_eq_ok {args : ClientPublish Bytes Key} {s' : HubState Bytes}
    {artifact : PublishedArtifact} (h : clientPublish C E J P s args = (s', .ok artifact)) :
    s'.registry.verifyAdmissible C E J args.manifest artifact.digest args.trusted defaultRequired =
        .ok () ∧
      Effect s.catalog s'.catalog
        [(⟨args.manifest, artifact.digest, args.trusted⟩ : Ingested Key)] := by
  rw [clientPublish] at h
  split_ifs at h with hname
  · cases (Prod.mk.inj h).2
  · split at h
    · cases (Prod.mk.inj h).2
    · split at h
      · cases (Prod.mk.inj h).2
      · split at h
        · cases (Prod.mk.inj h).2
        · rename_i catalog hadmission
          obtain ⟨rfl, hartifact⟩ := Prod.mk.inj h
          obtain rfl := Except.ok.inj hartifact
          obtain ⟨hgate, -, heffect⟩ := admitArtifact_eq_ok hadmission
          exact ⟨hgate, heffect⟩

/-- A publication that fails leaves the catalog. -/
theorem clientPublish_error {args : ClientPublish Bytes Key} {s' : HubState Bytes} {e : HubError}
    (h : clientPublish C E J P s args = (s', .error e)) : s'.catalog = s.catalog := by
  rw [clientPublish] at h
  split_ifs at h with hname
  · rw [← (Prod.mk.inj h).1]
  · split at h
    · rw [← (Prod.mk.inj h).1]
    · split at h
      · rw [← (Prod.mk.inj h).1]
      · split at h
        · rw [← (Prod.mk.inj h).1]
        · cases (Prod.mk.inj h).2

theorem effect_behind {catalog : InMemoryCatalog} {result : Except HubError InMemoryCatalog}
    (h : ∀ catalog', result = .ok catalog' → Effect catalog catalog' ([] : List (Ingested Key))) :
    Effect catalog (behind catalog result) ([] : List (Ingested Key)) := by
  cases result with
  | error e => exact .same
  | ok catalog' => exact h catalog' rfl

theorem effect_promote {r : Registry Bytes} {catalog catalog' : InMemoryCatalog}
    {reference tier : String} {registry : Bool} {trusted : Option Key}
    (h : promote C E J r catalog reference tier registry trusted = .ok catalog') :
    Effect catalog catalog' ([] : List (Ingested Key)) := by
  rw [promote] at h
  split_ifs at h
  split at h
  · cases h
  · rename_i entry hget
    rw [seq_eq_ok] at h
    rw [← Except.ok.inj h.2]
    exact .updated reference entry _ hget rfl rfl fun hyanked => hyanked

theorem effect_yank {catalog catalog' : InMemoryCatalog} {reference : String}
    (h : yank catalog reference = .ok catalog') :
    Effect catalog catalog' ([] : List (Ingested Key)) := by
  rw [yank] at h
  split at h
  · cases h
  · rename_i entry hget
    rw [← Except.ok.inj h]
    exact .updated reference entry _ hget rfl rfl fun _ => rfl

theorem effect_deprecateEntry {catalog catalog' : InMemoryCatalog} {reference : String}
    (h : deprecateEntry catalog reference = .ok catalog') :
    Effect catalog catalog' ([] : List (Ingested Key)) := by
  rw [deprecateEntry] at h
  split at h
  · cases h
  · rename_i entry hget
    rw [← Except.ok.inj h]
    exact .updated reference entry _ hget rfl rfl fun hyanked => hyanked

/-- A call that rebuilds the catalog. -/
def HubOp.IsRebuild : HubOp Bytes Key → Prop
  | .rebuild _ _ => True
  | _ => False

/-- **Step.** What a call other than a rebuilding does to the catalog. -/
theorem effect_hubStep (s : HubState Bytes) {op : HubOp Bytes Key} (h : ¬ op.IsRebuild) :
    Effect s.catalog (hubStep C E J P s op).1.catalog (hubStep C E J P s op).2 := by
  cases op with
  | registry op =>
    simp only [hubStep]
    exact .same
  | publish args =>
    simp only [hubStep]
    cases hpublish : clientPublish C E J P s args with
    | mk s' result =>
      cases result with
      | error e =>
        rw [clientPublish_error hpublish]
        exact .same
      | ok artifact => exact (clientPublish_eq_ok hpublish).2
  | admission args =>
    simp only [hubStep]
    cases hadmission : admitArtifact C E J P s.registry s.catalog args with
    | error e => exact .same
    | ok catalog => exact (admitArtifact_eq_ok hadmission).2.2
  | promote reference tier registry trusted => exact effect_behind fun _ => effect_promote
  | yank reference => exact effect_behind fun _ => effect_yank
  | deprecateEntry reference => exact effect_behind fun _ => effect_deprecateEntry
  | rebuild onto publisher => exact absurd trivial h

/-! ## What is in the catalog -/

theorem mem_all_add {catalog : InMemoryCatalog} {entry e : CatalogEntry}
    (h : e ∈ (catalog.add entry).all) : e = entry ∨ e ∈ catalog.all := by
  obtain ⟨p, hp, rfl⟩ := List.mem_map.mp h
  rcases mem_updateEntries hp with hp | ⟨o, rfl⟩
  · exact .inr (List.mem_map_of_mem hp)
  · exact .inl rfl

theorem mem_all_of_get {catalog : InMemoryCatalog} {reference : String} {e : CatalogEntry}
    (h : catalog.get reference = some e) : e ∈ catalog.all :=
  List.mem_map.mpr ⟨(reference, e), mem_of_lookup_eq_some h, rfl⟩

/-- The entry is of an artifact that was ingested. -/
def IsOf (one : Ingested Key) (e : CatalogEntry) : Prop :=
  one.manifest = e.manifest ∧ one.digest = e.digest

/-- Every entry behind the call is of an artifact in the catalog before it, or of one it ingested. -/
def Accounted (before after : InMemoryCatalog) (ingested : List (Ingested Key)) : Prop :=
  ∀ e ∈ after.all, (∃ e₀ ∈ before.all, e₀.manifest = e.manifest ∧ e₀.digest = e.digest) ∨
    ∃ one ∈ ingested, IsOf one e

theorem Accounted.refl (catalog : InMemoryCatalog) (ingested : List (Ingested Key)) :
    Accounted catalog catalog ingested := fun e he => .inl ⟨e, he, rfl, rfl⟩

theorem accounted_of_effect {catalog catalog' : InMemoryCatalog} {ingested : List (Ingested Key)}
    (h : Effect catalog catalog' ingested) : Accounted catalog catalog' ingested := by
  cases h with
  | same => exact .refl _ _
  | ingested one entry hmanifest hdigest _ =>
    intro e he
    rcases mem_all_add he with rfl | he
    · exact .inr ⟨one, List.mem_cons_self, hmanifest.symm, hdigest.symm⟩
    · exact .inl ⟨e, he, rfl, rfl⟩
  | updated reference entry entry' hget hmanifest hdigest _ =>
    intro e he
    rcases mem_all_add he with rfl | he
    · exact .inl ⟨entry, mem_all_of_get hget, hmanifest.symm, hdigest.symm⟩
    · exact .inl ⟨e, he, rfl, rfl⟩

/-! ## Rebuilding -/

/-- The reference is read. -/
def Readable (C : Content Bytes) (J : ManifestJson Bytes Json) (r : Registry Bytes)
    (reference : String) : Prop :=
  ∃ one, readReference C J r reference = .ok one

omit [DecidableEq Json] in
theorem digest_ne_empty {r : Registry Bytes} {reference : String} {one : PluginManifest × String}
    (h : readReference C J r reference = .ok one) : one.2 ≠ "" := by
  rw [readReference] at h
  simp only [bind_eq_ok, mapError_eq_ok] at h
  obtain ⟨d, -, raw, hraw, h⟩ := h
  split at h
  · obtain rfl := Except.ok.inj h
    rintro hempty
    have hconfig : r.readConfig C "" = .error (.unsupportedAlgorithm "") := rfl
    change d.digest = "" at hempty
    rw [hempty, hconfig] at hraw
    cases hraw
  · cases h

omit [DecidableEq Json] in
/-- One pass of the loop. -/
theorem rebuildLoop_cons (r : Registry Bytes) (publisher reference : String) (rest : List String)
    (catalog : InMemoryCatalog) :
    (publisher = "" ∨ ¬ Readable C J r reference) ∧
        (∃ e, rebuildLoop C J P r publisher catalog (reference :: rest) =
          (catalog, [], .error e)) ∨
      publisher ≠ "" ∧ ∃ one entry, readReference C J r reference = .ok one ∧
        entry.manifest = one.1 ∧ entry.digest = one.2 ∧
        rebuildLoop C J P r publisher catalog (reference :: rest) =
          ((rebuildLoop C J P r publisher (catalog.add entry) rest).1,
            one :: (rebuildLoop C J P r publisher (catalog.add entry) rest).2.1,
            (rebuildLoop C J P r publisher (catalog.add entry) rest).2.2) := by
  rw [rebuildLoop]
  cases hread : readReference C J r reference with
  | error e =>
    refine .inl ⟨.inr ?_, e, rfl⟩
    rintro ⟨one, hone⟩
    rw [hread] at hone
    cases hone
  | ok one =>
    obtain ⟨manifest, digest⟩ := one
    have hdigest : digest ≠ "" := digest_ne_empty hread
    by_cases hpublisher : publisher = ""
    · refine .inl ⟨.inl hpublisher, .invalidEntry, ?_⟩
      simp only [bind, Except.bind, ingest, if_pos (.inr hpublisher : digest = "" ∨ publisher = "")]
    · refine .inr ⟨hpublisher, (manifest, digest),
        freshEntry P manifest digest publisher "open" none, rfl, rfl, rfl, ?_⟩
      simp only [bind, Except.bind, ingest, if_neg (not_or.mpr ⟨hdigest, hpublisher⟩), pure,
        Except.pure]

/-- One of the references is this artifact, and those before it are read. -/
def Reached (C : Content Bytes) (J : ManifestJson Bytes Json) (r : Registry Bytes)
    (references : List String) (one : PluginManifest × String) : Prop :=
  ∃ before reference after, references = before ++ reference :: after ∧
    (∀ x ∈ before, Readable C J r x) ∧ readReference C J r reference = .ok one

omit [DecidableEq Json] in
theorem reached_cons {r : Registry Bytes} {reference : String} {rest : List String}
    {one : PluginManifest × String} : Reached C J r (reference :: rest) one ↔
      readReference C J r reference = .ok one ∨
        Readable C J r reference ∧ Reached C J r rest one := by
  constructor
  · rintro ⟨before, x, after, heq, hbefore, hread⟩
    cases before with
    | nil =>
      obtain ⟨rfl, -⟩ := List.cons.inj heq
      exact .inl hread
    | cons y before =>
      obtain ⟨rfl, rfl⟩ := List.cons.inj heq
      rw [List.forall_mem_cons] at hbefore
      exact .inr ⟨hbefore.1, before, x, after, rfl, hbefore.2, hread⟩
  · rintro (hread | ⟨hhead, before, x, after, rfl, hbefore, hread⟩)
    · exact ⟨[], reference, rest, rfl, fun x hx => (by cases hx), hread⟩
    · exact ⟨reference :: before, x, after, rfl, List.forall_mem_cons.mpr ⟨hhead, hbefore⟩, hread⟩

omit [DecidableEq Json] in
/-- The loop ingests what it reaches, and goes through if it reads all references. -/
theorem rebuildLoop_spec {r : Registry Bytes} {publisher : String} (references : List String)
    (catalog : InMemoryCatalog) :
    (∀ one, one ∈ (rebuildLoop C J P r publisher catalog references).2.1 ↔
      publisher ≠ "" ∧ Reached C J r references one) ∧
    ((rebuildLoop C J P r publisher catalog references).2.2 = .ok () ↔
      references = [] ∨ publisher ≠ "" ∧ ∀ x ∈ references, Readable C J r x) := by
  induction references generalizing catalog with
  | nil =>
    refine ⟨fun one => ⟨fun h => (by cases h), ?_⟩, ⟨fun _ => .inl rfl, fun _ => rfl⟩⟩
    rintro ⟨-, before, _, _, heq, -⟩
    cases before with
    | nil => cases heq
    | cons _ _ => cases heq
  | cons reference rest ih =>
    rcases rebuildLoop_cons (C := C) (J := J) (P := P) r publisher reference rest catalog with
      ⟨hstop, e, heq⟩ | ⟨hpublisher, first, entry, hread, -, -, heq⟩
    · rw [heq]
      refine ⟨fun one => ⟨fun h => (by cases h), ?_⟩, ⟨fun h => (by cases h), ?_⟩⟩
      · rintro ⟨hpublisher, hreached⟩
        have hhead : ¬ Readable C J r reference := hstop.resolve_left hpublisher
        rcases reached_cons.1 hreached with hread | ⟨hread, -⟩
        · exact absurd ⟨one, hread⟩ hhead
        · exact absurd hread hhead
      · rintro (h | ⟨hpublisher, hall⟩)
        · cases h
        · exact absurd (hall reference List.mem_cons_self) (hstop.resolve_left hpublisher)
    · obtain ⟨hlog, hresult⟩ := ih (catalog.add entry)
      have hhead : Readable C J r reference := ⟨first, hread⟩
      rw [heq]
      refine ⟨fun one => ?_, ?_⟩
      · rw [List.mem_cons, hlog, reached_cons, hread, Except.ok.injEq, eq_comm]
        constructor
        · rintro (rfl | ⟨hp, hreached⟩)
          · exact ⟨hpublisher, .inl rfl⟩
          · exact ⟨hp, .inr ⟨hhead, hreached⟩⟩
        · rintro ⟨hp, rfl | ⟨-, hreached⟩⟩
          · exact .inl rfl
          · exact .inr ⟨hp, hreached⟩
      · rw [hresult, List.forall_mem_cons]
        constructor
        · rintro (rfl | ⟨hp, hall⟩)
          · exact .inr ⟨hpublisher, hhead, fun x hx => (by cases hx)⟩
          · exact .inr ⟨hp, hhead, hall⟩
        · rintro (h | ⟨hp, -, hall⟩)
          · cases h
          · exact .inr ⟨hp, hall⟩

omit [DecidableEq Json] in
theorem accounted_rebuildLoop {r : Registry Bytes} {publisher : String} (references : List String)
    (catalog : InMemoryCatalog) :
    Accounted catalog (rebuildLoop C J P r publisher catalog references).1
      ((rebuildLoop C J P r publisher catalog references).2.1.map fun one =>
        (⟨one.1, one.2, none⟩ : Ingested Key)) := by
  induction references generalizing catalog with
  | nil => exact .refl _ _
  | cons reference rest ih =>
    rcases rebuildLoop_cons (C := C) (J := J) (P := P) r publisher reference rest catalog with
      ⟨-, e, heq⟩ | ⟨-, first, entry, -, hmanifest, hdigest, heq⟩
    · rw [heq]
      exact .refl _ _
    · rw [heq]
      intro e he
      rcases ih (catalog.add entry) e he with ⟨e₀, he₀, hsame⟩ | ⟨one, hone, hise⟩
      · rcases mem_all_add he₀ with rfl | he₀
        · exact .inr ⟨_, List.mem_cons_self, hmanifest.symm.trans hsame.1,
            hdigest.symm.trans hsame.2⟩
        · exact .inl ⟨e₀, he₀, hsame⟩
      · exact .inr ⟨one, List.mem_cons_of_mem _ hone, hise⟩

/-- The references that must be read for a reference to be ingested: those before it, or all of
them where the catalog is new. -/
def Taken (C : Content Bytes) (J : ManifestJson Bytes Json) (r : Registry Bytes) (onto : Bool)
    (one : PluginManifest × String) : Prop :=
  Reached C J r r.references one ∧
    (onto = false → ∀ reference ∈ r.references, Readable C J r reference)

omit [DecidableEq Json] in
/-- What a rebuilding takes in. -/
theorem ingested_iff {onto : Bool} {publisher : String} {one : PluginManifest × String} :
    one ∈ (catalogFromRegistry C J P s onto publisher).2 ↔
      publisher ≠ "" ∧ Taken C J s.registry onto one := by
  rw [catalogFromRegistry]
  cases onto with
  | true =>
    refine ((rebuildLoop_spec s.registry.references s.catalog).1 one).trans ?_
    exact ⟨fun h => ⟨h.1, h.2, fun h => (by cases h)⟩, fun h => ⟨h.1, h.2.1⟩⟩
  | false =>
    obtain ⟨hlog, hresult⟩ := rebuildLoop_spec (C := C) (J := J) (P := P) (r := s.registry)
      s.registry.references .empty
    cases hloop : rebuildLoop C J P s.registry publisher .empty s.registry.references with
    | mk catalog rest =>
      obtain ⟨ingested, result⟩ := rest
      rw [hloop] at hlog hresult
      cases result with
      | ok _ =>
        simp only [if_neg Bool.false_ne_true]
        rw [hlog]
        refine and_congr_right fun hpublisher => (and_iff_left_of_imp fun _ _ => ?_).symm
        rcases hresult.mp rfl with hnil | ⟨-, hall⟩
        · rw [hnil]
          exact fun x hx => (by cases hx)
        · exact hall
      | error e =>
        simp only [if_neg Bool.false_ne_true]
        refine ⟨fun h => (by cases h), ?_⟩
        rintro ⟨hpublisher, -, hall⟩
        cases hresult.mpr (.inr ⟨hpublisher, hall rfl⟩)

omit [DecidableEq Json] in
theorem accounted_catalogFromRegistry {onto : Bool} {publisher : String} :
    Accounted s.catalog (catalogFromRegistry C J P s onto publisher).1
      ((catalogFromRegistry C J P s onto publisher).2.map fun one =>
        (⟨one.1, one.2, none⟩ : Ingested Key)) := by
  rw [catalogFromRegistry]
  cases onto with
  | true => exact accounted_rebuildLoop s.registry.references s.catalog
  | false =>
    have hnew : Accounted .empty (rebuildLoop C J P s.registry publisher .empty
        s.registry.references).1 ((rebuildLoop C J P s.registry publisher .empty
          s.registry.references).2.1.map fun one => (⟨one.1, one.2, none⟩ : Ingested Key)) :=
      accounted_rebuildLoop s.registry.references .empty
    cases hloop : rebuildLoop C J P s.registry publisher .empty s.registry.references with
    | mk catalog rest =>
      obtain ⟨ingested, result⟩ := rest
      rw [hloop] at hnew
      simp only [if_neg Bool.false_ne_true]
      cases result with
      | error e => exact .refl _ _
      | ok _ =>
        intro e he
        rcases hnew e he with ⟨e₀, he₀, -⟩ | hone
        · cases he₀
        · exact .inr hone

/-- **Step.** Every entry behind a call is of an artifact that was in the catalog, or ingested. -/
theorem accounted_hubStep (s : HubState Bytes) (op : HubOp Bytes Key) :
    Accounted s.catalog (hubStep C E J P s op).1.catalog (hubStep C E J P s op).2 := by
  by_cases hrebuild : op.IsRebuild
  · cases op with
    | rebuild onto publisher => exact accounted_catalogFromRegistry
    | _ => exact absurd hrebuild id
  · exact accounted_of_effect (effect_hubStep s hrebuild)

/-! ## Nothing unadmitted is indexed -/

/-- Whatever one of the calls ingests passes the gate with the default requirements, on the registry
behind the call, and every entry of the catalog was ingested by one of them. -/
def IndexAdmitted (C : Content Bytes) (E : Evidence Bytes Key) (J : ManifestJson Bytes Json)
    (P : Provider) (r : Registry Bytes) (ops : List (HubOp Bytes Key)) : Prop :=
  (∀ before op after, ops = before ++ op :: after →
    ∀ one ∈ (hubStep C E J P (hubRun C E J P ⟨r, .empty⟩ before) op).2,
      (hubStep C E J P (hubRun C E J P ⟨r, .empty⟩ before) op).1.registry.verifyAdmissible C E J
        one.manifest one.digest one.trusted defaultRequired = .ok ()) ∧
  ∀ e ∈ (hubRun C E J P ⟨r, .empty⟩ ops).catalog.all, ∃ before op after,
    ops = before ++ op :: after ∧
      ∃ one ∈ (hubStep C E J P (hubRun C E J P ⟨r, .empty⟩ before) op).2, IsOf one e

/-- What a call goes round the gate with has passed it all the same: what a rebuilding takes in is
verified, stored as it is indexed, and evidenced, and what is admitted with other requirements is
evidenced. -/
def GoesThrough (C : Content Bytes) (E : Evidence Bytes Key) (J : ManifestJson Bytes Json)
    (r : Registry Bytes) : HubOp Bytes Key → Prop
  | .admission args =>
    r.verifyAdmissible C E J args.manifest args.digest args.trusted args.require = .ok () →
      args.publisher ≠ "" → r.Evidenced C E args.digest args.trusted
  | .rebuild onto publisher => publisher ≠ "" → ∀ manifest digest,
    Taken C J r onto (manifest, digest) → r.verify C digest = .ok () ∧
      r.StoredAs C J manifest digest ∧ r.Evidenced C E digest none
  | _ => True

theorem ingested_admission_iff {args : AdmitArgs Key} {one : Ingested Key} :
    one ∈ (hubStep C E J P s (.admission args)).2 ↔
      one = ⟨args.manifest, args.digest, args.trusted⟩ ∧
        s.registry.verifyAdmissible C E J args.manifest args.digest args.trusted args.require =
          .ok () ∧ args.publisher ≠ "" := by
  simp only [hubStep]
  cases hadmission : admitArtifact C E J P s.registry s.catalog args with
  | error e =>
    refine ⟨fun h => (by cases h), ?_⟩
    rintro ⟨-, hgate, hpublisher⟩
    have hdigest : args.digest ≠ "" := by
      intro hempty
      have hverify := (Registry.verifyAdmissible_eq_ok.1 hgate).1
      have hnone : s.registry.verify C "" = .error (.unsupportedAlgorithm "") := rfl
      rw [hempty, hnone] at hverify
      cases hverify
    obtain ⟨catalog, hok⟩ : ∃ catalog,
        admitArtifact C E J P s.registry s.catalog args = .ok catalog := by
      simp only [admitArtifact, seq_eq_ok, mapError_eq_ok, ingest_eq_ok]
      exact ⟨_, hgate, hdigest, hpublisher, rfl⟩
    rw [hadmission] at hok
    cases hok
  | ok catalog =>
    obtain ⟨hgate, hpublisher, -⟩ := admitArtifact_eq_ok hadmission
    rw [admitIngests, List.mem_singleton]
    exact (and_iff_left ⟨hgate, hpublisher⟩).symm

/-- **Exact condition for one call.** What it ingests has passed the gate exactly if it goes through
it, in effect. -/
theorem ingested_admitted_iff (op : HubOp Bytes Key) :
    (∀ one ∈ (hubStep C E J P s op).2, (hubStep C E J P s op).1.registry.verifyAdmissible C E J
      one.manifest one.digest one.trusted defaultRequired = .ok ()) ↔
        GoesThrough C E J s.registry op := by
  cases op with
  | registry op =>
    simp only [hubStep]
    exact ⟨fun _ => trivial, fun _ one hone => (by cases hone)⟩
  | publish args =>
    refine ⟨fun _ => trivial, fun _ one hone => ?_⟩
    simp only [hubStep] at hone ⊢
    cases hpublish : clientPublish C E J P s args with
    | mk s' result =>
      rw [hpublish] at hone
      cases result with
      | error e => cases hone
      | ok artifact =>
        rw [publishIngests, List.mem_singleton] at hone
        rw [hone]
        exact (clientPublish_eq_ok hpublish).1
  | admission args =>
    have hregistry : (hubStep C E J P s (.admission args)).1.registry = s.registry := rfl
    rw [hregistry]
    simp only [ingested_admission_iff, Registry.verifyAdmissible_default]
    constructor
    · intro h hgate hpublisher
      exact (h _ ⟨rfl, hgate, hpublisher⟩).2.2
    · rintro h _ ⟨rfl, hgate, hpublisher⟩
      obtain ⟨hverify, hstored, -, -⟩ := Registry.verifyAdmissible_eq_ok.1 hgate
      exact ⟨hverify, hstored, h hgate hpublisher⟩
  | promote => exact ⟨fun _ => trivial, fun _ one hone => (by cases hone)⟩
  | yank => exact ⟨fun _ => trivial, fun _ one hone => (by cases hone)⟩
  | deprecateEntry => exact ⟨fun _ => trivial, fun _ one hone => (by cases hone)⟩
  | rebuild onto publisher =>
    have hregistry : (hubStep C E J P s (.rebuild onto publisher)).1.registry = s.registry := rfl
    rw [hregistry]
    simp only [hubStep, List.forall_mem_map, ingested_iff, Registry.verifyAdmissible_default,
      GoesThrough]
    constructor
    · intro h hpublisher manifest digest htaken
      exact h (manifest, digest) ⟨hpublisher, htaken⟩
    · rintro h ⟨manifest, digest⟩ ⟨hpublisher, htaken⟩
      exact h hpublisher manifest digest htaken

/-- **Run.** Every entry behind some calls is of an artifact that was in the catalog, or that one of
them ingested. -/
theorem accounted_hubRun (s : HubState Bytes) (ops : List (HubOp Bytes Key)) {e : CatalogEntry}
    (he : e ∈ (hubRun C E J P s ops).catalog.all) :
    (∃ e₀ ∈ s.catalog.all, e₀.manifest = e.manifest ∧ e₀.digest = e.digest) ∨
      ∃ before op after, ops = before ++ op :: after ∧
        ∃ one ∈ (hubStep C E J P (hubRun C E J P s before) op).2, IsOf one e := by
  induction ops generalizing s with
  | nil => exact .inl ⟨e, he, rfl, rfl⟩
  | cons op ops ih =>
    rcases ih (hubStep C E J P s op).1 he with ⟨e₀, he₀, hsame⟩ | ⟨before, op', after, rfl, hone⟩
    · rcases accounted_hubStep s op e₀ he₀ with ⟨e₁, he₁, hsame₁⟩ | ⟨one, hone, hof⟩
      · exact .inl ⟨e₁, he₁, hsame₁.1.trans hsame.1, hsame₁.2.trans hsame.2⟩
      · exact .inr ⟨[], op, ops, rfl, one, hone, hof.1.trans hsame.1, hof.2.trans hsame.2⟩
    · exact .inr ⟨op :: before, op', after, rfl, hone⟩

/-- **Main theorem.** Over every sequence of calls, whatever is indexed was admissible on the registry
when it was, exactly if each rebuilding takes in what is verified, stored as indexed and evidenced,
and what is admitted with other requirements is evidenced. -/
theorem index_admitted_iff (C : Content Bytes) (E : Evidence Bytes Key)
    (J : ManifestJson Bytes Json) (P : Provider) (r : Registry Bytes)
    (ops : List (HubOp Bytes Key)) : IndexAdmitted C E J P r ops ↔
      ∀ before op after, ops = before ++ op :: after →
        GoesThrough C E J (hubRun C E J P ⟨r, .empty⟩ before).registry op := by
  constructor
  · rintro ⟨h, -⟩ before op after heq
    exact (ingested_admitted_iff op).mp (h before op after heq)
  · intro h
    refine ⟨fun before op after heq => (ingested_admitted_iff op).mpr (h before op after heq), ?_⟩
    intro e he
    rcases accounted_hubRun _ ops he with ⟨e₀, he₀, -⟩ | hone
    · cases he₀
    · exact hone

end Calls

/-- Evidence that is told by its text. -/
def sampleEvidence : Evidence Sample Unit where
  signatureOk _ _ payload := payload = .text "signature"
  slsaOk payload := payload = .text "provenance"
  sbomOk payload := payload = .text "bill"

/-- Assets of version 1.0, written as their names. -/
def sampleJson : ManifestJson Sample Sample where
  load := some
  isObject _ := true
  dump manifest := .text manifest.name
  write manifest := .text manifest.name
  validate
    | .text name => some { name := name, version := "1.0", kind := .asset }
    | .manifest _ => none

/-- No embedding. -/
def sampleProvider : Provider := ⟨"none", fun _ => []⟩

/-- A digger that nobody signed. -/
def diggerArgs : PublishArgs Sample :=
  { Registry.roverArgs with name := "digger", config := .text "digger", layers := [] }

/-- Hashes for it. -/
def diggerLabels : List (Sample × String) :=
  [(.text "digger", "config"), (.manifest (diggerArgs.manifest
    (sampleContent [(.text "digger", "config")]) "application/vnd.astro-mine.asset.v1"), "digger")]

/-- **Counterexample.** An artifact without attestations is published, and a catalog is rebuilt. -/
theorem digger_not_admitted : ¬ IndexAdmitted (sampleContent diggerLabels) sampleEvidence sampleJson
    sampleProvider .empty [.registry (.publish diggerArgs), .rebuild false "local"] := by
  rintro ⟨h, -⟩
  have hgate := h [.registry (.publish diggerArgs)] (.rebuild false "local") [] rfl
    ⟨{ name := "digger", version := "1.0", kind := .asset }, "sha256:digger", none⟩
    (by decide +kernel)
  revert hgate
  decide +kernel

section Governance

variable {Bytes Key Json : Type} [DecidableEq Json] {C : Content Bytes} {E : Evidence Bytes Key}
  {J : ManifestJson Bytes Json} {P : Provider} {s : HubState Bytes}

/-! ## Governance survives -/

/-- Every entry is still there, of the digest it had, and yanked if it was. -/
def Kept (catalog catalog' : InMemoryCatalog) : Prop :=
  ∀ reference e, catalog.get reference = some e → ∃ e', catalog'.get reference = some e' ∧
    e'.digest = e.digest ∧ (e.yanked = true → e'.yanked = true)

theorem Kept.refl (catalog : InMemoryCatalog) : Kept catalog catalog :=
  fun _ e he => ⟨e, he, rfl, id⟩

theorem Kept.trans {catalog₁ catalog₂ catalog₃ : InMemoryCatalog} (h₁ : Kept catalog₁ catalog₂)
    (h₂ : Kept catalog₂ catalog₃) : Kept catalog₁ catalog₃ := by
  intro reference e he
  obtain ⟨e₂, he₂, hdigest₂, hyanked₂⟩ := h₁ reference e he
  obtain ⟨e₃, he₃, hdigest₃, hyanked₃⟩ := h₂ reference e₂ he₂
  exact ⟨e₃, he₃, hdigest₃.trans hdigest₂, hyanked₃ ∘ hyanked₂⟩

theorem get_add (catalog : InMemoryCatalog) (entry : CatalogEntry) (reference : String) :
    (catalog.add entry).get reference =
      if reference = entry.reference then some entry else catalog.get reference :=
  Dict.get?_set _ _ _ _

theorem reference_of_get {catalog : InMemoryCatalog} (hkeyed : catalog.Keyed) {reference : String}
    {e : CatalogEntry} (h : catalog.get reference = some e) : e.reference = reference :=
  (hkeyed _ (mem_of_lookup_eq_some h)).symm

theorem keyed_of_effect {catalog catalog' : InMemoryCatalog} {ingested : List (Ingested Key)}
    (hkeyed : catalog.Keyed) (h : Effect catalog catalog' ingested) : catalog'.Keyed := by
  cases h with
  | same => exact hkeyed
  | ingested _ entry _ _ _ => exact InMemoryCatalog.keyed_add hkeyed entry
  | updated _ _ entry' _ _ _ _ => exact InMemoryCatalog.keyed_add hkeyed entry'

/-- No entry is there, or one of the same digest that is not yanked. -/
def Renews (catalog : InMemoryCatalog) (one : Ingested Key) : Prop :=
  ∀ e, catalog.get one.reference = some e → e.digest = one.digest ∧ e.yanked = false

/-- **Exact condition for one call.** It keeps the entries exactly if what it ingests renews them. -/
theorem kept_iff {catalog catalog' : InMemoryCatalog} {ingested : List (Ingested Key)}
    (hkeyed : catalog.Keyed) (h : Effect catalog catalog' ingested) :
    Kept catalog catalog' ↔ ∀ one ∈ ingested, Renews catalog one := by
  cases h with
  | same => exact ⟨fun _ one hone => (by cases hone), fun _ => .refl _⟩
  | ingested one entry hmanifest hdigest hyanked =>
    have href : entry.reference = one.reference := by
      rw [CatalogEntry.reference, Ingested.reference, hmanifest]
    rw [List.forall_mem_singleton]
    constructor
    · intro hkept e he
      obtain ⟨e', he', hdigest', hyanked'⟩ := hkept one.reference e he
      rw [get_add, if_pos href.symm] at he'
      obtain rfl := Option.some.inj he'
      refine ⟨hdigest'.symm.trans hdigest, ?_⟩
      by_contra hnot
      rw [hyanked' (Bool.eq_true_of_not_eq_false hnot)] at hyanked
      cases hyanked
    · intro hrenews reference e he
      rw [get_add]
      by_cases hreference : reference = entry.reference
      · rw [if_pos hreference]
        rw [hreference, href] at he
        obtain ⟨hold, hnot⟩ := hrenews e he
        refine ⟨entry, rfl, hdigest.trans hold.symm, fun hold => ?_⟩
        rw [hnot] at hold
        cases hold
      · rw [if_neg hreference]
        exact ⟨e, he, rfl, id⟩
  | updated reference entry entry' hget hmanifest hdigest hyanked =>
    refine ⟨fun _ one hone => (by cases hone), fun _ ref e he => ?_⟩
    rw [get_add]
    by_cases href : ref = entry'.reference
    · rw [if_pos href]
      have hsame : entry'.reference = reference := by
        rw [CatalogEntry.reference, hmanifest]
        exact reference_of_get hkeyed hget
      rw [href, hsame, hget] at he
      obtain rfl := Option.some.inj he
      exact ⟨entry', rfl, hdigest, hyanked⟩
    · rw [if_neg href]
      exact ⟨e, he, rfl, id⟩

theorem keyed_hubRun (h : s.catalog.Keyed) {ops : List (HubOp Bytes Key)}
    (hops : ∀ op ∈ ops, ¬ op.IsRebuild) : (hubRun C E J P s ops).catalog.Keyed := by
  induction ops generalizing s with
  | nil => exact h
  | cons op ops ih =>
    rw [List.forall_mem_cons] at hops
    have hstep : (hubStep C E J P s op).1.catalog.Keyed :=
      keyed_of_effect h (effect_hubStep s hops.1)
    exact ih hstep hops.2

theorem hubRun_append (ops ops' : List (HubOp Bytes Key)) :
    hubRun C E J P s (ops ++ ops') = hubRun C E J P (hubRun C E J P s ops) ops' :=
  List.foldl_append

/-- What is yanked is not resolved, and what was indexed resolves to the digest it had. -/
def ResolvesKept {V : Type} [LinearOrder V] (W : Versions V) (catalog catalog' : InMemoryCatalog) :
    Prop :=
  ∀ request resolved, resolveRequest W catalog' request = .ok resolved →
    ∀ e, catalog.get resolved.reference = some e → e.yanked = false ∧ resolved.digest = e.digest

theorem resolvesKept_of_kept {V : Type} [LinearOrder V] {W : Versions V}
    {catalog catalog' : InMemoryCatalog} (hkeyed : catalog'.Keyed) (h : Kept catalog catalog') :
    ResolvesKept W catalog catalog' := by
  intro request resolved hresolved e he
  obtain ⟨entry, hentry, hyanked, rfl⟩ := resolve_eq_ok W hresolved
  obtain ⟨e', he', hdigest, hkept⟩ := h _ e he
  obtain ⟨⟨reference, entry'⟩, hp, rfl⟩ := List.mem_map.mp hentry
  have hreference : reference = entry'.reference := hkeyed _ hp
  have hget : catalog'.get entry'.reference = some entry' := by
    rw [← hreference]
    exact (Dict.get?_eq_some_iff _ _ _).mpr hp
  obtain rfl := Option.some.inj (he'.symm.trans hget)
  refine ⟨?_, hdigest⟩
  by_contra hnot
  have := hkept (Bool.eq_true_of_not_eq_false hnot)
  rw [hyanked] at this
  cases this

/-- From every state of a run to every later one, an indexed reference keeps its digest and stays
yanked, and resolution follows. -/
def GovernanceKept {V : Type} [LinearOrder V] (W : Versions V) (C : Content Bytes)
    (E : Evidence Bytes Key) (J : ManifestJson Bytes Json) (P : Provider) (r : Registry Bytes)
    (ops : List (HubOp Bytes Key)) : Prop :=
  ∀ before middle after, ops = before ++ middle ++ after →
    Kept (hubRun C E J P ⟨r, .empty⟩ before).catalog
        (hubRun C E J P ⟨r, .empty⟩ (before ++ middle)).catalog ∧
      ResolvesKept W (hubRun C E J P ⟨r, .empty⟩ before).catalog
        (hubRun C E J P ⟨r, .empty⟩ (before ++ middle)).catalog

/-- An admission that passes, through a call or on its own, is of a reference that is not indexed, or
that is indexed with this digest and not yanked. -/
def KeepsIndexed (C : Content Bytes) (E : Evidence Bytes Key) (J : ManifestJson Bytes Json)
    (P : Provider) (s : HubState Bytes) : HubOp Bytes Key → Prop
  | .admission args =>
    s.registry.verifyAdmissible C E J args.manifest args.digest args.trusted args.require = .ok () →
      args.publisher ≠ "" →
        Renews s.catalog (⟨args.manifest, args.digest, args.trusted⟩ : Ingested Key)
  | .publish args => ∀ s' artifact, clientPublish C E J P s args = (s', .ok artifact) →
    Renews s.catalog (⟨args.manifest, artifact.digest, args.trusted⟩ : Ingested Key)
  | _ => True

theorem renews_iff {op : HubOp Bytes Key} (hop : ¬ op.IsRebuild) :
    (∀ one ∈ (hubStep C E J P s op).2, Renews s.catalog one) ↔ KeepsIndexed C E J P s op := by
  cases op with
  | registry op =>
    simp only [hubStep]
    exact ⟨fun _ => trivial, fun _ one hone => (by cases hone)⟩
  | publish args =>
    simp only [hubStep, KeepsIndexed]
    cases hpublish : clientPublish C E J P s args with
    | mk s' result =>
      cases result with
      | error e =>
        refine ⟨fun _ s₁ artifact h => ?_, fun _ one hone => (by cases hone)⟩
        cases (Prod.mk.inj h).2
      | ok artifact =>
        rw [publishIngests, List.forall_mem_singleton]
        constructor
        · intro h s₁ artifact' heq
          obtain rfl := Except.ok.inj (Prod.mk.inj heq).2
          exact h
        · intro h
          exact h s' artifact rfl
  | admission args =>
    simp only [ingested_admission_iff, KeepsIndexed]
    constructor
    · intro h hgate hpublisher
      exact h _ ⟨rfl, hgate, hpublisher⟩
    · rintro h _ ⟨rfl, hgate, hpublisher⟩
      exact h hgate hpublisher
  | promote => exact ⟨fun _ => trivial, fun _ one hone => (by cases hone)⟩
  | yank => exact ⟨fun _ => trivial, fun _ one hone => (by cases hone)⟩
  | deprecateEntry => exact ⟨fun _ => trivial, fun _ one hone => (by cases hone)⟩
  | rebuild => exact absurd trivial hop

/-- **Main theorem.** Over every sequence of publications, admissions and curators' actions, what is
yanked stays yanked and what is indexed keeps its digest, exactly if no call admits a reference that
is indexed with another digest, or yanked. -/
theorem governance_kept_iff {V : Type} [LinearOrder V] (W : Versions V) (C : Content Bytes)
    (E : Evidence Bytes Key) (J : ManifestJson Bytes Json) (P : Provider) (r : Registry Bytes)
    (ops : List (HubOp Bytes Key)) (hops : ∀ op ∈ ops, ¬ op.IsRebuild) :
    GovernanceKept W C E J P r ops ↔ ∀ before op after, ops = before ++ op :: after →
      KeepsIndexed C E J P (hubRun C E J P ⟨r, .empty⟩ before) op := by
  have hkeyed : ∀ before after, ops = before ++ after →
      (hubRun C E J P ⟨r, .empty⟩ before).catalog.Keyed := by
    rintro before after rfl
    exact keyed_hubRun InMemoryCatalog.keyed_empty fun op hop =>
      hops op (List.mem_append_left _ hop)
  have hstep : ∀ before op after, ops = before ++ op :: after →
      (Kept (hubRun C E J P ⟨r, .empty⟩ before).catalog
          (hubRun C E J P ⟨r, .empty⟩ (before ++ [op])).catalog ↔
        KeepsIndexed C E J P (hubRun C E J P ⟨r, .empty⟩ before) op) := by
    intro before op after heq
    have hop : ¬ op.IsRebuild := by
      refine hops op ?_
      rw [heq]
      exact List.mem_append_right _ List.mem_cons_self
    rw [hubRun_append, ← renews_iff hop]
    exact kept_iff (hkeyed before (op :: after) heq) (effect_hubStep _ hop)
  constructor
  · intro h before op after heq
    rw [← hstep before op after heq]
    exact (h before [op] after (by rw [heq, List.append_assoc, List.singleton_append])).1
  · intro h before middle after heq
    have hkept : Kept (hubRun C E J P ⟨r, .empty⟩ before).catalog
        (hubRun C E J P ⟨r, .empty⟩ (before ++ middle)).catalog := by
      -- induction on the calls between the two states, from the end
      induction middle using List.reverseRecOn generalizing after with
      | nil =>
        rw [List.append_nil]
        exact .refl _
      | append_singleton middle op ih =>
        have hsplit : ops = (before ++ middle) ++ op :: after := by
          rw [heq]
          simp
        rw [← List.append_assoc]
        exact (ih (op :: after) hsplit).trans
          ((hstep _ op after hsplit).mpr (h _ op after hsplit))
    exact ⟨hkept, resolvesKept_of_kept (hkeyed (before ++ middle) after heq) hkept⟩

end Governance

/-- The attestations of the digger. -/
def diggerAttestations : List (AttachArgs Sample) :=
  [⟨"sha256:digger", artifactTypeSignature, ⟨mediaSignature, .text "signature"⟩, .empty⟩,
    ⟨"sha256:digger", artifactTypeSlsa, ⟨mediaSlsa, .text "provenance"⟩, .empty⟩,
    ⟨"sha256:digger", artifactTypeSbom, ⟨mediaSbom, .text "bill"⟩, .empty⟩]

/-- Hashes for their payloads. -/
def payloadLabels : List (Sample × String) :=
  (.text "\x7b\x7d", "empty") :: (.text "signature", "s") :: (.text "provenance", "p") ::
    (.text "bill", "b") :: diggerLabels

/-- Hashes for their manifests. -/
def attestedLabels : List (Sample × String) :=
  diggerAttestations.map (fun args =>
    (.manifest (args.manifest (sampleContent payloadLabels) 1),
      "m" ++ String.ofList (args.artifactType.toList.drop 27))) ++ payloadLabels

/-- The digger, with a signature, provenance and a bill of materials. -/
def attestedStore : Registry Sample :=
  Registry.run (sampleContent attestedLabels) .empty
    (.publish diggerArgs :: diggerAttestations.map .attach)

/-- The admission of the digger. -/
def diggerAdmission : AdmitArgs Unit where
  manifest := { name := "digger", version := "1.0", kind := .asset }
  digest := "sha256:digger"
  publisher := "local"

/-- One version for all. -/
def sampleVersions : Versions ℕ where
  version _ := some 1
  specifier _ := some fun _ _ => true
  number _ := none
  coreInterfaces := .empty

/-- The digger is admitted and yanked, and stays so. -/
theorem digger_kept : GovernanceKept sampleVersions (sampleContent attestedLabels) sampleEvidence
    sampleJson sampleProvider attestedStore [.admission diggerAdmission, .yank "digger:1.0"] := by
  refine (governance_kept_iff sampleVersions _ sampleEvidence sampleJson sampleProvider
    attestedStore _ ?_).mpr ?_
  · rintro op hop hrebuild
    rcases List.mem_cons.mp hop with rfl | hop
    · exact hrebuild
    · rw [List.mem_singleton.mp hop] at hrebuild
      exact hrebuild
  · intro before op after heq
    cases before with
    | nil =>
      obtain ⟨rfl, -⟩ := List.cons.inj heq
      intro _ _ e he
      cases he
    | cons first before =>
      obtain ⟨-, htail⟩ := List.cons.inj heq
      cases before with
      | nil =>
        obtain ⟨rfl, -⟩ := List.cons.inj htail
        trivial
      | cons second before =>
        obtain ⟨-, hnil⟩ := List.cons.inj htail
        cases before with
        | nil => cases hnil
        | cons _ _ => cases hnil

/-- **Counterexample.** The digger is yanked, and admitted again: it is no longer yanked. -/
theorem readmitted_not_kept : ¬ GovernanceKept sampleVersions (sampleContent attestedLabels)
    sampleEvidence sampleJson sampleProvider attestedStore
    [.admission diggerAdmission, .yank "digger:1.0", .admission diggerAdmission] := by
  intro h
  obtain ⟨hkept, -⟩ := h [.admission diggerAdmission, .yank "digger:1.0"]
    [.admission diggerAdmission] [] rfl
  have hyanked : ((hubRun (sampleContent attestedLabels) sampleEvidence sampleJson sampleProvider
      ⟨attestedStore, .empty⟩ [.admission diggerAdmission, .yank "digger:1.0"]).catalog.get
        "digger:1.0").map CatalogEntry.yanked = some true := by decide +kernel
  have hadmitted : ((hubRun (sampleContent attestedLabels) sampleEvidence sampleJson sampleProvider
      ⟨attestedStore, .empty⟩ [.admission diggerAdmission, .yank "digger:1.0",
        .admission diggerAdmission]).catalog.get "digger:1.0").map CatalogEntry.yanked =
      some false := by decide +kernel
  obtain ⟨e, he, hye⟩ := Option.map_eq_some_iff.mp hyanked
  obtain ⟨e', he', -, hstays⟩ := hkept _ e he
  rw [List.cons_append, List.cons_append, List.nil_append] at he'
  rw [he', Option.map_some, hstays hye] at hadmitted
  cases hadmitted

end AstroMine.Hub
