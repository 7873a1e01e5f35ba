import AstroMine.Hub.Catalog
import AstroMine.Hub.GarbageCollect

/-!
# Evidence (`seal/_supply_chain.py`, `hub/supply_chain`)

The attestations of an artifact over the registry, and the two checks made of them: the one at pull
(`verify`) and the one at admission (`verify_admissible`). What makes bytes a signature over a
digest, SLSA provenance or a CycloneDX bill of materials lies outside (`Evidence`), and so do the
JSON of a plugin manifest and its reading (`ManifestJson`).

Results:
* `verify_eq_ok`: when the bytes of an artifact are its addresses.
* `supplyVerify_eq_ok`, `verifyAdmissible_eq_ok`, `verifyAdmissible_default`: when the checks pass.
-/

namespace AstroMine.Hub

/-! ## What lies outside -/

/-- `ARTIFACT_TYPE_SIGNATURE` (`seal/_attest.py`, line 62). -/
def artifactTypeSignature : String := "application/vnd.astro-mine.signature.v1"

/-- `ARTIFACT_TYPE_SLSA` (line 63). -/
def artifactTypeSlsa : String := "application/vnd.astro-mine.provenance.slsa.v1"

/-- `ARTIFACT_TYPE_SBOM` (line 64). -/
def artifactTypeSbom : String := "application/vnd.astro-mine.sbom.cyclonedx.v1"

/-- `DEFAULT_REQUIRED` (`seal/_supply_chain.py`, line 51). -/
def defaultRequired : List String := ["signature", "slsa", "sbom"]

/-- What the checks ask of a payload: whether it is a signature over a digest, by the trusted key if
there is one, whether it is SLSA provenance, and whether it is a CycloneDX document. -/
structure Evidence (Bytes Key : Type) where
  signatureOk : Option Key → String → Bytes → Bool
  slsaOk : Bytes → Bool
  sbomOk : Bytes → Bool

/-- Plugin manifests as JSON: `json.loads`, `model_dump`, the bytes that are stored, and
`model_validate_json`. -/
structure ManifestJson (Bytes Json : Type) where
  load : Bytes → Option Json
  isObject : Json → Bool
  dump : PluginManifest → Json
  write : PluginManifest → Bytes
  validate : Bytes → Option PluginManifest

/-- `SupplyChainError`, by what is found. -/
inductive SupplyChainError
  | unknownKinds (kinds : List String)
  | integrity (error : StoreError)
  | unlisted (label : String) (error : StoreError)
  | missing (label : String)
  | attestation (label : String) (error : StoreError)
  | rejected (label : String)
  | absent (digest : String)
  | notAnObject (digest : String)
  | mismatch (digest : String)
  | unsigned (digest : String)
  deriving DecidableEq

/-- What an admission can raise. -/
inductive AdmitError
  | store (error : StoreError)
  | notJson (digest : String)
  | supplyChain (error : SupplyChainError)
  deriving DecidableEq

namespace Registry

variable {Bytes Key Json : Type} (C : Content Bytes) (E : Evidence Bytes Key)
  (J : ManifestJson Bytes Json) (r : Registry Bytes)

/-! ## Attestations -/

/-- `read_attestation` (`hub/supply_chain/_supply_chain.py`, lines 82–90). -/
def readAttestation (digest : String) : Except StoreError Bytes := do
  r.verify C digest
  let manifest ← r.readManifest C digest
  match manifest.layers with
  | some (layer :: _) => r.readBlob layer.digest
  | _ => throw (.unreadable digest)

/-- One attestation: its payload is as it was written, and passes the check. -/
def checkPayload (label : String) (check : Bytes → Bool) (ref : Descriptor) :
    Except SupplyChainError Unit := do
  let payload ← (r.readAttestation C ref.digest).mapError (.attestation label)
  refuseIf (check payload = false) (.rejected label)

/-- There are attestations of the type, and each of them passes. -/
def checkAttestations (subject artifactType label : String) (check : Bytes → Bool) :
    Except SupplyChainError Unit := do
  let refs ← (r.referrers C subject (some artifactType)).mapError (.unlisted label)
  refuseIf (refs = []) (.missing label)
  refs.forM (r.checkPayload C label check)

/-- `_check_signatures` (`seal/_supply_chain.py`, lines 117–144). -/
def checkSignatures (subject : String) (trusted : Option Key) : Except SupplyChainError Unit :=
  r.checkAttestations C subject artifactTypeSignature "signature" (E.signatureOk trusted subject)

/-- `_check_documents` (lines 147–164) of the provenance. -/
def checkSlsa (subject : String) : Except SupplyChainError Unit :=
  r.checkAttestations C subject artifactTypeSlsa "SLSA provenance" E.slsaOk

/-- `_check_documents` of the bill of materials. -/
def checkSbom (subject : String) : Except SupplyChainError Unit :=
  r.checkAttestations C subject artifactTypeSbom "SBOM" E.sbomOk

/-- The kinds of evidence that no check is known for (line 205). -/
def unknownKinds (require : List String) : List String :=
  sortOn id (require.filter (· ∉ defaultRequired)).dedup

/-- `verify` (lines 167–225), over the registry. -/
def supplyVerify (subject : String) (trusted : Option Key) (require : List String) :
    Except SupplyChainError Unit := do
  refuseIf (unknownKinds require ≠ []) (.unknownKinds (unknownKinds require))
  (r.verify C subject).mapError .integrity
  runIf ("signature" ∈ require) (r.checkSignatures C E subject trusted)
  runIf ("slsa" ∈ require) (r.checkSlsa C E subject)
  runIf ("sbom" ∈ require) (r.checkSbom C E subject)

/-! ## Admission -/

/-- Whether an error is a `KeyError`: a blob is not there, or a manifest that is read lacks a
field. -/
def isKeyError : StoreError → Bool
  | .missingBlob _ => true
  | .unreadable digest => (r.manifestAt C digest).isSome
  | _ => false

/-- `registry.verify` as the admission calls it (`_admit.py`, lines 106–112). -/
def verifyPresent (digest : String) : Except AdmitError Unit :=
  (r.verify C digest).mapError fun e =>
    if r.isKeyError C e then .supplyChain (.absent digest) else .store e

/-- `_stored_manifest` (lines 62–68). -/
def storedManifest (digest : String) : Except AdmitError Json := do
  let raw ← (r.readConfig C digest).mapError AdmitError.store
  match J.load raw with
  | none => throw (.notJson digest)
  | some parsed =>
    refuseIf (J.isObject parsed = false) (.supplyChain (.notAnObject digest))
    return parsed

/-- `require_signed` (lines 71–88). -/
def requireSigned (digest : String) : Except AdmitError Unit := do
  let refs ← (r.referrers C digest (some artifactTypeSignature)).mapError AdmitError.store
  refuseIf (refs = []) (.supplyChain (.unsigned digest))

/-- `verify_admissible` (lines 91–132). -/
def verifyAdmissible [DecidableEq Json] (manifest : PluginManifest) (digest : String)
    (trusted : Option Key) (require : List String) : Except AdmitError Unit := do
  r.verifyPresent C digest
  let stored ← r.storedManifest C J digest
  refuseIf (stored ≠ J.dump manifest) (.supplyChain (.mismatch digest))
  r.requireSigned C digest
  (r.supplyVerify C E digest trusted require).mapError AdmitError.supplyChain

/-- `artifact_kind_of` (`hub/registry/_oci.py`, lines 120–134). -/
def artifactKindOf (mediaType : Option String) : Option String :=
  artifactKinds.find? fun kind =>
    mediaType = some ("application/vnd.astro-mine." ++ kind ++ ".v1")

/-- `stored_artifact_kind` (`_admit.py`, lines 172–183). -/
def storedArtifactKind (digest : String) : Option String :=
  artifactKindOf ((r.manifestAt C digest).bind ImageManifest.artifactType)

/-! ## When the checks pass -/

variable {C E J r}

theorem configOf_eq_ok {digest : String} {manifest : ImageManifest} {config : Descriptor} :
    configOf digest manifest = .ok config ↔ manifest.config = some config := by
  rw [configOf]
  cases manifest.config with
  | none => exact ⟨fun h => (by cases h), fun h => (by cases h)⟩
  | some c => exact ⟨fun h => congrArg some (Except.ok.inj h), fun h => by rw [Option.some.inj h]⟩

theorem layersOf_eq_ok {digest : String} {manifest : ImageManifest} {layers : List Descriptor} :
    layersOf digest manifest = .ok layers ↔ manifest.layers = some layers := by
  rw [layersOf]
  cases manifest.layers with
  | none => exact ⟨fun h => (by cases h), fun h => (by cases h)⟩
  | some ls => exact ⟨fun h => congrArg some (Except.ok.inj h), fun h => by rw [Option.some.inj h]⟩

/-- An artifact is verified when its manifest and its blobs are there, under their hashes. -/
theorem verify_eq_ok {digest : String} : r.verify C digest = .ok () ↔
    ∃ b manifest config layers, r.readBlob digest = .ok b ∧ C.hash b = digest ∧
      C.parse b = some manifest ∧ manifest.config = some config ∧ manifest.layers = some layers ∧
      ∀ d ∈ config :: layers, ∃ data, r.readBlob d.digest = .ok data ∧ C.hash data = d.digest := by
  rw [verify, seq_eq_ok, verifyBlob_eq_ok]
  simp only [bind_eq_ok, readManifest_eq_ok, configOf_eq_ok, layersOf_eq_ok, forM_eq_ok,
    verifyBlob_eq_ok]
  constructor
  · rintro ⟨⟨b, hb, hhash⟩, manifest, ⟨b', hb', hparse⟩, config, hconfig, layers, hlayers, hall⟩
    obtain rfl := Except.ok.inj (hb.symm.trans hb')
    exact ⟨b, manifest, config, layers, hb, hhash, hparse, hconfig, hlayers, hall⟩
  · rintro ⟨b, manifest, config, layers, hb, hhash, hparse, hconfig, hlayers, hall⟩
    exact ⟨⟨b, hb, hhash⟩, manifest, ⟨b, hb, hparse⟩, config, hconfig, layers, hlayers, hall⟩

/-- There are attestations of the type, and the payload of each of them passes the check. -/
def Attested (C : Content Bytes) (r : Registry Bytes) (subject artifactType : String)
    (check : Bytes → Bool) : Prop :=
  ∃ refs, r.referrers C subject (some artifactType) = .ok refs ∧ refs ≠ [] ∧
    ∀ ref ∈ refs, ∃ payload, r.readAttestation C ref.digest = .ok payload ∧ check payload = true

theorem checkPayload_eq_ok {label : String} {check : Bytes → Bool} {ref : Descriptor} :
    r.checkPayload C label check ref = .ok () ↔
      ∃ payload, r.readAttestation C ref.digest = .ok payload ∧ check payload = true := by
  rw [checkPayload, bind_eq_ok]
  simp only [mapError_eq_ok]
  refine exists_congr fun payload => and_congr_right fun _ => ?_
  rw [refuseIf_eq_ok, Bool.not_eq_false]

theorem checkAttestations_eq_ok {subject artifactType label : String} {check : Bytes → Bool} :
    r.checkAttestations C subject artifactType label check = .ok () ↔
      r.Attested C subject artifactType check := by
  rw [checkAttestations, bind_eq_ok]
  simp only [mapError_eq_ok, Attested]
  refine exists_congr fun refs => and_congr_right fun _ => ?_
  rw [seq_eq_ok, refuseIf_eq_ok, forM_eq_ok]
  simp only [checkPayload_eq_ok]

theorem unknownKinds_eq_nil {require : List String} :
    unknownKinds require = [] ↔ ∀ kind ∈ require, kind ∈ defaultRequired := by
  rw [unknownKinds, sortOn_eq_nil, List.dedup_eq_nil, List.filter_eq_nil_iff]
  simp only [decide_eq_true_eq, not_not]

/-- The check passes when the artifact is as it was written and the evidence that is required is
there and valid. -/
theorem supplyVerify_eq_ok {subject : String} {trusted : Option Key} {require : List String} :
    r.supplyVerify C E subject trusted require = .ok () ↔
      (∀ kind ∈ require, kind ∈ defaultRequired) ∧ r.verify C subject = .ok () ∧
      ("signature" ∈ require →
        r.Attested C subject artifactTypeSignature (E.signatureOk trusted subject)) ∧
      ("slsa" ∈ require → r.Attested C subject artifactTypeSlsa E.slsaOk) ∧
      ("sbom" ∈ require → r.Attested C subject artifactTypeSbom E.sbomOk) := by
  rw [supplyVerify]
  simp only [seq_eq_ok, refuseIf_eq_ok, runIf_eq_ok, mapError_eq_ok, not_not, unknownKinds_eq_nil,
    checkSignatures, checkSlsa, checkSbom, checkAttestations_eq_ok]

/-- The stored config is the JSON of the manifest. -/
def StoredAs (C : Content Bytes) (J : ManifestJson Bytes Json) (r : Registry Bytes)
    (manifest : PluginManifest) (digest : String) : Prop :=
  ∃ raw, r.readConfig C digest = .ok raw ∧ J.load raw = some (J.dump manifest) ∧
    J.isObject (J.dump manifest) = true

/-- The artifact carries a signature, provenance and a bill of materials, and all of each kind are
valid. -/
structure Evidenced (C : Content Bytes) (E : Evidence Bytes Key) (r : Registry Bytes)
    (digest : String) (trusted : Option Key) : Prop where
  signature : r.Attested C digest artifactTypeSignature (E.signatureOk trusted digest)
  slsa : r.Attested C digest artifactTypeSlsa E.slsaOk
  sbom : r.Attested C digest artifactTypeSbom E.sbomOk

theorem verifyPresent_eq_ok {digest : String} :
    r.verifyPresent C digest = .ok () ↔ r.verify C digest = .ok () := mapError_eq_ok

theorem storedManifest_eq_ok {digest : String} {stored : Json} :
    r.storedManifest C J digest = .ok stored ↔
      ∃ raw, r.readConfig C digest = .ok raw ∧ J.load raw = some stored ∧
        J.isObject stored = true := by
  rw [storedManifest, bind_eq_ok]
  simp only [mapError_eq_ok]
  refine exists_congr fun raw => and_congr_right fun _ => ?_
  cases J.load raw with
  | none => exact ⟨fun h => (by cases h), fun h => (by cases h.1)⟩
  | some parsed =>
    simp only [seq_eq_ok, refuseIf_eq_ok, Bool.not_eq_false]
    constructor
    · rintro ⟨hobject, h⟩
      obtain rfl := Except.ok.inj h
      exact ⟨rfl, hobject⟩
    · rintro ⟨h, hobject⟩
      obtain rfl := Option.some.inj h
      exact ⟨hobject, rfl⟩

/-- The gate opens when the artifact is as it was written, the manifest is the stored one, a
signature is there, and the evidence that is required is. -/
theorem verifyAdmissible_eq_ok [DecidableEq Json] {manifest : PluginManifest} {digest : String}
    {trusted : Option Key} {require : List String} :
    r.verifyAdmissible C E J manifest digest trusted require = .ok () ↔
      r.verify C digest = .ok () ∧ r.StoredAs C J manifest digest ∧
      (∃ refs, r.referrers C digest (some artifactTypeSignature) = .ok refs ∧ refs ≠ []) ∧
      r.supplyVerify C E digest trusted require = .ok () := by
  have hsigned : r.requireSigned C digest = .ok () ↔
      ∃ refs, r.referrers C digest (some artifactTypeSignature) = .ok refs ∧ refs ≠ [] := by
    rw [requireSigned, bind_eq_ok]
    simp only [mapError_eq_ok, refuseIf_eq_ok, ne_eq]
  rw [verifyAdmissible, seq_eq_ok, verifyPresent_eq_ok]
  refine and_congr_right fun _ => ?_
  rw [bind_eq_ok]
  simp only [storedManifest_eq_ok]
  constructor
  · rintro ⟨stored, ⟨raw, hraw, hload, hobject⟩, h⟩
    rw [seq_eq_ok, refuseIf_eq_ok, not_not, seq_eq_ok, mapError_eq_ok] at h
    obtain ⟨rfl, hsign, hsupply⟩ := h
    exact ⟨⟨raw, hraw, hload, hobject⟩, hsigned.mp hsign, hsupply⟩
  · rintro ⟨⟨raw, hraw, hload, hobject⟩, hsign, hsupply⟩
    refine ⟨_, ⟨raw, hraw, hload, hobject⟩, ?_⟩
    rw [seq_eq_ok, refuseIf_eq_ok, not_not, seq_eq_ok, mapError_eq_ok]
    exact ⟨rfl, hsigned.mpr hsign, hsupply⟩

/-- With the default requirements the gate opens to what is stored and evidenced. -/
theorem verifyAdmissible_default [DecidableEq Json] {manifest : PluginManifest} {digest : String}
    {trusted : Option Key} :
    r.verifyAdmissible C E J manifest digest trusted defaultRequired = .ok () ↔
      r.verify C digest = .ok () ∧ r.StoredAs C J manifest digest ∧
        r.Evidenced C E digest trusted := by
  rw [verifyAdmissible_eq_ok, supplyVerify_eq_ok]
  constructor
  · rintro ⟨hverify, hstored, -, -, -, hsignature, hslsa, hsbom⟩
    exact ⟨hverify, hstored, hsignature (by decide), hslsa (by decide), hsbom (by decide)⟩
  · rintro ⟨hverify, hstored, hevidence⟩
    obtain ⟨refs, hrefs, hne, -⟩ := hevidence.signature
    exact ⟨hverify, hstored, ⟨refs, hrefs, hne⟩, fun _ h => h, hverify, fun _ => hevidence.signature,
      fun _ => hevidence.slsa, fun _ => hevidence.sbom⟩

end Registry

end AstroMine.Hub
