import AstroMine.Lib.Dict
import AstroMine.Lib.Except
import AstroMine.Lib.Joined
import AstroMine.Lib.PrefixCode

/-!
# The image layout on disk (`hub/registry/_oci.py`)

Descriptors, image manifests, and the blobs of a layout: the files of `blobs/sha256`, by their
names. What hashes bytes, and what writes and reads a manifest as canonical JSON, lies outside
(`Content`); what the code relies on there is `Content.Lawful`. A JSON document without a field that
a manifest must have is read with that field missing. A file is written whole or not at all.

Results:
* `blobPath_eq_ok`: the digests that name a file.
* `get?_putBlob`: what a layout holds after a blob is put.
-/

namespace AstroMine.Hub

/-! ## Descriptors and manifests -/

/-- `REF_ANNOTATION` (line 98). -/
def refAnnotation : String := "org.opencontainers.image.ref.name"

/-- `Descriptor` (lines 138–170); no annotations are the empty ones. -/
structure Descriptor where
  mediaType : String
  digest : String
  size : ℕ
  artifactType : Option String
  annotations : Dict String String
  deriving DecidableEq

/-- The tag of an index entry. -/
def Descriptor.refName (entry : Descriptor) : Option String := entry.annotations.get? refAnnotation

/-- An image manifest, as `publish` and `attach` write it (`_store.py`, lines 144–152 and 213–226);
the fields that a document may lack are options. -/
structure ImageManifest where
  artifactType : Option String
  config : Option Descriptor
  layers : Option (List Descriptor)
  subject : Option Descriptor
  annotations : Dict String String
  deriving DecidableEq

/-- The blobs that a manifest names. -/
def ImageManifest.parts (manifest : ImageManifest) : List Descriptor :=
  manifest.config.toList ++ manifest.layers.getD []

/-- The digest of the subject of a manifest. -/
def ImageManifest.subjectDigest (manifest : ImageManifest) : Option String :=
  manifest.subject.map Descriptor.digest

/-! ## Bytes -/

/-- What the registry uses of bytes: the hex digits of their SHA-256, their number, and manifests
as canonical JSON. -/
structure Content (Bytes : Type) where
  hexOf : Bytes → String
  sizeOf : Bytes → ℕ
  render : ImageManifest → Bytes
  parse : Bytes → Option ImageManifest
  emptyConfig : Bytes

/-- What the registry relies on: different bytes have different hashes, a hash has digits, and a
manifest is read as it was written. -/
structure Content.Lawful {Bytes : Type} (C : Content Bytes) : Prop where
  hex_injective : Function.Injective C.hexOf
  hex_ne_empty : ∀ b, C.hexOf b ≠ ""
  parse_render : ∀ manifest, C.parse (C.render manifest) = some manifest

variable {Bytes : Type} (C : Content Bytes)

/-- `content_hash` (`hub/_content.py`): `sha256:<hex>`. -/
def Content.hash (b : Bytes) : String := joined "sha256" (C.hexOf b)

theorem Content.Lawful.hash_inj {C : Content Bytes} (hC : C.Lawful) {b b' : Bytes} :
    C.hash b = C.hash b' ↔ b = b' := by
  rw [Content.hash, Content.hash, joined_right_inj]
  exact hC.hex_injective.eq_iff

/-! ## Bytes to compute with -/

/-- The texts of a descriptor. -/
def descriptorCode : Descriptor → List Char :=
  pairCode textCode (pairCode textCode (pairCode natCode (pairCode (optionCode textCode)
    (listCode (pairCode textCode textCode))))) ∘
    fun d => (d.mediaType, d.digest, d.size, d.artifactType, d.annotations.entries)

theorem prefixCode_descriptor : PrefixCode descriptorCode := by
  refine (prefixCode_pair prefixCode_text (prefixCode_pair prefixCode_text (prefixCode_pair
    prefixCode_nat (prefixCode_pair (prefixCode_option prefixCode_text)
      (prefixCode_list (prefixCode_pair prefixCode_text prefixCode_text)))))).comap ?_
  rintro ⟨m, d, s, t, ⟨es, hes⟩⟩ ⟨m', d', s', t', ⟨es', hes'⟩⟩ h
  simp only [Prod.mk.injEq] at h
  obtain ⟨rfl, rfl, rfl, rfl, rfl⟩ := h
  rfl

/-- The texts of a manifest. -/
def manifestCode : ImageManifest → List Char :=
  pairCode (optionCode textCode) (pairCode (optionCode descriptorCode)
    (pairCode (optionCode (listCode descriptorCode)) (pairCode (optionCode descriptorCode)
      (listCode (pairCode textCode textCode))))) ∘
    fun m => (m.artifactType, m.config, m.layers, m.subject, m.annotations.entries)

theorem prefixCode_manifest : PrefixCode manifestCode := by
  refine (prefixCode_pair (prefixCode_option prefixCode_text) (prefixCode_pair (prefixCode_option
    prefixCode_descriptor) (prefixCode_pair (prefixCode_option (prefixCode_list
      prefixCode_descriptor)) (prefixCode_pair (prefixCode_option prefixCode_descriptor)
        (prefixCode_list (prefixCode_pair prefixCode_text prefixCode_text)))))).comap ?_
  rintro ⟨t, c, l, s, ⟨es, hes⟩⟩ ⟨t', c', l', s', ⟨es', hes'⟩⟩ h
  simp only [Prod.mk.injEq] at h
  obtain ⟨rfl, rfl, rfl, rfl, rfl⟩ := h
  rfl

/-- Bytes that can be computed with: a manifest, or a text. -/
inductive Sample
  | manifest (manifest : ImageManifest)
  | text (text : String)
  deriving DecidableEq

/-- The sample as a text. -/
def sampleCode : Sample → List Char :=
  sumCode manifestCode textCode ∘ fun
    | .manifest manifest => .inl manifest
    | .text text => .inr text

theorem prefixCode_sample : PrefixCode sampleCode := by
  refine (prefixCode_sum prefixCode_manifest prefixCode_text).comap ?_
  rintro (m | s) (m' | s') h
  · rw [Sum.inl.inj h]
  · cases h
  · cases h
  · rw [Sum.inr.inj h]

/-- Samples that are hashed to short labels, and to their codes where they have none. -/
def sampleContent (labels : List (Sample × String)) : Content Sample where
  hexOf b := (labels.lookup b).getD (String.ofList ('#' :: sampleCode b))
  sizeOf
    | .manifest manifest => manifest.parts.length
    | .text text => text.length
  render := .manifest
  parse
    | .manifest manifest => some manifest
    | .text _ => none
  emptyConfig := .text "\x7b\x7d"

/-- The labels differ, and are no codes. -/
def LabelsOk (labels : List (Sample × String)) : Prop :=
  (labels.map Prod.snd).Nodup ∧ ∀ p ∈ labels, p.2.toList ≠ [] ∧ p.2.toList.head? ≠ some '#'

instance (labels : List (Sample × String)) : Decidable (LabelsOk labels) :=
  inferInstanceAs (Decidable (_ ∧ _))

theorem sampleContent_lawful {labels : List (Sample × String)} (h : LabelsOk labels) :
    (sampleContent labels).Lawful := by
  have hmem : ∀ {b l}, labels.lookup b = some l → (b, l) ∈ labels :=
    fun hl => mem_of_lookup_eq_some hl
  have hlabel : ∀ {b b' l}, labels.lookup b = some l →
      l ≠ String.ofList ('#' :: sampleCode b') := by
    intro b b' l hl heq
    exact (h.2 _ (hmem hl)).2 (by rw [heq, String.toList_ofList]; rfl)
  refine ⟨?_, ?_, fun _ => rfl⟩
  · intro a b heq
    simp only [sampleContent] at heq
    cases ha : labels.lookup a with
    | none =>
      cases hb : labels.lookup b with
      | none =>
        rw [ha, hb, Option.getD_none, Option.getD_none] at heq
        exact prefixCode_sample.injective (List.cons.inj (String.ofList_injective heq)).2
      | some l =>
        rw [ha, hb, Option.getD_none, Option.getD_some] at heq
        exact absurd heq.symm (hlabel hb)
    | some l =>
      cases hb : labels.lookup b with
      | none =>
        rw [ha, hb, Option.getD_none, Option.getD_some] at heq
        exact absurd heq (hlabel ha)
      | some l' =>
        rw [ha, hb, Option.getD_some, Option.getD_some] at heq
        exact (Prod.mk.inj (List.inj_on_of_nodup_map h.1 (hmem ha) (hmem hb) heq)).1
  · intro b hempty
    simp only [sampleContent] at hempty
    cases hb : labels.lookup b with
    | none =>
      rw [hb, Option.getD_none] at hempty
      have hlist := congrArg String.toList hempty
      rw [String.toList_ofList] at hlist
      cases hlist
    | some l =>
      rw [hb, Option.getD_some] at hempty
      exact (h.2 _ (hmem hb)).1 (by rw [hempty]; rfl)

/-! ## Blobs -/

/-- `Blob` (lines 174–190): bytes with a media type. -/
structure Blob (Bytes : Type) where
  mediaType : String
  data : Bytes

/-- `Blob.descriptor`. -/
def Blob.descriptor (blob : Blob Bytes) : Descriptor :=
  ⟨blob.mediaType, C.hash blob.data, C.sizeOf blob.data, none, .empty⟩

/-- What can be raised while a layout is used. -/
inductive StoreError
  | unsupportedAlgorithm (algorithm : String)
  | malformedDigest (digest : String)
  | missingBlob (digest : String)
  | integrity (digest : String)
  | unreadable (digest : String)
  | unknownKind (kind : String)
  | malformedReference (reference : String)
  | artifactExists (reference : String)
  | artifactNotFound (reference : String)
  deriving DecidableEq

/-! ## Artifact types -/

/-- `MEDIA_MANIFEST` (line 52). -/
def mediaManifest : String := "application/vnd.oci.image.manifest.v1+json"

/-- `MEDIA_EMPTY` (line 54). -/
def mediaEmpty : String := "application/vnd.oci.empty.v1+json"

/-- `MEDIA_CORE_MANIFEST` (line 58). -/
def mediaCoreManifest : String := "application/vnd.astro-mine.manifest.v1+json"

/-- `ARTIFACT_KINDS` (lines 86–95). -/
def artifactKinds : List String :=
  ["policy", "world", "asset", "surrogate", "plugin", "schema", "design", "campaign"]

/-- `artifact_media_type` (lines 108–117). -/
def artifactMediaType (kind : String) : Except StoreError String :=
  if kind ∈ artifactKinds then .ok ("application/vnd.astro-mine." ++ kind ++ ".v1")
  else .error (.unknownKind kind)

/-! ## The blobs of a layout -/

/-- `blob_path` (lines 197–204): the name of the file of a digest. -/
def blobPath (digest : String) : Except StoreError String :=
  let (algorithm, hexpart) := (partition ':' digest).getD (digest, "")
  if algorithm ≠ "sha256" then .error (.unsupportedAlgorithm algorithm)
  else if hexpart = "" then .error (.malformedDigest digest)
  else .ok hexpart

theorem blobPath_eq_ok {digest hexpart : String} :
    blobPath digest = .ok hexpart ↔ digest = joined "sha256" hexpart ∧ hexpart ≠ "" := by
  have hcolon : ':' ∉ "sha256".toList := by decide
  unfold blobPath
  cases hp : partition ':' digest with
  | none =>
    constructor
    · intro h
      simp only [Option.getD_none] at h
      split_ifs at h
    · rintro ⟨rfl, -⟩
      rw [(partition_colon_iff _ _ _).mpr ⟨rfl, hcolon⟩] at hp
      cases hp
  | some ps =>
    obtain ⟨algorithm, hex⟩ := ps
    obtain ⟨rfl, -⟩ := (partition_colon_iff _ _ _).mp hp
    simp only [Option.getD_some]
    constructor
    · intro h
      split_ifs at h with halg hhex
      rw [not_not] at halg
      obtain rfl := Except.ok.inj h
      exact ⟨by rw [halg], hhex⟩
    · rintro ⟨hjoin, hne⟩
      have hpart := (partition_colon_iff _ _ _).mpr ⟨hjoin, hcolon⟩
      rw [hp, Option.some.injEq, Prod.mk.injEq] at hpart
      obtain ⟨rfl, rfl⟩ := hpart
      rw [if_neg (not_not.mpr rfl), if_neg hne]

/-- The layout: the files of `blobs/sha256`, and the manifests of `index.json`. -/
structure Registry (Bytes : Type) where
  blobs : Dict String Bytes
  index : List Descriptor

namespace Registry

variable (r : Registry Bytes)

/-- A layout without blobs and without an index. -/
def empty : Registry Bytes := ⟨.empty, []⟩

/-- `put_blob` (lines 207–213): the file of the digest of the data. -/
def putBlob (blob : Blob Bytes) : Registry Bytes :=
  if (r.blobs.get? (C.hexOf blob.data)).isSome then r
  else { r with blobs := r.blobs.set (C.hexOf blob.data) blob.data }

/-- `has_blob` (lines 216–218). -/
def hasBlob (digest : String) : Except StoreError Bool := do
  let path ← blobPath digest
  return (r.blobs.get? path).isSome

/-- `read_blob` (lines 221–226). -/
def readBlob (digest : String) : Except StoreError Bytes := do
  let path ← blobPath digest
  match r.blobs.get? path with
  | some data => return data
  | none => throw (.missingBlob digest)

/-- `verify_blob` (lines 229–237). -/
def verifyBlob (digest : String) : Except StoreError Unit := do
  let data ← r.readBlob digest
  if C.hash data ≠ digest then throw (.integrity digest)

/-- The bytes are in the file of their digest. -/
def Holds (b : Bytes) : Prop := r.blobs.get? (C.hexOf b) = some b

/-- Every file holds bytes of its digest. -/
def Addressed : Prop := ∀ path b, r.blobs.get? path = some b → C.hexOf b = path

variable {C r}

theorem blobPath_hash (hC : C.Lawful) (b : Bytes) : blobPath (C.hash b) = .ok (C.hexOf b) :=
  blobPath_eq_ok.2 ⟨rfl, hC.hex_ne_empty b⟩

/-- What a layout holds after a blob is put. -/
theorem get?_putBlob (hC : C.Lawful) (haddr : r.Addressed C) (blob : Blob Bytes) (path : String) :
    (r.putBlob C blob).blobs.get? path =
      if path = C.hexOf blob.data then some blob.data else r.blobs.get? path := by
  rw [putBlob]
  split_ifs with hsome hpath hpath
  · obtain ⟨b, hb⟩ := Option.isSome_iff_exists.mp hsome
    rw [hpath, hb, hC.hex_injective (haddr _ _ hb)]
  · rfl
  · rw [Dict.get?_set, if_pos hpath]
  · rw [Dict.get?_set, if_neg hpath]

@[simp]
theorem index_putBlob (blob : Blob Bytes) : (r.putBlob C blob).index = r.index := by
  rw [putBlob]
  split_ifs
  · rfl
  · rfl

theorem addressed_putBlob (hC : C.Lawful) (haddr : r.Addressed C) (blob : Blob Bytes) :
    (r.putBlob C blob).Addressed C := by
  intro path b hb
  rw [get?_putBlob hC haddr] at hb
  split_ifs at hb with hpath
  · rw [hpath, Option.some.inj hb]
  · exact haddr path b hb

theorem holds_putBlob (hC : C.Lawful) (haddr : r.Addressed C) {blob : Blob Bytes} {b : Bytes} :
    (r.putBlob C blob).Holds C b ↔ b = blob.data ∨ r.Holds C b := by
  rw [Holds, get?_putBlob hC haddr]
  by_cases heq : b = blob.data
  · rw [if_pos (by rw [heq]), heq]
    exact ⟨fun _ => .inl rfl, fun _ => rfl⟩
  · rw [if_neg fun h => heq (hC.hex_injective h)]
    exact ⟨.inr, fun h => h.resolve_left heq⟩

theorem readBlob_eq_ok {digest : String} {b : Bytes} : r.readBlob digest = .ok b ↔
    ∃ path, blobPath digest = .ok path ∧ r.blobs.get? path = some b := by
  rw [readBlob, bind_eq_ok]
  refine exists_congr fun path => and_congr_right fun _ => ?_
  cases r.blobs.get? path with
  | none => exact ⟨fun h => (by cases h), fun h => (by cases h)⟩
  | some b' => exact ⟨fun h => congrArg some (Except.ok.inj h), fun h => by rw [Option.some.inj h]; rfl⟩

theorem readBlob_of_holds (hC : C.Lawful) {b : Bytes} (h : r.Holds C b) :
    r.readBlob (C.hash b) = .ok b :=
  readBlob_eq_ok.2 ⟨_, blobPath_hash hC b, h⟩

theorem verifyBlob_eq_ok {digest : String} :
    r.verifyBlob C digest = .ok () ↔ ∃ b, r.readBlob digest = .ok b ∧ C.hash b = digest := by
  rw [verifyBlob, bind_eq_ok]
  refine exists_congr fun b => and_congr_right fun _ => ?_
  by_cases h : C.hash b = digest
  · rw [if_neg (not_not.mpr h)]
    exact ⟨fun _ => h, fun _ => rfl⟩
  · rw [if_pos h]
    exact ⟨fun hthrow => (by cases hthrow), fun heq => absurd heq h⟩

end Registry

end AstroMine.Hub
