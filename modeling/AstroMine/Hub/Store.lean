import AstroMine.Hub.Oci

/-!
# The registry (`hub/registry/_store.py`)

Publishing, attaching and resolving over an image layout. A call gives the layout as it leaves it,
and what it returns or raises; `publishCut` and `attachCut` are the calls that something raises in
while they write their blobs. Configs are taken as the bytes that are written.

Results:
* `WellFormed`: the invariant of a layout, `wellFormed_publish`, `wellFormed_attach`.
* `publish_cases`, `attach_cases`: what a call does.
* `resolve_eq_ok_iff`: what a reference resolves to.
-/

namespace AstroMine.Hub

variable {Bytes : Type} (C : Content Bytes)

/-- The manifest at a digest as a blob (`canonical_manifest`, `_oci.py`, lines 264–266). -/
def manifestBlob (manifest : ImageManifest) : Blob Bytes := ⟨mediaManifest, C.render manifest⟩

/-- The arguments of `publish`. -/
structure PublishArgs (Bytes : Type) where
  name : String
  version : String
  kind : String
  config : Bytes
  configMediaType : String := mediaCoreManifest
  layers : List (Blob Bytes)
  annotations : Dict String String

namespace PublishArgs

variable (args : PublishArgs Bytes)

/-- The reference that is published. -/
def reference : String := joined args.name args.version

/-- The blobs of the config and the layers, in the order they are written. -/
def blobs : List (Blob Bytes) := ⟨args.configMediaType, args.config⟩ :: args.layers

/-- The image manifest that is published (lines 144–152). -/
def manifest (artifactType : String) : ImageManifest where
  artifactType := some artifactType
  config := some (Blob.descriptor C ⟨args.configMediaType, args.config⟩)
  layers := some (args.layers.map (Blob.descriptor C))
  subject := none
  annotations := args.annotations

/-- The index entry of the artifact (lines 155–157). -/
def entry (artifactType : String) : Descriptor :=
  { (manifestBlob C (args.manifest C artifactType)).descriptor C with
    artifactType := some artifactType
    annotations := Dict.empty.set refAnnotation args.reference }

/-- The digest of the manifest that is published. -/
def digest : String :=
  C.hash (C.render (args.manifest C ((artifactMediaType args.kind).toOption.getD "")))

end PublishArgs

/-- `PublishedArtifact`. -/
structure PublishedArtifact where
  name : String
  version : String
  reference : String
  digest : String
  deriving DecidableEq

/-- The arguments of `attach`. -/
structure AttachArgs (Bytes : Type) where
  subject : String
  artifactType : String
  blob : Blob Bytes
  annotations : Dict String String

namespace AttachArgs

variable (args : AttachArgs Bytes)

/-- The blobs that are written before the referrer. -/
def blobs : List (Blob Bytes) := [⟨mediaEmpty, C.emptyConfig⟩, args.blob]

/-- The referrer manifest, on a subject of this size (lines 213–226). -/
def manifest (subjectSize : ℕ) : ImageManifest where
  artifactType := some args.artifactType
  config := some (Blob.descriptor C ⟨mediaEmpty, C.emptyConfig⟩)
  layers := some [args.blob.descriptor C]
  subject := some ⟨mediaManifest, args.subject, subjectSize, none, .empty⟩
  annotations := args.annotations

/-- The index entry of the referrer (lines 228–229). -/
def entry (subjectSize : ℕ) : Descriptor :=
  { (manifestBlob C (args.manifest C subjectSize)).descriptor C with
    artifactType := some args.artifactType }

end AttachArgs

/-! ## References -/

/-- `s.startswith("sha256:")`. -/
def isDigest (s : String) : Bool := "sha256:".toList.isPrefixOf s.toList

/-- `_parse_reference` (lines 78–94): a name and a version, or a digest. -/
def parseReference (reference : String) : Except StoreError ((String × String) ⊕ String) :=
  if isDigest reference then .ok (.inr reference)
  else if '@' ∈ reference.toList then
    match partition '@' reference with
    | none => .error (.malformedReference reference)
    | some (name, digest) =>
      if name = "" ∨ ¬ isDigest digest then .error (.malformedReference reference)
      else .ok (.inr digest)
  else
    match partition ':' reference with
    | none => .error (.malformedReference reference)
    | some (name, version) =>
      if name = "" ∨ version = "" then .error (.malformedReference reference)
      else .ok (.inl (name, version))

namespace Registry

variable (r : Registry Bytes)

/-! ## The calls -/

/-- The entry of a tag. -/
def findTag (reference : String) : Option Descriptor :=
  r.index.find? fun entry => entry.refName = some reference

/-- `Registry.publish` (lines 115–161). -/
def publish (args : PublishArgs Bytes) : Registry Bytes × Except StoreError PublishedArtifact :=
  if r.index.any fun entry => entry.refName = some args.reference then
    (r, .error (.artifactExists args.reference))
  else
    let stored := args.blobs.foldl (putBlob C) r
    match artifactMediaType args.kind with
    | .error e => (stored, .error e)
    | .ok artifactType =>
      let stored := stored.putBlob C (manifestBlob C (args.manifest C artifactType))
      ({ stored with index := stored.index ++ [args.entry C artifactType] },
        .ok ⟨args.name, args.version, args.reference, (args.entry C artifactType).digest⟩)

/-- The blobs that a `publish` writes, in order. -/
def publishWrites (args : PublishArgs Bytes) : List (Blob Bytes) :=
  if r.index.any fun entry => entry.refName = some args.reference then []
  else
    match artifactMediaType args.kind with
    | .error _ => args.blobs
    | .ok artifactType => args.blobs ++ [manifestBlob C (args.manifest C artifactType)]

/-- A `publish` that something raises in behind some of its writes. -/
def publishCut (args : PublishArgs Bytes) (writes : ℕ) : Registry Bytes :=
  ((r.publishWrites C args).take writes).foldl (putBlob C) r

/-- The size of the file of a digest. -/
def blobSize (digest : String) : ℕ :=
  ((r.readBlob digest).toOption.map C.sizeOf).getD 0

/-- `Registry.attach` (lines 195–233). -/
def attach (args : AttachArgs Bytes) : Registry Bytes × Except StoreError Descriptor :=
  match r.hasBlob args.subject with
  | .error e => (r, .error e)
  | .ok false => (r, .error (.artifactNotFound args.subject))
  | .ok true =>
    let stored := (args.blobs C).foldl (putBlob C) r
    let size := stored.blobSize C args.subject
    let stored := stored.putBlob C (manifestBlob C (args.manifest C size))
    ({ stored with index := stored.index ++ [args.entry C size] },
      .ok ((manifestBlob C (args.manifest C size)).descriptor C))

/-- An `attach` that something raises in behind some of its writes. -/
def attachCut (args : AttachArgs Bytes) (writes : ℕ) : Registry Bytes :=
  match r.hasBlob args.subject with
  | .ok true =>
    let stored := (args.blobs C).foldl (putBlob C) r
    let blob := manifestBlob C (args.manifest C (stored.blobSize C args.subject))
    ((args.blobs C ++ [blob]).take writes).foldl (putBlob C) r
  | _ => r

/-- `Registry.resolve` (lines 163–178). -/
def resolve (reference : String) : Except StoreError Descriptor := do
  match ← parseReference reference with
  | .inr digest =>
    if ← r.hasBlob digest then
      return ⟨mediaManifest, digest, r.blobSize C digest, none, .empty⟩
    else throw (.artifactNotFound reference)
  | .inl (name, version) =>
    match r.findTag (joined name version) with
    | some entry => return entry
    | none => throw (.artifactNotFound reference)

/-- `Registry.read_manifest` (lines 180–183). -/
def readManifest (digest : String) : Except StoreError ImageManifest := do
  let data ← r.readBlob digest
  match C.parse data with
  | some manifest => return manifest
  | none => throw (.unreadable digest)

/-- `manifest["config"]`, of the manifest at a digest. -/
def configOf (digest : String) (manifest : ImageManifest) : Except StoreError Descriptor :=
  match manifest.config with
  | some config => .ok config
  | none => .error (.unreadable digest)

/-- `manifest["layers"]`, of the manifest at a digest. -/
def layersOf (digest : String) (manifest : ImageManifest) : Except StoreError (List Descriptor) :=
  match manifest.layers with
  | some layers => .ok layers
  | none => .error (.unreadable digest)

/-- `Registry.read_config` (lines 189–191). -/
def readConfig (digest : String) : Except StoreError Bytes := do
  let manifest ← r.readManifest C digest
  let config ← configOf digest manifest
  r.readBlob config.digest

/-- `Registry.referrers` (lines 235–246). -/
def referrers (subject : String) (artifactType : Option String) :
    Except StoreError (List Descriptor) :=
  filterE (fun entry => do
    let manifest ← r.readManifest C entry.digest
    return decide (manifest.subjectDigest = some subject) &&
      decide (artifactType = none ∨ manifest.artifactType = artifactType)) r.index

/-- `Registry.references` (lines 250–257). -/
def references : List String := sortOn id (r.index.filterMap Descriptor.refName)

/-- `Registry.versions` (lines 259–262). -/
def versions (name : String) : List String :=
  sortOn id ((r.references.filter fun ref => (name ++ ":").toList.isPrefixOf ref.toList).map
    fun ref => String.ofList (ref.toList.drop (name ++ ":").toList.length))

/-- `Registry.verify` (lines 266–271). -/
def verify (digest : String) : Except StoreError Unit := do
  r.verifyBlob C digest
  let manifest ← r.readManifest C digest
  let config ← configOf digest manifest
  let layers ← layersOf digest manifest
  (config :: layers).forM fun descriptor => r.verifyBlob C descriptor.digest

variable {C r}

theorem findTag_eq_some {tag : String} {e : Descriptor} (h : r.findTag tag = some e) :
    e ∈ r.index ∧ e.refName = some tag := by
  rw [findTag] at h
  have hname := List.find?_some h
  exact ⟨List.mem_of_find?_eq_some h, of_decide_eq_true hname⟩

/-- A reference resolves to the digest that it is, or to the entry of its tag. -/
theorem resolve_eq_ok_iff {reference : String} {d : Descriptor} : r.resolve C reference = .ok d ↔
    (∃ digest, parseReference reference = .ok (.inr digest) ∧ r.hasBlob digest = .ok true ∧
      d = ⟨mediaManifest, digest, r.blobSize C digest, none, .empty⟩) ∨
    ∃ name version, parseReference reference = .ok (.inl (name, version)) ∧
      r.findTag (joined name version) = some d := by
  rw [resolve, bind_eq_ok]
  constructor
  · rintro ⟨⟨name, version⟩ | digest, hparse, h⟩
    · refine .inr ⟨name, version, hparse, ?_⟩
      cases htag : r.findTag (joined name version) with
      | none =>
        simp only [htag] at h
        cases h
      | some entry =>
        simp only [htag] at h
        rw [Except.ok.inj h]
    · obtain ⟨present, hpresent, h⟩ := bind_eq_ok.1 h
      cases present with
      | false => cases h
      | true => exact .inl ⟨digest, hparse, hpresent, (Except.ok.inj h).symm⟩
  · rintro (⟨digest, hparse, hpresent, rfl⟩ | ⟨name, version, hparse, htag⟩)
    · refine ⟨_, hparse, bind_eq_ok.2 ⟨true, hpresent, rfl⟩⟩
    · refine ⟨_, hparse, ?_⟩
      simp only [htag]
      rfl

end Registry

/-! ## The invariant -/

/-- The manifest of an entry: complete, and its blobs go by their hashes. -/
structure ImageManifest.Sealed (manifest : ImageManifest) : Prop where
  config : manifest.config.isSome
  layers : manifest.layers.isSome
  parts : ∀ d ∈ manifest.parts, ∃ b, d.digest = C.hash b

namespace Registry

/-- The invariant of a layout: every file holds bytes of its digest, every entry is the manifest it
is called after, the blobs of a tagged manifest are there, and a tag is a name with a version and
given once. -/
structure WellFormed (r : Registry Bytes) : Prop where
  addressed : r.Addressed C
  entries : ∀ e ∈ r.index, ∃ manifest : ImageManifest, manifest.Sealed C ∧
    e.digest = C.hash (C.render manifest) ∧ r.Holds C (C.render manifest)
  tagged : ∀ e ∈ r.index, e.refName.isSome → ∀ manifest : ImageManifest,
    e.digest = C.hash (C.render manifest) → ∀ d ∈ manifest.parts, ∃ b, d.digest = C.hash b ∧ r.Holds C b
  named : ∀ e ∈ r.index, ∀ tag, e.refName = some tag → ∃ name version, tag = joined name version
  tags : (r.index.filterMap Descriptor.refName).Nodup

variable {C} {r : Registry Bytes}

theorem wellFormed_empty : (empty : Registry Bytes).WellFormed C := by
  refine ⟨?_, ?_, ?_, ?_, List.nodup_nil⟩
  · intro path b h
    cases h
  · intro e he
    cases he
  · intro e he
    cases he
  · intro e he
    cases he

theorem wellFormed_putBlob (hC : C.Lawful) (h : r.WellFormed C) (blob : Blob Bytes) :
    (r.putBlob C blob).WellFormed C := by
  have hkeep : ∀ b, r.Holds C b → (r.putBlob C blob).Holds C b :=
    fun b hb => (holds_putBlob hC h.addressed).mpr (.inr hb)
  refine ⟨addressed_putBlob hC h.addressed blob, ?_, ?_, ?_, ?_⟩
  · intro e he
    rw [index_putBlob] at he
    obtain ⟨manifest, hsealed, hdigest, hholds⟩ := h.entries e he
    exact ⟨manifest, hsealed, hdigest, hkeep _ hholds⟩
  · intro e he htag manifest hdigest d hd
    rw [index_putBlob] at he
    obtain ⟨b, hb, hholds⟩ := h.tagged e he htag manifest hdigest d hd
    exact ⟨b, hb, hkeep _ hholds⟩
  · rw [index_putBlob]
    exact h.named
  · rw [index_putBlob]
    exact h.tags

theorem wellFormed_putAll (hC : C.Lawful) (h : r.WellFormed C) (blobs : List (Blob Bytes)) :
    (blobs.foldl (putBlob C) r).WellFormed C :=
  List.foldlRecOn blobs (putBlob C) h fun _ hr blob _ => wellFormed_putBlob hC hr blob

@[simp]
theorem index_putAll (blobs : List (Blob Bytes)) :
    (blobs.foldl (putBlob C) r).index = r.index := by
  induction blobs generalizing r with
  | nil => rfl
  | cons blob blobs ih => rw [List.foldl_cons, ih, index_putBlob]

/-- What a layout holds after some blobs are put. -/
theorem holds_putAll (hC : C.Lawful) (h : r.WellFormed C) (blobs : List (Blob Bytes)) (b : Bytes) :
    (blobs.foldl (putBlob C) r).Holds C b ↔ (∃ blob ∈ blobs, b = blob.data) ∨ r.Holds C b := by
  induction blobs generalizing r with
  | nil => simp
  | cons blob blobs ih =>
    rw [List.foldl_cons, ih (wellFormed_putBlob hC h blob), holds_putBlob hC h.addressed,
      List.exists_mem_cons_iff, or_assoc]
    exact or_left_comm

/-- An entry is added whose manifest is there, and its blobs if it is tagged. -/
theorem wellFormed_addEntry (hC : C.Lawful) (h : r.WellFormed C) {e : Descriptor}
    {manifest : ImageManifest} (hsealed : manifest.Sealed C)
    (hdigest : e.digest = C.hash (C.render manifest)) (hholds : r.Holds C (C.render manifest))
    (hparts : e.refName.isSome → ∀ d ∈ manifest.parts, ∃ b, d.digest = C.hash b ∧ r.Holds C b)
    (hnamed : ∀ tag, e.refName = some tag → ∃ name version, tag = joined name version)
    (hnew : ∀ e' ∈ r.index, e.refName.isSome → e'.refName ≠ e.refName) :
    ({ r with index := r.index ++ [e] } : Registry Bytes).WellFormed C := by
  refine ⟨h.addressed, ?_, ?_, ?_, ?_⟩
  · intro e' he'
    rcases List.mem_append.mp he' with he' | he'
    · exact h.entries e' he'
    · rw [List.mem_singleton.mp he']
      exact ⟨manifest, hsealed, hdigest, hholds⟩
  · intro e' he' htag manifest' hdigest' d hd
    rcases List.mem_append.mp he' with he' | he'
    · exact h.tagged e' he' htag manifest' hdigest' d hd
    · rw [List.mem_singleton.mp he'] at htag hdigest'
      have hrender := hC.hash_inj.1 (hdigest'.symm.trans hdigest)
      have hsame := congrArg C.parse hrender
      rw [hC.parse_render, hC.parse_render, Option.some.injEq] at hsame
      rw [hsame] at hd
      exact hparts htag d hd
  · intro e' he' tag htag
    rcases List.mem_append.mp he' with he' | he'
    · exact h.named e' he' tag htag
    · rw [List.mem_singleton.mp he'] at htag
      exact hnamed tag htag
  · rw [List.filterMap_append, List.nodup_append']
    refine ⟨h.tags, ?_, ?_⟩
    · cases htag : e.refName with
      | none => simp [htag]
      | some t => simp [htag]
    · intro t ht ht'
      rw [List.mem_filterMap] at ht ht'
      obtain ⟨e₁, he₁, ht₁⟩ := ht
      obtain ⟨e₂, he₂, ht₂⟩ := ht'
      rw [List.mem_singleton.mp he₂] at ht₂
      exact hnew e₁ he₁ (by rw [ht₂]; rfl) (ht₁.trans ht₂.symm)

/-! ## Publishing -/

theorem sealed_publish (args : PublishArgs Bytes) (artifactType : String) :
    (args.manifest C artifactType).Sealed C := by
  refine ⟨rfl, rfl, ?_⟩
  intro d hd
  simp only [ImageManifest.parts, PublishArgs.manifest, Option.toList_some, Option.getD_some,
    List.singleton_append, List.mem_cons, List.mem_map] at hd
  rcases hd with rfl | ⟨blob, -, rfl⟩
  · exact ⟨args.config, rfl⟩
  · exact ⟨blob.data, rfl⟩

theorem parts_publish (args : PublishArgs Bytes) (artifactType : String) :
    (args.manifest C artifactType).parts = args.blobs.map (Blob.descriptor C) := rfl

theorem refName_publish (args : PublishArgs Bytes) (artifactType : String) :
    (args.entry C artifactType).refName = some args.reference := by
  simp [Descriptor.refName, PublishArgs.entry, Dict.get?_set]

/-- The layout behind the writes of a `publish`. -/
def stored (C : Content Bytes) (r : Registry Bytes) (args : PublishArgs Bytes)
    (artifactType : String) : Registry Bytes :=
  (args.blobs ++ [manifestBlob C (args.manifest C artifactType)]).foldl (putBlob C) r

theorem any_refName_iff (reference : String) :
    (r.index.any fun entry => entry.refName = some reference) = true ↔
      ∃ e ∈ r.index, e.refName = some reference := by
  simp

/-- What a `publish` does: it is refused for its tag, or for its kind behind some writes, or the
artifact is there. -/
theorem publish_cases (args : PublishArgs Bytes) :
    ((∃ e ∈ r.index, e.refName = some args.reference) ∧
      r.publish C args = (r, .error (.artifactExists args.reference))) ∨
    ((∀ e ∈ r.index, e.refName ≠ some args.reference) ∧
      ((∃ e, artifactMediaType args.kind = .error e ∧
          r.publish C args = (args.blobs.foldl (putBlob C) r, .error e)) ∨
        ∃ artifactType, artifactMediaType args.kind = .ok artifactType ∧
          r.publish C args =
            ({ r.stored C args artifactType with
                index := r.index ++ [args.entry C artifactType] },
              .ok ⟨args.name, args.version, args.reference,
                (args.entry C artifactType).digest⟩))) := by
  rw [publish]
  by_cases hany : (r.index.any fun entry => entry.refName = some args.reference) = true
  · rw [if_pos hany]
    exact .inl ⟨(any_refName_iff _).mp hany, rfl⟩
  · rw [if_neg hany]
    refine .inr ⟨fun e he hr => hany ((any_refName_iff _).mpr ⟨e, he, hr⟩), ?_⟩
    cases hkind : artifactMediaType args.kind with
    | error e => exact .inl ⟨e, rfl, rfl⟩
    | ok artifactType =>
      refine .inr ⟨artifactType, rfl, ?_⟩
      simp only [stored, List.foldl_append, List.foldl_cons, List.foldl_nil, index_putBlob,
        index_putAll]

theorem wellFormed_publish (hC : C.Lawful) (h : r.WellFormed C) (args : PublishArgs Bytes) :
    (r.publish C args).1.WellFormed C := by
  rcases publish_cases (C := C) (r := r) args with
    ⟨-, heq⟩ | ⟨hnew, ⟨e, -, heq⟩ | ⟨artifactType, -, heq⟩⟩
  · rw [heq]
    exact h
  · rw [heq]
    exact wellFormed_putAll hC h args.blobs
  · rw [heq]
    have hstored : (r.stored C args artifactType).WellFormed C := wellFormed_putAll hC h _
    have hindex : (r.stored C args artifactType).index = r.index := index_putAll _
    have hholds : ∀ blob ∈ args.blobs ++ [manifestBlob C (args.manifest C artifactType)],
        (r.stored C args artifactType).Holds C blob.data :=
      fun blob hblob => (holds_putAll hC h _ _).mpr (.inl ⟨blob, hblob, rfl⟩)
    rw [← hindex]
    refine wellFormed_addEntry hC hstored (sealed_publish args artifactType) rfl
      (hholds (manifestBlob C (args.manifest C artifactType))
        (List.mem_append_right _ List.mem_cons_self)) ?_ ?_ ?_
    · intro _ d hd
      rw [parts_publish, List.mem_map] at hd
      obtain ⟨blob, hblob, rfl⟩ := hd
      exact ⟨blob.data, rfl, hholds blob (List.mem_append_left _ hblob)⟩
    · intro tag htag
      rw [refName_publish] at htag
      exact ⟨args.name, args.version, (Option.some.inj htag).symm⟩
    · intro e' he' _
      rw [hindex] at he'
      rw [refName_publish]
      exact hnew e' he'

theorem wellFormed_publishCut (hC : C.Lawful) (h : r.WellFormed C) (args : PublishArgs Bytes)
    (writes : ℕ) : (r.publishCut C args writes).WellFormed C :=
  wellFormed_putAll hC h _

/-! ## Attaching -/

theorem sealed_attach (args : AttachArgs Bytes) (size : ℕ) : (args.manifest C size).Sealed C := by
  refine ⟨rfl, rfl, ?_⟩
  intro d hd
  simp only [ImageManifest.parts, AttachArgs.manifest, Option.toList_some, Option.getD_some,
    List.singleton_append, List.mem_cons, List.not_mem_nil, or_false] at hd
  rcases hd with rfl | rfl
  · exact ⟨C.emptyConfig, rfl⟩
  · exact ⟨args.blob.data, rfl⟩

theorem refName_attach (args : AttachArgs Bytes) (size : ℕ) : (args.entry C size).refName = none :=
  rfl

/-- What an `attach` does: it is refused and changes nothing, or the referrer is there. -/
theorem attach_cases (args : AttachArgs Bytes) :
    (∃ e, r.attach C args = (r, .error e)) ∨
    (r.hasBlob args.subject = .ok true ∧ ∃ size,
      r.attach C args =
        ({ (args.blobs C ++ [manifestBlob C (args.manifest C size)]).foldl (putBlob C) r with
            index := r.index ++ [args.entry C size] },
          .ok ((manifestBlob C (args.manifest C size)).descriptor C))) := by
  rw [attach]
  cases hsubject : r.hasBlob args.subject with
  | error e => exact .inl ⟨e, rfl⟩
  | ok present =>
    cases present with
    | false => exact .inl ⟨_, rfl⟩
    | true =>
      refine .inr ⟨rfl, ((args.blobs C).foldl (putBlob C) r).blobSize C args.subject, ?_⟩
      simp only [List.foldl_append, List.foldl_cons, List.foldl_nil, index_putBlob, index_putAll]

theorem wellFormed_attach (hC : C.Lawful) (h : r.WellFormed C) (args : AttachArgs Bytes) :
    (r.attach C args).1.WellFormed C := by
  rcases attach_cases (C := C) (r := r) args with ⟨e, heq⟩ | ⟨-, size, heq⟩
  · rw [heq]
    exact h
  · rw [heq]
    set blobs := args.blobs C ++ [manifestBlob C (args.manifest C size)] with hblobs
    have hindex : (blobs.foldl (putBlob C) r).index = r.index := index_putAll _
    have hholds : (blobs.foldl (putBlob C) r).Holds C (C.render (args.manifest C size)) :=
      (holds_putAll hC h _ _).mpr (.inl ⟨_, List.mem_append_right _ List.mem_cons_self, rfl⟩)
    rw [← hindex]
    refine wellFormed_addEntry hC (wellFormed_putAll hC h blobs) (sealed_attach args size) rfl
      hholds ?_ ?_ ?_
    · intro htag
      cases htag
    · intro tag htag
      cases htag
    · intro e' _ htag
      cases htag

theorem wellFormed_attachCut (hC : C.Lawful) (h : r.WellFormed C) (args : AttachArgs Bytes)
    (writes : ℕ) : (r.attachCut C args writes).WellFormed C := by
  unfold attachCut
  split
  · exact wellFormed_putAll hC h _
  · exact h

end Registry

end AstroMine.Hub
