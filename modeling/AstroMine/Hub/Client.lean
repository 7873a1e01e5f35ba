import AstroMine.Hub.SupplyChain

/-!
# Reading through the client (`HubClient`, `hub/client/_client.py`)

The calls that read an artifact, over a registry and the files that clients keep. The cache of a
client is a directory; a file goes by its directory and its name. A call leaves files, and returns or
raises. `pull` takes a file of the cache as it is, and its file goes by the digest of the manifest;
the payload calls hash what they take.

Results:
* `good_iff`: when one call delivers what the manifest commits to.
* `findsClean_of_startsClean`: a condition on the files and the calls under which each call does.
* `reads_good_iff`: a sequence of calls delivers what the manifests commit to exactly if it finds no
  other file at the places that are read unhashed.
-/

namespace AstroMine.Hub

/-! ## The client -/

/-- What a client is given (`__init__`, lines 85–98). -/
structure HubClient (Key : Type) where
  cacheDir : Option String
  trustedKey : Option Key

/-- The place of a file: its directory and its name. -/
abbrev Place : Type := String × String

/-- Files by their places. -/
abbrev Files (Bytes : Type) : Type := Dict Place Bytes

/-- What a call can raise. -/
inductive ClientError
  | store (error : StoreError)
  | supplyChain (error : SupplyChainError)
  | noName (digest : String)
  | integrity (digest : String)
  | notALayer (digest reference : String)
  | noTarget
  deriving DecidableEq

/-- `digest.split(":", 1)[1]`: the name of the file of a digest. -/
def fileName (digest : String) : Except ClientError String :=
  match partition ':' digest with
  | some (_, name) => .ok name
  | none => .error (.noName digest)

/-- A file is written unless there is one. -/
def Files.keep {Bytes : Type} (files : Files Bytes) (place : Place) (data : Bytes) : Files Bytes :=
  if (files.get? place).isSome then files else files.set place data

/-- The same, if there is a place. -/
def Files.keepAt {Bytes : Type} (files : Files Bytes) (place : Option Place) (data : Bytes) :
    Files Bytes :=
  match place with
  | some place => files.keep place data
  | none => files

/-- What a file that was not there holds is one of these, and the files that were there stay. -/
structure Files.Grows {Bytes : Type} (files files' : Files Bytes) (written : Place → Bytes → Prop) :
    Prop where
  kept : ∀ place data, files.get? place = some data → files'.get? place = some data
  new : ∀ place data, files'.get? place = some data →
    files.get? place = some data ∨ written place data

namespace Files

variable {Bytes : Type} {files files₁ files₂ : Files Bytes} {written written' : Place → Bytes → Prop}

theorem Grows.refl : Grows files files written := ⟨fun _ _ h => h, fun _ _ h => .inl h⟩

theorem Grows.trans (h₁ : Grows files files₁ written) (h₂ : Grows files₁ files₂ written) :
    Grows files files₂ written := by
  refine ⟨fun place data h => h₂.kept place data (h₁.kept place data h), ?_⟩
  intro place data h
  rcases h₂.new place data h with h | h
  · exact h₁.new place data h
  · exact .inr h

theorem Grows.mono (h : Grows files files₁ written)
    (hw : ∀ place data, written place data → written' place data) :
    Grows files files₁ written' :=
  ⟨h.kept, fun place data hd => (h.new place data hd).imp_right (hw place data)⟩

theorem get?_keep (place : Place) (data : Bytes) (p : Place) : (files.keep place data).get? p =
    if p = place then some ((files.get? place).getD data) else files.get? p := by
  rw [keep]
  by_cases hp : p = place
  · subst hp
    rw [if_pos rfl]
    cases h : files.get? p with
    | none =>
      rw [if_neg (by simp), Dict.get?_set, if_pos rfl]
      rfl
    | some data' =>
      rw [if_pos (by simp), h]
      rfl
  · rw [if_neg hp]
    split_ifs
    · rfl
    · rw [Dict.get?_set, if_neg hp]

theorem grows_keep {place : Place} {data : Bytes} (h : written place data) :
    Grows files (files.keep place data) written := by
  refine ⟨?_, ?_⟩
  · intro p d hd
    rw [get?_keep]
    split_ifs with hp
    · rw [← hp, hd]
      rfl
    · exact hd
  · intro p d hd
    rw [get?_keep] at hd
    split_ifs at hd with hp
    · subst hp
      cases hold : files.get? p with
      | none =>
        rw [hold] at hd
        rw [← Option.some.inj hd]
        exact .inr h
      | some d' =>
        rw [hold] at hd
        exact .inl hd
    · exact .inl hd

theorem grows_keepAt {place : Option Place} {data : Bytes}
    (h : ∀ p, place = some p → written p data) : Grows files (files.keepAt place data) written := by
  cases place with
  | none => exact .refl
  | some p => exact grows_keep (h p rfl)

end Files

/-- What a payload call is asked for, besides the reference: `media_type`, `verify`, `require`. -/
structure Ask where
  mediaType : Option String := none
  verify : Bool := true
  require : List String := defaultRequired

/-- The layers of the media type that is asked for (lines 243–245). -/
def Ask.selected (ask : Ask) (layers : List Descriptor) : List Descriptor :=
  layers.filter fun layer => ask.mediaType = none ∨ some layer.mediaType = ask.mediaType

namespace HubClient

variable {Bytes Key : Type} (C : Content Bytes) (E : Evidence Bytes Key) (client : HubClient Key)
  (r : Registry Bytes)

/-- `_cache_path` (lines 167–168). -/
def cachePath (digest : String) : Except ClientError (Option Place) :=
  match client.cacheDir with
  | none => .ok none
  | some dir => (fileName digest).map fun name => some (dir, name)

/-- `_verified_digest` (lines 181–191). -/
def verifiedDigest (reference : String) (verify : Bool) (require : List String) :
    Except ClientError String := do
  let d ← (r.resolve C reference).mapError ClientError.store
  runIf (verify = true)
    ((r.supplyVerify C E d.digest client.trustedKey require).mapError .supplyChain)
  return d.digest

/-- `registry.verify`, then `registry.read_config`. -/
def verifiedConfig (digest : String) : Except ClientError Bytes :=
  (do
    r.verify C digest
    r.readConfig C digest : Except StoreError Bytes).mapError .store

/-- `pull` (lines 193–209) behind its check. -/
def pullAt (files : Files Bytes) (digest : String) (cached : Option Place) :
    Files Bytes × Except ClientError Bytes :=
  match cached.bind files.get? with
  | some data => (files, .ok data)
  | none =>
    match verifiedConfig C r digest with
    | .error e => (files, .error e)
    | .ok config => (files.keepAt cached config, .ok config)

/-- `pull` (lines 193–209). -/
def pull (files : Files Bytes) (reference : String) (verify : Bool) (require : List String) :
    Files Bytes × Except ClientError Bytes :=
  match client.verifiedDigest C E r reference verify require with
  | .error e => (files, .error e)
  | .ok digest =>
    match client.cachePath digest with
    | .error e => (files, .error e)
    | .ok cached => pullAt C r files digest cached

/-- `payload_descriptors` (lines 226–245). -/
def payloadDescriptors (reference : String) (ask : Ask) : Except ClientError (List Descriptor) := do
  let digest ← client.verifiedDigest C E r reference ask.verify ask.require
  let manifest ← (r.readManifest C digest).mapError ClientError.store
  let layers ← (Registry.layersOf digest manifest).mapError ClientError.store
  return ask.selected layers

/-- The bytes that are taken for a layer, before they are hashed. -/
def takenBytes (files : Files Bytes) (digest : String) (cached : Option Place) :
    Except ClientError Bytes :=
  match cached.bind files.get? with
  | some data => .ok data
  | none => (r.readBlob digest).mapError .store

/-- `_verified_bytes` (lines 247–268). -/
def verifiedBytes (files : Files Bytes) (descriptor : Descriptor) :
    Files Bytes × Except ClientError Bytes :=
  match client.cachePath descriptor.digest with
  | .error e => (files, .error e)
  | .ok cached =>
    match takenBytes r files descriptor.digest cached with
    | .error e => (files, .error e)
    | .ok data =>
      if C.hash data = descriptor.digest then (files.keepAt cached data, .ok data)
      else (files, .error (.integrity descriptor.digest))

/-- `_verified_bytes` of each of the layers. -/
def verifiedLayers (files : Files Bytes) :
    List Descriptor → Files Bytes × Except ClientError (List (Descriptor × Bytes))
  | [] => (files, .ok [])
  | descriptor :: rest =>
    match client.verifiedBytes C r files descriptor with
    | (files, .error e) => (files, .error e)
    | (files, .ok data) =>
      match verifiedLayers files rest with
      | (files, .error e) => (files, .error e)
      | (files, .ok layers) => (files, .ok ((descriptor, data) :: layers))

/-- `pull_payload` (lines 270–290). -/
def pullPayload (files : Files Bytes) (reference : String) (ask : Ask) :
    Files Bytes × Except ClientError (List (Descriptor × Bytes)) :=
  match client.payloadDescriptors C E r reference ask with
  | .error e => (files, .error e)
  | .ok descriptors => client.verifiedLayers C r files descriptors

/-- `pull_layer` (lines 292–310). -/
def pullLayer (files : Files Bytes) (reference digest : String) (ask : Ask) :
    Files Bytes × Except ClientError Bytes :=
  match client.payloadDescriptors C E r reference { ask with mediaType := none } with
  | .error e => (files, .error e)
  | .ok descriptors =>
    match descriptors.find? fun descriptor => descriptor.digest = digest with
    | some descriptor => client.verifiedBytes C r files descriptor
    | none => (files, .error (.notALayer digest reference))

/-- The loop of `materialize` (lines 333–340). -/
def placeLayers (target : String) (files : Files Bytes) :
    List (Descriptor × Bytes) → Files Bytes × Except ClientError (List Place)
  | [] => (files, .ok [])
  | (descriptor, data) :: rest =>
    match fileName descriptor.digest with
    | .error e => (files, .error e)
    | .ok name =>
      match placeLayers target (files.keep (target, name) data) rest with
      | (files, .error e) => (files, .error e)
      | (files, .ok places) => (files, .ok ((target, name) :: places))

/-- `materialize` (lines 312–341). -/
def materialize (files : Files Bytes) (reference : String) (dest : Option String) (ask : Ask) :
    Files Bytes × Except ClientError (List Place) :=
  match dest.or client.cacheDir with
  | none => (files, .error .noTarget)
  | some target =>
    match client.pullPayload C E r files reference ask with
    | (files, .error e) => (files, .error e)
    | (files, .ok layers) => placeLayers target files layers

/-! ## Sequences of calls -/

/-- A call that reads. -/
inductive Call
  | pull (reference : String) (verify : Bool) (require : List String)
  | pullPayload (reference : String) (ask : Ask)
  | pullLayer (reference digest : String) (ask : Ask)
  | materialize (reference : String) (dest : Option String) (ask : Ask)

/-- What a call returns. -/
inductive Reply (Bytes : Type)
  | bytes (data : Bytes)
  | layers (layers : List (Descriptor × Bytes))
  | places (places : List Place)

/-- The bytes that a reply hands over: its own, or those of the files at its places. -/
def Reply.contents (files : Files Bytes) : Reply Bytes → List (Option Bytes)
  | .bytes data => [some data]
  | .layers ls => ls.map fun layer => some layer.2
  | .places ps => ps.map files.get?

/-- A call. -/
def call (files : Files Bytes) : Call → Files Bytes × Except ClientError (Reply Bytes)
  | .pull reference verify require =>
    let (files, result) := client.pull C E r files reference verify require
    (files, result.map .bytes)
  | .pullPayload reference ask =>
    let (files, result) := client.pullPayload C E r files reference ask
    (files, result.map .layers)
  | .pullLayer reference digest ask =>
    let (files, result) := client.pullLayer C E r files reference digest ask
    (files, result.map .bytes)
  | .materialize reference dest ask =>
    let (files, result) := client.materialize C E r files reference dest ask
    (files, result.map .places)

/-- The files behind some calls. -/
def calls (files : Files Bytes) (cs : List Call) : Files Bytes :=
  cs.foldl (fun files c => (client.call C E r files c).1) files

/-- The reference of a call. -/
def Call.reference : Call → String
  | .pull reference _ _ => reference
  | .pullPayload reference _ => reference
  | .pullLayer reference _ _ => reference
  | .materialize reference _ _ => reference

/-- Whether a call verifies. -/
def Call.verify : Call → Bool
  | .pull _ verify _ => verify
  | .pullPayload _ ask => ask.verify
  | .pullLayer _ _ ask => ask.verify
  | .materialize _ _ ask => ask.verify

/-- The evidence that a call requires. -/
def Call.require : Call → List String
  | .pull _ _ require => require
  | .pullPayload _ ask => ask.require
  | .pullLayer _ _ ask => ask.require
  | .materialize _ _ ask => ask.require

/-- The same client without a cache. -/
def plain (client : HubClient Key) : HubClient Key := { client with cacheDir := none }

/-- The call to a client without a cache: its files go where they would have gone. -/
def Call.uncached (cacheDir : Option String) : Call → Call
  | .materialize reference dest ask => .materialize reference (dest.or cacheDir) ask
  | c => c

/-- The digests of the bytes that a manifest commits to, for a call. -/
def committed (manifest : ImageManifest) : Call → Option (List String)
  | .pull _ _ _ => manifest.config.map fun config => [config.digest]
  | .pullPayload _ ask => manifest.layers.map fun ls => (ask.selected ls).map Descriptor.digest
  | .pullLayer _ digest _ =>
    if digest ∈ (manifest.layers.getD []).map Descriptor.digest then some [digest] else none
  | .materialize _ _ ask => manifest.layers.map fun ls => (ask.selected ls).map Descriptor.digest

/-- The contents are bytes of these digests. -/
def Hashed (contents : List (Option Bytes)) (digests : List String) : Prop :=
  List.Forall₂ (fun content digest => ∃ data, content = some data ∧ C.hash data = digest)
    contents digests

/-- The contents are what the manifest of the reference commits to, and it is verified if the call
verifies. -/
def Committed (c : Call) (contents : List (Option Bytes)) : Prop :=
  ∃ d b manifest digests, r.resolve C c.reference = .ok d ∧ r.readBlob d.digest = .ok b ∧
    C.parse b = some manifest ∧
    (c.verify = true → r.supplyVerify C E d.digest client.trustedKey c.require = .ok ()) ∧
    committed manifest c = some digests ∧ Hashed C contents digests

/-- A call on these files raises, or hands over what the manifest commits to, which is what a client
without a cache hands over. -/
def Good (files : Files Bytes) (c : Call) : Prop :=
  ∀ files' reply, client.call C E r files c = (files', .ok reply) →
    client.Committed C E r c (reply.contents files') ∧
    (c.verify = true → ∃ files₀ reply₀,
      client.plain.call C E r .empty (c.uncached client.cacheDir) = (files₀, .ok reply₀)) ∧
    ∀ files₀ reply₀,
      client.plain.call C E r .empty (c.uncached client.cacheDir) = (files₀, .ok reply₀) →
        reply₀.contents files₀ = reply.contents files'

/-! ## What is written -/

/-- The file of a layer in the cache. -/
def CachedAt (descriptor : Descriptor) (place : Place) (data : Bytes) : Prop :=
  client.cachePath descriptor.digest = .ok (some place) ∧ C.hash data = descriptor.digest

/-- The bytes that are taken for a layer are its bytes. -/
def Taken (files : Files Bytes) (descriptor : Descriptor) : Prop :=
  ∃ cached data, client.cachePath descriptor.digest = .ok cached ∧
    takenBytes r files descriptor.digest cached = .ok data ∧ C.hash data = descriptor.digest

/-- The data is the config that the manifest at a digest commits to. -/
def IsConfig (digest : String) (data : Bytes) : Prop :=
  ∃ manifest config, r.readManifest C digest = .ok manifest ∧ manifest.config = some config ∧
    C.hash data = config.digest

/-- A file whose data a call takes unhashed for what it is not: for the config of a manifest that is
pulled, or for a layer that is placed. -/
def Misleads (place : Place) (data : Bytes) : Call → Prop
  | .pull reference verify require => ∃ digest,
    client.verifiedDigest C E r reference verify require = .ok digest ∧
      client.cachePath digest = .ok (some place) ∧ ¬ IsConfig C r digest data
  | .materialize reference dest ask => ∃ descriptors,
    client.payloadDescriptors C E r reference ask = .ok descriptors ∧
      dest.or client.cacheDir = some place.1 ∧
      ∃ d ∈ descriptors, fileName d.digest = .ok place.2 ∧ C.hash data ≠ d.digest
  | _ => False

/-- No file misleads the call. -/
def Clean (files : Files Bytes) (c : Call) : Prop :=
  ∀ place data, files.get? place = some data → ¬ client.Misleads C E r place data c

/-- What a call places can be taken. -/
def Fetches (files : Files Bytes) : Call → Prop
  | .materialize reference _ ask =>
    ∀ descriptors, client.payloadDescriptors C E r reference ask = .ok descriptors →
      ∀ d ∈ descriptors, client.Taken C r files d
  | _ => True

variable {C E client r} {files files' : Files Bytes}

theorem fileName_hash (b : Bytes) : fileName (C.hash b) = .ok (C.hexOf b) := by
  have hpart : partition ':' (C.hash b) = some ("sha256", C.hexOf b) :=
    (partition_colon_iff _ _ _).mpr ⟨rfl, by decide⟩
  rw [fileName, hpart]

theorem hash_of_fileName {b : Bytes} {name : String} (h : fileName (C.hash b) = .ok name) :
    C.hash b = joined "sha256" name := by
  rw [fileName_hash] at h
  rw [← Except.ok.inj h, Content.hash]

/-- The name of the file of a digest in the cache. -/
theorem cachePath_eq_some {digest : String} {place : Place} :
    client.cachePath digest = .ok (some place) ↔
      client.cacheDir = some place.1 ∧ fileName digest = .ok place.2 := by
  obtain ⟨dir, name⟩ := place
  rw [cachePath]
  cases client.cacheDir with
  | none => exact ⟨fun h => (by cases h), fun h => (by cases h.1)⟩
  | some dir' =>
    cases fileName digest with
    | error e => exact ⟨fun h => (by cases h), fun h => (by cases h.2)⟩
    | ok name' =>
      simp only [Except.map, Except.ok.injEq, Option.some.injEq, Prod.mk.injEq]

theorem verifiedBytes_eq_ok {descriptor : Descriptor} {data : Bytes} :
    client.verifiedBytes C r files descriptor = (files', .ok data) ↔
      ∃ cached, client.cachePath descriptor.digest = .ok cached ∧
        takenBytes r files descriptor.digest cached = .ok data ∧
        C.hash data = descriptor.digest ∧ files' = files.keepAt cached data := by
  rw [verifiedBytes]
  cases client.cachePath descriptor.digest with
  | error e => simp
  | ok cached =>
    cases htaken : takenBytes r files descriptor.digest cached with
    | error e => simp [htaken]
    | ok data' =>
      by_cases hhash : C.hash data' = descriptor.digest
      · simp only [if_pos hhash, Prod.mk.injEq, Except.ok.injEq, exists_eq_left', htaken]
        constructor
        · rintro ⟨rfl, rfl⟩
          exact ⟨rfl, hhash, rfl⟩
        · rintro ⟨rfl, -, rfl⟩
          exact ⟨rfl, rfl⟩
      · simp only [if_neg hhash, Prod.mk.injEq, reduceCtorEq, and_false, false_iff,
          Except.ok.injEq, exists_eq_left', htaken]
        rintro ⟨rfl, h, -⟩
        exact hhash h

theorem grows_verifiedBytes (descriptor : Descriptor) :
    files.Grows (client.verifiedBytes C r files descriptor).1 (client.CachedAt C descriptor) := by
  rw [verifiedBytes]
  cases hpath : client.cachePath descriptor.digest with
  | error e => exact .refl
  | ok cached =>
    cases htaken : takenBytes r files descriptor.digest cached with
    | error e =>
      simp only [htaken]
      exact .refl
    | ok data =>
      by_cases hhash : C.hash data = descriptor.digest
      · simp only [htaken, if_pos hhash]
        refine Files.grows_keepAt fun p hp => ⟨?_, hhash⟩
        rw [hpath, hp]
      · simp only [htaken, if_neg hhash]
        exact .refl

theorem grows_verifiedLayers (files : Files Bytes) (descriptors : List Descriptor) :
    files.Grows (client.verifiedLayers C r files descriptors).1
      (fun place data => ∃ d ∈ descriptors, client.CachedAt C d place data) := by
  induction descriptors generalizing files with
  | nil => exact .refl
  | cons descriptor rest ih =>
    have hhead : files.Grows (client.verifiedBytes C r files descriptor).1
        (fun place data => ∃ d ∈ descriptor :: rest, client.CachedAt C d place data) :=
      (grows_verifiedBytes descriptor).mono fun _ _ h => ⟨descriptor, List.mem_cons_self, h⟩
    rw [verifiedLayers]
    cases hstep : client.verifiedBytes C r files descriptor with
    | mk files₁ result =>
      rw [hstep] at hhead
      cases result with
      | error e => exact hhead
      | ok data =>
        have htail : files₁.Grows (client.verifiedLayers C r files₁ rest).1
            (fun place data => ∃ d ∈ descriptor :: rest, client.CachedAt C d place data) :=
          (ih files₁).mono fun _ _ ⟨d, hd, h⟩ => ⟨d, List.mem_cons_of_mem _ hd, h⟩
        cases hrest : client.verifiedLayers C r files₁ rest with
        | mk files₂ result =>
          rw [hrest] at htail
          cases result with
          | error e => simpa only [hrest] using hhead.trans htail
          | ok layers => simpa only [hrest] using hhead.trans htail

theorem verifiedLayers_cons_eq_ok {descriptor : Descriptor} {rest : List Descriptor}
    {layers : List (Descriptor × Bytes)} :
    client.verifiedLayers C r files (descriptor :: rest) = (files', .ok layers) ↔
      ∃ files₁ data ls, client.verifiedBytes C r files descriptor = (files₁, .ok data) ∧
        client.verifiedLayers C r files₁ rest = (files', .ok ls) ∧
        layers = (descriptor, data) :: ls := by
  rw [verifiedLayers]
  cases hhead : client.verifiedBytes C r files descriptor with
  | mk files₁ result =>
    cases result with
    | error e => simp
    | ok data =>
      cases hrest : client.verifiedLayers C r files₁ rest with
      | mk files₂ result =>
        cases result with
        | error e =>
          simp only [hrest, Prod.mk.injEq, reduceCtorEq, and_false, false_iff]
          rintro ⟨_, _, ls, ⟨rfl, -⟩, htail, -⟩
          rw [hrest] at htail
          cases htail
        | ok ls =>
          simp only [hrest, Prod.mk.injEq, Except.ok.injEq]
          constructor
          · rintro ⟨rfl, rfl⟩
            exact ⟨files₁, data, ls, ⟨rfl, rfl⟩, hrest, rfl⟩
          · rintro ⟨_, _, ls', ⟨rfl, rfl⟩, htail, rfl⟩
            rw [hrest] at htail
            obtain ⟨rfl, hls⟩ := Prod.mk.inj htail
            exact ⟨rfl, by rw [Except.ok.inj hls]⟩

/-- The layers that are handed over are those that were asked for, each with its bytes. -/
theorem verifiedLayers_spec {descriptors : List Descriptor} {layers : List (Descriptor × Bytes)}
    (h : client.verifiedLayers C r files descriptors = (files', .ok layers)) :
    List.Forall₂ (fun p d => p.1 = d ∧ C.hash p.2 = d.digest) layers descriptors := by
  induction descriptors generalizing files layers with
  | nil =>
    rw [verifiedLayers, Prod.mk.injEq] at h
    rw [← Except.ok.inj h.2]
    exact .nil
  | cons descriptor rest ih =>
    obtain ⟨files₁, data, ls, hhead, htail, rfl⟩ := verifiedLayers_cons_eq_ok.1 h
    obtain ⟨_, -, -, hhash, -⟩ := verifiedBytes_eq_ok.1 hhead
    exact .cons ⟨rfl, hhash⟩ (ih htail)

/-- Taking the bytes of one layer leaves what is taken for another. -/
theorem taken_verifiedBytes {descriptor : Descriptor} {data : Bytes}
    (h : client.verifiedBytes C r files descriptor = (files', .ok data)) (d : Descriptor) :
    client.Taken C r files' d ↔ client.Taken C r files d := by
  obtain ⟨cached, hpath, htaken, hhash, rfl⟩ := verifiedBytes_eq_ok.1 h
  cases cached with
  | none => exact Iff.rfl
  | some place =>
    -- only a file at the place of this layer differs, and its bytes are those of this layer
    refine exists_congr fun cached' => ?_
    cases cached' with
    | none => exact Iff.rfl
    | some place' =>
      by_cases hplace : place' = place
      · subst hplace
        have hget : (files.keep place' data).get? place' = some data := by
          rw [Files.get?_keep, if_pos rfl]
          cases hold : files.get? place' with
          | none => rfl
          | some old =>
            rw [takenBytes, Option.bind_some, hold] at htaken
            rw [← Except.ok.inj htaken]
            rfl
        have hsame : ∀ data', client.cachePath d.digest = .ok (some place') →
            C.hash data' = d.digest → C.hash data = d.digest := by
          intro data' hpath' hhash'
          rw [← hhash']
          rw [← hhash] at hpath
          rw [← hhash'] at hpath'
          rw [hash_of_fileName (cachePath_eq_some.1 hpath).2,
            hash_of_fileName (cachePath_eq_some.1 hpath').2]
        constructor
        · rintro ⟨data', hpath', -, hhash'⟩
          have hdigest := hsame data' hpath' hhash'
          rw [← hhash, hdigest] at htaken
          exact ⟨data, hpath', htaken, hdigest⟩
        · rintro ⟨data', hpath', -, hhash'⟩
          refine ⟨data, hpath', ?_, hsame data' hpath' hhash'⟩
          rw [takenBytes, Option.bind_some, Files.keepAt, hget]
      · have hget : (files.keep place data).get? place' = files.get? place' := by
          rw [Files.get?_keep, if_neg hplace]
        simp only [Files.keepAt, takenBytes, Option.bind_some, hget]

/-- The layers are handed over when the bytes taken for each are its bytes. -/
theorem verifiedLayers_exists_iff {descriptors : List Descriptor} :
    (∃ files' layers, client.verifiedLayers C r files descriptors = (files', .ok layers)) ↔
      ∀ d ∈ descriptors, client.Taken C r files d := by
  induction descriptors generalizing files with
  | nil => exact ⟨fun _ d hd => (by cases hd), fun _ => ⟨files, [], rfl⟩⟩
  | cons descriptor rest ih =>
    rw [List.forall_mem_cons]
    constructor
    · rintro ⟨files', layers, h⟩
      obtain ⟨files₁, data, ls, hhead, htail, rfl⟩ := verifiedLayers_cons_eq_ok.1 h
      obtain ⟨cached, hpath, htaken, hhash, -⟩ := verifiedBytes_eq_ok.1 hhead
      refine ⟨⟨cached, data, hpath, htaken, hhash⟩, fun d hd => ?_⟩
      rw [← taken_verifiedBytes hhead]
      exact ih.mp ⟨files', ls, htail⟩ d hd
    · rintro ⟨⟨cached, data, hpath, htaken, hhash⟩, hrest⟩
      have hhead : client.verifiedBytes C r files descriptor =
          (files.keepAt cached data, .ok data) :=
        verifiedBytes_eq_ok.2 ⟨cached, hpath, htaken, hhash, rfl⟩
      obtain ⟨files', ls, htail⟩ := ih.mpr fun d hd => (taken_verifiedBytes hhead d).mpr (hrest d hd)
      exact ⟨files', _, verifiedLayers_cons_eq_ok.2 ⟨_, data, ls, hhead, htail, rfl⟩⟩

/-! ## What is placed -/

/-- The place of a layer in a directory. -/
def layerPlace (C : Content Bytes) (target : String) (layer : Descriptor × Bytes) : Place :=
  (target, C.hexOf layer.2)

/-- Each layer is placed in the directory under the name of its digest. -/
theorem placeLayers_spec {target : String} {layers : List (Descriptor × Bytes)}
    (h : ∀ p ∈ layers, C.hash p.2 = p.1.digest) :
    ∃ files', placeLayers target files layers =
        (files', .ok (layers.map (layerPlace C target))) ∧
      files.Grows files' (fun place data =>
        ∃ p ∈ layers, place = layerPlace C target p ∧ data = p.2) ∧
      ∀ p ∈ layers, ∃ data, files'.get? (layerPlace C target p) = some data := by
  induction layers generalizing files with
  | nil => exact ⟨files, rfl, .refl, fun p hp => (by cases hp)⟩
  | cons p layers ih =>
    obtain ⟨descriptor, data⟩ := p
    rw [List.forall_mem_cons] at h
    set files₁ := files.keep (target, C.hexOf data) data with hfiles
    obtain ⟨files', heq, hgrows, hthere⟩ : ∃ files', placeLayers target files₁ layers =
          (files', .ok (layers.map (layerPlace C target))) ∧
        files₁.Grows files' (fun place data =>
          ∃ p ∈ layers, place = layerPlace C target p ∧ data = p.2) ∧
        ∀ p ∈ layers, ∃ data, files'.get? (layerPlace C target p) = some data := ih h.2
    have hname : fileName descriptor.digest = .ok (C.hexOf data) := by
      rw [← h.1, fileName_hash]
    have hkeep : files.Grows files₁ (fun place d =>
        ∃ p ∈ (descriptor, data) :: layers, place = layerPlace C target p ∧ d = p.2) :=
      Files.grows_keep ⟨_, List.mem_cons_self, rfl, rfl⟩
    have hrest : files₁.Grows files' (fun place d =>
        ∃ p ∈ (descriptor, data) :: layers, place = layerPlace C target p ∧ d = p.2) :=
      hgrows.mono fun _ _ ⟨p, hp, hd⟩ => ⟨p, List.mem_cons_of_mem _ hp, hd⟩
    refine ⟨files', ?_, hkeep.trans hrest, ?_⟩
    · rw [placeLayers, hname]
      simp only [← hfiles, heq]
      rfl
    · rw [List.forall_mem_cons]
      refine ⟨⟨_, hrest.kept _ ((files.get? (target, C.hexOf data)).getD data) ?_⟩, hthere⟩
      rw [hfiles, layerPlace, Files.get?_keep, if_pos rfl]

/-! ## What a call hands over -/

theorem verifiedDigest_eq_ok {reference : String} {verify : Bool} {require : List String}
    {digest : String} : client.verifiedDigest C E r reference verify require = .ok digest ↔
      ∃ d, r.resolve C reference = .ok d ∧ d.digest = digest ∧
        (verify = true → r.supplyVerify C E digest client.trustedKey require = .ok ()) := by
  rw [verifiedDigest, bind_eq_ok]
  simp only [mapError_eq_ok, seq_eq_ok, runIf_eq_ok]
  refine exists_congr fun d => and_congr_right fun _ => ?_
  constructor
  · rintro ⟨hverify, hdigest⟩
    obtain rfl := Except.ok.inj hdigest
    exact ⟨rfl, hverify⟩
  · rintro ⟨rfl, hverify⟩
    exact ⟨hverify, rfl⟩

theorem payloadDescriptors_eq_ok {reference : String} {ask : Ask} {descriptors : List Descriptor} :
    client.payloadDescriptors C E r reference ask = .ok descriptors ↔
      ∃ digest manifest layers,
        client.verifiedDigest C E r reference ask.verify ask.require = .ok digest ∧
        r.readManifest C digest = .ok manifest ∧ manifest.layers = some layers ∧
        descriptors = ask.selected layers := by
  rw [payloadDescriptors]
  simp only [bind_eq_ok, mapError_eq_ok, Registry.layersOf_eq_ok]
  constructor
  · rintro ⟨digest, hdigest, manifest, hmanifest, layers, hlayers, h⟩
    exact ⟨digest, manifest, layers, hdigest, hmanifest, hlayers, (Except.ok.inj h).symm⟩
  · rintro ⟨digest, manifest, layers, hdigest, hmanifest, hlayers, rfl⟩
    exact ⟨digest, hdigest, manifest, hmanifest, layers, hlayers, rfl⟩

/-- The config that is read behind a verification is the one that is committed to. -/
theorem isConfig_of_verifiedConfig {digest : String} {data : Bytes}
    (h : verifiedConfig C r digest = .ok data) : IsConfig C r digest data := by
  rw [verifiedConfig, mapError_eq_ok, seq_eq_ok, Registry.readConfig] at h
  simp only [bind_eq_ok, Registry.configOf_eq_ok] at h
  obtain ⟨hverify, manifest, hmanifest, config, hconfig, hdata⟩ := h
  obtain ⟨b, manifest', config', layers, hb, -, hparse, hconfig', -, hall⟩ :=
    Registry.verify_eq_ok.1 hverify
  have hread : r.readManifest C digest = .ok manifest' :=
    Registry.readManifest_eq_ok.2 ⟨b, hb, hparse⟩
  obtain rfl := Except.ok.inj (hmanifest.symm.trans hread)
  obtain rfl := Option.some.inj (hconfig.symm.trans hconfig')
  obtain ⟨data', hdata', hhash⟩ := hall config List.mem_cons_self
  obtain rfl := Except.ok.inj (hdata.symm.trans hdata')
  exact ⟨manifest, config, hread, hconfig, hhash⟩

/-- A verified artifact has a config to read. -/
theorem verifiedConfig_exists {digest : String} (h : r.verify C digest = .ok ()) :
    ∃ data, verifiedConfig C r digest = .ok data := by
  obtain ⟨b, manifest, config, layers, hb, -, hparse, hconfig, -, hall⟩ :=
    Registry.verify_eq_ok.1 h
  obtain ⟨data, hdata, -⟩ := hall config List.mem_cons_self
  refine ⟨data, ?_⟩
  rw [verifiedConfig, mapError_eq_ok, seq_eq_ok, Registry.readConfig]
  simp only [bind_eq_ok, Registry.configOf_eq_ok]
  exact ⟨h, manifest, Registry.readManifest_eq_ok.2 ⟨b, hb, hparse⟩, config, hconfig, hdata⟩

theorem pull_eq_ok {reference : String} {verify : Bool} {require : List String} {data : Bytes} :
    client.pull C E r files reference verify require = (files', .ok data) ↔
      ∃ digest cached, client.verifiedDigest C E r reference verify require = .ok digest ∧
        client.cachePath digest = .ok cached ∧
        pullAt C r files digest cached = (files', .ok data) := by
  rw [pull]
  cases client.verifiedDigest C E r reference verify require with
  | error e => simp
  | ok digest =>
    cases hpath : client.cachePath digest with
    | error e => simp [hpath]
    | ok cached => simp [hpath]

/-- Bytes that are pulled are those of the cache, or the verified config. -/
theorem pullAt_eq_ok {digest : String} {cached : Option Place} {data : Bytes}
    (h : pullAt C r files digest cached = (files', .ok data)) :
    (∃ place, cached = some place ∧ files.get? place = some data) ∨
      verifiedConfig C r digest = .ok data := by
  rw [pullAt] at h
  cases hfile : cached.bind files.get? with
  | some data' =>
    rw [hfile, Prod.mk.injEq] at h
    obtain ⟨place, hplace, hget⟩ := Option.bind_eq_some_iff.mp hfile
    rw [← Except.ok.inj h.2]
    exact .inl ⟨place, hplace, hget⟩
  | none =>
    rw [hfile] at h
    cases hconfig : verifiedConfig C r digest with
    | error e =>
      rw [hconfig] at h
      cases (Prod.mk.inj h).2
    | ok config =>
      rw [hconfig] at h
      exact .inr (congrArg Except.ok (Except.ok.inj (Prod.mk.inj h).2))

theorem pullLayer_eq_ok {reference digest : String} {ask : Ask} {data : Bytes} :
    client.pullLayer C E r files reference digest ask = (files', .ok data) ↔
      ∃ descriptors d, client.payloadDescriptors C E r reference { ask with mediaType := none } =
          .ok descriptors ∧ descriptors.find? (fun d => d.digest = digest) = some d ∧
        client.verifiedBytes C r files d = (files', .ok data) := by
  rw [pullLayer]
  cases client.payloadDescriptors C E r reference { ask with mediaType := none } with
  | error e => simp
  | ok descriptors =>
    cases hfind : descriptors.find? fun d => d.digest = digest with
    | none => simp [hfind]
    | some d => simp [hfind]

theorem pullPayload_eq_ok {reference : String} {ask : Ask} {layers : List (Descriptor × Bytes)} :
    client.pullPayload C E r files reference ask = (files', .ok layers) ↔
      ∃ descriptors, client.payloadDescriptors C E r reference ask = .ok descriptors ∧
        client.verifiedLayers C r files descriptors = (files', .ok layers) := by
  rw [pullPayload]
  cases client.payloadDescriptors C E r reference ask with
  | error e => simp
  | ok descriptors => simp

theorem materialize_eq_ok {reference : String} {dest : Option String} {ask : Ask}
    {places : List Place} :
    client.materialize C E r files reference dest ask = (files', .ok places) ↔
      ∃ target files₁ layers, dest.or client.cacheDir = some target ∧
        client.pullPayload C E r files reference ask = (files₁, .ok layers) ∧
        placeLayers target files₁ layers = (files', .ok places) := by
  rw [materialize]
  cases dest.or client.cacheDir with
  | none => simp
  | some target =>
    cases hpull : client.pullPayload C E r files reference ask with
    | mk files₁ result =>
      cases result with
      | error e => simp
      | ok layers => simp

/-- The reply of a call is made of what the method returns. -/
theorem reply_eq_ok {α : Type} {x : Files Bytes × Except ClientError α} {f : α → Reply Bytes}
    {reply : Reply Bytes} : (x.1, x.2.map f) = (files', .ok reply) ↔
      ∃ a, x = (files', .ok a) ∧ reply = f a := by
  obtain ⟨files₁, result⟩ := x
  cases result with
  | error e => simp [Except.map]
  | ok a =>
    simp only [Except.map, Prod.mk.injEq, Except.ok.injEq]
    constructor
    · rintro ⟨rfl, rfl⟩
      exact ⟨a, ⟨rfl, rfl⟩, rfl⟩
    · rintro ⟨a', ⟨rfl, rfl⟩, rfl⟩
      exact ⟨rfl, rfl⟩

theorem call_pull_eq_ok {reference : String} {verify : Bool} {require : List String}
    {reply : Reply Bytes} :
    client.call C E r files (.pull reference verify require) = (files', .ok reply) ↔
      ∃ data, client.pull C E r files reference verify require = (files', .ok data) ∧
        reply = .bytes data := reply_eq_ok

theorem call_pullPayload_eq_ok {reference : String} {ask : Ask} {reply : Reply Bytes} :
    client.call C E r files (.pullPayload reference ask) = (files', .ok reply) ↔
      ∃ layers, client.pullPayload C E r files reference ask = (files', .ok layers) ∧
        reply = .layers layers := reply_eq_ok

theorem call_pullLayer_eq_ok {reference digest : String} {ask : Ask} {reply : Reply Bytes} :
    client.call C E r files (.pullLayer reference digest ask) = (files', .ok reply) ↔
      ∃ data, client.pullLayer C E r files reference digest ask = (files', .ok data) ∧
        reply = .bytes data := reply_eq_ok

theorem call_materialize_eq_ok {reference : String} {dest : Option String} {ask : Ask}
    {reply : Reply Bytes} :
    client.call C E r files (.materialize reference dest ask) = (files', .ok reply) ↔
      ∃ places, client.materialize C E r files reference dest ask = (files', .ok places) ∧
        reply = .places places := reply_eq_ok

/-- The contents of a manifest that is read at the digest of the reference are committed to. -/
theorem committed_intro {c : Call} {digest : String} {manifest : ImageManifest}
    {digests : List String} {contents : List (Option Bytes)}
    (hdigest : client.verifiedDigest C E r c.reference c.verify c.require = .ok digest)
    (hmanifest : r.readManifest C digest = .ok manifest)
    (hcommitted : committed manifest c = some digests) (hhashed : Hashed C contents digests) :
    client.Committed C E r c contents := by
  obtain ⟨d, hresolve, rfl, hverify⟩ := verifiedDigest_eq_ok.1 hdigest
  obtain ⟨b, hb, hparse⟩ := Registry.readManifest_eq_ok.1 hmanifest
  exact ⟨d, b, manifest, digests, hresolve, hb, hparse, hverify, hcommitted, hhashed⟩

/-- What is committed to is one thing. -/
theorem Committed.unique (hC : C.Lawful) {c : Call} {contents contents' : List (Option Bytes)}
    (h : client.Committed C E r c contents) (h' : client.Committed C E r c contents') :
    contents = contents' := by
  obtain ⟨d, b, manifest, digests, hresolve, hb, hparse, -, hcommitted, hhashed⟩ := h
  obtain ⟨d', b', manifest', digests', hresolve', hb', hparse', -, hcommitted', hhashed'⟩ := h'
  obtain rfl := Except.ok.inj (hresolve.symm.trans hresolve')
  obtain rfl := Except.ok.inj (hb.symm.trans hb')
  obtain rfl := Option.some.inj (hparse.symm.trans hparse')
  obtain rfl := Option.some.inj (hcommitted.symm.trans hcommitted')
  clear hcommitted hcommitted'
  induction hhashed generalizing contents' with
  | nil =>
    cases hhashed'
    rfl
  | cons hhead htail ih =>
    cases hhashed' with
    | cons hhead' htail' =>
      obtain ⟨data, rfl, hdata⟩ := hhead
      obtain ⟨data', rfl, hdata'⟩ := hhead'
      rw [hC.hash_inj.1 (hdata.trans hdata'.symm), ih htail']

theorem hash_of_mem_layers {descriptors : List Descriptor} {layers : List (Descriptor × Bytes)}
    (h : List.Forall₂ (fun p d => p.1 = d ∧ C.hash p.2 = d.digest) layers descriptors) :
    ∀ p ∈ layers, C.hash p.2 = p.1.digest := by
  induction h with
  | nil => exact fun p hp => (by cases hp)
  | cons hhead _ ih =>
    obtain ⟨rfl, hhash⟩ := hhead
    exact List.forall_mem_cons.mpr ⟨hhash, ih⟩

/-- The layers that are handed over have the digests that the manifest gives for them. -/
theorem hashed_layers {descriptors : List Descriptor} {layers : List (Descriptor × Bytes)}
    (h : List.Forall₂ (fun p d => p.1 = d ∧ C.hash p.2 = d.digest) layers descriptors) :
    Hashed C (layers.map fun p => some p.2) (descriptors.map Descriptor.digest) := by
  rw [Hashed, List.forall₂_map_left_iff, List.forall₂_map_right_iff]
  exact h.imp fun p d ⟨_, hhash⟩ => ⟨p.2, rfl, hhash⟩

/-- The layers of a payload that is pulled. -/
theorem committed_payload {reference : String} {ask : Ask} {descriptors : List Descriptor}
    {c : Call} {contents : List (Option Bytes)}
    (h : client.payloadDescriptors C E r reference ask = .ok descriptors)
    (hc : c = .pullPayload reference ask ∨ ∃ dest, c = .materialize reference dest ask)
    (hhashed : Hashed C contents (descriptors.map Descriptor.digest)) :
    client.Committed C E r c contents := by
  obtain ⟨digest, manifest, layers, hdigest, hmanifest, hlayers, rfl⟩ :=
    payloadDescriptors_eq_ok.1 h
  rcases hc with rfl | ⟨dest, rfl⟩
  · refine committed_intro hdigest hmanifest ?_ hhashed
    rw [committed, hlayers]
    rfl
  · refine committed_intro hdigest hmanifest ?_ hhashed
    rw [committed, hlayers]
    rfl

/-- A layer of the payload. -/
theorem committed_layer {reference digest : String} {ask : Ask} {descriptors : List Descriptor}
    {d : Descriptor} {data : Bytes}
    (h : client.payloadDescriptors C E r reference { ask with mediaType := none } = .ok descriptors)
    (hd : descriptors.find? (fun d => d.digest = digest) = some d)
    (hdata : C.hash data = d.digest) :
    client.Committed C E r (.pullLayer reference digest ask) [some data] := by
  obtain ⟨digest', manifest, layers, hdigest, hmanifest, hlayers, rfl⟩ :=
    payloadDescriptors_eq_ok.1 h
  have hmem : d ∈ layers := (List.mem_filter.mp (List.mem_of_find?_eq_some hd)).1
  have hfound := List.find?_some hd
  have heq : d.digest = digest := of_decide_eq_true hfound
  have hcommitted : committed manifest (.pullLayer reference digest ask) = some [digest] := by
    rw [committed, hlayers, Option.getD_some, if_pos]
    rw [← heq]
    exact List.mem_map_of_mem hmem
  exact committed_intro hdigest hmanifest hcommitted (.cons ⟨data, rfl, hdata.trans heq⟩ .nil)

/-- The files that layers are placed over, behind the calls that take them: what is there is what the
layers are, if it was so before. -/
theorem contents_placed {target : String} {descriptors : List Descriptor}
    {layers : List (Descriptor × Bytes)} {files₁ files₂ : Files Bytes} {places : List Place}
    (htaken : client.verifiedLayers C r files descriptors = (files₁, .ok layers))
    (hplaced : placeLayers target files₁ layers = (files₂, .ok places))
    (hclean : ∀ d ∈ descriptors, ∀ name data, fileName d.digest = .ok name →
      files.get? (target, name) = some data → C.hash data = d.digest) :
    Hashed C (places.map files₂.get?) (descriptors.map Descriptor.digest) := by
  have hspec := verifiedLayers_spec htaken
  have hhash : ∀ p ∈ layers, C.hash p.2 = p.1.digest := hash_of_mem_layers hspec
  obtain ⟨files', heq, hgrows, hthere⟩ : ∃ files', placeLayers target files₁ layers =
        (files', .ok (layers.map (layerPlace C target))) ∧
      files₁.Grows files' (fun place data =>
        ∃ p ∈ layers, place = layerPlace C target p ∧ data = p.2) ∧
      ∀ p ∈ layers, ∃ data, files'.get? (layerPlace C target p) = some data :=
    placeLayers_spec hhash
  rw [heq, Prod.mk.injEq] at hplaced
  obtain ⟨rfl, hplaces⟩ := hplaced
  rw [← Except.ok.inj hplaces, Hashed, List.map_map, List.forall₂_map_left_iff,
    List.forall₂_map_right_iff]
  have hcached : files.Grows (client.verifiedLayers C r files descriptors).1
      (fun place data => ∃ d ∈ descriptors, client.CachedAt C d place data) :=
    grows_verifiedLayers files descriptors
  rw [htaken] at hcached
  have hright : ∀ p ∈ layers, ∀ data, files'.get? (layerPlace C target p) = some data →
      (∀ d ∈ descriptors, d.digest = p.1.digest → C.hash data = p.1.digest) := by
    intro p hp data hdata d hd hdigest
    have hname : fileName d.digest = .ok (C.hexOf p.2) := by
      rw [hdigest, ← hhash p hp, fileName_hash]
    -- the file was there, or it is one of the cache, or it was placed
    rcases hgrows.new _ _ hdata with hdata | ⟨p', hp', hplace, rfl⟩
    · rcases hcached.new _ _ hdata with hdata | ⟨d', hd', hpath, hh⟩
      · rw [← hdigest]
        exact hclean d hd _ data hname hdata
      · rw [← hh] at hpath
        rw [hash_of_fileName (cachePath_eq_some.1 hpath).2, ← hhash p hp]
        rfl
    · rw [← hhash p hp]
      have hhex := (Prod.mk.inj hplace).2
      rw [Content.hash, Content.hash, hhex]
  refine List.forall₂_iff_zip.mpr ⟨hspec.length_eq, fun {p d} hmem => ?_⟩
  obtain ⟨hp, hd⟩ := List.of_mem_zip hmem
  obtain ⟨rfl, -⟩ := (List.forall₂_iff_zip.mp hspec).2 hmem
  obtain ⟨data, hdata⟩ := hthere p hp
  exact ⟨data, hdata, hright p hp data hdata p.1 hd rfl⟩

/-- A call that no file misleads hands over what the manifest commits to. -/
theorem call_committed {c : Call} {reply : Reply Bytes}
    (hclean : client.Fetches C E r files c → client.Clean C E r files c)
    (h : client.call C E r files c = (files', .ok reply)) :
    client.Committed C E r c (reply.contents files') := by
  cases c with
  | pull reference verify require =>
    obtain ⟨data, hpull, rfl⟩ := call_pull_eq_ok.1 h
    obtain ⟨digest, cached, hdigest, hpath, hat⟩ := pull_eq_ok.1 hpull
    have hconfig : IsConfig C r digest data := by
      rcases pullAt_eq_ok hat with ⟨place, rfl, hfile⟩ | hconfig
      · by_contra hnot
        exact hclean trivial place data hfile ⟨digest, hdigest, hpath, hnot⟩
      · exact isConfig_of_verifiedConfig hconfig
    obtain ⟨manifest, config, hmanifest, hc, hhash⟩ := hconfig
    have hcommitted : committed manifest (.pull reference verify require) =
        some [config.digest] := by
      rw [committed, hc]
      rfl
    exact committed_intro hdigest hmanifest hcommitted (.cons ⟨data, rfl, hhash⟩ .nil)
  | pullPayload reference ask =>
    obtain ⟨layers, hpull, rfl⟩ := call_pullPayload_eq_ok.1 h
    obtain ⟨descriptors, hdescriptors, hlayers⟩ := pullPayload_eq_ok.1 hpull
    exact committed_payload hdescriptors (.inl rfl) (hashed_layers (verifiedLayers_spec hlayers))
  | pullLayer reference digest ask =>
    obtain ⟨data, hpull, rfl⟩ := call_pullLayer_eq_ok.1 h
    obtain ⟨descriptors, d, hdescriptors, hd, hbytes⟩ := pullLayer_eq_ok.1 hpull
    obtain ⟨_, -, -, hhash, -⟩ := verifiedBytes_eq_ok.1 hbytes
    exact committed_layer hdescriptors hd hhash
  | materialize reference dest ask =>
    obtain ⟨places, hmaterialize, rfl⟩ := call_materialize_eq_ok.1 h
    obtain ⟨target, files₁, layers, htarget, hpull, hplaced⟩ := materialize_eq_ok.1 hmaterialize
    obtain ⟨descriptors, hdescriptors, hlayers⟩ := pullPayload_eq_ok.1 hpull
    have hfetches : client.Fetches C E r files (.materialize reference dest ask) := by
      intro descriptors' hdescriptors'
      obtain rfl := Except.ok.inj (hdescriptors.symm.trans hdescriptors')
      exact verifiedLayers_exists_iff.1 ⟨files₁, layers, hlayers⟩
    refine committed_payload hdescriptors (.inr ⟨dest, rfl⟩)
      (contents_placed hlayers hplaced fun d hd name data hname hfile => ?_)
    by_contra hnot
    exact hclean hfetches _ data hfile ⟨descriptors, hdescriptors, htarget, d, hd, hname, hnot⟩

/-! ## The client without a cache -/

theorem committed_uncached {c : Call} {dir : Option String} {contents : List (Option Bytes)} :
    client.plain.Committed C E r (c.uncached dir) contents ↔ client.Committed C E r c contents := by
  cases c with
  | pull => exact Iff.rfl
  | pullPayload => exact Iff.rfl
  | pullLayer => exact Iff.rfl
  | materialize => exact Iff.rfl

/-- A client without a cache hands over what the manifest commits to, from no files. -/
theorem committed_plain {c : Call} {reply : Reply Bytes}
    (h : client.plain.call C E r .empty (c.uncached client.cacheDir) = (files', .ok reply)) :
    client.Committed C E r c (reply.contents files') := by
  refine committed_uncached.1 (call_committed (fun _ => ?_) h)
  intro place data hfile
  cases hfile

/-- The layers of a verified artifact can be taken from the registry. -/
theorem taken_plain {reference : String} {ask : Ask} {descriptors : List Descriptor}
    (h : client.payloadDescriptors C E r reference ask = .ok descriptors)
    (hverify : ask.verify = true) : ∀ d ∈ descriptors, client.plain.Taken C r .empty d := by
  obtain ⟨digest, manifest, layers, hdigest, hmanifest, hlayers, rfl⟩ :=
    payloadDescriptors_eq_ok.1 h
  obtain ⟨_, -, -, hsupply⟩ := verifiedDigest_eq_ok.1 hdigest
  obtain ⟨b, manifest', config, layers', hb, -, hparse, -, hlayers', hall⟩ :=
    Registry.verify_eq_ok.1 (Registry.supplyVerify_eq_ok.1 (hsupply hverify)).2.1
  obtain rfl := Except.ok.inj
    (hmanifest.symm.trans (Registry.readManifest_eq_ok.2 ⟨b, hb, hparse⟩))
  obtain rfl := Option.some.inj (hlayers.symm.trans hlayers')
  intro d hd
  obtain ⟨data, hdata, hhash⟩ := hall d (List.mem_cons_of_mem _ (List.mem_filter.mp hd).1)
  exact ⟨none, data, rfl, by rw [takenBytes, Option.bind_none, hdata]; rfl, hhash⟩

theorem pullPayload_plain {reference : String} {ask : Ask} {descriptors : List Descriptor}
    (h : client.payloadDescriptors C E r reference ask = .ok descriptors)
    (hverify : ask.verify = true) : ∃ files₀ layers,
      client.plain.pullPayload C E r .empty reference ask = (files₀, .ok layers) := by
  obtain ⟨files₀, layers, hlayers⟩ := verifiedLayers_exists_iff.2 (taken_plain h hverify)
  exact ⟨files₀, layers, pullPayload_eq_ok.2 ⟨descriptors, h, hlayers⟩⟩

/-- What a call that verifies hands over, a client without a cache hands over too. -/
theorem call_plain {c : Call} {reply : Reply Bytes}
    (h : client.call C E r files c = (files', .ok reply)) (hverify : c.verify = true) :
    ∃ files₀ reply₀, client.plain.call C E r .empty (c.uncached client.cacheDir) =
      (files₀, .ok reply₀) := by
  cases c with
  | pull reference verify require =>
    obtain ⟨data, hpull, -⟩ := call_pull_eq_ok.1 h
    obtain ⟨digest, cached, hdigest, -, -⟩ := pull_eq_ok.1 hpull
    obtain ⟨_, -, -, hsupply⟩ := verifiedDigest_eq_ok.1 hdigest
    obtain ⟨config, hconfig⟩ :=
      verifiedConfig_exists (Registry.supplyVerify_eq_ok.1 (hsupply hverify)).2.1
    refine ⟨.empty, .bytes config, call_pull_eq_ok.2 ⟨config, ?_, rfl⟩⟩
    refine pull_eq_ok.2 ⟨digest, none, hdigest, rfl, ?_⟩
    rw [pullAt, hconfig]
    rfl
  | pullPayload reference ask =>
    obtain ⟨layers, hpull, -⟩ := call_pullPayload_eq_ok.1 h
    obtain ⟨descriptors, hdescriptors, -⟩ := pullPayload_eq_ok.1 hpull
    obtain ⟨files₀, layers₀, hplain⟩ := pullPayload_plain hdescriptors hverify
    exact ⟨files₀, .layers layers₀, call_pullPayload_eq_ok.2 ⟨layers₀, hplain, rfl⟩⟩
  | pullLayer reference digest ask =>
    obtain ⟨data, hpull, -⟩ := call_pullLayer_eq_ok.1 h
    obtain ⟨descriptors, d, hdescriptors, hd, -⟩ := pullLayer_eq_ok.1 hpull
    obtain ⟨cached, data₀, hpath, htaken, hhash⟩ :=
      taken_plain hdescriptors hverify d (List.mem_of_find?_eq_some hd)
    have hbytes : client.plain.verifiedBytes C r .empty d =
        (Files.keepAt .empty cached data₀, .ok data₀) :=
      verifiedBytes_eq_ok.2 ⟨cached, hpath, htaken, hhash, rfl⟩
    exact ⟨_, .bytes data₀, call_pullLayer_eq_ok.2 ⟨data₀,
      pullLayer_eq_ok.2 ⟨descriptors, d, hdescriptors, hd, hbytes⟩, rfl⟩⟩
  | materialize reference dest ask =>
    obtain ⟨places, hmaterialize, -⟩ := call_materialize_eq_ok.1 h
    obtain ⟨target, _, _, htarget, hpull, -⟩ := materialize_eq_ok.1 hmaterialize
    obtain ⟨descriptors, hdescriptors, -⟩ := pullPayload_eq_ok.1 hpull
    obtain ⟨files₀, layers₀, hplain⟩ := pullPayload_plain hdescriptors hverify
    obtain ⟨_, -, hlayers₀⟩ := pullPayload_eq_ok.1 hplain
    obtain ⟨files₁, hplaced, -, -⟩ : ∃ files₁, placeLayers target files₀ layers₀ =
          (files₁, .ok (layers₀.map (layerPlace C target))) ∧ _ ∧ _ :=
      placeLayers_spec (hash_of_mem_layers (verifiedLayers_spec hlayers₀))
    refine ⟨files₁, .places (layers₀.map (layerPlace C target)),
      call_materialize_eq_ok.2 ⟨_, ?_, rfl⟩⟩
    refine materialize_eq_ok.2 ⟨target, files₀, layers₀, ?_, hplain, hplaced⟩
    rw [htarget]
    rfl

/-- The contents that are committed to for what is placed are the layers that were asked for. -/
theorem hashed_of_committed {reference : String} {dest : Option String} {ask : Ask}
    {descriptors : List Descriptor} {contents : List (Option Bytes)}
    (h : client.payloadDescriptors C E r reference ask = .ok descriptors)
    (hcommitted : client.Committed C E r (.materialize reference dest ask) contents) :
    Hashed C contents (descriptors.map Descriptor.digest) := by
  obtain ⟨digest, manifest, layers, hdigest, hmanifest, hlayers, rfl⟩ :=
    payloadDescriptors_eq_ok.1 h
  obtain ⟨d, hresolve, rfl, -⟩ := verifiedDigest_eq_ok.1 hdigest
  obtain ⟨d', b, manifest', digests, hresolve', hb, hparse, -, hdigests, hhashed⟩ := hcommitted
  obtain rfl := Except.ok.inj (hresolve.symm.trans hresolve')
  obtain rfl := Except.ok.inj
    (hmanifest.symm.trans (Registry.readManifest_eq_ok.2 ⟨b, hb, hparse⟩))
  rw [committed, hlayers, Option.map_some, Option.some.injEq] at hdigests
  rw [hdigests]
  exact hhashed

/-- **Exact condition for one call.** It is good exactly if no file misleads it, or it cannot take
what it is to place. -/
theorem good_iff (hC : C.Lawful) {c : Call} : client.Good C E r files c ↔
    (client.Fetches C E r files c → client.Clean C E r files c) := by
  constructor
  · intro hgood hfetches place data hfile hmisled
    cases c with
    | pullPayload => exact hmisled
    | pullLayer => exact hmisled
    | pull reference verify require =>
      obtain ⟨digest, hdigest, hpath, hnot⟩ := hmisled
      have hpull : client.pull C E r files reference verify require = (files, .ok data) := by
        refine pull_eq_ok.2 ⟨digest, some place, hdigest, hpath, ?_⟩
        rw [pullAt, Option.bind_some, hfile]
      obtain ⟨⟨d, b, manifest, digests, hresolve, hb, hparse, -, hcommitted, hhashed⟩, -⟩ :=
        hgood files (.bytes data) (call_pull_eq_ok.2 ⟨data, hpull, rfl⟩)
      obtain ⟨d', hresolve', rfl, -⟩ := verifiedDigest_eq_ok.1 hdigest
      obtain rfl := Except.ok.inj (hresolve.symm.trans hresolve')
      rw [committed, Option.map_eq_some_iff] at hcommitted
      obtain ⟨config, hconfig, rfl⟩ := hcommitted
      cases hhashed with
      | cons hhead _ =>
        obtain ⟨data', hdata', hhash⟩ := hhead
        obtain rfl := Option.some.inj hdata'
        exact hnot ⟨manifest, config, Registry.readManifest_eq_ok.2 ⟨b, hb, hparse⟩, hconfig,
          hhash⟩
    | materialize reference dest ask =>
      obtain ⟨descriptors, hdescriptors, htarget, d, hd, hname, hnot⟩ := hmisled
      obtain ⟨files₁, layers, hlayers⟩ :=
        verifiedLayers_exists_iff.2 (hfetches descriptors hdescriptors)
      have hspec := verifiedLayers_spec hlayers
      obtain ⟨files₂, hplaced, hgrows, -⟩ : ∃ files₂, placeLayers place.1 files₁ layers =
            (files₂, .ok (layers.map (layerPlace C place.1))) ∧
          files₁.Grows files₂ (fun p data =>
            ∃ layer ∈ layers, p = layerPlace C place.1 layer ∧ data = layer.2) ∧ _ :=
        placeLayers_spec (hash_of_mem_layers hspec)
      have hcall : client.call C E r files (.materialize reference dest ask) =
          (files₂, .ok (.places (layers.map (layerPlace C place.1)))) :=
        call_materialize_eq_ok.2 ⟨_, materialize_eq_ok.2 ⟨place.1, files₁, layers, htarget,
          pullPayload_eq_ok.2 ⟨descriptors, hdescriptors, hlayers⟩, hplaced⟩, rfl⟩
      have hhashed := hashed_of_committed hdescriptors (hgood _ _ hcall).1
      rw [Reply.contents, Hashed, List.map_map, List.forall₂_map_left_iff,
        List.forall₂_map_right_iff] at hhashed
      obtain ⟨i, rfl⟩ := List.get_of_mem hd
      obtain ⟨hlength, hall⟩ := List.forall₂_iff_get.mp hspec
      have hi : i.1 < layers.length := by
        rw [hlength]
        exact i.2
      obtain ⟨hfst, hhash⟩ := hall i.1 hi i.2
      obtain ⟨data', hdata', hhash'⟩ := (List.forall₂_iff_get.mp hhashed).2 i.1 hi i.2
      -- the layer goes to the place of the file, which is still there
      have hplace : layerPlace C place.1 (layers.get ⟨i.1, hi⟩) = place := by
        have hname' : fileName (C.hash (layers.get ⟨i.1, hi⟩).2) = .ok place.2 := by
          rw [hhash]
          exact hname
        rw [fileName_hash] at hname'
        rw [layerPlace, Except.ok.inj hname']
      have hkept : files₂.get? place = some data := by
        have hstay : files.Grows (client.verifiedLayers C r files descriptors).1
            (fun place data => ∃ d ∈ descriptors, client.CachedAt C d place data) :=
          grows_verifiedLayers files descriptors
        rw [hlayers] at hstay
        exact hgrows.kept _ _ (hstay.kept _ _ hfile)
      rw [Function.comp_apply, hplace, hkept] at hdata'
      exact hnot (by rw [Option.some.inj hdata']; exact hhash')
  · intro hclean files' reply h
    refine ⟨call_committed hclean h, call_plain h, fun files₀ reply₀ h₀ => ?_⟩
    exact (committed_plain h₀).unique hC (call_committed hclean h)

/-! ## Sequences -/

/-- A file that a call may write. -/
def Writes (C : Content Bytes) (E : Evidence Bytes Key) (client : HubClient Key)
    (r : Registry Bytes) (place : Place) (data : Bytes) : Call → Prop
  | .pull reference verify require => ∃ digest,
    client.verifiedDigest C E r reference verify require = .ok digest ∧
      client.cachePath digest = .ok (some place) ∧ verifiedConfig C r digest = .ok data
  | .pullPayload reference ask => ∃ descriptors,
    client.payloadDescriptors C E r reference ask = .ok descriptors ∧
      ∃ d ∈ descriptors, client.CachedAt C d place data
  | .pullLayer reference digest ask => ∃ descriptors,
    client.payloadDescriptors C E r reference { ask with mediaType := none } = .ok descriptors ∧
      ∃ d ∈ descriptors, d.digest = digest ∧ client.CachedAt C d place data
  | .materialize reference dest ask => ∃ descriptors,
    client.payloadDescriptors C E r reference ask = .ok descriptors ∧
      ∃ d ∈ descriptors, client.CachedAt C d place data ∨
        dest.or client.cacheDir = some place.1 ∧ fileName d.digest = .ok place.2 ∧
          C.hash data = d.digest

theorem grows_pull (reference : String) (verify : Bool) (require : List String) :
    files.Grows (client.pull C E r files reference verify require).1
      (fun place data => client.Writes C E r place data (.pull reference verify require)) := by
  rw [pull]
  cases hdigest : client.verifiedDigest C E r reference verify require with
  | error e => exact .refl
  | ok digest =>
    cases hpath : client.cachePath digest with
    | error e =>
      simp only [hpath]
      exact .refl
    | ok cached =>
      simp only [hpath, pullAt]
      cases cached.bind files.get? with
      | some data => exact .refl
      | none =>
        cases hconfig : verifiedConfig C r digest with
        | error e => exact .refl
        | ok config =>
          refine Files.grows_keepAt fun place hplace => ⟨digest, hdigest, ?_, hconfig⟩
          rw [hpath, hplace]

theorem grows_pullPayload (reference : String) (ask : Ask) :
    files.Grows (client.pullPayload C E r files reference ask).1
      (fun place data => client.Writes C E r place data (.pullPayload reference ask)) := by
  rw [pullPayload]
  cases hdescriptors : client.payloadDescriptors C E r reference ask with
  | error e => exact .refl
  | ok descriptors =>
    exact (grows_verifiedLayers files descriptors).mono fun _ _ h =>
      ⟨descriptors, hdescriptors, h⟩

theorem grows_pullLayer (reference digest : String) (ask : Ask) :
    files.Grows (client.pullLayer C E r files reference digest ask).1
      (fun place data => client.Writes C E r place data (.pullLayer reference digest ask)) := by
  rw [pullLayer]
  cases hdescriptors :
      client.payloadDescriptors C E r reference { ask with mediaType := none } with
  | error e => exact .refl
  | ok descriptors =>
    cases hfind : descriptors.find? fun d => d.digest = digest with
    | none =>
      simp only [hfind]
      exact .refl
    | some d =>
      simp only [hfind]
      have hfound := List.find?_some hfind
      exact (grows_verifiedBytes d).mono fun _ _ h => ⟨descriptors, hdescriptors, d,
        List.mem_of_find?_eq_some hfind, of_decide_eq_true hfound, h⟩

theorem grows_materialize (reference : String) (dest : Option String) (ask : Ask) :
    files.Grows (client.materialize C E r files reference dest ask).1
      (fun place data => client.Writes C E r place data (.materialize reference dest ask)) := by
  have hcache : files.Grows (client.pullPayload C E r files reference ask).1
      (fun place data => client.Writes C E r place data (.materialize reference dest ask)) :=
    (grows_pullPayload reference ask).mono fun _ _ ⟨ds, hds, d, hd, h⟩ => ⟨ds, hds, d, hd, .inl h⟩
  rw [materialize]
  cases htarget : dest.or client.cacheDir with
  | none => exact .refl
  | some target =>
    cases hpull : client.pullPayload C E r files reference ask with
    | mk files₁ result =>
      rw [hpull] at hcache
      cases result with
      | error e => exact hcache
      | ok layers =>
        obtain ⟨descriptors, hdescriptors, hlayers⟩ := pullPayload_eq_ok.1 hpull
        have hspec := verifiedLayers_spec hlayers
        have hhash : ∀ p ∈ layers, C.hash p.2 = p.1.digest := hash_of_mem_layers hspec
        obtain ⟨files₂, hplaced, hgrows, -⟩ : ∃ files₂, placeLayers target files₁ layers =
              (files₂, .ok (layers.map (layerPlace C target))) ∧
            files₁.Grows files₂ (fun p data =>
              ∃ layer ∈ layers, p = layerPlace C target layer ∧ data = layer.2) ∧ _ :=
          placeLayers_spec hhash
        simp only [hplaced]
        refine hcache.trans (hgrows.mono ?_)
        rintro place data ⟨p, hp, rfl, rfl⟩
        have hd : p.1 ∈ descriptors := by
          obtain ⟨i, rfl⟩ := List.get_of_mem hp
          obtain ⟨hlength, hall⟩ := List.forall₂_iff_get.mp hspec
          have hi : i.1 < descriptors.length := by
            rw [← hlength]
            exact i.2
          rw [(hall i.1 i.2 hi).1]
          exact List.get_mem _ _
        refine ⟨descriptors, hdescriptors, p.1, hd, .inr ⟨htarget, ?_, hhash p hp⟩⟩
        rw [← hhash p hp, fileName_hash]
        rfl

/-- **Step.** What a call leaves is there already, or it is a file that the call may write. -/
theorem grows_call (c : Call) : files.Grows (client.call C E r files c).1
    (fun place data => client.Writes C E r place data c) := by
  cases c with
  | pull reference verify require => exact grows_pull reference verify require
  | pullPayload reference ask => exact grows_pullPayload reference ask
  | pullLayer reference digest ask => exact grows_pullLayer reference digest ask
  | materialize reference dest ask => exact grows_materialize reference dest ask

/-- **Run.** What some calls leave is there already, or one of them may write it. -/
theorem grows_calls (cs : List Call) : files.Grows (client.calls C E r files cs)
    (fun place data => ∃ c ∈ cs, client.Writes C E r place data c) := by
  induction cs generalizing files with
  | nil => exact .refl
  | cons c cs ih =>
    have hstep : files.Grows (client.call C E r files c).1
        (fun place data => ∃ c' ∈ c :: cs, client.Writes C E r place data c') :=
      (grows_call c).mono fun _ _ h => ⟨c, List.mem_cons_self, h⟩
    have hrest : (client.call C E r files c).1.Grows (client.calls C E r files (c :: cs))
        (fun place data => ∃ c' ∈ c :: cs, client.Writes C E r place data c') :=
      ih.mono fun _ _ ⟨c', hc', h⟩ => ⟨c', List.mem_cons_of_mem _ hc', h⟩
    exact hstep.trans hrest

/-- Each call of a sequence is good on the files behind the calls before it. -/
def ReadsGood (C : Content Bytes) (E : Evidence Bytes Key) (client : HubClient Key)
    (r : Registry Bytes) (files : Files Bytes) (cs : List Call) : Prop :=
  ∀ before c after, cs = before ++ c :: after →
    client.Good C E r (client.calls C E r files before) c

/-- Each call of a sequence finds no file that misleads it, if it can take what it is to place. -/
def FindsClean (C : Content Bytes) (E : Evidence Bytes Key) (client : HubClient Key)
    (r : Registry Bytes) (files : Files Bytes) (cs : List Call) : Prop :=
  ∀ before c after, cs = before ++ c :: after →
    client.Fetches C E r (client.calls C E r files before) c →
      client.Clean C E r (client.calls C E r files before) c

/-- No file that is there at first misleads a call of the sequence, and no file that one of its calls
may write misleads a later one. -/
def StartsClean (C : Content Bytes) (E : Evidence Bytes Key) (client : HubClient Key)
    (r : Registry Bytes) (files : Files Bytes) (cs : List Call) : Prop :=
  (∀ c ∈ cs, client.Clean C E r files c) ∧
    cs.Pairwise fun c later => ∀ place data, client.Writes C E r place data c →
      ¬ client.Misleads C E r place data later

theorem findsClean_of_startsClean {cs : List Call} (h : client.StartsClean C E r files cs) :
    client.FindsClean C E r files cs := by
  rintro before c after rfl - place data hfile
  rcases (grows_calls before).new place data hfile with hfile | ⟨c', hc', hwrites⟩
  · exact h.1 c (List.mem_append_right _ List.mem_cons_self) place data hfile
  · exact (List.pairwise_append.mp h.2).2.2 c' hc' c List.mem_cons_self place data hwrites

/-- **Main theorem.** Each call of a sequence raises or hands over what the manifest of its reference
commits to, exactly if each finds no file that misleads it: so it is when no file that is there at
first, and none that an earlier call writes, misleads a call. -/
theorem reads_good_iff (hC : C.Lawful) (E : Evidence Bytes Key) (client : HubClient Key)
    (r : Registry Bytes) (files : Files Bytes) (cs : List Call) :
    (client.ReadsGood C E r files cs ↔ client.FindsClean C E r files cs) ∧
      (client.StartsClean C E r files cs → client.ReadsGood C E r files cs) := by
  have hiff : client.ReadsGood C E r files cs ↔ client.FindsClean C E r files cs :=
    forall_congr' fun _ => forall_congr' fun _ => forall_congr' fun _ => forall_congr' fun _ =>
      good_iff hC
  exact ⟨hiff, fun h => hiff.mpr (findsClean_of_startsClean h)⟩

/-- The manifest of the rover. -/
def roverManifest : ImageManifest where
  artifactType := some "asset"
  config := some ⟨"json", "sha256:config", 6, none, .empty⟩
  layers := some [⟨"bytes", "sha256:layer", 5, none, .empty⟩]
  subject := none
  annotations := .empty

/-- The manifest of an artifact whose layer is the manifest of the rover. -/
def carrierManifest : ImageManifest :=
  { roverManifest with layers := some [⟨"bytes", "sha256:rover", 2, none, .empty⟩] }

/-- Hashes for both. -/
def carrierLabels : List (Sample × String) :=
  [(.text "config", "config"), (.text "layer", "layer"), (.manifest roverManifest, "rover"),
    (.manifest carrierManifest, "carrier")]

/-- The registry that holds both. -/
def carrierStore : Registry Sample where
  blobs := .ofList (carrierLabels.map Prod.swap)
  index :=
    [⟨mediaManifest, "sha256:rover", 2, none, Dict.empty.set refAnnotation "rover:1.0"⟩,
      ⟨mediaManifest, "sha256:carrier", 2, none, Dict.empty.set refAnnotation "carrier:1.0"⟩]

/-- Evidence that is never asked for. -/
def noEvidence : Evidence Sample Unit := ⟨fun _ _ _ => false, fun _ => false, fun _ => false⟩

/-- A client with a cache. -/
def sampleClient : HubClient Unit := ⟨some "cache", none⟩

/-- The payload of the rover and then its config are what its manifest commits to. -/
theorem rover_reads_good : sampleClient.ReadsGood (sampleContent carrierLabels) noEvidence
    carrierStore .empty [.pullPayload "rover:1.0" { require := [] }, .pull "rover:1.0" true []] := by
  refine (reads_good_iff (sampleContent_lawful (by decide +kernel)) noEvidence sampleClient
    carrierStore .empty _).2 ⟨fun c _ place data hfile => (by cases hfile), ?_⟩
  refine .cons ?_ (.cons (fun _ h => (by cases h)) .nil)
  intro later hlater
  rw [List.mem_singleton.mp hlater]
  rintro place data ⟨descriptors, hdescriptors, d, hd, hcached, -⟩ ⟨digest, hdigest, hpath, -⟩
  have hlayers : sampleClient.payloadDescriptors (sampleContent carrierLabels) noEvidence
      carrierStore "rover:1.0" { require := [] } =
      .ok [⟨"bytes", "sha256:layer", 5, none, .empty⟩] := by decide +kernel
  have hrover : sampleClient.verifiedDigest (sampleContent carrierLabels) noEvidence carrierStore
      "rover:1.0" true [] = .ok "sha256:rover" := by decide +kernel
  obtain rfl := Except.ok.inj (hlayers.symm.trans hdescriptors)
  obtain rfl := Except.ok.inj (hrover.symm.trans hdigest)
  rw [List.mem_singleton.mp hd] at hcached
  have hplaces := hcached.trans hpath.symm
  revert hplaces
  decide +kernel

/-- **Counterexample.** Behind the payload of an artifact that carries the manifest of the rover, the
config of the rover is that manifest. -/
theorem carrier_not_reads_good : ¬ sampleClient.ReadsGood (sampleContent carrierLabels) noEvidence
    carrierStore .empty
    [.pullPayload "carrier:1.0" { require := [] }, .pull "rover:1.0" true []] := by
  intro hreads
  have hgood := hreads [.pullPayload "carrier:1.0" { require := [] }] (.pull "rover:1.0" true []) []
    rfl
  have hdigest : sampleClient.verifiedDigest (sampleContent carrierLabels) noEvidence carrierStore
      "rover:1.0" true [] = .ok "sha256:rover" := by decide +kernel
  have hfile : (sampleClient.calls (sampleContent carrierLabels) noEvidence carrierStore .empty
      [.pullPayload "carrier:1.0" { require := [] }]).get? ("cache", "rover") =
      some (.manifest roverManifest) := by decide +kernel
  refine (good_iff (sampleContent_lawful (by decide +kernel))).mp hgood trivial _ _ hfile
    ⟨_, hdigest, by decide, ?_⟩
  rintro ⟨manifest, config, hread, hconfig, hhash⟩
  have hmanifest : carrierStore.readManifest (sampleContent carrierLabels) "sha256:rover" =
      .ok roverManifest := by decide +kernel
  obtain rfl := Except.ok.inj (hmanifest.symm.trans hread)
  obtain rfl := Option.some.inj (hconfig.symm.trans (rfl : roverManifest.config = some _))
  revert hhash
  decide +kernel

end HubClient

end AstroMine.Hub
