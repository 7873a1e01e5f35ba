import Mathlib.Data.Rat.Defs
import AstroMine.Lib.Dict
import AstroMine.Lib.Except

/-!
# The catalog and its entries

The record the hub indexes (`core/registry/model.py`, `hub/index/_catalog.py`), the text it is found
by (`hub/_embed.py`, `hub/index/_ingest.py`), the version rule (`core/compat/__init__.py`) and the
catalog in memory. Capability tags go by their values. `str.lower` and the reading of a string of
digits belong to the language and are parameters.

Results:
* `tokenize_spec`: a token is a nonempty run of token characters.
* `InMemoryCatalog.all_add`: what the catalog holds after an entry is added.
-/

namespace AstroMine.Hub

/-! ## Text -/

/-- A character of `[a-z0-9]`. -/
def isTokenChar (c : Char) : Bool :=
  (decide ('a' ≤ c) && decide (c ≤ 'z')) || (decide ('0' ≤ c) && decide (c ≤ '9'))

/-- The run of token characters a text starts with, and the runs after it. -/
def scanTokens : List Char → List Char × List (List Char)
  | [] => ([], [])
  | c :: cs =>
    let (run, runs) := scanTokens cs
    if isTokenChar c then (c :: run, runs)
    else ([], if run = [] then runs else run :: runs)

/-- `_TOKEN.findall` (`_embed.py`, line 23): the maximal runs of token characters. -/
def findTokens (cs : List Char) : List (List Char) :=
  let (run, runs) := scanTokens cs
  if run = [] then runs else run :: runs

/-- `tokenize` (`_embed.py`, lines 26–28). -/
def tokenize (lower : String → String) (text : String) : List (List Char) :=
  findTokens (lower text).toList

theorem scanTokens_spec (cs : List Char) :
    (∀ c ∈ (scanTokens cs).1, isTokenChar c = true) ∧
      ∀ run ∈ (scanTokens cs).2, run ≠ [] ∧ ∀ c ∈ run, isTokenChar c = true := by
  induction cs with
  | nil => simp [scanTokens]
  | cons c cs ih =>
    obtain ⟨hrun, hruns⟩ := ih
    rw [scanTokens]
    by_cases hc : isTokenChar c = true
    · simp only [hc, if_true, List.forall_mem_cons]
      exact ⟨⟨trivial, hrun⟩, hruns⟩
    · simp only [hc, if_false, Bool.false_eq_true]
      refine ⟨by simp, ?_⟩
      by_cases hnil : (scanTokens cs).1 = []
      · rwa [if_pos hnil]
      · rw [if_neg hnil, List.forall_mem_cons]
        exact ⟨⟨hnil, hrun⟩, hruns⟩

/-- A token is a nonempty run of token characters. -/
theorem tokenize_spec {lower : String → String} {text : String} {token : List Char}
    (h : token ∈ tokenize lower text) : token ≠ [] ∧ ∀ c ∈ token, isTokenChar c = true := by
  obtain ⟨hrun, hruns⟩ := scanTokens_spec (lower text).toList
  simp only [tokenize, findTokens] at h
  by_cases hnil : (scanTokens (lower text).toList).1 = []
  · rw [if_pos hnil] at h
    exact hruns token h
  · rw [if_neg hnil] at h
    rcases List.mem_cons.mp h with rfl | h
    · exact ⟨hnil, hrun⟩
    · exact hruns token h

/-! ## Versions -/

/-- The `ValueError` of `parse_version`. -/
structure VersionError where
  version : String
  deriving DecidableEq, Repr

/-- `parse_version` (lines 64–70); `number` reads a string of digits. -/
def parseVersion (number : String → Option ℕ) (version : String) :
    Except VersionError (ℕ × ℕ × ℕ) :=
  match (version.splitOn ".").mapM number with
  | some [major, minor, patch] => .ok (major, minor, patch)
  | _ => .error ⟨version⟩

/-- `check_compatible` (lines 73–86). -/
def checkCompatible (number : String → Option ℕ) (required provided : String) :
    Except VersionError Bool := do
  let (rMajor, rMinor, _) ← parseVersion number required
  let (pMajor, pMinor, _) ← parseVersion number provided
  if rMajor ≠ pMajor then return false
  if rMajor = 0 then return pMinor = rMinor
  return rMinor ≤ pMinor

/-! ## Manifests -/

/-- `PluginKind` (`core/registry/enums.py`, lines 60–86). -/
inductive PluginKind where
  | regimeEngine | sensorModel | couplingScheme | worldProvider | bodyPack | fieldModel
  | resourceFieldBackend | observationModel | priorRecipe | infoGainObjective | commsModel | asset
  | policy | metric | design | campaign
  deriving DecidableEq, Repr

/-- The values of `PluginKind`. -/
def PluginKind.value : PluginKind → String
  | .regimeEngine => "regime_engine"
  | .sensorModel => "sensor_model"
  | .couplingScheme => "coupling_scheme"
  | .worldProvider => "world_provider"
  | .bodyPack => "body_pack"
  | .fieldModel => "field_model"
  | .resourceFieldBackend => "resource_field_backend"
  | .observationModel => "observation_model"
  | .priorRecipe => "prior_recipe"
  | .infoGainObjective => "info_gain_objective"
  | .commsModel => "comms_model"
  | .asset => "asset"
  | .policy => "policy"
  | .metric => "metric"
  | .design => "design"
  | .campaign => "campaign"

/-- `PluginManifest` (`core/registry/model.py`, lines 105–139). -/
structure PluginManifest where
  name : String
  version : String
  kind : PluginKind
  coreInterfaces : Dict String String := .empty
  inputs : List String := []
  outputs : List String := []
  capabilityTags : List String := []
  description : Option String := none
  license : Option String := none
  deriving DecidableEq

/-- The loop of `satisfies` over the required interfaces (lines 162–165). -/
def satisfiesInterfaces (number : String → Option ℕ) (declared : Dict String String) :
    List (String × String) → Except VersionError Bool
  | [] => .ok true
  | (name, required) :: rest =>
    match declared.get? name with
    | none => .ok false
    | some version => do
      if ← checkCompatible number required version then satisfiesInterfaces number declared rest
      else return false

/-- `PluginManifest.satisfies` (lines 147–167). -/
def PluginManifest.satisfies (number : String → Option ℕ) (manifest : PluginManifest)
    (interfaces : List (String × String)) (capabilityTags : List String) :
    Except VersionError Bool := do
  if ← satisfiesInterfaces number manifest.coreInterfaces interfaces then
    return capabilityTags.all fun tag => tag ∈ manifest.capabilityTags
  else return false

/-- `index_document` (`_ingest.py`, lines 25–34). -/
def indexDocument (manifest : PluginManifest) : String :=
  String.intercalate " " ((manifest.name :: manifest.description.getD "" ::
    manifest.capabilityTags ++ manifest.inputs ++ manifest.outputs).filter fun part => part ≠ "")

/-! ## Entries -/

/-- `CatalogEntry` (`_catalog.py`, lines 29–51). -/
structure CatalogEntry where
  manifest : PluginManifest
  digest : String
  publisher : String
  nameSpace : String := "open"
  artifactKind : Option String := none
  downloads : ℕ := 0
  deprecated : Bool := false
  yanked : Bool := false
  embedding : List ℚ := []
  embeddingProvider : String := ""
  deriving DecidableEq

namespace CatalogEntry

/-- `reference` (lines 68–70). -/
def reference (entry : CatalogEntry) : String := entry.manifest.name ++ ":" ++ entry.manifest.version

/-- `kind` (lines 73–74). -/
def kind (entry : CatalogEntry) : String := entry.manifest.kind.value

/-- `license` (lines 77–78). -/
def license (entry : CatalogEntry) : Option String := entry.manifest.license

end CatalogEntry

/-! ## The catalog in memory -/

/-- `InMemoryCatalog` (lines 110–123). -/
structure InMemoryCatalog where
  byRef : Dict String CatalogEntry

namespace InMemoryCatalog

/-- `__init__`. -/
def empty : InMemoryCatalog := ⟨.empty⟩

/-- `add`. -/
def add (catalog : InMemoryCatalog) (entry : CatalogEntry) : InMemoryCatalog :=
  ⟨catalog.byRef.set entry.reference entry⟩

/-- `all`. -/
def all (catalog : InMemoryCatalog) : List CatalogEntry := catalog.byRef.entries.map Prod.snd

/-- Every entry is kept under its own reference. -/
def Keyed (catalog : InMemoryCatalog) : Prop :=
  ∀ p ∈ catalog.byRef.entries, p.1 = p.2.reference

theorem keyed_empty : empty.Keyed := by
  intro p hp
  cases hp

theorem keyed_add {catalog : InMemoryCatalog} (h : catalog.Keyed) (entry : CatalogEntry) :
    (catalog.add entry).Keyed := by
  intro p hp
  rcases mem_updateEntries hp with hp | ⟨o, rfl⟩
  · exact h p hp
  · rfl

/-- What the catalog holds after an entry is added. -/
theorem all_add {catalog : InMemoryCatalog} (h : catalog.Keyed) (entry : CatalogEntry) :
    (catalog.add entry).all.Perm
      ((catalog.all.filter fun e => e.reference ≠ entry.reference) ++ [entry]) := by
  have hperm := (updateEntries_perm entry.reference entry catalog.byRef.keys_nodup).map Prod.snd
  rw [List.map_append] at hperm
  refine hperm.trans (.append_right _ (.of_eq ?_))
  unfold all
  rw [List.filter_map]
  congr 1
  refine List.filter_congr fun p hp => ?_
  simp [h p hp]

/-- References are distinct. -/
theorem references_nodup {catalog : InMemoryCatalog} (h : catalog.Keyed) :
    (catalog.all.map CatalogEntry.reference).Nodup := by
  have hkeys : catalog.all.map CatalogEntry.reference = catalog.byRef.entries.map Prod.fst := by
    unfold all
    rw [List.map_map]
    refine List.map_congr_left fun p hp => ?_
    exact (h p hp).symm
  rw [hkeys]
  exact catalog.byRef.keys_nodup

/-- Entries added one after the other. -/
def addAll (catalog : InMemoryCatalog) (entries : List CatalogEntry) : InMemoryCatalog :=
  entries.foldl add catalog

end InMemoryCatalog

end AstroMine.Hub
