import Mathlib.Data.List.MinMax
import Mathlib.Data.Prod.Lex
import Mathlib.Data.String.Basic
import Mathlib.Order.WithBot
import AstroMine.Hub.Catalog

/-!
# Resolution (`hub/resolve/_resolve.py`)

The artifact that a request resolves to: the highest version of the name that is not yanked, fits
the specifier, runs on this Core and satisfies the request. Versions and specifiers are those of the
packaging library, and the versions of the Core interfaces are given.

Results:
* `resolve_eq_ok`: what is resolved is an entry of the catalog that is not yanked.
-/

namespace AstroMine.Hub

/-- What resolution uses of versions: their reading, and specifiers with whether prereleases are
included. -/
structure Versions (V : Type) where
  version : String → Option V
  specifier : String → Option (Bool → V → Bool)
  number : String → Option ℕ
  coreInterfaces : Dict String String

/-- `ResolutionRequest` (lines 42–52). -/
structure ResolutionRequest where
  name : String
  versionSpec : String := ""
  interfaces : Option (Dict String String) := none
  capabilityTags : List String := []
  providedInterfaces : Option (Dict String String) := none
  includePrereleases : Bool := false

/-- `ResolvedArtifact` (lines 56–61). -/
structure ResolvedArtifact where
  reference : String
  digest : String
  version : String
  deriving DecidableEq

/-- What `resolve` raises. -/
inductive ResolutionError
  | unresolvable
  | invalidSpecifier (spec : String)
  | noArtifact (name : String)
  | version (error : VersionError)

variable {V : Type} [LinearOrder V] (W : Versions V)

/-- The loop of `assert_core_compatible` (`core/compat/__init__.py`, lines 103–110): whether nothing
is wrong. -/
def coreCompatible (available : Dict String String) :
    List (String × String) → Except VersionError Bool
  | [] => .ok true
  | (interface, required) :: rest => do
    let fits ← match available.get? interface with
      | none => pure false
      | some provided => checkCompatible W.number required provided
    let others ← coreCompatible available rest
    return fits && others

/-- `assert_core_compatible` (lines 89–114). -/
def assertCoreCompatible (claimed provided : Dict String String) : Except VersionError Bool :=
  coreCompatible W (if provided.entries = [] then W.coreInterfaces else provided) claimed.entries

/-- `_provided` (lines 77–80). -/
def ResolutionRequest.provided (request : ResolutionRequest) : Dict String String :=
  request.providedInterfaces.getD W.coreInterfaces

/-- Whether an entry matches (lines 117–131). -/
def entryMatches (request : ResolutionRequest) (fits : Bool → V → Bool) (entry : CatalogEntry) :
    Except VersionError Bool := do
  if entry.manifest.name ≠ request.name ∨ entry.yanked = true then return false
  else
    match W.version entry.manifest.version with
    | none => return false
    | some version =>
      if fits request.includePrereleases version = false then return false
      else if ← assertCoreCompatible W entry.manifest.coreInterfaces (request.provided W) then
        entry.manifest.satisfies W.number ((request.interfaces.getD .empty).entries)
          request.capabilityTags
      else return false

/-- The order of the candidates: by version, then by reference (line 138). -/
def candidateRank (entry : CatalogEntry) : WithBot V ×ₗ String :=
  toLex ((W.version entry.manifest.version : WithBot V), entry.reference)

/-- The request itself names Core interfaces that there are (lines 107–112). -/
def checkRequest (request : ResolutionRequest) : Except ResolutionError Unit :=
  runIf ((request.interfaces.getD .empty).entries ≠ []) (do
    let compatible ← (assertCoreCompatible W (request.interfaces.getD .empty)
      (request.provided W)).mapError ResolutionError.version
    refuseIf (compatible = false) .unresolvable)

/-- `_specifier` (lines 83–87). -/
def readSpecifier (versionSpec : String) : Except ResolutionError (Bool → V → Bool) :=
  match W.specifier versionSpec with
  | none => .error (.invalidSpecifier versionSpec)
  | some fits => .ok fits

/-- The first of the matches in descending order (lines 133–141). -/
def bestMatch (request : ResolutionRequest) (found : List CatalogEntry) :
    Except ResolutionError ResolvedArtifact :=
  match found.argmax (candidateRank W) with
  | none => .error (.noArtifact request.name)
  | some best => .ok ⟨best.reference, best.digest, best.manifest.version⟩

/-- `resolve` (lines 97–141). -/
def resolveRequest (catalog : InMemoryCatalog) (request : ResolutionRequest) :
    Except ResolutionError ResolvedArtifact := do
  checkRequest W request
  let fits ← readSpecifier W request.versionSpec
  let found ← (filterE (entryMatches W request fits) catalog.all).mapError ResolutionError.version
  bestMatch W request found

omit [LinearOrder V] in
/-- An entry that matches is not yanked. -/
theorem yanked_of_entryMatches {request : ResolutionRequest} {fits : Bool → V → Bool}
    {entry : CatalogEntry} (h : entryMatches W request fits entry = .ok true) :
    entry.yanked = false := by
  rw [entryMatches] at h
  by_cases hskip : entry.manifest.name ≠ request.name ∨ entry.yanked = true
  · rw [if_pos hskip] at h
    cases h
  · exact Bool.eq_false_of_not_eq_true (not_or.mp hskip).2

/-- What is resolved is an entry of the catalog that is not yanked. -/
theorem resolve_eq_ok {catalog : InMemoryCatalog} {request : ResolutionRequest}
    {resolved : ResolvedArtifact} (h : resolveRequest W catalog request = .ok resolved) :
    ∃ entry ∈ catalog.all, entry.yanked = false ∧
      resolved = ⟨entry.reference, entry.digest, entry.manifest.version⟩ := by
  rw [resolveRequest, seq_eq_ok] at h
  simp only [bind_eq_ok, mapError_eq_ok] at h
  obtain ⟨-, fits, -, found, hfound, hbest⟩ := h
  rw [bestMatch] at hbest
  split at hbest
  · cases hbest
  · rename_i best hargmax
    obtain ⟨hmem, hmatches⟩ := (mem_of_filterE hfound best).mp (List.argmax_mem hargmax)
    exact ⟨best, hmem, yanked_of_entryMatches W hmatches, (Except.ok.inj hbest).symm⟩

end AstroMine.Hub
