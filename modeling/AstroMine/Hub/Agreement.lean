import AstroMine.Hub.Search

/-!
# One query on both backends

A store and a catalog in memory that hold the same entries, and what a query finds in each.

Results:
* `search_agree_iff`: the inputs on which the two answer alike.
-/

namespace AstroMine.Hub

open SqlCatalog (clausesMatch ranksInCaller Mirrors)

variable (lower : String → String) (number : String → Option ℕ) (entries : List CatalogEntry)
  (query : SearchQuery) (vector : Option (List ℚ))

/-! ## What each backend ranks -/

/-- The candidates in memory. -/
def matching : List CatalogEntry :=
  entries.filter fun entry => clausesMatch lower query entry &&
    accepts (capabilityMatch number query) entry && artifactKindMatch query entry

/-- The candidates of the store. -/
def found : List CatalogEntry :=
  entries.filter fun entry => fetched lower query vector entries entry &&
    accepts (capabilityMatch number query) entry

/-- Negotiation returns for every entry it is tried on in memory. -/
def negotiates : Bool :=
  entries.all fun entry => !facetMatch query entry || answers (capabilityMatch number query) entry

/-- Negotiation returns for every entry the store fetches. -/
def negotiatesFetched : Bool :=
  entries.all fun entry => !fetched lower query vector entries entry ||
    answers (capabilityMatch number query) entry

/-- The candidates of both backends rank alike. -/
structure SameLeaders : Prop where
  /-- A negative limit leaves as many of one as of the other. -/
  count : sliceCount query.limit (found lower number entries query vector).length =
    sliceCount query.limit (matching lower number entries query).length
  /-- What leads the ranking of the store has the artifact kind asked for. -/
  artifactKind : ∀ entry ∈ found lower number entries query vector,
    leads lower query vector (found lower number entries query vector) entry →
      artifactKindMatch query entry = true
  /-- The limit of the store leaves in what leads the ranking in memory. -/
  kept : ∀ entry ∈ matching lower number entries query,
    leads lower query vector (matching lower number entries query) entry →
      fetched lower query vector entries entry = true

/-- The inputs on which both backends answer alike: a version that cannot be read is met on both
sides or on neither, and if on neither, the candidates rank alike. -/
def Agreeing : Prop :=
  negotiates number entries query = negotiatesFetched lower number entries query vector ∧
    (negotiates number entries query = true → SameLeaders lower number entries query vector)

variable {lower number entries query vector}

theorem mem_found_of_matching {entry : CatalogEntry}
    (h : entry ∈ matching lower number entries query) :
    entry ∈ found lower number entries query vector ↔
      fetched lower query vector entries entry = true := by
  obtain ⟨hentry, htest⟩ := List.mem_filter.mp h
  simp only [Bool.and_eq_true] at htest
  rw [found, List.mem_filter, Bool.and_eq_true]
  exact ⟨fun h => h.2.1, fun h => ⟨hentry, h, htest.1.2⟩⟩

theorem mem_matching_of_found {entry : CatalogEntry}
    (h : entry ∈ found lower number entries query vector) :
    entry ∈ matching lower number entries query ↔ artifactKindMatch query entry = true := by
  obtain ⟨hentry, htest⟩ := List.mem_filter.mp h
  simp only [fetched, Bool.and_eq_true] at htest
  rw [matching, List.mem_filter, Bool.and_eq_true, Bool.and_eq_true]
  exact ⟨fun h => h.2.2, fun h => ⟨hentry, ⟨htest.1.1, htest.2⟩, h⟩⟩

theorem references_filter (h : (entries.map CatalogEntry.reference).Nodup)
    (p : CatalogEntry → Bool) : ((entries.filter p).map CatalogEntry.reference).Nodup :=
  h.sublist (List.filter_sublist.map _)

/-- The two rankings are one when the same entries lead them. -/
theorem rank_found_eq_iff (h : (entries.map CatalogEntry.reference).Nodup) :
    rank lower query vector (found lower number entries query vector) =
        rank lower query vector (matching lower number entries query) ↔
      SameLeaders lower number entries query vector := by
  have hsame : ∀ x ∈ found lower number entries query vector,
      ∀ y ∈ matching lower number entries query, x.reference = y.reference → x = y := by
    intro x hx y hy
    exact List.inj_on_of_nodup_map h (List.mem_filter.mp hx).1 (List.mem_filter.mp hy).1
  refine (rank_eq_iff (references_filter h _) (references_filter h _) hsame).trans ?_
  constructor
  · rintro ⟨hcount, hfound, hmatching⟩
    refine ⟨hcount, fun entry hentry hlead => ?_, fun entry hentry hlead => ?_⟩
    · exact (mem_matching_of_found hentry).mp (hfound entry hentry hlead)
    · exact (mem_found_of_matching hentry).mp (hmatching entry hentry hlead)
  · intro hsame
    refine ⟨hsame.count, fun entry hentry hlead => ?_, fun entry hentry hlead => ?_⟩
    · exact (mem_matching_of_found hentry).mpr (hsame.artifactKind entry hentry hlead)
    · exact (mem_found_of_matching hentry).mpr (hsame.kept entry hentry hlead)

/-! ## The backends -/

theorem search_toOption (provider : String → List ℚ) (backend : Backend) :
    (search lower number provider backend query).toOption =
      (candidates lower number query (queryVector provider query) backend).toOption.map
        (rank lower query (queryVector provider query)) := by
  unfold search
  dsimp only
  cases candidates lower number query (queryVector provider query) backend <;> rfl

/-- What a query finds in memory, by the entries. -/
theorem search_memory (hlower : lower "" = "") (provider : String → List ℚ)
    {catalog : InMemoryCatalog} (hall : catalog.all.Perm entries)
    (h : (entries.map CatalogEntry.reference).Nodup) :
    (search lower number provider (.memory catalog) query).toOption =
      if negotiates number entries query then
        some (rank lower query (queryVector provider query) (matching lower number entries query))
      else none := by
  have hmatching : (catalog.all.filter fun entry => clausesMatch lower query entry &&
      accepts (capabilityMatch number query) entry && artifactKindMatch query entry).Perm
        (matching lower number entries query) := hall.filter _
  rw [search_toOption, candidates_memory hlower, hall.all_eq, apply_ite (Option.map _),
    Option.map_some, rank_perm hmatching (references_filter ((hall.map _).nodup_iff.mpr h) _)]
  rfl

/-- What a query finds in a store, by the entries. -/
theorem search_sql (provider : String → List ℚ) {catalog : SqlCatalog}
    (h : catalog.Mirrors lower entries) :
    (search lower number provider (.sql catalog) query).toOption =
      if negotiatesFetched lower number entries query (queryVector provider query) then
        some (rank lower query (queryVector provider query)
          (found lower number entries query (queryVector provider query)))
      else none := by
  obtain ⟨rows, hrows, hcandidates⟩ :
      ∃ rows : List CatalogEntry,
        rows.Perm (found lower number entries query (queryVector provider query)) ∧
        (candidates lower number query (queryVector provider query) (.sql catalog)).toOption =
          if negotiatesFetched lower number entries query (queryVector provider query) then some rows
          else none := candidates_sql h
  have hreferences := (hrows.map CatalogEntry.reference).nodup_iff.mpr
    (references_filter h.references _)
  rw [search_toOption, hcandidates, apply_ite (Option.map _), Option.map_some,
    rank_perm hrows hreferences]
  rfl

/-- **Main theorem.** A store and a catalog in memory with the same entries answer a query alike on
the agreeing inputs, and on no others. -/
theorem search_agree_iff (hlower : lower "" = "") (provider : String → List ℚ) (dim : ℕ)
    (added addedInMemory : List CatalogEntry) (catalog : SqlCatalog)
    (hadded : (SqlCatalog.empty dim).addAll lower added = .ok catalog)
    (hsame : (InMemoryCatalog.empty.addAll addedInMemory).all.Perm catalog.all) :
    (search lower number provider (.sql catalog) query).toOption =
        (search lower number provider (.memory (InMemoryCatalog.empty.addAll addedInMemory))
          query).toOption ↔
      Agreeing lower number catalog.all query (queryVector provider query) := by
  have hadded := SqlCatalog.mirrors_addAll hadded
  have hmirrors : catalog.Mirrors lower catalog.all := hadded.perm hadded.all_perm
  rw [search_sql provider hmirrors, search_memory hlower provider hsame hmirrors.references, Agreeing,
    ← rank_found_eq_iff hmirrors.references]
  cases negotiates number catalog.all query <;>
    cases negotiatesFetched lower number catalog.all query (queryVector provider query) <;> simp

/-! ## Two artifact kinds -/

/-- An asset and a policy, of one Core kind. -/
def twoKinds : List CatalogEntry :=
  [ { manifest := { name := "rover", version := "1.0.0", kind := .asset }
      digest := "sha256:0", publisher := "lab", artifactKind := some "asset" },
    { manifest := { name := "drill", version := "1.0.0", kind := .asset }
      digest := "sha256:1", publisher := "lab", artifactKind := some "policy" } ]

theorem browse_agrees : ∃ catalog, (SqlCatalog.empty 64).addAll String.toLower twoKinds = .ok catalog ∧
    Agreeing String.toLower String.toNat? catalog.all {} (queryVector (fun _ => []) {}) := by
  obtain ⟨catalog, hadded, hequal⟩ := exists_ok_of_any (x :=
    (SqlCatalog.empty 64).addAll String.toLower twoKinds) (p := fun catalog =>
      decide ((search String.toLower String.toNat? (fun _ => []) (.sql catalog) {}).toOption =
        (search String.toLower String.toNat? (fun _ => [])
          (.memory (InMemoryCatalog.empty.addAll twoKinds)) {}).toOption)) (by decide +kernel)
  have hall := (SqlCatalog.mirrors_addAll hadded).all_perm
  exact ⟨catalog, hadded, (search_agree_iff (by decide +kernel) (fun _ => []) 64 twoKinds twoKinds
    catalog hadded hall).mp (of_decide_eq_true hequal)⟩

/-- A store does not ask for the artifact kind. -/
theorem containerQuery_not_agree :
    ∃ catalog, (SqlCatalog.empty 64).addAll String.toLower twoKinds = .ok catalog ∧
      (InMemoryCatalog.empty.addAll twoKinds).all.Perm catalog.all ∧
      (search String.toLower String.toNat? (fun _ => []) (.sql catalog)
          { artifactKind := some "asset" }).toOption ≠
        (search String.toLower String.toNat? (fun _ => [])
          (.memory (InMemoryCatalog.empty.addAll twoKinds))
          { artifactKind := some "asset" }).toOption := by
  obtain ⟨catalog, hadded, hdiffer⟩ := exists_ok_of_any (x :=
    (SqlCatalog.empty 64).addAll String.toLower twoKinds) (p := fun catalog =>
      decide ((search String.toLower String.toNat? (fun _ => []) (.sql catalog)
          { artifactKind := some "asset" }).toOption ≠
        (search String.toLower String.toNat? (fun _ => [])
          (.memory (InMemoryCatalog.empty.addAll twoKinds))
          { artifactKind := some "asset" }).toOption)) (by decide +kernel)
  exact ⟨catalog, hadded, (SqlCatalog.mirrors_addAll hadded).all_perm, of_decide_eq_true hdiffer⟩

end AstroMine.Hub
