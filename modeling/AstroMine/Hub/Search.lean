import Mathlib.Data.Prod.Lex
import Mathlib.Algebra.Order.Ring.Rat
import AstroMine.Hub.SqlCatalog

/-!
# Discovery over the catalog (`hub/search/_search.py`)

Candidates by facets, capability negotiation and full text, then one ranking. Scores are exact
rationals; the embedding provider is a parameter.

Results:
* `rank_eq_iff`: when two candidate lists rank alike.
* `candidates_memory`, `candidates_sql`: the candidates of each backend, by the entries.
-/

namespace AstroMine.Hub

open SqlCatalog (clausesMatch ranksInCaller Mirrors)
open scoped Texts

/-! ## Tests -/

/-- The artifact kind of an entry is the one asked for. -/
def artifactKindMatch (query : SearchQuery) (entry : CatalogEntry) : Bool :=
  query.artifactKind.all fun artifactKind => entry.artifactKind = some artifactKind

/-- `_facet_match` (lines 89–100). -/
def facetMatch (query : SearchQuery) (entry : CatalogEntry) : Bool :=
  if entry.yanked && !query.includeYanked then false
  else if entry.deprecated && !query.includeDeprecated then false
  else if query.kind.any fun kind => entry.kind ≠ kind then false
  else if !artifactKindMatch query entry then false
  else if query.license.any fun license => entry.license ≠ some license then false
  else !query.nameSpace.any fun nameSpace => entry.nameSpace ≠ nameSpace

variable (lower : String → String) (number : String → Option ℕ)

/-- `_capability_match` (lines 103–106). -/
def capabilityMatch (query : SearchQuery) (entry : CatalogEntry) : Except VersionError Bool :=
  if query.required = [] ∧ query.tags = [] then .ok true
  else entry.manifest.satisfies number query.required query.tags

/-- `_full_text_match` (lines 109–113). -/
def fullTextMatch (query : SearchQuery) (entry : CatalogEntry) : Bool :=
  if query.text.getD "" = "" then true
  else (tokenize lower (query.text.getD "")).all fun token =>
    token ∈ tokenize lower (indexDocument entry.manifest)

/-! ## Scores -/

/-- `_lexical_score` (lines 116–120). -/
def lexicalScore (terms : List (List Char)) (entry : CatalogEntry) : ℚ :=
  if terms = [] then 0
  else terms.countP (fun term => term ∈ tokenize lower (indexDocument entry.manifest)) / terms.length

/-- `cosine` (`_embed.py`, lines 50–54). -/
def cosine (a b : List ℚ) : ℚ :=
  if a = [] ∨ b = [] ∨ a.length ≠ b.length then 0 else (List.zipWith (· * ·) a b).sum

/-- The words a lexical ranking counts (line 172). -/
def terms (query : SearchQuery) : List (List Char) :=
  tokenize lower (query.text.getD "" ++ " " ++ query.semantic.getD "")

/-! ## Search -/

/-- How many elements `[:limit]` takes; a negative limit leaves that many out at the end. -/
def sliceCount (limit : ℤ) (length : ℕ) : ℕ :=
  if 0 ≤ limit then limit.toNat else (length + limit).toNat

/-- `[:limit]`. -/
def slice {α : Type} (limit : ℤ) (xs : List α) : List α := xs.take (sliceCount limit xs.length)

/-- `SearchResult` (lines 61–66). -/
structure SearchResult where
  entry : CatalogEntry
  score : ℚ
  deriving DecidableEq

/-- A catalog that filters in Python, or one that runs the query itself. -/
inductive Backend where
  | memory (catalog : InMemoryCatalog)
  | sql (catalog : SqlCatalog)

/-- `_OVERSAMPLE` (line 38). -/
def oversample : ℤ := 10

/-- The limit handed to a backend (line 136). -/
def fetchLimit (query : SearchQuery) : ℤ :=
  if query.required = [] then query.limit else query.limit * oversample

/-- The condition of the comprehension over `catalog.all()` (lines 140–146). -/
def memoryTest (query : SearchQuery) (entry : CatalogEntry) : Except VersionError Bool := do
  if facetMatch query entry then
    if ← capabilityMatch number query entry then return fullTextMatch lower query entry
    else return false
  else return false

/-- `_candidates` (lines 123–146). -/
def candidates (query : SearchQuery) (queryVector : Option (List ℚ)) :
    Backend → Except VersionError (List CatalogEntry)
  | .sql catalog => filterE (capabilityMatch number query)
      (catalog.searchEntries lower query queryVector (some (fetchLimit query)))
  | .memory catalog => filterE (memoryTest lower number query) catalog.all

/-- The ranking of the candidates (lines 166–174). -/
def rank (query : SearchQuery) (queryVector : Option (List ℚ)) (entries : List CatalogEntry) :
    List SearchResult :=
  let score := lexicalScore lower (terms lower query)
  let ranked := sortOn (fun entry => toLex (-score entry, entry.reference)) entries
  let lexical := (slice query.limit ranked).map fun entry => ⟨entry, score entry⟩
  match queryVector with
  | none => lexical
  | some vector =>
    let scored := entries.map fun entry => (entry, cosine vector entry.embedding)
    if scored.any fun pair => 0 < pair.2 then
      (slice query.limit (sortOn (fun pair => toLex (-pair.2, pair.1.reference)) scored)).map
        fun pair => ⟨pair.1, pair.2⟩
    else lexical

/-- The vector of a query (lines 161–163). -/
def queryVector (provider : String → List ℚ) (query : SearchQuery) : Option (List ℚ) :=
  if query.semantic.getD "" ≠ "" ∧ query.useSemantic then some (provider (query.semantic.getD ""))
  else none

/-- `search` (lines 149–174). -/
def search (provider : String → List ℚ) (backend : Backend) (query : SearchQuery) :
    Except VersionError (List SearchResult) := do
  let vector := queryVector provider query
  let entries ← candidates lower number query vector backend
  return rank lower query vector entries

/-! ## Rankings -/

/-- The order of a ranking by scores. -/
def rankKey (score : CatalogEntry → ℚ) (entry : CatalogEntry) : ℚ ×ₗ String :=
  toLex (-score entry, entry.reference)

/-- A candidate is close to the query vector. -/
def semantic (queryVector : Option (List ℚ)) (entries : List CatalogEntry) : Bool :=
  queryVector.any fun vector => entries.any fun entry => 0 < cosine vector entry.embedding

/-- The scores that candidates are ranked by. -/
def relevance (query : SearchQuery) (queryVector : Option (List ℚ)) (entries : List CatalogEntry)
    (entry : CatalogEntry) : ℚ :=
  if semantic queryVector entries then cosine (queryVector.getD []) entry.embedding
  else lexicalScore lower (terms lower query) entry

variable {lower} {number} {query : SearchQuery} {vector : Option (List ℚ)}

theorem rank_eq (entries : List CatalogEntry) :
    rank lower query vector entries =
      (slice query.limit (sortOn (rankKey (relevance lower query vector entries)) entries)).map
        fun entry => ⟨entry, relevance lower query vector entries entry⟩ := by
  unfold rank relevance
  cases vector with
  | none => rfl
  | some vector =>
    have hany : ((entries.map fun entry => (entry, cosine vector entry.embedding)).any
        fun pair => 0 < pair.2) = semantic (some vector) entries := by
      rw [List.any_map]
      rfl
    dsimp only
    rw [hany]
    by_cases hsemantic : semantic (some vector) entries = true
    · simp only [if_pos hsemantic]
      rw [sortOn_map, slice, List.length_map, ← List.map_take, List.map_map]
      rfl
    · simp only [if_neg hsemantic]
      rfl

theorem relevance_perm {xs ys : List CatalogEntry} (h : xs.Perm ys) :
    relevance lower query vector xs = relevance lower query vector ys := by
  have hsemantic : semantic vector xs = semantic vector ys := by
    cases vector with
    | none => rfl
    | some vector => exact h.any_eq
  funext entry
  rw [relevance, relevance, hsemantic]

theorem rankKey_nodup {xs : List CatalogEntry} (h : (xs.map CatalogEntry.reference).Nodup)
    (score : CatalogEntry → ℚ) : (xs.map (rankKey score)).Nodup := by
  refine List.Nodup.of_map (fun key => (ofLex key).2) ?_
  rw [List.map_map]
  exact h

/-- A ranking does not depend on the order of the candidates. -/
theorem rank_perm {xs ys : List CatalogEntry} (h : xs.Perm ys)
    (hxs : (xs.map CatalogEntry.reference).Nodup) :
    rank lower query vector xs = rank lower query vector ys := by
  rw [rank_eq, rank_eq, relevance_perm h, sortOn_eq_of_perm h (rankKey_nodup hxs _)]

/-! ## Equal rankings -/

variable (lower query vector) in
/-- The entry is among the results of ranking the candidates: fewer than the limit are ahead of it. -/
def leads (entries : List CatalogEntry) (entry : CatalogEntry) : Prop :=
  ahead (rankKey (relevance lower query vector entries)) entries entry <
    sliceCount query.limit entries.length

theorem mem_slice_iff {xs : List CatalogEntry} (hxs : (xs.map CatalogEntry.reference).Nodup)
    {x : CatalogEntry} (hx : x ∈ xs) :
    x ∈ slice query.limit (sortOn (rankKey (relevance lower query vector xs)) xs) ↔
      leads lower query vector xs x := by
  rw [slice, (sortOn_perm _ xs).length_eq, mem_take_sortOn_iff (rankKey_nodup hxs _) hx]
  rfl

/-- What leads one ranking is a candidate of the other, when they are equal. -/
theorem mem_of_rank_eq {xs ys : List CatalogEntry} (hxs : (xs.map CatalogEntry.reference).Nodup)
    (h : rank lower query vector xs = rank lower query vector ys) {x : CatalogEntry} (hx : x ∈ xs)
    (hlead : leads lower query vector xs x) : x ∈ ys := by
  have hmem : x ∈ (rank lower query vector xs).map SearchResult.entry := by
    rw [rank_eq, List.map_map]
    exact List.mem_map.mpr ⟨x, (mem_slice_iff hxs hx).mpr hlead, rfl⟩
  rw [h, rank_eq, List.map_map] at hmem
  obtain ⟨y, hy, rfl⟩ := List.mem_map.mp hmem
  exact (mem_sortOn _ ys y).mp (List.mem_of_mem_take hy)

theorem rank_length (entries : List CatalogEntry) :
    (rank lower query vector entries).length =
      min (sliceCount query.limit entries.length) entries.length := by
  rw [rank_eq, List.length_map, slice, List.length_take, (sortOn_perm _ entries).length_eq]

theorem sliceCount_of_rank_eq {xs ys : List CatalogEntry}
    (h : rank lower query vector xs = rank lower query vector ys) :
    sliceCount query.limit xs.length = sliceCount query.limit ys.length := by
  have hlen := congrArg List.length h
  rw [rank_length, rank_length] at hlen
  unfold sliceCount at hlen ⊢
  by_cases hlimit : 0 ≤ query.limit
  · rw [if_pos hlimit, if_pos hlimit]
  · rw [if_neg hlimit, if_neg hlimit] at hlen ⊢
    omega

/-- The best of candidates close to the query vector is close itself. -/
theorem semantic_of_leads {xs ys : List CatalogEntry} (h : semantic vector xs = true)
    (hcount : 0 < sliceCount query.limit xs.length)
    (hlead : ∀ x ∈ xs, leads lower query vector xs x → x ∈ ys) : semantic vector ys = true := by
  cases vector with
  | none => cases h
  | some v =>
    obtain ⟨e, he, hclose⟩ := List.any_eq_true.mp h
    obtain ⟨x, hx, hfirst⟩ : ∃ x ∈ xs, ahead (rankKey (relevance lower query (some v) xs)) xs x = 0 :=
      exists_ahead_eq_zero (List.ne_nil_of_mem he)
    refine List.any_eq_true.mpr ⟨x, hlead x hx ?_, decide_eq_true ?_⟩
    · rw [leads, hfirst]
      exact hcount
    · have hle := le_of_ahead_eq_zero hfirst e he
      have hscores : -cosine v x.embedding ≤ -cosine v e.embedding := by
        have hfst := Prod.Lex.monotone_fst _ _ hle
        simp only [rankKey, relevance, if_pos h] at hfst
        exact hfst
      exact (of_decide_eq_true hclose).trans_le (neg_le_neg_iff.mp hscores)

/-- When two candidate lists rank alike. -/
theorem rank_eq_iff {xs ys : List CatalogEntry} (hxs : (xs.map CatalogEntry.reference).Nodup)
    (hys : (ys.map CatalogEntry.reference).Nodup)
    (hsame : ∀ x ∈ xs, ∀ y ∈ ys, x.reference = y.reference → x = y) :
    rank lower query vector xs = rank lower query vector ys ↔
      sliceCount query.limit xs.length = sliceCount query.limit ys.length ∧
        (∀ x ∈ xs, leads lower query vector xs x → x ∈ ys) ∧
        ∀ y ∈ ys, leads lower query vector ys y → y ∈ xs := by
  constructor
  · intro h
    exact ⟨sliceCount_of_rank_eq h, fun x hx => mem_of_rank_eq hxs h hx,
      fun y hy => mem_of_rank_eq hys h.symm hy⟩
  · rintro ⟨hcount, hleadx, hleady⟩
    by_cases hzero : sliceCount query.limit xs.length = 0
    · have hempty : ∀ zs : List CatalogEntry, sliceCount query.limit zs.length = 0 →
          rank lower query vector zs = [] := by
        intro zs hzs
        rw [← List.length_eq_zero_iff, rank_length, hzs, Nat.zero_min]
      rw [hempty xs hzero, hempty ys (hcount ▸ hzero)]
    · -- neither ranking is empty, so the two are of one kind
      have hsemantic : semantic vector xs = semantic vector ys := by
        rw [Bool.eq_iff_iff]
        constructor
        · intro h
          exact semantic_of_leads h (by omega) hleadx
        · intro h
          exact semantic_of_leads h (by omega) hleady
      have hrelevance : relevance lower query vector xs = relevance lower query vector ys := by
        funext e
        rw [relevance, relevance, hsemantic]
      unfold leads at hleadx hleady
      rw [← hrelevance, ← hcount] at hleady
      have htake := (take_sortOn_eq_iff (rankKey_nodup hxs _) (rankKey_nodup hys _)
        (fun x hx y hy hkey => hsame x hx y hy (congrArg (fun key => (ofLex key).2) hkey)) _).mpr
        ⟨hleadx, hleady⟩
      rw [rank_eq, rank_eq, slice, slice, (sortOn_perm _ xs).length_eq,
        (sortOn_perm _ ys).length_eq, ← hrelevance, ← hcount, htake]

/-! ## Candidates -/

theorem facetMatch_eq (entry : CatalogEntry) :
    facetMatch query entry =
      ((query.includeYanked || !entry.yanked) && (query.includeDeprecated || !entry.deprecated) &&
        (query.kind.all fun kind => entry.kind = kind) && artifactKindMatch query entry &&
        (query.license.all fun license => entry.license = some license) &&
        query.nameSpace.all fun nameSpace => entry.nameSpace = nameSpace) := by
  have hany : ∀ {α : Type} (o : Option α) (p : α → Prop) [DecidablePred p],
      (o.any fun a => ¬ p a) = !o.all fun a => p a := by
    intro α o p _
    cases o <;> simp
  unfold facetMatch
  rw [hany query.kind, hany query.license, hany query.nameSpace]
  cases query.includeYanked <;> cases entry.yanked <;> cases query.includeDeprecated <;>
    cases entry.deprecated <;> cases (query.kind.all fun kind => decide (entry.kind = kind)) <;>
    cases artifactKindMatch query entry <;>
    cases (query.license.all fun license => decide (entry.license = some license)) <;> simp

theorem fullTextMatch_eq (hlower : lower "" = "") (entry : CatalogEntry) :
    fullTextMatch lower query entry = (tokenize lower (query.text.getD "")).all fun token =>
      token ∈ tokenize lower (indexDocument entry.manifest) := by
  unfold fullTextMatch
  by_cases htext : query.text.getD "" = ""
  · rw [if_pos htext, htext, tokenize, hlower]
    rfl
  · rw [if_neg htext]

/-- An entry that negotiates has the tags. -/
theorem tags_of_capabilityMatch {entry : CatalogEntry}
    (h : accepts (capabilityMatch number query) entry = true) :
    (query.tags.all fun tag => tag ∈ entry.manifest.capabilityTags) = true := by
  unfold accepts capabilityMatch at h
  by_cases hnone : query.required = [] ∧ query.tags = []
  · rw [hnone.2]
    rfl
  · rw [if_neg hnone, PluginManifest.satisfies] at h
    cases hinterfaces : satisfiesInterfaces number entry.manifest.coreInterfaces query.required with
    | error e =>
      rw [hinterfaces] at h
      cases h
    | ok satisfied =>
      rw [hinterfaces] at h
      cases satisfied with
      | false => cases h
      | true => exact h

theorem memoryTest_toOption (entry : CatalogEntry) :
    answers (memoryTest lower number query) entry =
        (!facetMatch query entry || answers (capabilityMatch number query) entry) ∧
      accepts (memoryTest lower number query) entry =
        (facetMatch query entry && accepts (capabilityMatch number query) entry &&
          fullTextMatch lower query entry) := by
  unfold answers accepts memoryTest
  cases facetMatch query entry with
  | false => exact ⟨rfl, rfl⟩
  | true =>
    cases capabilityMatch number query entry with
    | error e => exact ⟨rfl, rfl⟩
    | ok negotiated =>
      cases negotiated with
      | false => exact ⟨rfl, rfl⟩
      | true => exact ⟨rfl, rfl⟩

/-- The test in memory is the clauses of the store, negotiation, and the artifact kind. -/
theorem accepts_memoryTest (hlower : lower "" = "") (entry : CatalogEntry) :
    accepts (memoryTest lower number query) entry =
      (clausesMatch lower query entry && accepts (capabilityMatch number query) entry &&
        artifactKindMatch query entry) := by
  rw [(memoryTest_toOption entry).2, facetMatch_eq, fullTextMatch_eq hlower, clausesMatch]
  cases hcapability : accepts (capabilityMatch number query) entry with
  | false => simp
  | true =>
    rw [tags_of_capabilityMatch hcapability, Bool.and_true, Bool.and_true, Bool.and_true]
    ac_rfl

/-- The candidates in memory, by the entries. -/
theorem candidates_memory (hlower : lower "" = "") (catalog : InMemoryCatalog) :
    (candidates lower number query vector (.memory catalog)).toOption =
      if catalog.all.all (fun entry =>
          !facetMatch query entry || answers (capabilityMatch number query) entry) then
        some (catalog.all.filter fun entry => clausesMatch lower query entry &&
          accepts (capabilityMatch number query) entry && artifactKindMatch query entry)
      else none := by
  have hanswers : answers (memoryTest lower number query) = fun entry =>
      !facetMatch query entry || answers (capabilityMatch number query) entry :=
    funext fun entry => (memoryTest_toOption entry).1
  rw [candidates, filterE_toOption, hanswers, funext (accepts_memoryTest hlower)]

variable (lower query vector) in
/-- The store fetches the entry: the clauses hold, and the limit leaves it in. -/
def fetched (entries : List CatalogEntry) (entry : CatalogEntry) : Bool :=
  clausesMatch lower query entry &&
    (ranksInCaller query vector || decide (fetchLimit query < 0) ||
      decide (ahead CatalogEntry.reference (entries.filter (clausesMatch lower query)) entry <
        (fetchLimit query).toNat))

theorem searchEntries_perm {catalog : SqlCatalog} {entries : List CatalogEntry}
    (h : catalog.Mirrors lower entries) :
    (catalog.searchEntries lower query vector (some (fetchLimit query))).Perm
      (entries.filter (fetched lower query vector entries)) := by
  have hnodup : (entries.filter (clausesMatch lower query)).Nodup :=
    (List.Nodup.of_map _ h.references).sublist List.filter_sublist
  rw [SqlCatalog.searchEntries_eq h]
  by_cases hranks : ranksInCaller query vector = true
  · rw [if_pos hranks]
    refine (sortOn_perm _ _).trans (.of_eq (List.filter_congr fun e _ => ?_))
    rw [fetched, hranks, Bool.true_or, Bool.true_or, Bool.and_true]
  · rw [if_neg hranks, SqlCatalog.sqlLimit]
    by_cases hneg : fetchLimit query < 0
    · rw [if_pos hneg]
      refine (sortOn_perm _ _).trans (.of_eq (List.filter_congr fun e _ => ?_))
      rw [fetched, decide_eq_true hneg, Bool.or_true, Bool.true_or, Bool.and_true]
    · rw [if_neg hneg]
      have hkeys : ((entries.filter (clausesMatch lower query)).map CatalogEntry.reference).Nodup :=
        h.references.sublist (List.filter_sublist.map _)
      refine (List.perm_ext_iff_of_nodup ?_ ?_).mpr fun e => ?_
      · exact (sortOn_nodup.2 hnodup).sublist (List.take_sublist _ _)
      · exact (List.Nodup.of_map _ h.references).sublist List.filter_sublist
      · rw [List.mem_filter, fetched, Bool.eq_false_iff.mpr hranks, decide_eq_false hneg,
          Bool.false_or, Bool.false_or, Bool.and_eq_true, decide_eq_true_eq, ← and_assoc,
          ← List.mem_filter]
        constructor
        · intro hmem
          have he := (mem_sortOn _ _ e).mp (List.mem_of_mem_take hmem)
          exact ⟨he, (mem_take_sortOn_iff hkeys he).mp hmem⟩
        · rintro ⟨he, hahead⟩
          exact (mem_take_sortOn_iff hkeys he).mpr hahead

/-- The candidates of a store, by the entries, in some order. -/
theorem candidates_sql {catalog : SqlCatalog} {entries : List CatalogEntry}
    (h : catalog.Mirrors lower entries) :
    ∃ rows : List CatalogEntry,
      rows.Perm (entries.filter fun entry => fetched lower query vector entries entry &&
        accepts (capabilityMatch number query) entry) ∧
      (candidates lower number query vector (.sql catalog)).toOption =
        if entries.all (fun entry => !fetched lower query vector entries entry ||
          answers (capabilityMatch number query) entry) then some rows else none := by
  have hperm : (catalog.searchEntries lower query vector (some (fetchLimit query))).Perm
      (entries.filter (fetched lower query vector entries)) := searchEntries_perm h
  refine ⟨_, (hperm.filter (accepts (capabilityMatch number query))).trans (.of_eq ?_), ?_⟩
  · rw [List.filter_filter]
    exact List.filter_congr fun e _ => Bool.and_comm _ _
  · rw [candidates, filterE_toOption, hperm.all_eq, List.all_filter]

end AstroMine.Hub
