import Mathlib.Data.String.Basic
import AstroMine.Hub.Catalog
import AstroMine.Lib.Instances
import AstroMine.Lib.Ranking

/-!
# The catalog in SQL (`hub/index/_sql.py`)

The store without a vector index, row by row: facet columns, the tag table and the token document,
with `LIKE`, `ORDER BY` and `LIMIT` in their standard meaning. The body of a row is the entry it is
rehydrated from.

Results:
* `like_document_iff`: the full-text clause finds the tokens of a document and nothing else.
* `Mirrors.addAll`: a store and a catalog in memory that are given the same entries hold the same.
* `searchEntries_eq`: the rows of a query, by the entries.
-/

namespace AstroMine.Hub

open scoped Texts

/-! ## Queries -/

/-- `SearchQuery` (`search/_search.py`, lines 41–58). -/
structure SearchQuery where
  text : Option String := none
  semantic : Option String := none
  kind : Option String := none
  artifactKind : Option String := none
  license : Option String := none
  nameSpace : Option String := none
  interfaces : Option (Dict String String) := none
  capabilityTags : Option (List String) := none
  includeDeprecated : Bool := false
  includeYanked : Bool := false
  useSemantic : Bool := true
  limit : ℤ := 20

/-- `query.interfaces or {}`. -/
def SearchQuery.required (query : SearchQuery) : List (String × String) :=
  (query.interfaces.map Dict.entries).getD []

/-- `query.capability_tags or ()`. -/
def SearchQuery.tags (query : SearchQuery) : List String := query.capabilityTags.getD []

/-! ## Patterns -/

/-- `LIKE`: `%` stands for any text, `_` for any character. -/
def like : List Char → List Char → Bool
  | [] => fun s => s.isEmpty
  | c :: pattern =>
    if c = '%' then fun s => s.tails.any (like pattern)
    else if c = '_' then fun s =>
      match s with
      | [] => false
      | _ :: s => like pattern s
    else fun s =>
      match s with
      | [] => false
      | d :: s => decide (d = c) && like pattern s

/-- The pattern `% token %`. -/
def tokenPattern (token : List Char) : List Char := '%' :: ' ' :: token ++ [' ', '%']

/-- `_document` (lines 107–113), padded. -/
def document (lower : String → String) (entry : CatalogEntry) : List Char :=
  ' ' :: List.intercalate [' '] (tokenize lower (indexDocument entry.manifest)) ++ [' ']

/-- A text without wildcards matches itself. -/
theorem like_append {text : List Char} (h : ∀ c ∈ text, c ≠ '%' ∧ c ≠ '_') (pattern s : List Char) :
    like (text ++ pattern) s = true ↔ ∃ rest, s = text ++ rest ∧ like pattern rest = true := by
  induction text generalizing s with
  | nil => simp
  | cons c text ih =>
    obtain ⟨⟨hpercent, hunder⟩, htext⟩ := List.forall_mem_cons.mp h
    rw [List.cons_append, like, if_neg hpercent, if_neg hunder]
    cases s with
    | nil => simp
    | cons d s =>
      dsimp only
      rw [Bool.and_eq_true, decide_eq_true_eq, ih htext]
      simp only [List.cons_append, List.cons.injEq, and_assoc, exists_and_left]

theorem like_percent (pattern s : List Char) :
    like ('%' :: pattern) s = true ↔ ∃ before rest, s = before ++ rest ∧ like pattern rest = true := by
  rw [like, if_pos rfl]
  simp only [List.any_eq_true, List.mem_tails]
  constructor
  · rintro ⟨rest, ⟨before, rfl⟩, hlike⟩
    exact ⟨before, rest, rfl, hlike⟩
  · rintro ⟨before, rest, rfl, hlike⟩
    exact ⟨rest, ⟨before, rfl⟩, hlike⟩

theorem isTokenChar_ne {c : Char} (h : isTokenChar c = true) : c ≠ ' ' ∧ c ≠ '%' ∧ c ≠ '_' := by
  refine ⟨?_, ?_, ?_⟩ <;> rintro rfl <;> revert h <;> decide

/-- The pattern of a token matches the texts that have it between spaces. -/
theorem like_tokenPattern_iff {token : List Char} (h : ∀ c ∈ token, isTokenChar c = true)
    (s : List Char) : like (tokenPattern token) s = true ↔ (' ' :: token ++ [' ']) <:+: s := by
  have htext : ∀ c ∈ ' ' :: token ++ [' '], c ≠ '%' ∧ c ≠ '_' := by
    intro c hc
    simp only [List.cons_append, List.mem_cons, List.mem_append, List.not_mem_nil, or_false] at hc
    rcases hc with rfl | hc | rfl
    · decide
    · exact (isTokenChar_ne (h c hc)).2
    · decide
  have hpattern : tokenPattern token = '%' :: ((' ' :: token ++ [' ']) ++ ['%']) := by
    simp [tokenPattern]
  rw [hpattern, like_percent]
  simp only [like_append htext]
  constructor
  · rintro ⟨before, _, rfl, after, rfl, -⟩
    exact ⟨before, after, by rw [List.append_assoc]⟩
  · rintro ⟨before, after, rfl⟩
    refine ⟨before, _, by rw [List.append_assoc], after, rfl, ?_⟩
    exact (like_percent [] after).mpr ⟨after, [], by simp, rfl⟩

/-! ## Token documents -/

/-- Tokens, each between spaces. -/
def spaced : List (List Char) → List Char
  | [] => [' ']
  | token :: tokens => ' ' :: token ++ spaced tokens

theorem spaced_eq_cons (tokens : List (List Char)) : ∃ rest, spaced tokens = ' ' :: rest := by
  cases tokens with
  | nil => exact ⟨[], rfl⟩
  | cons token tokens => exact ⟨_, rfl⟩

/-- Two words up to the first space. -/
theorem prefix_space_iff {u v rest : List Char} (hu : ' ' ∉ u) (hv : ' ' ∉ v) :
    (u ++ [' ']) <+: (v ++ ' ' :: rest) ↔ u = v := by
  constructor
  · rintro ⟨after, h⟩
    induction u generalizing v with
    | nil =>
      cases v with
      | nil => rfl
      | cons c v =>
        have hc := (List.cons.inj h).1
        exact absurd (hc ▸ List.mem_cons_self) hv
    | cons c u ih =>
      cases v with
      | nil =>
        have hc := (List.cons.inj h).1
        exact absurd (hc ▸ List.mem_cons_self) hu
      | cons d v =>
        obtain ⟨rfl, htail⟩ := List.cons.inj h
        rw [ih (fun hm => hu (List.mem_cons_of_mem _ hm)) (fun hm => hv (List.mem_cons_of_mem _ hm))
          htail]
  · rintro rfl
    exact ⟨rest, by simp⟩

/-- A text that starts with a space is found in a word and what follows it only in what follows. -/
theorem infix_append_iff {u v s : List Char} (hv : ' ' ∉ v) :
    (' ' :: u) <:+: (v ++ s) ↔ (' ' :: u) <:+: s := by
  induction v with
  | nil => rfl
  | cons c v ih =>
    have hc : ' ' ≠ c := fun h => hv (h ▸ List.mem_cons_self)
    rw [List.cons_append, List.infix_cons_iff, ih fun hm => hv (List.mem_cons_of_mem _ hm)]
    refine or_iff_right fun h => hc ?_
    obtain ⟨after, h⟩ := h
    exact (List.cons.inj h).1

theorem infix_spaced_iff {token : List Char} {tokens : List (List Char)} (htoken : ' ' ∉ token)
    (htokens : ∀ t ∈ tokens, ' ' ∉ t) :
    (' ' :: token ++ [' ']) <:+: spaced tokens ↔ token ∈ tokens := by
  induction tokens with
  | nil =>
    refine iff_of_false (fun h => ?_) (by simp)
    have hlen := h.length_le
    simp [spaced] at hlen
  | cons t ts ih =>
    obtain ⟨ht, hts⟩ := List.forall_mem_cons.mp htokens
    obtain ⟨rest, hrest⟩ := spaced_eq_cons ts
    rw [spaced, List.cons_append, List.cons_append, List.infix_cons_iff,
      List.cons_prefix_cons, infix_append_iff ht, ← List.cons_append, ih hts, List.mem_cons, hrest]
    rw [prefix_space_iff htoken ht]
    simp

theorem padded_eq_spaced {tokens : List (List Char)} (h : tokens ≠ []) :
    ' ' :: List.intercalate [' '] tokens ++ [' '] = spaced tokens := by
  induction tokens with
  | nil => exact absurd rfl h
  | cons t ts ih =>
    cases ts with
    | nil => simp [spaced]
    | cons t' ts =>
      rw [spaced, ← ih (by simp)]
      simp

/-- The full-text clause finds the tokens of a document and nothing else. -/
theorem like_document_iff {lower : String → String} {text : String} {token : List Char}
    (h : token ∈ tokenize lower text) (entry : CatalogEntry) :
    like (tokenPattern token) (document lower entry) = true ↔
      token ∈ tokenize lower (indexDocument entry.manifest) := by
  obtain ⟨hne, hchars⟩ := tokenize_spec h
  have hspace : ∀ {text : String} {t : List Char}, t ∈ tokenize lower text → ' ' ∉ t :=
    fun ht hm => (isTokenChar_ne ((tokenize_spec ht).2 _ hm)).1 rfl
  rw [like_tokenPattern_iff hchars, document]
  by_cases hnil : tokenize lower (indexDocument entry.manifest) = []
  · -- two spaces are too short for a token between spaces
    rw [hnil]
    refine iff_of_false (fun hinfix => ?_) (by simp)
    have hlen := hinfix.length_le
    have hpos := List.length_pos_of_ne_nil hne
    simp only [List.length_append, List.length_cons, List.length_nil, List.intercalate_nil] at hlen
    omega
  · rw [padded_eq_spaced hnil, infix_spaced_iff (hspace h) fun t ht => hspace ht]

/-! ## The store -/

/-- A row of `catalog` (lines 149–169): the columns that queries read. -/
structure CatalogRow where
  reference : String
  kind : String
  artifactKind : Option String
  nameSpace : String
  license : Option String
  deprecated : Bool
  yanked : Bool
  document : List Char
  body : CatalogEntry

/-- `SqlCatalog` (lines 116–193): the tables `catalog` and `catalog_tags`, and the vector width. -/
structure SqlCatalog where
  rows : List CatalogRow
  tags : List (String × String)
  dim : ℕ

/-- What `add` raises. -/
inductive AddError where
  | embeddingDim (reference : String) (width dim : ℕ)
  | duplicateTag (reference : String)
  deriving DecidableEq, Repr

variable (lower : String → String)

/-- The row of an entry (lines 211–227). -/
def rowOf (entry : CatalogEntry) : CatalogRow where
  reference := entry.reference
  kind := entry.kind
  artifactKind := entry.artifactKind
  nameSpace := entry.nameSpace
  license := entry.license
  deprecated := entry.deprecated
  yanked := entry.yanked
  document := document lower entry
  body := entry

namespace SqlCatalog

/-- A new store. -/
def empty (dim : ℕ) : SqlCatalog := ⟨[], [], dim⟩

/-- `add` (lines 197–233). -/
def add (catalog : SqlCatalog) (entry : CatalogEntry) : Except AddError SqlCatalog :=
  if entry.embedding ≠ [] ∧ entry.embedding.length ≠ catalog.dim then
    .error (.embeddingDim entry.reference entry.embedding.length catalog.dim)
  else if ¬ entry.manifest.capabilityTags.Nodup then .error (.duplicateTag entry.reference)
  else .ok
    { rows := (catalog.rows.filter fun row => row.reference ≠ entry.reference) ++ [rowOf lower entry]
      tags := (catalog.tags.filter fun tag => tag.1 ≠ entry.reference) ++
        entry.manifest.capabilityTags.map fun tag => (entry.reference, tag)
      dim := catalog.dim }

/-- Entries added one after the other. -/
def addAll (catalog : SqlCatalog) : List CatalogEntry → Except AddError SqlCatalog
  | [] => .ok catalog
  | entry :: entries => do
    let catalog ← catalog.add lower entry
    catalog.addAll entries

/-- `all` (lines 241–245). -/
def all (catalog : SqlCatalog) : List CatalogEntry :=
  (sortOn CatalogRow.reference catalog.rows).map CatalogRow.body

/-- `_predicates` (lines 249–271) on one row. -/
def predicates (catalog : SqlCatalog) (query : SearchQuery) (row : CatalogRow) : Bool :=
  (query.includeYanked || !row.yanked) && (query.includeDeprecated || !row.deprecated) &&
    (query.kind.all fun kind => row.kind = kind) &&
    (query.license.all fun license => row.license = some license) &&
    (query.nameSpace.all fun nameSpace => row.nameSpace = nameSpace) &&
    ((tokenize lower (query.text.getD "")).all fun token => like (tokenPattern token) row.document) &&
    query.tags.all fun tag => (row.reference, tag) ∈ catalog.tags

/-- `LIMIT`; a negative one is none. -/
def sqlLimit {α : Type} (limit : ℤ) (rows : List α) : List α :=
  if limit < 0 then rows else rows.take limit.toNat

/-- `ranks_in_caller` (line 304). -/
def ranksInCaller (query : SearchQuery) (queryVector : Option (List ℚ)) : Bool :=
  (query.text.any fun text => text ≠ "") || queryVector.isSome

/-- `search_entries` (lines 273–316) without a vector index. -/
def searchEntries (catalog : SqlCatalog) (query : SearchQuery) (queryVector : Option (List ℚ))
    (limit : Option ℤ) : List CatalogEntry :=
  let rows := sortOn CatalogRow.reference (catalog.rows.filter (catalog.predicates lower query))
  let limited := match limit with
    | some limit => if ranksInCaller query queryVector then rows else sqlLimit limit rows
    | none => rows
  limited.map CatalogRow.body

/-! ## What a store holds -/

/-- The store holds the entries: a row for each, under distinct references, with its tags. -/
structure Mirrors (catalog : SqlCatalog) (entries : List CatalogEntry) : Prop where
  rows : catalog.rows.Perm (entries.map (rowOf lower))
  references : (entries.map CatalogEntry.reference).Nodup
  tags : ∀ reference tag, (reference, tag) ∈ catalog.tags ↔
    ∃ entry ∈ entries, entry.reference = reference ∧ tag ∈ entry.manifest.capabilityTags

variable {lower}

theorem mirrors_empty (dim : ℕ) : (empty dim).Mirrors lower [] :=
  ⟨.refl _, by simp, by simp [empty]⟩

theorem Mirrors.perm {catalog : SqlCatalog} {entries entries' : List CatalogEntry}
    (h : catalog.Mirrors lower entries) (hperm : entries.Perm entries') :
    catalog.Mirrors lower entries' where
  rows := h.rows.trans (hperm.map _)
  references := (hperm.map _).nodup_iff.mp h.references
  tags := fun reference tag => by
    rw [h.tags]
    simp only [hperm.mem_iff]

/-- What `add` leaves. -/
theorem add_eq_ok {catalog catalog' : SqlCatalog} {entry : CatalogEntry}
    (h : catalog.add lower entry = .ok catalog') :
    catalog'.rows = (catalog.rows.filter fun row => row.reference ≠ entry.reference) ++
        [rowOf lower entry] ∧
      catalog'.tags = (catalog.tags.filter fun tag => tag.1 ≠ entry.reference) ++
        entry.manifest.capabilityTags.map fun tag => (entry.reference, tag) := by
  rw [add] at h
  by_cases hdim : entry.embedding ≠ [] ∧ entry.embedding.length ≠ catalog.dim
  · rw [if_pos hdim] at h
    cases h
  · rw [if_neg hdim] at h
    by_cases htags : ¬ entry.manifest.capabilityTags.Nodup
    · rw [if_pos htags] at h
      cases h
    · rw [if_neg htags] at h
      cases h
      exact ⟨rfl, rfl⟩

/-- A store goes on holding the entries it is given, the last one of each reference. -/
theorem Mirrors.add {catalog catalog' : SqlCatalog} {entries : List CatalogEntry}
    {entry : CatalogEntry} (h : catalog.Mirrors lower entries)
    (hadd : catalog.add lower entry = .ok catalog') :
    catalog'.Mirrors lower
      ((entries.filter fun e => e.reference ≠ entry.reference) ++ [entry]) := by
  obtain ⟨hrows, htags⟩ := add_eq_ok hadd
  refine ⟨?_, ?_, fun reference tag => ?_⟩
  · rw [hrows, List.map_append]
    refine .append_right _ ((h.rows.filter _).trans (.of_eq ?_))
    rw [List.filter_map]
    rfl
  · rw [List.map_append, List.nodup_append]
    refine ⟨h.references.sublist (List.filter_sublist.map _), by simp, ?_⟩
    intro a ha b hb
    obtain ⟨e, he, rfl⟩ := List.mem_map.mp ha
    obtain rfl := List.mem_singleton.mp hb
    exact of_decide_eq_true (List.mem_filter.mp he).2
  · rw [htags, List.mem_append, List.mem_filter, h.tags, List.mem_map]
    constructor
    · rintro (⟨⟨e, he, rfl, htag⟩, hne⟩ | ⟨t, ht, heq⟩)
      · exact ⟨e, List.mem_append_left _ (List.mem_filter.mpr ⟨he, hne⟩), rfl, htag⟩
      · cases heq
        exact ⟨entry, by simp, rfl, ht⟩
    · rintro ⟨e, he, rfl, htag⟩
      rcases List.mem_append.mp he with he | he
      · obtain ⟨he, hne⟩ := List.mem_filter.mp he
        exact .inl ⟨⟨e, he, rfl, htag⟩, hne⟩
      · obtain rfl := List.mem_singleton.mp he
        exact .inr ⟨tag, htag, rfl⟩

/-- A store and a catalog in memory that are given the same entries hold the same entries. -/
theorem Mirrors.addAll {catalog catalog' : SqlCatalog} {memory : InMemoryCatalog}
    {added : List CatalogEntry} (h : catalog.Mirrors lower memory.all) (hkeyed : memory.Keyed)
    (hadd : catalog.addAll lower added = .ok catalog') :
    catalog'.Mirrors lower (memory.addAll added).all := by
  induction added generalizing catalog memory with
  | nil =>
    cases hadd
    exact h
  | cons entry added ih =>
    rw [SqlCatalog.addAll] at hadd
    obtain ⟨next, hnext, hrest⟩ := bind_eq_ok.1 hadd
    have hmirrors := (h.add hnext).perm (InMemoryCatalog.all_add hkeyed entry).symm
    exact ih hmirrors (InMemoryCatalog.keyed_add hkeyed entry) hrest

/-! ## What a query finds -/

variable (lower)

/-- The clauses of a query, on the entry. -/
def clausesMatch (query : SearchQuery) (entry : CatalogEntry) : Bool :=
  (query.includeYanked || !entry.yanked) && (query.includeDeprecated || !entry.deprecated) &&
    (query.kind.all fun kind => entry.kind = kind) &&
    (query.license.all fun license => entry.license = some license) &&
    (query.nameSpace.all fun nameSpace => entry.nameSpace = nameSpace) &&
    ((tokenize lower (query.text.getD "")).all fun token =>
      token ∈ tokenize lower (indexDocument entry.manifest)) &&
    query.tags.all fun tag => tag ∈ entry.manifest.capabilityTags

variable {lower}

/-- A row keeps its reference and its entry. -/
theorem sortOn_rows {entries : List CatalogEntry} :
    (sortOn CatalogRow.reference (entries.map (rowOf lower))).map CatalogRow.body =
      sortOn CatalogEntry.reference entries := by
  rw [sortOn_map, List.map_map]
  exact List.map_id _

theorem Mirrors.rows_nodup {catalog : SqlCatalog} {entries : List CatalogEntry}
    (h : catalog.Mirrors lower entries) : (catalog.rows.map CatalogRow.reference).Nodup := by
  refine (h.rows.map _).nodup_iff.mpr ?_
  rw [List.map_map]
  exact h.references

theorem Mirrors.all_eq {catalog : SqlCatalog} {entries : List CatalogEntry}
    (h : catalog.Mirrors lower entries) : catalog.all = sortOn CatalogEntry.reference entries := by
  rw [all, sortOn_eq_of_perm h.rows h.rows_nodup, sortOn_rows]

theorem Mirrors.all_perm {catalog : SqlCatalog} {entries : List CatalogEntry}
    (h : catalog.Mirrors lower entries) : entries.Perm catalog.all := by
  rw [h.all_eq]
  exact (sortOn_perm _ _).symm

/-- A new store mirrors the catalog in memory that is given the same entries. -/
theorem mirrors_addAll {dim : ℕ} {added : List CatalogEntry} {catalog : SqlCatalog}
    (h : (empty dim).addAll lower added = .ok catalog) :
    catalog.Mirrors lower (InMemoryCatalog.empty.addAll added).all :=
  (mirrors_empty dim).addAll InMemoryCatalog.keyed_empty h

theorem Mirrors.predicates_rowOf {catalog : SqlCatalog} {entries : List CatalogEntry}
    (h : catalog.Mirrors lower entries) (query : SearchQuery) {entry : CatalogEntry}
    (he : entry ∈ entries) :
    catalog.predicates lower query (rowOf lower entry) = clausesMatch lower query entry := by
  have htokens : ∀ token ∈ tokenize lower (query.text.getD ""),
      like (tokenPattern token) (document lower entry) =
        decide (token ∈ tokenize lower (indexDocument entry.manifest)) := by
    intro token htoken
    rw [Bool.eq_iff_iff, decide_eq_true_eq]
    exact like_document_iff htoken entry
  have htags : ∀ tag, decide ((entry.reference, tag) ∈ catalog.tags) =
      decide (tag ∈ entry.manifest.capabilityTags) := by
    intro tag
    refine decide_eq_decide.mpr ((h.tags _ _).trans ⟨?_, fun htag => ⟨entry, he, rfl, htag⟩⟩)
    rintro ⟨e, hmem, hreference, htag⟩
    obtain rfl := List.inj_on_of_nodup_map h.references hmem he hreference
    exact htag
  unfold predicates clausesMatch
  congr 1
  · congr 1
    rw [Bool.eq_iff_iff, List.all_eq_true, List.all_eq_true]
    exact forall₂_congr fun token htoken => by rw [← htokens token htoken]; rfl
  · exact congrArg query.tags.all (funext htags)

/-- The rows of a query, by the entries. -/
theorem searchEntries_eq {catalog : SqlCatalog} {entries : List CatalogEntry}
    (h : catalog.Mirrors lower entries) (query : SearchQuery) (queryVector : Option (List ℚ))
    (limit : ℤ) :
    catalog.searchEntries lower query queryVector (some limit) =
      if ranksInCaller query queryVector then
        sortOn CatalogEntry.reference (entries.filter (clausesMatch lower query))
      else sqlLimit limit
        (sortOn CatalogEntry.reference (entries.filter (clausesMatch lower query))) := by
  have hrows : (catalog.rows.filter (catalog.predicates lower query)).Perm
      ((entries.filter (clausesMatch lower query)).map (rowOf lower)) := by
    refine (h.rows.filter _).trans (.of_eq ?_)
    rw [List.filter_map]
    congr 1
    exact List.filter_congr fun e he => h.predicates_rowOf query he
  have hsorted : sortOn CatalogRow.reference
      (catalog.rows.filter (catalog.predicates lower query)) = sortOn CatalogRow.reference
        ((entries.filter (clausesMatch lower query)).map (rowOf lower)) :=
    sortOn_eq_of_perm hrows (h.rows_nodup.sublist (List.filter_sublist.map _))
  have hlimit : ∀ rows : List CatalogRow,
      (sqlLimit limit rows).map CatalogRow.body = sqlLimit limit (rows.map CatalogRow.body) := by
    intro rows
    unfold sqlLimit
    by_cases hneg : limit < 0
    · rw [if_pos hneg, if_pos hneg]
    · rw [if_neg hneg, if_neg hneg, List.map_take]
  rw [searchEntries, hsorted]
  by_cases hranks : ranksInCaller query queryVector = true
  · simp only [if_pos hranks, sortOn_rows]
  · simp only [if_neg hranks, hlimit, sortOn_rows]

end SqlCatalog

end AstroMine.Hub
