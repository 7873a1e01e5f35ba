import AstroMine.Hub.GarbageCollect

/-!
# Published references (`_parse_reference`, `Registry.resolve`, `Registry.versions`)

`publish` joins a name and a version with a colon, whatever they are, and `resolve` reads the joined
string by a grammar that also knows digests.

Results:
* `parse_joined_tag_iff`, `parse_joined_digest_iff`: how a published reference is read.
* `tags_run`: the tags of a layout are the references published so far, in their order.
* `references_keep_iff`: in which runs every published reference resolves and is unique for good.
-/

namespace AstroMine.Hub.Registry

variable {Bytes : Type} {C : Content Bytes} {r : Registry Bytes}

/-! ## How a reference is read -/

theorem isDigest_iff (s : String) : isDigest s = true ↔ ∃ rest, s = joined "sha256" rest := by
  rw [isDigest, List.isPrefixOf_iff_prefix]
  exact startsWith_joined_iff "sha256" s

theorem isDigest_joined_iff {name version : String} (hname : ':' ∉ name.toList) :
    isDigest (joined name version) = true ↔ name = "sha256" := by
  rw [isDigest_iff]
  constructor
  · rintro ⟨rest, h⟩
    rcases (joined_eq_iff _ _ _ _).mp h with ⟨rfl, -⟩ | ⟨u, rfl, -⟩ | ⟨u, hu, -⟩
    · rfl
    · exact absurd (by simp [toList_joined]) hname
    · exact absurd (congrArg (fun s => ':' ∈ s.toList) hu) (by simp [toList_joined])
  · rintro rfl
    exact ⟨version, rfl⟩

/-- A name and a version without colons are read as such, exactly if neither is empty or holds an
at-sign, and the name is not that of the algorithm. -/
theorem parse_joined_tag_iff {name version : String} (hname : ':' ∉ name.toList) :
    parseReference (joined name version) = .ok (.inl (name, version)) ↔
      name ≠ "" ∧ version ≠ "" ∧ '@' ∉ name.toList ∧ '@' ∉ version.toList ∧ name ≠ "sha256" := by
  have hat : '@' ∈ (joined name version).toList ↔ '@' ∈ name.toList ∨ '@' ∈ version.toList := by
    simp [toList_joined]
  have hcolon := (partition_colon_iff (joined name version) name version).mpr ⟨rfl, hname⟩
  rw [parseReference]
  by_cases hdigest : isDigest (joined name version) = true
  · rw [if_pos hdigest]
    exact ⟨fun h => (by cases h), fun h => absurd ((isDigest_joined_iff hname).mp hdigest) h.2.2.2.2⟩
  · rw [if_neg hdigest]
    rw [isDigest_joined_iff hname] at hdigest
    by_cases hmem : '@' ∈ (joined name version).toList
    · rw [if_pos hmem]
      constructor
      · intro h
        split at h
        · cases h
        · split_ifs at h
          cases h
      · rintro ⟨-, -, hn, hv, -⟩
        exact absurd (hat.mp hmem) (not_or.mpr ⟨hn, hv⟩)
    · rw [if_neg hmem, hcolon]
      rw [hat, not_or] at hmem
      dsimp only
      split_ifs with hempty
      · constructor
        · intro h
          cases h
        · rintro ⟨hn, hv, -⟩
          exact absurd hempty (not_or.mpr ⟨hn, hv⟩)
      · rw [not_or] at hempty
        exact ⟨fun _ => ⟨hempty.1, hempty.2, hmem.1, hmem.2, hdigest⟩, fun _ => rfl⟩

/-- A published reference is read as a digest, if it is one, or one behind a name and an at-sign. -/
theorem parse_joined_digest_iff {name version digest : String} (hname : ':' ∉ name.toList) :
    parseReference (joined name version) = .ok (.inr digest) ↔
      (name = "sha256" ∧ joined name version = digest) ∨
        (name ≠ "sha256" ∧ isDigest digest = true ∧ ∃ head, head ≠ "" ∧ '@' ∉ head.toList ∧
          (joined name version).toList = head.toList ++ '@' :: digest.toList) := by
  rw [parseReference]
  by_cases hdigest : isDigest (joined name version) = true
  · rw [if_pos hdigest]
    rw [isDigest_joined_iff hname] at hdigest
    constructor
    · intro h
      exact .inl ⟨hdigest, Sum.inr.inj (Except.ok.inj h)⟩
    · rintro (⟨-, h⟩ | ⟨hne, -⟩)
      · rw [h]
      · exact absurd hdigest hne
  · rw [if_neg hdigest]
    rw [isDigest_joined_iff hname] at hdigest
    by_cases hmem : '@' ∈ (joined name version).toList
    · rw [if_pos hmem]
      cases hp : partition '@' (joined name version) with
      | none => exact absurd hmem ((partition_eq_none_iff _ _).mp hp)
      | some cut =>
        obtain ⟨head, rest⟩ := cut
        obtain ⟨hcut, hhead⟩ := (partition_eq_some_iff _ _ _ _).mp hp
        dsimp only
        constructor
        · intro h
          split_ifs at h with hbad
          rw [not_or, not_not] at hbad
          obtain rfl := Sum.inr.inj (Except.ok.inj h)
          exact .inr ⟨hdigest, hbad.2, head, hbad.1, hhead, hcut⟩
        · rintro (⟨heq, -⟩ | ⟨-, hdig, head', hne, hhead', hcut'⟩)
          · exact absurd heq hdigest
          · have hsame := (partition_eq_some_iff _ _ _ _).mpr ⟨hcut', hhead'⟩
            rw [hp, Option.some.injEq, Prod.mk.injEq] at hsame
            obtain ⟨rfl, rfl⟩ := hsame
            rw [if_neg (not_or.mpr ⟨hne, not_not.mpr hdig⟩)]
    · rw [if_neg hmem]
      constructor
      · intro h
        split at h
        · cases h
        · split_ifs at h
          cases h
      · rintro (⟨heq, -⟩ | ⟨-, -, head, -, -, hcut⟩)
        · exact absurd heq hdigest
        · exact absurd (by rw [hcut]; simp) hmem

theorem eq_joined_of_parse {reference name version : String}
    (h : parseReference reference = .ok (.inl (name, version))) :
    reference = joined name version ∧ ':' ∉ name.toList := by
  rw [parseReference] at h
  split_ifs at h
  · cases h
  · split at h
    · cases h
    · split_ifs at h
      cases h
  · split at h
    · cases h
    · rename_i cut hcut
      split_ifs at h
      have hcolon := (partition_colon_iff _ _ _).mp hcut
      obtain ⟨rfl, rfl⟩ := Prod.mk.inj (Sum.inl.inj (Except.ok.inj h))
      exact hcolon

/-! ## The tags of a run -/

/-- The name and version that a call publishes. -/
def publishedBy (C : Content Bytes) (r : Registry Bytes) : Op Bytes → List (String × String)
  | .publish args =>
    match (r.publish C args).2 with
    | .ok artifact => [(artifact.name, artifact.version)]
    | .error _ => []
  | _ => []

/-- The names and versions that calls publish. -/
def published (C : Content Bytes) (r : Registry Bytes) : List (Op Bytes) → List (String × String)
  | [] => []
  | op :: ops => publishedBy C r op ++ published C (r.step C op) ops

/-- The tags of a layout, in the order of its index. -/
def tagNames (r : Registry Bytes) : List String := r.index.filterMap Descriptor.refName

/-- A call of the run published an artifact with these arguments. -/
def PublishedIn (C : Content Bytes) (ops : List (Op Bytes)) (args : PublishArgs Bytes) : Prop :=
  ∃ pre post artifact, ops = pre ++ .publish args :: post ∧
    ((run C empty pre).publish C args).2 = .ok artifact

/-- What a `publish` that returns has returned and done. -/
theorem publish_eq_ok {args : PublishArgs Bytes} {artifact : PublishedArtifact}
    (h : (r.publish C args).2 = .ok artifact) :
    artifact = ⟨args.name, args.version, args.reference, args.digest C⟩ ∧
      ∃ e, (r.publish C args).1.index = r.index ++ [e] ∧ e.refName = some args.reference ∧
        e.digest = args.digest C := by
  rcases publish_cases (C := C) (r := r) args with
    ⟨-, heq⟩ | ⟨-, ⟨e, -, heq⟩ | ⟨artifactType, hkind, heq⟩⟩
  · rw [heq] at h
    cases h
  · rw [heq] at h
    cases h
  · rw [heq] at h
    have hdigest : (args.entry C artifactType).digest = args.digest C := by
      rw [PublishArgs.digest, hkind]
      rfl
    rw [← Except.ok.inj h, heq, hdigest]
    exact ⟨rfl, args.entry C artifactType, rfl, refName_publish args artifactType, hdigest⟩

theorem tagNames_sweep (h : r.WellFormed C) {keep reachable : List String}
    (hlive : ∀ digest, r.Live C keep digest → digest ∈ reachable) :
    (r.sweep reachable).tagNames = r.tagNames := by
  rw [tagNames, tagNames, index_sweep h, List.filterMap_filter]
  refine List.filterMap_congr fun e he => ?_
  cases htag : e.refName with
  | none =>
    split_ifs
    · rfl
    · rfl
  | some tag =>
    have htagged : e.refName.isSome := Option.isSome_iff_exists.mpr ⟨tag, htag⟩
    rw [if_pos (decide_eq_true (hlive _ (.inr (.inl (.tagged he htagged)))))]

/-- What a call adds to the tags: what it published. -/
theorem tagNames_step (hC : C.Lawful) (h : r.WellFormed C) (op : Op Bytes) :
    (r.step C op).tagNames =
      r.tagNames ++ (publishedBy C r op).map fun p => joined p.1 p.2 := by
  cases op with
  | publish args =>
    rw [step]
    cases hresult : (r.publish C args).2 with
    | ok artifact =>
      obtain ⟨rfl, e, hindex, htag, -⟩ := publish_eq_ok hresult
      rw [tagNames, hindex, List.filterMap_append, publishedBy, hresult]
      simp [htag, tagNames, PublishArgs.reference]
    | error e =>
      have hindex : (r.publish C args).1.index = r.index := by
        rcases publish_cases (C := C) (r := r) args with
          ⟨-, heq⟩ | ⟨-, ⟨e, -, heq⟩ | ⟨artifactType, hkind, heq⟩⟩
        · rw [heq]
        · rw [heq, index_putAll]
        · rw [heq] at hresult
          cases hresult
      rw [tagNames, hindex, publishedBy, hresult]
      simp [tagNames]
  | publishCut args writes =>
    simp [step, publishCut, tagNames, publishedBy]
  | attach args =>
    have htags : (r.attach C args).1.tagNames = r.tagNames := by
      rcases attach_cases (C := C) (r := r) args with ⟨e, heq⟩ | ⟨-, size, heq⟩
      · rw [heq]
      · rw [heq, tagNames, List.filterMap_append, List.filterMap_cons_none (refName_attach args size),
          List.filterMap_nil, List.append_nil, tagNames]
    simp [step, htags, publishedBy]
  | attachCut args writes =>
    have hindex : (r.attachCut C args writes).index = r.index := by
      unfold attachCut
      split
      · exact index_putAll _
      · rfl
    simp [step, tagNames, hindex, publishedBy]
  | garbageCollect keep =>
    obtain ⟨reachable, hlive, heq⟩ := garbageCollect_eq_ok hC h keep
    rw [step, heq]
    simp only [publishedBy, List.map_nil, List.append_nil]
    exact tagNames_sweep h fun digest => (hlive digest).mpr

/-- The tags of a layout are the references published so far, in their order. -/
theorem tags_run (hC : C.Lawful) (h : r.WellFormed C) (ops : List (Op Bytes)) :
    (r.run C ops).tagNames =
      r.tagNames ++ (published C r ops).map fun p => joined p.1 p.2 := by
  induction ops generalizing r with
  | nil => simp [run, published]
  | cons op ops ih =>
    have hstep := tagNames_step hC h op
    rw [run, List.foldl_cons, ← run, ih (wellFormed_step hC h op), hstep, published,
      List.map_append, List.append_assoc]

/-- A tag stays at its entry. -/
theorem entry_run (hC : C.Lawful) (h : r.WellFormed C) {e : Descriptor} (he : e ∈ r.index)
    (htag : e.refName.isSome) (ops : List (Op Bytes)) : e ∈ (r.run C ops).index := by
  have hstep : ∀ {s : Registry Bytes}, s.WellFormed C → e ∈ s.index → ∀ op,
      e ∈ (s.step C op).index := by
    intro s hs hmem op
    cases op with
    | publish args =>
      rw [step]
      rcases publish_cases (C := C) (r := s) args with
        ⟨-, heq⟩ | ⟨-, ⟨_, -, heq⟩ | ⟨_, -, heq⟩⟩
      · rw [heq]
        exact hmem
      · rw [heq, index_putAll]
        exact hmem
      · rw [heq]
        exact List.mem_append_left _ hmem
    | publishCut args writes =>
      rw [step, publishCut, index_putAll]
      exact hmem
    | attach args =>
      rw [step]
      rcases attach_cases (C := C) (r := s) args with ⟨_, heq⟩ | ⟨-, _, heq⟩
      · rw [heq]
        exact hmem
      · rw [heq]
        exact List.mem_append_left _ hmem
    | attachCut args writes =>
      rw [step]
      unfold attachCut
      split
      · rw [index_putAll]
        exact hmem
      · exact hmem
    | garbageCollect keep =>
      obtain ⟨reachable, hlive, heq⟩ := garbageCollect_eq_ok hC hs keep
      rw [step, heq]
      exact (mem_index_sweep hs).mpr
        ⟨hmem, (hlive _).mpr (.inr (.inl (.tagged hmem htag)))⟩
  induction ops generalizing r with
  | nil => exact he
  | cons op ops ih => exact ih (wellFormed_step hC h op) (hstep h he op)

/-! ## References for good -/

/-- What is promised of a layout behind some calls. -/
structure ReferencesKeep (C : Content Bytes) (ops : List (Op Bytes)) : Prop where
  /-- A published reference resolves to the digest that was returned. -/
  resolves : ∀ args, PublishedIn C ops args →
    ∃ d, (run C empty ops).resolve C args.reference = .ok d ∧ d.digest = args.digest C
  /-- No other name and version is refused for it. -/
  notRefused : ∀ args, PublishedIn C ops args → ∀ other : PublishArgs Bytes,
    (other.name, other.version) ≠ (args.name, args.version) →
      ((run C empty ops).publish C other).2 ≠ .error (.artifactExists args.reference)
  /-- The versions of a name are those that were published under it. -/
  versions : ∀ name, (run C empty ops).versions name =
    sortOn id (((published C empty ops).filter fun p => p.1 = name).map Prod.snd)

/-- It is promised of every layout that a run comes by. -/
def ReferencesKeepThroughout (C : Content Bytes) (ops : List (Op Bytes)) : Prop :=
  ∀ past, past <+: ops → ReferencesKeep C past

/-- A name and a version that can be told from their reference: no colons, and read as they are, or
as the digest that they publish. -/
structure Tellable (name version digest : String) : Prop where
  nameColon : ':' ∉ name.toList
  versionColon : ':' ∉ version.toList
  read : (name ≠ "" ∧ version ≠ "" ∧ '@' ∉ name.toList ∧ '@' ∉ version.toList ∧ name ≠ "sha256") ∨
    joined name version = digest ∨
      ∃ head, head ≠ "" ∧ '@' ∉ head.toList ∧
        (joined name version).toList = head.toList ++ '@' :: digest.toList

theorem isDigest_hash (b : Bytes) : isDigest (C.hash b) = true :=
  (isDigest_iff _).mpr ⟨_, rfl⟩

/-- A reference that is read as a digest, and one that can be told. -/
theorem tellable_iff {name version : String} {b : Bytes} (hname : ':' ∉ name.toList)
    (hversion : ':' ∉ version.toList) : Tellable name version (C.hash b) ↔
      parseReference (joined name version) = .ok (.inl (name, version)) ∨
        parseReference (joined name version) = .ok (.inr (C.hash b)) := by
  rw [parse_joined_tag_iff hname, parse_joined_digest_iff hname]
  constructor
  · rintro ⟨-, -, hread | hself | ⟨head, hne, hhead, hcut⟩⟩
    · exact .inl hread
    · refine .inr (.inl ⟨?_, hself⟩)
      rw [Content.hash] at hself
      exact ((joined_inj_of_notMem hname (by decide)).mp hself).1
    · refine .inr (.inr ⟨?_, isDigest_hash b, head, hne, hhead, hcut⟩)
      -- Behind the at-sign the digest has the only colon, so the name goes on up to it.
      rintro rfl
      have hjoin : joined "sha256" version =
          joined (head ++ "@sha256") (C.hexOf b) := by
        rw [← String.toList_inj, hcut, toList_joined, Content.hash, toList_joined]
        simp
      rcases (joined_eq_iff _ _ _ _).mp hjoin with ⟨heq, -⟩ | ⟨u, heq, -⟩ | ⟨u, heq, hu⟩
      · have hat : '@' ∈ "sha256".toList := by
          rw [heq]
          simp
        revert hat
        decide
      · have hcolon : ':' ∈ "sha256".toList := by
          rw [heq]
          simp [toList_joined]
        revert hcolon
        decide
      · exact hversion (by rw [hu]; simp [toList_joined])
  · rintro (hread | ⟨-, hself⟩ | ⟨-, -, hcut⟩)
    · exact ⟨hname, hversion, .inl hread⟩
    · exact ⟨hname, hversion, .inr (.inl hself)⟩
    · exact ⟨hname, hversion, .inr (.inr hcut)⟩

theorem publishedIn_append {ops : List (Op Bytes)} {args : PublishArgs Bytes}
    (h : PublishedIn C ops args) (more : List (Op Bytes)) : PublishedIn C (ops ++ more) args := by
  obtain ⟨pre, post, artifact, rfl, hok⟩ := h
  exact ⟨pre, post ++ more, artifact, by simp, hok⟩

theorem publishedIn_of_mem {ops pre : List (Op Bytes)} {p : String × String}
    (h : p ∈ published C (run C empty pre) ops) :
    ∃ args, PublishedIn C (pre ++ ops) args ∧ p = (args.name, args.version) := by
  induction ops generalizing pre with
  | nil => cases h
  | cons op ops ih =>
    rw [published, List.mem_append] at h
    rcases h with h | h
    · cases op with
      | publish args =>
        rw [publishedBy] at h
        cases hresult : ((run C empty pre).publish C args).2 with
        | error e =>
          rw [hresult] at h
          cases h
        | ok artifact =>
          rw [hresult, List.mem_singleton] at h
          obtain ⟨rfl, -⟩ := publish_eq_ok hresult
          exact ⟨args, ⟨pre, ops, _, rfl, hresult⟩, h⟩
      | publishCut args writes => cases h
      | attach args => cases h
      | attachCut args writes => cases h
      | garbageCollect keep => cases h
    · have hrun : (run C empty pre).step C op = run C empty (pre ++ [op]) := by
        simp [run]
      rw [hrun] at h
      have hmem := ih h
      rwa [List.append_assoc] at hmem

/-- The entry of a published artifact, in the layout behind the calls. -/
theorem entry_of_publishedIn (hC : C.Lawful) {ops : List (Op Bytes)} {args : PublishArgs Bytes}
    (h : PublishedIn C ops args) : ∃ e ∈ (run C empty ops).index,
      e.refName = some args.reference ∧ e.digest = args.digest C := by
  obtain ⟨pre, post, artifact, rfl, hok⟩ := h
  obtain ⟨-, e, hindex, htag, hdigest⟩ := publish_eq_ok hok
  refine ⟨e, ?_, htag, hdigest⟩
  have hwell : (run C empty pre).WellFormed C := wellFormed_run hC wellFormed_empty pre
  rw [run, List.foldl_append, List.foldl_cons, ← run, ← run]
  refine entry_run hC (wellFormed_step hC hwell _) ?_ (by rw [htag]; rfl) post
  rw [step, hindex]
  exact List.mem_append_right _ List.mem_cons_self

theorem reference_inj {args other : PublishArgs Bytes} (hname : ':' ∉ args.name.toList)
    (hversion : ':' ∉ args.version.toList) (h : other.reference = args.reference) :
    (other.name, other.version) = (args.name, args.version) := by
  rcases (joined_eq_iff _ _ _ _).mp h with ⟨hn, hv⟩ | ⟨u, -, hv⟩ | ⟨u, hn, -⟩
  · rw [hn, hv]
  · exact absurd (by rw [hv]; simp [toList_joined]) hversion
  · exact absurd (by rw [hn]; simp [toList_joined]) hname

/-- A tag that is taken is refused. -/
theorem publish_refused {e : Descriptor} (he : e ∈ r.index) {args : PublishArgs Bytes}
    (htag : e.refName = some args.reference) :
    (r.publish C args).2 = .error (.artifactExists args.reference) := by
  rw [publish, if_pos ((any_refName_iff _).mpr ⟨e, he, htag⟩)]

theorem versions_eq (tags : List (String × String))
    (hcolons : ∀ p ∈ tags, ':' ∉ p.1.toList ∧ ':' ∉ p.2.toList)
    (htags : r.tagNames = tags.map fun p => joined p.1 p.2) (name : String) :
    r.versions name = sortOn id ((tags.filter fun p => p.1 = name).map Prod.snd) := by
  have hprefix : ∀ p ∈ tags,
      (name ++ ":").toList.isPrefixOf (joined p.1 p.2).toList = decide (p.1 = name) := by
    intro p hp
    obtain ⟨hfirst, hsecond⟩ := hcolons p hp
    rw [Bool.eq_iff_iff, List.isPrefixOf_iff_prefix, startsWith_joined_iff, decide_eq_true_eq]
    constructor
    · rintro ⟨b, hb⟩
      rcases (joined_eq_iff _ _ _ _).mp hb with ⟨h, -⟩ | ⟨u, h, -⟩ | ⟨u, -, h⟩
      · exact h
      · exact absurd (by rw [h]; simp [toList_joined]) hfirst
      · exact absurd (by rw [h]; simp [toList_joined]) hsecond
    · rintro rfl
      exact ⟨p.2, rfl⟩
  have hdrop : ∀ p : String × String, p.1 = name →
      String.ofList ((joined p.1 p.2).toList.drop (name ++ ":").toList.length) = p.2 := by
    rintro p rfl
    simp [joined]
  have hperm : (r.references.filter fun ref => (name ++ ":").toList.isPrefixOf ref.toList).Perm
      ((tags.filter fun p => p.1 = name).map fun p => joined p.1 p.2) := by
    refine ((sortOn_perm id r.tagNames).filter _).trans ?_
    rw [htags, List.filter_map]
    refine List.Perm.of_eq (congrArg _ (List.filter_congr fun p hp => ?_))
    exact hprefix p hp
  rw [versions]
  refine sortOn_id_eq_of_perm ((hperm.map _).trans (List.Perm.of_eq ?_))
  rw [List.map_map]
  refine List.map_congr_left fun p hp => ?_
  exact hdrop p (of_decide_eq_true (List.mem_filter.mp hp).2)

/-- What is promised behind a `publish` makes its reference one that can be told. -/
theorem tellable_of_keep (hC : C.Lawful) {ops : List (Op Bytes)} (h : ReferencesKeep C ops)
    {args : PublishArgs Bytes} (hargs : PublishedIn C ops args) :
    Tellable args.name args.version (args.digest C) := by
  obtain ⟨e, he, htag, -⟩ := entry_of_publishedIn hC hargs
  -- Another cut of the reference is refused for it.
  have hcut : ∀ name version, joined name version = args.reference →
      (name, version) = (args.name, args.version) := by
    intro name version hjoin
    by_contra hne
    have hrefused := h.notRefused args hargs { args with name := name, version := version } hne
    refine hrefused ?_
    have hsame : ({ args with name := name, version := version } : PublishArgs Bytes).reference =
        args.reference := hjoin
    rw [← hsame] at htag ⊢
    exact publish_refused he htag
  have hname : ':' ∉ args.name.toList := by
    intro hmem
    obtain ⟨u, v, huv⟩ := exists_joined_of_mem hmem
    have heq := hcut u (joined v args.version) (by rw [PublishArgs.reference, huv, joined_assoc])
    have hlen := congrArg (fun p : String × String => p.1.toList.length) heq
    simp [huv, toList_joined] at hlen
  have hversion : ':' ∉ args.version.toList := by
    intro hmem
    obtain ⟨u, v, huv⟩ := exists_joined_of_mem hmem
    have heq := hcut (joined args.name u) v (by rw [PublishArgs.reference, huv, joined_assoc])
    have hlen := congrArg (fun p : String × String => p.1.toList.length) heq
    simp [toList_joined] at hlen
  obtain ⟨d, hd, hdigest⟩ := h.resolves args hargs
  refine (tellable_iff hname hversion).mpr ?_
  rcases resolve_eq_ok_iff.1 hd with ⟨digest, hparse, -, rfl⟩ | ⟨name, version, hparse, -⟩
  · exact .inr (hparse.trans (congrArg (fun s => Except.ok (Sum.inr s)) hdigest))
  · obtain ⟨hjoin, hcolon⟩ := eq_joined_of_parse hparse
    obtain ⟨rfl, rfl⟩ := (joined_inj_of_notMem hname hcolon).mp hjoin
    exact .inl hparse

/-- A layout behind calls whose published references can be told keeps them. -/
theorem keep_of_tellable (hC : C.Lawful) {ops : List (Op Bytes)}
    (h : ∀ args, PublishedIn C ops args → Tellable args.name args.version (args.digest C)) :
    ReferencesKeep C ops := by
  have hwell : (run C empty ops).WellFormed C := wellFormed_run hC wellFormed_empty ops
  refine ⟨?_, ?_, ?_⟩
  · intro args hargs
    have htell := h args hargs
    obtain ⟨e, he, htag, hdigest⟩ := entry_of_publishedIn hC hargs
    rcases (tellable_iff htell.nameColon htell.versionColon).mp htell with hparse | hparse
    · exact ⟨e, resolve_eq_ok_iff.2 (.inr ⟨_, _, hparse, findTag_of_mem hwell he htag⟩), hdigest⟩
    · refine ⟨_, resolve_eq_ok_iff.2 (.inl ⟨_, hparse, ?_, rfl⟩), rfl⟩
      obtain ⟨manifest, -, -, hhash, hholds⟩ := readManifest_entry hC hwell he
      have hdigest' : args.digest C = C.hash (C.render manifest) := by rw [← hdigest, hhash]
      change (run C empty ops).hasBlob (args.digest C) = .ok true
      rw [hdigest', hasBlob, blobPath_hash hC]
      simp only [Except.bind, bind, pure, Except.pure]
      rw [hholds]
      rfl
  · intro args hargs other hne hrefused
    have htell := h args hargs
    refine hne (reference_inj htell.nameColon htell.versionColon ?_)
    rcases publish_cases (C := C) (r := run C empty ops) other with
      ⟨-, heq⟩ | ⟨-, ⟨e, hkind, heq⟩ | ⟨_, -, heq⟩⟩
    · rw [heq] at hrefused
      exact StoreError.artifactExists.inj (Except.error.inj hrefused)
    · rw [heq] at hrefused
      rw [artifactMediaType] at hkind
      split_ifs at hkind
      rw [← Except.error.inj hkind] at hrefused
      cases Except.error.inj hrefused
    · rw [heq] at hrefused
      cases hrefused
  · intro name
    refine versions_eq _ ?_ ?_ name
    · intro p hp
      have hmem : ∃ args, PublishedIn C ([] ++ ops) args ∧ p = (args.name, args.version) :=
        publishedIn_of_mem hp
      obtain ⟨args, hargs, rfl⟩ := hmem
      exact ⟨(h args hargs).nameColon, (h args hargs).versionColon⟩
    · exact tags_run hC wellFormed_empty ops

/-- **Main theorem.** In every state of a run every reference published so far resolves to its
digest, stands in the way of no other, and is listed under its name, exactly if every name and
version that the run publishes can be told from their reference. -/
theorem references_keep_iff (hC : C.Lawful) (ops : List (Op Bytes)) :
    ReferencesKeepThroughout C ops ↔
      ∀ args, PublishedIn C ops args → Tellable args.name args.version (args.digest C) := by
  constructor
  · intro h args hargs
    exact tellable_of_keep hC (h ops (List.prefix_refl ops)) hargs
  · rintro h past ⟨future, rfl⟩
    exact keep_of_tellable hC fun args hargs => h args (publishedIn_append hargs future)

/-- Behind the calls on the rover its reference is there for good. -/
theorem roverOps_keep : ReferencesKeepThroughout (sampleContent []) roverOps := by
  refine (references_keep_iff (sampleContent_lawful (by decide)) roverOps).mpr ?_
  rintro args ⟨pre, post, artifact, hops, -⟩
  have hmem : Op.publish args ∈ roverOps := by
    rw [hops]
    simp
  simp only [roverOps, List.mem_cons, Op.publish.injEq, reduceCtorEq, List.not_mem_nil,
    or_false] at hmem
  subst hmem
  exact ⟨by decide, by decide, .inl (by decide)⟩

/-- **Counterexample.** A version without a name is published, and its reference never resolves;
a name with a colon takes the reference of another name. -/
theorem oddNames_not_keep :
    ¬ ReferencesKeep (sampleContent []) [.publish { roverArgs with name := "" }] ∧
      ¬ ReferencesKeep (sampleContent [])
        [.publish { roverArgs with name := "rover:lunar", version := "1.0" }] := by
  have hpublished : ∀ args : PublishArgs Sample, args.kind = "asset" →
      PublishedIn (sampleContent []) [.publish args] args := by
    intro args hkind
    rcases publish_cases (C := sampleContent []) (r := empty) args with
      ⟨⟨e, he, -⟩, -⟩ | ⟨-, ⟨e, herror, -⟩ | ⟨_, -, heq⟩⟩
    · cases he
    · rw [hkind] at herror
      cases herror
    · exact ⟨[], [], _, rfl, congrArg Prod.snd heq⟩
  refine ⟨fun h => ?_, fun h => ?_⟩
  · have hparse : parseReference (joined "" "1.0") = .error (.malformedReference ":1.0") := by
      decide
    obtain ⟨d, hd, -⟩ := h.resolves _ (hpublished _ rfl)
    rcases resolve_eq_ok_iff.1 hd with ⟨_, hread, -⟩ | ⟨_, _, hread, -⟩
    · cases hparse.symm.trans hread
    · cases hparse.symm.trans hread
  · have htell := tellable_of_keep (sampleContent_lawful (by decide)) h (hpublished _ rfl)
    exact htell.nameColon (by decide)

end AstroMine.Hub.Registry
