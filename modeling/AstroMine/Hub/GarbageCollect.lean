import AstroMine.Hub.Store
import AstroMine.Lib.Worklist

/-!
# Garbage collection (`Registry.garbage_collect`, `hub/registry/_store.py`)

The worklist over the manifests of the index, the sweep of the blobs it did not reach, and the index
written without what was swept.

Results:
* `garbageCollect_eq_ok`: on a well formed layout it returns, and keeps the blobs of `Live`.
* `wellFormed_sweep`, `wellFormed_run`: the invariant holds in every state that is reached.
* `garbageCollect_exact`: what is removed, what stays, and that a second call removes nothing.
-/

namespace AstroMine.Hub.Registry

variable {Bytes : Type} (C : Content Bytes) (r : Registry Bytes)

/-! ## The algorithm -/

/-- The digests of the entries whose subject is at the digest (lines 301–305). -/
def referrerDigests (digest : String) : Except StoreError (List String) := do
  let found ← filterE (fun entry => do
    let other ← r.readManifest C entry.digest
    return decide (other.subjectDigest = some digest)) r.index
  return found.map Descriptor.digest

/-- One pass of the loop on a manifest that was not processed yet (lines 295–305): what is put on
the worklist, and what becomes reachable. -/
def visitManifest (digest : String) : Except StoreError (List String × List String) := do
  let manifest ← r.readManifest C digest
  let config ← configOf digest manifest
  let layers ← layersOf digest manifest
  let referrers ← r.referrerDigests C digest
  return (referrers, digest :: config.digest :: layers.map Descriptor.digest)

/-- `seeds` (lines 286–287): the tagged entries, and the kept ones. -/
def gcSeeds (keep : List String) : List String :=
  (r.index.filter fun entry => entry.refName.any (· ≠ "")).map Descriptor.digest ++
    keep.filter (· ∈ r.index.map Descriptor.digest)

/-- The digests of the files that are not reachable. -/
def unreached (reachable : List String) : List String :=
  (r.blobs.keys.map (joined "sha256")).filter (· ∉ reachable)

/-- The files are unlinked and the index is written again (lines 307–316). -/
def sweep (reachable : List String) : Registry Bytes where
  blobs := r.blobs.filterKeys fun path => joined "sha256" path ∈ reachable
  index :=
    if r.unreached reachable = [] then r.index
    else r.index.filter fun entry => entry.digest ∉ r.unreached reachable

/-- `Registry.garbage_collect` (lines 273–317). The worklist is popped at its end; a manifest is
pushed once for each manifest that it refers to and each time it is a seed. -/
def garbageCollect (keep : List String) :
    Except StoreError (Option (Registry Bytes × List String)) := do
  let seeds := r.gcSeeds keep
  let fuel := seeds.length + r.index.length * r.index.length + 1
  match ← Worklist.mark (r.visitManifest C) fuel seeds.reverse [] keep with
  | none => return none
  | some reachable => return some (r.sweep reachable, sortOn id (r.unreached reachable))

/-! ## What is live -/

/-- The manifests that are kept: the tagged ones, those of `keep`, and what refers to them. -/
inductive Kept (keep : List String) : String → Prop
  | tagged {e : Descriptor} : e ∈ r.index → e.refName.isSome → Kept keep e.digest
  | pinned {e : Descriptor} : e ∈ r.index → e.digest ∈ keep → Kept keep e.digest
  | referrer {e : Descriptor} {manifest : ImageManifest} {digest : String} :
      Kept keep digest → e ∈ r.index → r.readManifest C e.digest = .ok manifest →
      manifest.subjectDigest = some digest → Kept keep e.digest

/-- What is live: the digests of `keep`, the kept manifests, and their configs and layers. -/
def Live (keep : List String) (digest : String) : Prop :=
  digest ∈ keep ∨ r.Kept C keep digest ∨
    ∃ m manifest, r.Kept C keep m ∧ r.readManifest C m = .ok manifest ∧
      ∃ d ∈ manifest.parts, d.digest = digest

variable {C r} {keep : List String}

theorem readManifest_eq_ok {digest : String} {manifest : ImageManifest} :
    r.readManifest C digest = .ok manifest ↔
      ∃ b, r.readBlob digest = .ok b ∧ C.parse b = some manifest := by
  rw [readManifest, bind_eq_ok]
  refine exists_congr fun b => and_congr_right fun _ => ?_
  cases C.parse b with
  | none => exact ⟨fun h => (by cases h), fun h => (by cases h)⟩
  | some m =>
    exact ⟨fun h => congrArg some (Except.ok.inj h), fun h => by rw [Option.some.inj h]; rfl⟩

/-- The manifest of an entry is read. -/
theorem readManifest_entry (hC : C.Lawful) (h : r.WellFormed C) {e : Descriptor}
    (he : e ∈ r.index) : ∃ manifest : ImageManifest, r.readManifest C e.digest = .ok manifest ∧
      manifest.Sealed C ∧ e.digest = C.hash (C.render manifest) ∧ r.Holds C (C.render manifest) := by
  obtain ⟨manifest, hsealed, hdigest, hholds⟩ := h.entries e he
  refine ⟨manifest, readManifest_eq_ok.2 ⟨_, ?_, hC.parse_render manifest⟩, hsealed, hdigest,
    hholds⟩
  rw [hdigest]
  exact readBlob_of_holds hC hholds

theorem entry_of_kept {digest : String} (h : r.Kept C keep digest) :
    ∃ e ∈ r.index, e.digest = digest := by
  cases h with
  | tagged he _ => exact ⟨_, he, rfl⟩
  | pinned he _ => exact ⟨_, he, rfl⟩
  | referrer _ he _ _ => exact ⟨_, he, rfl⟩

/-- The manifest at a digest, if it can be read. -/
def manifestAt (C : Content Bytes) (r : Registry Bytes) (digest : String) : Option ImageManifest :=
  (r.readManifest C digest).toOption

theorem manifestAt_eq_some {digest : String} {manifest : ImageManifest} :
    r.manifestAt C digest = some manifest ↔ r.readManifest C digest = .ok manifest := by
  rw [manifestAt]
  cases r.readManifest C digest with
  | error e => exact ⟨fun h => (by cases h), fun h => (by cases h)⟩
  | ok m => exact ⟨fun h => congrArg Except.ok (Option.some.inj h),
      fun h => by rw [Except.ok.inj h]; rfl⟩

/-- The entries whose subject is at the digest. -/
def referring (C : Content Bytes) (r : Registry Bytes) (digest : String) : List Descriptor :=
  r.index.filter fun e => (r.manifestAt C e.digest).bind ImageManifest.subjectDigest = some digest

/-- What a manifest makes reachable. -/
def marksOf (C : Content Bytes) (r : Registry Bytes) (digest : String) : List String :=
  digest :: ((r.manifestAt C digest).elim [] fun manifest =>
    manifest.parts.map Descriptor.digest)

theorem mem_referring {digest : String} {e : Descriptor} : e ∈ r.referring C digest ↔
    e ∈ r.index ∧ ∃ manifest, r.readManifest C e.digest = .ok manifest ∧
      manifest.subjectDigest = some digest := by
  rw [referring, List.mem_filter, decide_eq_true_eq, Option.bind_eq_some_iff]
  refine and_congr_right fun _ => exists_congr fun manifest => and_congr_left fun _ => ?_
  exact manifestAt_eq_some

theorem referrerDigests_eq_ok (hC : C.Lawful) (h : r.WellFormed C) (digest : String) :
    r.referrerDigests C digest = .ok ((r.referring C digest).map Descriptor.digest) := by
  rw [referrerDigests, filterE_eq_ok (q := fun e =>
    decide ((r.manifestAt C e.digest).bind ImageManifest.subjectDigest = some digest))]
  · rfl
  · intro e he
    obtain ⟨manifest, hread, -⟩ := readManifest_entry hC h he
    rw [manifestAt_eq_some.2 hread, hread]
    rfl

/-- The loop takes a manifest of the index as it is. -/
theorem visitManifest_eq_ok (hC : C.Lawful) (h : r.WellFormed C) {e : Descriptor}
    (he : e ∈ r.index) : r.visitManifest C e.digest =
      .ok ((r.referring C e.digest).map Descriptor.digest, r.marksOf C e.digest) := by
  obtain ⟨manifest, hread, hsealed, -⟩ := readManifest_entry hC h he
  obtain ⟨config, hconfig⟩ := Option.isSome_iff_exists.mp hsealed.config
  obtain ⟨layers, hlayers⟩ := Option.isSome_iff_exists.mp hsealed.layers
  rw [visitManifest, hread, referrerDigests_eq_ok hC h, marksOf, manifestAt_eq_some.2 hread]
  simp only [Except.bind, bind, configOf, hconfig, layersOf, hlayers, Option.elim_some,
    ImageManifest.parts, Option.toList_some, Option.getD_some, List.singleton_append, List.map_cons]
  rfl

/-- The seeds are the tagged and the kept entries. -/
theorem mem_gcSeeds (h : r.WellFormed C) {digest : String} : digest ∈ r.gcSeeds keep ↔
    ∃ e ∈ r.index, e.digest = digest ∧ (e.refName.isSome ∨ e.digest ∈ keep) := by
  rw [gcSeeds, List.mem_append]
  simp only [List.mem_map, List.mem_filter, decide_eq_true_eq]
  constructor
  · rintro (⟨e, ⟨he, htag⟩, rfl⟩ | ⟨hkeep, e, he, rfl⟩)
    · obtain ⟨tag, htag, -⟩ := (Option.any_eq_true _ _).mp htag
      exact ⟨e, he, rfl, .inl (Option.isSome_iff_exists.mpr ⟨tag, htag⟩)⟩
    · exact ⟨e, he, rfl, .inr hkeep⟩
  · rintro ⟨e, he, rfl, htag | hkeep⟩
    · obtain ⟨tag, htag⟩ := Option.isSome_iff_exists.mp htag
      obtain ⟨name, version, rfl⟩ := h.named e he tag htag
      refine .inl ⟨e, ⟨he, ?_⟩, rfl⟩
      rw [htag, Option.any_some, decide_eq_true_eq]
      intro hempty
      have hlist := congrArg String.toList hempty
      rw [toList_joined] at hlist
      simp at hlist
    · exact .inr ⟨hkeep, e, he, rfl⟩

theorem reach_iff_kept (h : r.WellFormed C) {digest : String} :
    Worklist.Reach (fun d => (r.referring C d).map Descriptor.digest) (r.gcSeeds keep).reverse
      digest ↔ r.Kept C keep digest := by
  constructor
  · intro hreach
    induction hreach with
    | seed hs =>
      obtain ⟨e, he, rfl, htag | hkeep⟩ := (mem_gcSeeds h).mp (List.mem_reverse.mp hs)
      · exact .tagged he htag
      · exact .pinned he hkeep
    | step _ hc ih =>
      obtain ⟨e, he, rfl⟩ := List.mem_map.mp hc
      obtain ⟨he, manifest, hread, hsubject⟩ := mem_referring.1 he
      exact .referrer ih he hread hsubject
  · intro hkept
    induction hkept with
    | tagged he htag =>
      exact .seed (List.mem_reverse.mpr ((mem_gcSeeds h).mpr ⟨_, he, rfl, .inl htag⟩))
    | pinned he hkeep =>
      exact .seed (List.mem_reverse.mpr ((mem_gcSeeds h).mpr ⟨_, he, rfl, .inr hkeep⟩))
    | referrer _ he hread hsubject ih =>
      exact .step ih (List.mem_map.mpr ⟨_, mem_referring.2 ⟨he, _, hread, hsubject⟩, rfl⟩)

/-- The loop pops each entry as a seed and for each entry that its manifest may refer to, at most. -/
theorem sum_referring_le :
    ∑ d ∈ (r.index.map Descriptor.digest).toFinset,
        ((r.referring C d).map Descriptor.digest).length ≤
      r.index.length * r.index.length := by
  have hcard : (r.index.map Descriptor.digest).toFinset.card ≤ r.index.length := by
    calc (r.index.map Descriptor.digest).toFinset.card
        ≤ (r.index.map Descriptor.digest).length := List.toFinset_card_le _
      _ = r.index.length := List.length_map _
  calc ∑ d ∈ (r.index.map Descriptor.digest).toFinset,
        ((r.referring C d).map Descriptor.digest).length
      ≤ (r.index.map Descriptor.digest).toFinset.card • r.index.length :=
        Finset.sum_le_card_nsmul _ _ _ fun d _ => by
          rw [List.length_map]
          exact List.length_filter_le _ _
    _ ≤ r.index.length * r.index.length := Nat.mul_le_mul_right _ hcard

theorem live_iff {digest : String} : r.Live C keep digest ↔
    digest ∈ keep ∨ ∃ m, r.Kept C keep m ∧ digest ∈ r.marksOf C m := by
  rw [Live]
  refine or_congr_right ?_
  constructor
  · rintro (hkept | ⟨m, manifest, hkept, hread, d, hd, rfl⟩)
    · exact ⟨digest, hkept, List.mem_cons_self⟩
    · refine ⟨m, hkept, List.mem_cons_of_mem _ ?_⟩
      rw [manifestAt_eq_some.2 hread]
      exact List.mem_map_of_mem hd
  · rintro ⟨m, hkept, hmem⟩
    rcases List.mem_cons.mp hmem with rfl | hmem
    · exact .inl hkept
    · cases hm : r.manifestAt C m with
      | none =>
        rw [hm] at hmem
        cases hmem
      | some manifest =>
        rw [hm] at hmem
        obtain ⟨d, hd, rfl⟩ := List.mem_map.mp hmem
        exact .inr ⟨m, manifest, hkept, manifestAt_eq_some.1 hm, d, hd, rfl⟩

/-- On a well formed layout the collector returns, and what it reached is what is live. -/
theorem garbageCollect_eq_ok (hC : C.Lawful) (h : r.WellFormed C) (keep : List String) :
    ∃ reachable, (∀ digest, digest ∈ reachable ↔ r.Live C keep digest) ∧
      r.garbageCollect C keep =
        .ok (some (r.sweep reachable, sortOn id (r.unreached reachable))) := by
  have hentry : ∀ d, Worklist.Reach (fun d => (r.referring C d).map Descriptor.digest)
      (r.gcSeeds keep).reverse d → ∃ e ∈ r.index, e.digest = d :=
    fun d hd => entry_of_kept ((reach_iff_kept h).mp hd)
  have hnodes : ∀ d, Worklist.Reach (fun d => (r.referring C d).map Descriptor.digest)
      (r.gcSeeds keep).reverse d → d ∈ (r.index.map Descriptor.digest).toFinset := by
    intro d hd
    obtain ⟨e, he, rfl⟩ := hentry d hd
    exact List.mem_toFinset.mpr (List.mem_map_of_mem he)
  have hvisit : ∀ d, Worklist.Reach (fun d => (r.referring C d).map Descriptor.digest)
      (r.gcSeeds keep).reverse d → r.visitManifest C d =
        .ok ((r.referring C d).map Descriptor.digest, r.marksOf C d) := by
    intro d hd
    obtain ⟨e, he, rfl⟩ := hentry d hd
    exact visitManifest_eq_ok hC h he
  have hfuel : (r.gcSeeds keep).reverse.length +
      ∑ d ∈ (r.index.map Descriptor.digest).toFinset,
        ((r.referring C d).map Descriptor.digest).length <
      (r.gcSeeds keep).length + r.index.length * r.index.length + 1 := by
    have hsum := sum_referring_le (C := C) (r := r)
    rw [List.length_reverse]
    omega
  obtain ⟨reachable, hmark, hreach⟩ :
      ∃ reachable, Worklist.mark (r.visitManifest C)
          ((r.gcSeeds keep).length + r.index.length * r.index.length + 1)
          (r.gcSeeds keep).reverse [] keep = .ok (some reachable) ∧
        ∀ d, d ∈ reachable ↔ d ∈ keep ∨
          ∃ m, Worklist.Reach (fun d => (r.referring C d).map Descriptor.digest)
            (r.gcSeeds keep).reverse m ∧ d ∈ r.marksOf C m :=
    Worklist.mark_eq_ok hnodes hvisit hfuel
  refine ⟨reachable, fun digest => ?_, ?_⟩
  · rw [hreach, live_iff]
    simp only [reach_iff_kept h]
  · rw [garbageCollect, hmark]
    rfl

/-! ## What the sweep leaves -/

variable {reachable : List String}

theorem mem_unreached {digest : String} : digest ∈ r.unreached reachable ↔
    (∃ path, (r.blobs.get? path).isSome ∧ digest = joined "sha256" path) ∧
      digest ∉ reachable := by
  rw [unreached, List.mem_filter, decide_eq_true_eq, List.mem_map]
  refine and_congr_left fun _ => exists_congr fun path => ?_
  rw [Dict.mem_keys]
  exact and_congr_right fun _ => eq_comm

theorem get?_sweep (path : String) : (r.sweep reachable).blobs.get? path =
    if joined "sha256" path ∈ reachable then r.blobs.get? path else none := by
  rw [sweep, Dict.get?_filterKeys]
  simp only [decide_eq_true_eq]

theorem readBlob_sweep {digest : String} (h : digest ∈ reachable) :
    (r.sweep reachable).readBlob digest = r.readBlob digest := by
  rw [readBlob, readBlob]
  cases hpath : blobPath digest with
  | error e => rfl
  | ok path =>
    have hget : (r.sweep reachable).blobs.get? path = r.blobs.get? path := by
      rw [get?_sweep, if_pos (by rw [← (blobPath_eq_ok.1 hpath).1]; exact h)]
    simp only [Except.bind, bind, hget]

theorem hasBlob_sweep {digest : String} (h : digest ∈ reachable) :
    (r.sweep reachable).hasBlob digest = r.hasBlob digest := by
  rw [hasBlob, hasBlob]
  cases hpath : blobPath digest with
  | error e => rfl
  | ok path =>
    have hget : (r.sweep reachable).blobs.get? path = r.blobs.get? path := by
      rw [get?_sweep, if_pos (by rw [← (blobPath_eq_ok.1 hpath).1]; exact h)]
    simp only [Except.bind, bind, hget]

theorem readManifest_sweep {digest : String} (h : digest ∈ reachable) :
    (r.sweep reachable).readManifest C digest = r.readManifest C digest := by
  rw [readManifest, readBlob_sweep h, ← readManifest]

theorem holds_sweep {b : Bytes} :
    (r.sweep reachable).Holds C b ↔ r.Holds C b ∧ C.hash b ∈ reachable := by
  rw [Holds, get?_sweep, ← Content.hash]
  by_cases h : C.hash b ∈ reachable
  · rw [if_pos h]
    exact (and_iff_left h).symm
  · rw [if_neg h]
    exact ⟨fun hn => (by cases hn), fun hb => absurd hb.2 h⟩

/-- The manifest of an entry is a file, so it is unlinked unless it was reached. -/
theorem mem_unreached_entry (h : r.WellFormed C) {e : Descriptor} (he : e ∈ r.index) :
    e.digest ∈ r.unreached reachable ↔ e.digest ∉ reachable := by
  obtain ⟨manifest, -, hdigest, hholds⟩ := h.entries e he
  rw [mem_unreached]
  refine and_iff_right ⟨C.hexOf (C.render manifest), ?_, hdigest⟩
  rw [hholds]
  rfl

/-- The entries that are left are those of the manifests that are left. -/
theorem index_sweep (h : r.WellFormed C) :
    (r.sweep reachable).index = r.index.filter fun e => e.digest ∈ reachable := by
  rw [sweep]
  by_cases hnone : r.unreached reachable = []
  · simp only [if_pos hnone]
    refine (List.filter_eq_self.mpr fun e he => decide_eq_true ?_).symm
    have hmem : e.digest ∈ r.unreached reachable ↔ e.digest ∉ reachable :=
      mem_unreached_entry h he
    rw [hnone] at hmem
    exact not_not.mp fun hn => List.not_mem_nil (hmem.mpr hn)
  · simp only [if_neg hnone]
    refine List.filter_congr fun e he => ?_
    simp only [mem_unreached_entry h he, not_not]

theorem mem_index_sweep (h : r.WellFormed C) {e : Descriptor} :
    e ∈ (r.sweep reachable).index ↔ e ∈ r.index ∧ e.digest ∈ reachable := by
  rw [index_sweep h, List.mem_filter, decide_eq_true_eq]

/-- The layout that is left is well formed, if everything live was reached. -/
theorem wellFormed_sweep (h : r.WellFormed C)
    (hlive : ∀ digest, r.Live C keep digest → digest ∈ reachable)
    (hC : C.Lawful) : (r.sweep reachable).WellFormed C := by
  refine ⟨?_, ?_, ?_, ?_, ?_⟩
  · intro path b hb
    rw [get?_sweep] at hb
    split_ifs at hb
    exact h.addressed path b hb
  · intro e he
    obtain ⟨he, hreach⟩ := (mem_index_sweep h).mp he
    obtain ⟨manifest, hsealed, hdigest, hholds⟩ := h.entries e he
    exact ⟨manifest, hsealed, hdigest, holds_sweep.2 ⟨hholds, hdigest ▸ hreach⟩⟩
  · intro e he htag manifest hdigest d hd
    obtain ⟨he, -⟩ := (mem_index_sweep h).mp he
    obtain ⟨b, hb, hholds⟩ := h.tagged e he htag manifest hdigest d hd
    obtain ⟨manifest', hread, -, hdigest', -⟩ := readManifest_entry hC h he
    have hsame := congrArg C.parse (hC.hash_inj.1 (hdigest.symm.trans hdigest'))
    rw [hC.parse_render, hC.parse_render, Option.some.injEq] at hsame
    subst hsame
    refine ⟨b, hb, holds_sweep.2 ⟨hholds, ?_⟩⟩
    rw [← hb]
    exact hlive _ (.inr (.inr ⟨_, _, .tagged he htag, hread, d, hd, rfl⟩))
  · intro e he
    exact h.named e ((mem_index_sweep h).mp he).1
  · rw [index_sweep h]
    exact h.tags.sublist (List.filter_sublist.filterMap _)

/-! ## Runs -/

/-- The calls on a layout. -/
inductive Op (Bytes : Type)
  | publish (args : PublishArgs Bytes)
  | publishCut (args : PublishArgs Bytes) (writes : ℕ)
  | attach (args : AttachArgs Bytes)
  | attachCut (args : AttachArgs Bytes) (writes : ℕ)
  | garbageCollect (keep : List String)

/-- The layout behind a call. -/
def step (C : Content Bytes) (r : Registry Bytes) : Op Bytes → Registry Bytes
  | .publish args => (r.publish C args).1
  | .publishCut args writes => r.publishCut C args writes
  | .attach args => (r.attach C args).1
  | .attachCut args writes => r.attachCut C args writes
  | .garbageCollect keep =>
    match r.garbageCollect C keep with
    | .ok (some (r', _)) => r'
    | _ => r

/-- The layout behind some calls. -/
def run (C : Content Bytes) (r : Registry Bytes) (ops : List (Op Bytes)) : Registry Bytes :=
  ops.foldl (step C) r

theorem wellFormed_step (hC : C.Lawful) (h : r.WellFormed C) (op : Op Bytes) :
    (r.step C op).WellFormed C := by
  cases op with
  | publish args => exact wellFormed_publish hC h args
  | publishCut args writes => exact wellFormed_publishCut hC h args writes
  | attach args => exact wellFormed_attach hC h args
  | attachCut args writes => exact wellFormed_attachCut hC h args writes
  | garbageCollect keep =>
    obtain ⟨reachable, hlive, heq⟩ := garbageCollect_eq_ok hC h keep
    rw [step, heq]
    exact wellFormed_sweep h (fun digest => (hlive digest).mpr) hC

/-- The invariant holds in every state that is reached. -/
theorem wellFormed_run (hC : C.Lawful) (h : r.WellFormed C) (ops : List (Op Bytes)) :
    (r.run C ops).WellFormed C :=
  List.foldlRecOn ops (step C) h fun _ hr op _ => wellFormed_step hC hr op

/-! ## The collection is exact -/

/-- A tag is found at the entry that has it. -/
theorem findTag_of_mem (h : r.WellFormed C) {e : Descriptor} (he : e ∈ r.index) {tag : String}
    (htag : e.refName = some tag) : r.findTag tag = some e := by
  have hfind : ∀ index : List Descriptor, (index.filterMap Descriptor.refName).Nodup → e ∈ index →
      index.find? (fun entry => entry.refName = some tag) = some e := by
    intro index hnodup he
    induction index with
    | nil => cases he
    | cons e' index ih =>
      rcases List.mem_cons.mp he with rfl | he
      · exact List.find?_cons_of_pos (decide_eq_true htag)
      · have hne : e'.refName ≠ some tag := by
          intro heq
          rw [List.filterMap_cons_some heq, List.nodup_cons, List.mem_filterMap] at hnodup
          exact hnodup.1 ⟨e, he, htag⟩
        rw [List.find?_cons_of_neg (by simpa using hne)]
        refine ih (hnodup.sublist ?_) he
        exact (List.sublist_cons_self e' index).filterMap _
  exact hfind r.index h.tags he

/-- A tagged artifact is verified: its manifest and its blobs are there as they were written. -/
theorem verify_of_tagged (hC : C.Lawful) (h : r.WellFormed C) {e : Descriptor} (he : e ∈ r.index)
    (htag : e.refName.isSome) : r.verify C e.digest = .ok () := by
  obtain ⟨manifest, hread, hsealed, hdigest, hholds⟩ := readManifest_entry hC h he
  obtain ⟨config, hconfig⟩ := Option.isSome_iff_exists.mp hsealed.config
  obtain ⟨layers, hlayers⟩ := Option.isSome_iff_exists.mp hsealed.layers
  have hverify : ∀ b, r.Holds C b → r.verifyBlob C (C.hash b) = .ok () :=
    fun b hb => verifyBlob_eq_ok.2 ⟨b, readBlob_of_holds hC hb, rfl⟩
  have hparts : (config :: layers).forM (fun d => r.verifyBlob C d.digest) = .ok () := by
    rw [forM_eq_ok]
    intro d hd
    obtain ⟨b, hb, hpart⟩ := h.tagged e he htag manifest hdigest d (by
      rw [ImageManifest.parts, hconfig, hlayers]
      exact hd)
    rw [hb]
    exact hverify b hpart
  have hself : r.verifyBlob C e.digest = .ok () := by
    rw [hdigest]
    exact hverify _ hholds
  rw [verify, hself, hread]
  simp only [Except.bind, bind, configOf, hconfig, layersOf, hlayers]
  exact hparts

/-- What `garbage_collect` promises of the layout and the digests it returns. -/
structure Collected (C : Content Bytes) (r : Registry Bytes) (keep : List String)
    (r' : Registry Bytes) (reclaimed : List String) : Prop where
  /-- The digests that are returned are those of the blobs that are not live. -/
  reclaimed : ∀ digest, digest ∈ reclaimed ↔
    (∃ path, (r.blobs.get? path).isSome ∧ digest = joined "sha256" path) ∧
      ¬ r.Live C keep digest
  /-- The blobs that are not live are removed, and no others. -/
  blobs : ∀ path, (¬ r.Live C keep (joined "sha256" path) → r'.blobs.get? path = none) ∧
    (r.Live C keep (joined "sha256" path) → r'.blobs.get? path = r.blobs.get? path)
  /-- The manifest of each entry that is left is read. -/
  readable : ∀ e ∈ r'.index, e ∈ r.index ∧ ∃ manifest, r'.readManifest C e.digest = .ok manifest
  /-- A tag is where it was, and its artifact is verified. -/
  tags : ∀ e ∈ r.index, ∀ tag, e.refName = some tag →
    r'.findTag tag = some e ∧ r'.verify C e.digest = .ok ()
  /-- What a reference resolved to it resolves to, if that is live (as each tagged artifact is). -/
  resolved : ∀ reference d, r.resolve C reference = .ok d → r.Live C keep d.digest →
    r'.resolve C reference = .ok d
  /-- A manifest that is kept has the referrers it had. -/
  referrers : ∀ digest, r.Kept C keep digest → ∀ artifactType,
    ∃ found, r.referrers C digest artifactType = .ok found ∧
      r'.referrers C digest artifactType = .ok found
  /-- A second call removes nothing. -/
  again : r'.garbageCollect C keep = .ok (some (r', []))

theorem kept_sweep (h : r.WellFormed C)
    (hlive : ∀ digest, r.Live C keep digest → digest ∈ reachable) {digest : String}
    (hkept : r.Kept C keep digest) : (r.sweep reachable).Kept C keep digest := by
  have hstay : ∀ {e : Descriptor}, e ∈ r.index → r.Kept C keep e.digest →
      e ∈ (r.sweep reachable).index :=
    fun he hkept => (mem_index_sweep h).mpr ⟨he, hlive _ (.inr (.inl hkept))⟩
  induction hkept with
  | tagged he htag => exact .tagged (hstay he (.tagged he htag)) htag
  | pinned he hkeep => exact .pinned (hstay he (.pinned he hkeep)) hkeep
  | referrer hkept he hread hsubject ih =>
    have hself : r.Kept C keep _ := .referrer hkept he hread hsubject
    refine .referrer ih (hstay he hself) ?_ hsubject
    rw [readManifest_sweep (hlive _ (.inr (.inl hself)))]
    exact hread

theorem live_sweep (h : r.WellFormed C)
    (hlive : ∀ digest, r.Live C keep digest → digest ∈ reachable) {digest : String}
    (hd : r.Live C keep digest) : (r.sweep reachable).Live C keep digest := by
  rcases hd with hkeep | hkept | ⟨m, manifest, hkept, hread, hpart⟩
  · exact .inl hkeep
  · exact .inr (.inl (kept_sweep h hlive hkept))
  · refine .inr (.inr ⟨m, manifest, kept_sweep h hlive hkept, ?_, hpart⟩)
    rw [readManifest_sweep (hlive _ (.inr (.inl hkept)))]
    exact hread

/-- When every file is reached, the sweep leaves the layout alone. -/
theorem sweep_of_unreached_nil (hnone : r.unreached reachable = []) :
    r.sweep reachable = r := by
  have hblobs : r.blobs.filterKeys (fun path => joined "sha256" path ∈ reachable) = r.blobs := by
    refine Dict.filterKeys_eq_self fun path hpath => decide_eq_true ?_
    by_contra hn
    have hmem : joined "sha256" path ∈ r.unreached reachable :=
      mem_unreached.2 ⟨⟨path, (Dict.mem_keys _ _).mp hpath, rfl⟩, hn⟩
    rw [hnone] at hmem
    cases hmem
  rw [sweep, hblobs, if_pos hnone]

theorem again_sweep (hC : C.Lawful) (h : r.WellFormed C)
    (hlive : ∀ digest, digest ∈ reachable ↔ r.Live C keep digest) :
    (r.sweep reachable).garbageCollect C keep = .ok (some (r.sweep reachable, [])) := by
  have hsub : ∀ digest, r.Live C keep digest → digest ∈ reachable := fun d => (hlive d).mpr
  obtain ⟨reachable', hlive', heq⟩ :=
    garbageCollect_eq_ok hC (wellFormed_sweep h hsub hC) keep
  have hnone : (r.sweep reachable).unreached reachable' = [] := by
    refine List.eq_nil_iff_forall_not_mem.mpr fun digest hd => ?_
    obtain ⟨⟨path, hpath, rfl⟩, hn⟩ := mem_unreached.1 hd
    rw [get?_sweep] at hpath
    split_ifs at hpath with hreach
    · exact hn ((hlive' _).mpr (live_sweep h hsub ((hlive _).mp hreach)))
    · cases hpath
  rw [heq, hnone, sweep_of_unreached_nil hnone]
  rfl

theorem resolve_sweep (hC : C.Lawful) (h : r.WellFormed C)
    (hlive : ∀ digest, r.Live C keep digest → digest ∈ reachable) {reference : String}
    {d : Descriptor} (hd : r.resolve C reference = .ok d) (hkept : r.Live C keep d.digest) :
    (r.sweep reachable).resolve C reference = .ok d := by
  rcases resolve_eq_ok_iff.1 hd with ⟨digest, hparse, hpresent, rfl⟩ | ⟨name, version, hparse, htag⟩
  · refine resolve_eq_ok_iff.2 (.inl ⟨digest, hparse, ?_, ?_⟩)
    · rw [hasBlob_sweep (hlive _ hkept)]
      exact hpresent
    · rw [blobSize, blobSize, readBlob_sweep (hlive _ hkept)]
  · obtain ⟨he, hname⟩ := findTag_eq_some htag
    refine resolve_eq_ok_iff.2 (.inr ⟨name, version, hparse, ?_⟩)
    exact findTag_of_mem (wellFormed_sweep h hlive hC)
      ((mem_index_sweep h).mpr ⟨he, hlive _ hkept⟩) hname

/-- Whether a manifest is listed among the referrers. -/
def isReferrer (subject : String) (artifactType : Option String) (manifest : ImageManifest) : Bool :=
  decide (manifest.subjectDigest = some subject) &&
    decide (artifactType = none ∨ manifest.artifactType = artifactType)

theorem referrers_eq_ok (hC : C.Lawful) (h : r.WellFormed C) (subject : String)
    (artifactType : Option String) : r.referrers C subject artifactType =
      .ok (r.index.filter fun e =>
        (r.manifestAt C e.digest).any (isReferrer subject artifactType)) := by
  rw [referrers]
  refine filterE_eq_ok fun e he => ?_
  obtain ⟨manifest, hread, -⟩ := readManifest_entry hC h he
  rw [manifestAt_eq_some.2 hread, hread]
  rfl

theorem referrers_sweep (hC : C.Lawful) (h : r.WellFormed C)
    (hlive : ∀ digest, r.Live C keep digest → digest ∈ reachable) {digest : String}
    (hkept : r.Kept C keep digest) (artifactType : Option String) :
    (r.sweep reachable).referrers C digest artifactType = r.referrers C digest artifactType := by
  rw [referrers_eq_ok hC h, referrers_eq_ok hC (wellFormed_sweep h hlive hC), index_sweep h,
    List.filter_filter]
  refine congrArg Except.ok (List.filter_congr fun e he => ?_)
  by_cases hreach : e.digest ∈ reachable
  · rw [manifestAt, readManifest_sweep hreach, ← manifestAt, decide_eq_true hreach, Bool.and_true]
  · obtain ⟨manifest, hread, -⟩ := readManifest_entry hC h he
    have hnot : isReferrer digest artifactType manifest = false := by
      rw [isReferrer, Bool.and_eq_false_iff]
      refine .inl (decide_eq_false fun hsubject => hreach ?_)
      exact hlive _ (.inr (.inl (.referrer hkept he hread hsubject)))
    rw [decide_eq_false hreach, Bool.and_false, manifestAt_eq_some.2 hread, Option.any_some, hnot]

/-- What a collection of a well formed layout promises. -/
theorem collected_sweep (hC : C.Lawful) (h : r.WellFormed C)
    (hlive : ∀ digest, digest ∈ reachable ↔ r.Live C keep digest) :
    Collected C r keep (r.sweep reachable) (sortOn id (r.unreached reachable)) := by
  have hsub : ∀ digest, r.Live C keep digest → digest ∈ reachable := fun d => (hlive d).mpr
  have hwell := wellFormed_sweep h hsub hC
  refine ⟨?_, ?_, ?_, ?_, ?_, ?_, again_sweep hC h hlive⟩
  · intro digest
    rw [mem_sortOn, mem_unreached, hlive]
  · intro path
    rw [get?_sweep]
    refine ⟨fun hn => if_neg fun hreach => hn ((hlive _).mp hreach), fun hl => if_pos (hsub _ hl)⟩
  · intro e he
    obtain ⟨manifest, hread, -⟩ := readManifest_entry hC hwell he
    exact ⟨((mem_index_sweep h).mp he).1, manifest, hread⟩
  · intro e he tag htag
    have htagged : e.refName.isSome := Option.isSome_iff_exists.mpr ⟨tag, htag⟩
    have hstay : e ∈ (r.sweep reachable).index :=
      (mem_index_sweep h).mpr ⟨he, hsub _ (.inr (.inl (.tagged he htagged)))⟩
    exact ⟨findTag_of_mem hwell hstay htag, verify_of_tagged hC hwell hstay htagged⟩
  · intro reference d hd hkept
    exact resolve_sweep hC h hsub hd hkept
  · intro digest hkept artifactType
    exact ⟨_, referrers_eq_ok hC h digest artifactType, by
      rw [referrers_sweep hC h hsub hkept, referrers_eq_ok hC h]⟩

/-- **Main theorem.** In every state that calls on an empty layout lead to, `garbage_collect`
returns for every set of digests, removes exactly the blobs that are not live, and leaves what is. -/
theorem garbageCollect_exact (hC : C.Lawful) (ops : List (Op Bytes)) (keep : List String) :
    ∃ r' reclaimed, (run C empty ops).garbageCollect C keep = .ok (some (r', reclaimed)) ∧
      Collected C (run C empty ops) keep r' reclaimed := by
  have h : (run C empty ops).WellFormed C := wellFormed_run hC wellFormed_empty ops
  obtain ⟨reachable, hlive, heq⟩ := garbageCollect_eq_ok hC h keep
  exact ⟨_, _, heq, collected_sweep hC h hlive⟩

/-- An asset with one layer. -/
def roverArgs : PublishArgs Sample where
  name := "rover"
  version := "1.0"
  kind := "asset"
  config := .text "config"
  layers := [⟨"application/octet-stream", .text "layer"⟩]
  annotations := .empty

/-- The rover is published and signed, and a second version is given up behind its config. -/
def roverOps : List (Op Sample) :=
  [.publish roverArgs,
    .attach ⟨"sha256:layer", "signature", ⟨"application/octet-stream", .text "signed"⟩, .empty⟩,
    .publishCut { roverArgs with version := "1.1", config := .text "config 1.1" } 1]

/-- Hashes for them. -/
def roverLabels : List (Sample × String) :=
  [(.text "config", "config"), (.text "layer", "layer"), (.text "config 1.1", "config11")]

/-- Behind these calls the collector does what it promises. -/
theorem roverOps_exact : ∃ r' reclaimed,
    (run (sampleContent roverLabels) empty roverOps).garbageCollect (sampleContent roverLabels)
        ["sha256:config"] = .ok (some (r', reclaimed)) ∧
      Collected (sampleContent roverLabels) (run (sampleContent roverLabels) empty roverOps)
        ["sha256:config"] r' reclaimed :=
  garbageCollect_exact (sampleContent_lawful (by decide +kernel)) roverOps ["sha256:config"]

end AstroMine.Hub.Registry
