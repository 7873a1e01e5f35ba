import AstroMine.Seal.Signing

/-!
# Trust roots in documents

What `to_document` writes and `load_trust_root` reads back: the same keys, where the ends of the
windows have become moments of clocks with a fixed offset. A key whose PEM is no text cannot be
written, and one whose window is empty in UTC cannot be read back.

Results:
* `create_eq_ok`: what the constructor accepts.
* `restored_iff`: when a root is written and read back, and what the root then is.
-/

namespace AstroMine.Seal

variable {PublicKey F : Type} {lib : Library PublicKey}

/-- **Spec.** What the constructor makes has the fields that it was given. -/
theorem create_eq_ok {identity : String} {pem : List UInt8} {notBefore notAfter : Option Moment}
    {kinds : Option (Finset String)} {key : TrustedKey lib} :
    TrustedKey.create lib identity pem notBefore notAfter kinds = .ok key ↔
      key.identity = identity ∧ key.publicKeyPem = normalize pem ∧ key.notBefore = notBefore ∧
        key.notAfter = notAfter ∧ key.kinds = kinds := by
  unfold TrustedKey.create
  constructor
  · intro h
    split at h
    · cases h
    · cases h
    · split_ifs at h
      split at h
      · cases h
      · obtain rfl := Except.ok.inj h
        exact ⟨rfl, rfl, rfl, rfl, rfl⟩
  · rintro ⟨rfl, hpem, rfl, rfl, rfl⟩
    obtain ⟨publicKey, hload⟩ := key.loadable
    rw [hpem] at hload
    split
    · rename_i hload'
      rw [hload] at hload'
      cases hload'
    · rename_i hload'
      rw [hload] at hload'
      cases hload'
    · rw [dif_neg (by rw [key.named]; exact Bool.false_ne_true)]
      split
      · rename_i e hwindow
        rw [key.ordered] at hwindow
        cases hwindow
      · exact congrArg Except.ok (TrustedKey.ext rfl hpem.symm rfl rfl rfl)

/-- `encode` undoes `decode`. -/
theorem encode_of_decode {bytes : List UInt8} {s : String} (h : decode bytes = some s) :
    encode s = bytes := by
  unfold decode String.fromUTF8? at h
  split_ifs at h with hvalid
  obtain rfl := Option.some.inj h
  rfl

/-- The key that is read back: the same, with the ends of its window read back. -/
structure Restores (key restored : TrustedKey lib) : Prop where
  identity : restored.identity = key.identity
  publicKeyPem : restored.publicKeyPem = key.publicKeyPem
  notBefore : restored.notBefore = key.notBefore.map Moment.restored
  notAfter : restored.notAfter = key.notAfter.map Moment.restored
  kinds : restored.kinds = key.kinds

/-- The timestamps of the key are read as they were written. -/
def TrustedKey.Readable (key : TrustedKey lib) : Prop :=
  ∀ m, key.notBefore = some m ∨ key.notAfter = some m →
    lib.fromisoformat (lib.isoformat m) = some m.isoRead

theorem parseMoment_field {index : ℕ} {field : String} {m : Option Moment}
    (h : ∀ x, m = some x → lib.fromisoformat (lib.isoformat x) = some x.isoRead) :
    parseMoment (F := F) lib index field (m.map fun x => .str (lib.isoformat x)) =
      .ok (m.map Moment.restored) := by
  cases m with
  | none => rfl
  | some x => simp [parseMoment, h x rfl, Moment.restored]

/-- An entry is read field by field. -/
theorem loadKey_entryOf (index : ℕ) (identity pem : String)
    (notBefore notAfter kinds : Option (Json F)) :
    loadKey lib index (entryOf identity pem notBefore notAfter kinds) = (do
      let kinds ← parseKinds index kinds
      let notBefore ← parseMoment lib index "not_before" notBefore
      let notAfter ← parseMoment lib index "not_after" notAfter
      TrustedKey.create lib identity (encode pem) notBefore notAfter kinds) := by
  cases notBefore <;> cases notAfter <;> cases kinds <;> rfl

theorem parseKinds_field (index : ℕ) (kinds : Option (Finset String)) :
    parseKinds (F := F) index (kinds.map fun kinds => .arr ((kinds.sort (· ≤ ·)).map .str)) =
      .ok kinds := by
  cases kinds with
  | none => rfl
  | some kinds =>
    simp only [Option.map_some, parseKinds, Json.asStrs_map]
    rw [Finset.sort_toFinset]

/-- A written key is read back as itself. -/
theorem loadKey_keyDocument {key restored : TrustedKey lib} {document : Json F}
    (h : keyDocument key = .ok document) (hreadable : key.Readable) (index : ℕ) :
    loadKey lib index document = .ok restored ↔ Restores key restored := by
  unfold keyDocument at h
  cases hdecode : decode key.publicKeyPem with
  | none =>
    rw [hdecode] at h
    cases h
  | some pem =>
    rw [hdecode] at h
    obtain rfl := Except.ok.inj h
    rw [loadKey_entryOf, parseKinds_field,
      parseMoment_field fun x hx => hreadable x (Or.inl hx),
      parseMoment_field fun x hx => hreadable x (Or.inr hx)]
    show TrustedKey.create lib _ _ _ _ _ = _ ↔ _
    rw [create_eq_ok, encode_of_decode hdecode, key.normalized]
    constructor
    · rintro ⟨hidentity, hpem, hbefore, hafter, hkinds⟩
      exact ⟨hidentity, hpem, hbefore, hafter, hkinds⟩
    · rintro ⟨hidentity, hpem, hbefore, hafter, hkinds⟩
      exact ⟨hidentity, hpem, hbefore, hafter, hkinds⟩

/-- The entries of a list of keys are read back one by one. -/
theorem loadKeys_iff {keys restored : List (TrustedKey lib)} {documents : List (Json F)}
    (h : List.Forall₂ (fun key document => keyDocument key = .ok document) keys documents)
    (hreadable : ∀ key ∈ keys, key.Readable) (start : ℕ) :
    List.Forall₂ (fun entry key => loadKey lib entry.2 entry.1 = .ok key)
        (documents.zipIdx start) restored ↔
      List.Forall₂ Restores keys restored := by
  induction h generalizing restored start with
  | nil => simp
  | @cons key document keys documents hone _ ih =>
    have hkey : key.Readable := hreadable key List.mem_cons_self
    have hreadables : ∀ key ∈ keys, key.Readable :=
      fun key hkey => hreadable key (List.mem_cons_of_mem _ hkey)
    rw [List.zipIdx_cons]
    cases restored with
    | nil => simp
    | cons first rest =>
      rw [List.forall₂_cons, List.forall₂_cons, ih hreadables (start + 1),
        loadKey_keyDocument hone hkey]

/-- **Spec.** A root is written and read back as another one exactly if each of its PEMs is a text
and the other one has its keys, read back. -/
theorem restored_iff {root : TrustRoot lib} (restored : TrustRoot lib) (version : String)
    (hreadable : ∀ key ∈ root.keys, key.Readable) :
    (∃ document : Json F, toDocument root version = .ok document ∧
      loadTrustRoot lib document = .ok restored) ↔
      (∀ key ∈ root.keys, decode key.publicKeyPem ≠ none) ∧
        List.Forall₂ Restores root.keys restored.keys := by
  have hload (documents : List (Json F)) :
      loadTrustRoot lib (.obj [("trust_root_version", .str version), ("keys", .arr documents)]) =
          .ok restored ↔
        List.Forall₂ (fun entry key => loadKey lib entry.2 entry.1 = .ok key) documents.zipIdx
          restored.keys := by
    rw [← mapM_eq_ok]
    show (documents.zipIdx.mapM _ >>= fun keys => _) = _ ↔ _
    rw [bind_eq_ok]
    constructor
    · rintro ⟨keys, hkeys, heq⟩
      obtain rfl := Except.ok.inj heq
      exact hkeys
    · exact fun hkeys => ⟨restored.keys, hkeys, rfl⟩
  constructor
  · rintro ⟨document, hdocument, hrestored⟩
    obtain ⟨documents, hdocuments, heq⟩ := bind_eq_ok.1 hdocument
    obtain rfl := Except.ok.inj heq
    have hwritten := mapM_eq_ok.1 hdocuments
    refine ⟨?_, (loadKeys_iff hwritten hreadable 0).mp ((hload documents).mp hrestored)⟩
    intro key hkey hnone
    obtain ⟨document, -, hone⟩ := exists_of_mapM hdocuments hkey
    rw [keyDocument, hnone] at hone
    cases hone
  · rintro ⟨htext, hrestores⟩
    obtain ⟨documents, hdocuments⟩ : ∃ documents : List (Json F),
        root.keys.mapM keyDocument = .ok documents := by
      refine mapM_exists fun key hkey => ?_
      obtain ⟨pem, hpem⟩ := Option.ne_none_iff_exists'.mp (htext key hkey)
      exact ⟨_, by rw [keyDocument, hpem]⟩
    have hwritten := mapM_eq_ok.1 hdocuments
    refine ⟨_, bind_eq_ok.2 ⟨documents, hdocuments, rfl⟩, (hload documents).mpr ?_⟩
    exact (loadKeys_iff hwritten hreadable 0).mpr hrestores

/-- The window of the key is not empty in UTC. -/
def TrustedKey.OrderedInUtc (key : TrustedKey lib) : Prop :=
  ∀ before after, key.notBefore = some before → key.notAfter = some after →
    before.utc ≤ after.utc

/-- A key can be read back exactly if its window is not empty in UTC. -/
theorem exists_restores (key : TrustedKey lib) :
    (∃ restored, Restores key restored) ↔ key.OrderedInUtc := by
  have hwindow : windowError key.identity (key.notBefore.map Moment.restored)
      (key.notAfter.map Moment.restored) = none ↔ key.OrderedInUtc := by
    unfold TrustedKey.OrderedInUtc
    cases hbefore : key.notBefore with
    | none => simp [windowError]
    | some before =>
      cases hafter : key.notAfter with
      | none => simp [windowError]
      | some after =>
        simp only [Option.map_some, windowError,
          Moment.restored_lt after (Moment.restored_aware before), Moment.utc_restored,
          Option.some.injEq]
        by_cases hlt : after.utc < before.utc
        · simp [hlt]
        · simp [hlt, not_lt.mp hlt]
  rw [← hwindow]
  constructor
  · rintro ⟨restored, h⟩
    have hordered := restored.ordered
    rwa [h.identity, h.notBefore, h.notAfter] at hordered
  · intro h
    exact ⟨⟨key.identity, key.publicKeyPem, _, _, key.kinds, key.normalized, key.loadable,
      key.named, h⟩, rfl, rfl, rfl, rfl, rfl⟩

/-- The keys of a root can be read back if each of them can. -/
theorem exists_restores_all (keys : List (TrustedKey lib)) :
    (∃ restored : List (TrustedKey lib), List.Forall₂ Restores keys restored) ↔
      ∀ key ∈ keys, key.OrderedInUtc := by
  induction keys with
  | nil => simp
  | cons key keys ih =>
    rw [List.forall_mem_cons, ← ih, ← exists_restores]
    constructor
    · rintro ⟨restored, h⟩
      cases h with
      | cons hone hrest => exact ⟨⟨_, hone⟩, ⟨_, hrest⟩⟩
    · rintro ⟨⟨first, hone⟩, ⟨rest, hrest⟩⟩
      exact ⟨first :: rest, List.Forall₂.cons hone hrest⟩

/-! ## What a root that is read back honours -/

/-- The moment is in the window of the key in UTC. -/
def TrustedKey.InUtcWindow (key : TrustedKey lib) (moment : Moment) : Prop :=
  (∀ before ∈ key.notBefore, before.utc ≤ moment.utc) ∧
    ∀ after ∈ key.notAfter, moment.utc ≤ after.utc

/-- A key that is read back judges in UTC. -/
theorem Restores.honours_iff {key restored : TrustedKey lib} (h : Restores key restored)
    {signerPem : List UInt8} {kind : Option String} {moment : Moment} (haware : moment.Aware) :
    restored.Honours signerPem kind moment ↔
      key.Same signerPem ∧ key.InUtcWindow moment ∧ key.covers kind = true := by
  have hwindow : restored.InWindow moment ↔ key.InUtcWindow moment := by
    unfold TrustedKey.InWindow TrustedKey.InUtcWindow
    simp only [h.notBefore, h.notAfter, Option.mem_def, Option.map_eq_some_iff,
      forall_exists_index, and_imp, forall_apply_eq_imp_iff₂, Moment.restored_lt _ haware,
      Moment.lt_restored _ haware, Option.some.injEq, decide_eq_false_iff_not, not_lt]
  unfold TrustedKey.Honours TrustedKey.Same TrustedKey.covers
  rw [hwindow, h.publicKeyPem, h.kinds]

/-- A key that is read back has no naive window. -/
theorem Restores.not_naive {key restored : TrustedKey lib} (h : Restores key restored) :
    ¬restored.Naive := by
  rintro ⟨m, hm, hnaive⟩
  rw [h.notBefore, h.notAfter, Option.map_eq_some_iff, Option.map_eq_some_iff] at hm
  obtain ⟨x, -, rfl⟩ | ⟨x, -, rfl⟩ := hm
  · exact hnaive x.restored_aware
  · exact hnaive x.restored_aware

end AstroMine.Seal
