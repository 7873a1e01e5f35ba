import AstroMine.Seal.Document

/-!
# Trust that fails closed

A configuration fails closed when a signature that is verified with the resolved root comes from a
signer whom the first configured source honours. A root decides alike when its search does not
raise, and the root read back from its document decides the same.

A document without keys, which trusts nobody, resolves to no root, with which every intact
signature is verified. The constructor accepts naive windows, which do not compare with the moment,
and windows of clocks that are set back, which a document turns into windows in UTC.

Results:
* `failsClosed_iff`: which configurations fail closed.
* `decidesAlike_iff`: where a root and its document decide alike.
* `trust_fails_closed_iff`: both.
* `emptyDocument_not_closed`: the counterexample.
-/

namespace AstroMine.Seal

variable {PublicKey F : Type} {lib : Library PublicKey}

/-! ## Configurations -/

/-- What the trust decision is configured with. -/
structure TrustConfig (lib : Library PublicKey) (F : Type) where
  explicit : Option (TrustRoot lib)
  trustedPublicKeyPem : Option (List UInt8)
  environment : Environment F

/-- The first configured source: what it says, or why it cannot be read. -/
def TrustConfig.source (config : TrustConfig lib F) : Option (Except TrustError (TrustRoot lib)) :=
  match config.explicit, config.trustedPublicKeyPem with
  | some root, _ => some (.ok root)
  | none, some pem => some (TrustRoot.single lib pem)
  | none, none =>
    match config.environment.source with
    | some path => some (config.environment.document path >>= loadTrustRoot lib)
    | none => config.environment.packaged.map (· >>= loadTrustRoot lib)

/-- The root that the configuration resolves to. -/
def TrustConfig.resolve (config : TrustConfig lib F) : Except TrustError (Option (TrustRoot lib)) :=
  resolveTrustRoot config.explicit config.trustedPublicKeyPem config.environment

/-- Where a source is configured, only signers whom it honours are accepted. -/
def FailsClosed (config : TrustConfig lib F) : Prop :=
  ∀ source, config.source = some source → ∀ root, config.resolve = .ok root →
    ∀ signature digest kind moment,
      verifySignature signature digest none root kind moment = .ok () →
      ∃ trusted, source = .ok trusted ∧ ∃ certificate, signature.certificate = some certificate ∧
        ∃ key ∈ trusted.keys, key.Honours (encode certificate) kind moment

/-- No source is configured, or a root or a key is given, or the configured document, where it can
be read, lists a key. -/
def ListsKeys (config : TrustConfig lib F) : Prop :=
  config.explicit ≠ none ∨ config.trustedPublicKeyPem ≠ none ∨
    ∀ root, config.source = some (.ok root) → root.keys ≠ []

/-- A given root or key resolves to itself. -/
theorem resolve_given {config : TrustConfig lib F}
    (h : config.explicit ≠ none ∨ config.trustedPublicKeyPem ≠ none) :
    ∃ source, config.source = some source ∧ config.resolve = source.map some := by
  unfold TrustConfig.source TrustConfig.resolve resolveTrustRoot
  cases hexplicit : config.explicit with
  | some root => exact ⟨.ok root, rfl, rfl⟩
  | none =>
    cases hpem : config.trustedPublicKeyPem with
    | some pem => exact ⟨_, rfl, rfl⟩
    | none => exact absurd h (by simp [hexplicit, hpem])

/-- A document resolves to its root, unless it has no keys; no document resolves to none. -/
theorem resolve_document {config : TrustConfig lib F} (hexplicit : config.explicit = none)
    (hpem : config.trustedPublicKeyPem = none) :
    config.resolve = (config.source.getD (.ok ⟨[]⟩)).map fun root =>
      if root.keys = [] then none else some root := by
  have hload : trustRootFromEnv lib config.environment = config.source.getD (.ok ⟨[]⟩) := by
    unfold TrustConfig.source trustRootFromEnv defaultTrustRoot
    rw [hexplicit, hpem]
    cases config.environment.source with
    | some path => rfl
    | none => cases config.environment.packaged <;> rfl
  unfold TrustConfig.resolve resolveTrustRoot
  rw [hexplicit, hpem]
  dsimp only
  rw [hload]
  cases config.source.getD (.ok ⟨[]⟩) <;> rfl

/-- With a root only a signer whom it honours is accepted. -/
theorem honoured_of_verified {root : TrustRoot lib} {signature : Signature} {digest : String}
    {kind : Option String} {moment : Moment}
    (h : verifySignature signature digest none (some root) kind moment = .ok ()) :
    ∃ certificate, signature.certificate = some certificate ∧
      ∃ key ∈ root.keys, key.Honours (encode certificate) kind moment := by
  obtain ⟨-, certificate, hintact, hsigner⟩ := verifySignature_eq_ok.1 h
  exact ⟨certificate, hintact.signer, checkSigner_root hsigner⟩

/-- **Configurations.** Those that fail closed are the ones whose document lists keys. -/
theorem failsClosed_iff {signature : Signature} {digest certificate : String}
    (hintact : Intact lib signature digest certificate) (config : TrustConfig lib F) :
    FailsClosed config ↔ ListsKeys config := by
  by_cases hgiven : config.explicit ≠ none ∨ config.trustedPublicKeyPem ≠ none
  · refine iff_of_true ?_ (or_assoc.mp (Or.inl hgiven))
    intro source hsource root hroot signature digest kind moment hverified
    obtain ⟨source', hsource', hresolve⟩ := resolve_given hgiven
    obtain rfl : source = source' := Option.some.inj (hsource.symm.trans hsource')
    obtain ⟨trusted, htrusted, rfl⟩ := map_eq_ok.1 (hresolve.symm.trans hroot)
    exact ⟨trusted, htrusted, honoured_of_verified hverified⟩
  · obtain ⟨hexplicit, hpem⟩ := not_or.mp hgiven
    have hresolve := resolve_document (not_not.mp hexplicit) (not_not.mp hpem)
    constructor
    · intro hclosed
      refine Or.inr (Or.inr fun root hsource hempty => ?_)
      -- the root without keys is lost, and the intact signature is verified
      have hnone : config.resolve = .ok none := by
        rw [hresolve, hsource, Option.getD_some, Except.map, if_pos hempty]
      have hverified : verifySignature signature digest none (none : Option (TrustRoot lib)) none
          ⟨0, none⟩ = .ok () := by
        refine verifySignature_eq_ok.2 ⟨by simp, certificate, hintact, rfl⟩
      obtain ⟨trusted, htrusted, _, -, key, hkey, -⟩ :=
        hclosed _ hsource none hnone signature digest none ⟨0, none⟩ hverified
      obtain rfl := Except.ok.inj htrusted
      rw [hempty] at hkey
      cases hkey
    · rintro (h | h | hlists) source hsource root hroot signature digest kind moment hverified
      · exact absurd h hexplicit
      · exact absurd h hpem
      · rw [hresolve, hsource, Option.getD_some] at hroot
        obtain ⟨trusted, rfl, heq⟩ := map_eq_ok.1 hroot
        rw [if_neg (hlists trusted hsource)] at heq
        subst heq
        exact ⟨trusted, rfl, honoured_of_verified hverified⟩

/-! ## Roots and their documents -/

/-- The search of the root does not raise, and its document decides the same. -/
structure DecidesAlike (F : Type) (root : TrustRoot lib) (version : String)
    (signerPem : List UInt8) (kind : Option String) (moment : Moment) : Prop where
  searched : ∃ found, root.match signerPem kind moment = .ok found
  restored : ∃ (document : Json F) (restored : TrustRoot lib),
    toDocument root version = .ok document ∧ loadTrustRoot lib document = .ok restored ∧
      restored.accepts signerPem kind moment = root.accepts signerPem kind moment

/-- The signer's key is supported; the keys are texts with windows that are not empty in UTC; a key
of the signer with a naive window stands behind one that honours the signer; and some key honours
the signer as clocks are compared exactly if one does in UTC. -/
structure PlainFor (root : TrustRoot lib) (signerPem : List UInt8) (kind : Option String)
    (moment : Moment) : Prop where
  supported : root.keys = [] ∨ ¬Unsupported lib signerPem
  text : ∀ key ∈ root.keys, decode key.publicKeyPem ≠ none
  ordered : ∀ key ∈ root.keys, key.OrderedInUtc
  guarded : ∀ before key after, root.keys = before ++ key :: after → key.Same signerPem →
    key.Naive → ∃ earlier ∈ before, earlier.Honours signerPem kind moment
  clocks : (∃ key ∈ root.keys, key.Honours signerPem kind moment) ↔
    ∃ key ∈ root.keys, key.Same signerPem ∧ key.InUtcWindow moment ∧ key.covers kind = true

/-- The search comes through on a signer that is supported, behind no naive window. -/
theorem match_comes_through {root : TrustRoot lib} {signerPem : List UInt8}
    {kind : Option String} {moment : Moment} (haware : moment.Aware) :
    (∃ found, root.match signerPem kind moment = .ok found) ↔
      (root.keys = [] ∨ ¬Unsupported lib signerPem) ∧
        ∀ before key after, root.keys = before ++ key :: after → key.Same signerPem →
          key.Naive → ∃ earlier ∈ before, earlier.Honours signerPem kind moment := by
  unfold TrustRoot.match
  by_cases hsupported : Unsupported lib signerPem
  · cases hkeys : root.keys with
    | nil =>
      refine iff_of_true ⟨none, rfl⟩ ⟨Or.inl rfl, fun before key after heq => ?_⟩
      exact absurd heq (by simp)
    | cons key keys =>
      rw [matchKeys_unsupported key keys kind moment hsupported]
      simp [hsupported]
  · rw [matchKeys_comes_through hsupported haware]
    simp [hsupported]

/-- The keys of a root that is read back honour whom the keys of the root honour in UTC. -/
theorem honours_restored {keys restored : List (TrustedKey lib)}
    (h : List.Forall₂ Restores keys restored) {signerPem : List UInt8} {kind : Option String}
    {moment : Moment} (haware : moment.Aware) :
    (∃ key ∈ restored, key.Honours signerPem kind moment) ↔
      ∃ key ∈ keys, key.Same signerPem ∧ key.InUtcWindow moment ∧ key.covers kind = true := by
  induction h with
  | nil => simp
  | cons hone _ ih =>
    simp only [List.mem_cons, exists_eq_or_imp]
    rw [hone.honours_iff haware, ih]

/-- None of the keys that are read back has a naive window. -/
theorem not_naive_restored {keys restored : List (TrustedKey lib)}
    (h : List.Forall₂ Restores keys restored) : ∀ key ∈ restored, ¬key.Naive := by
  induction h with
  | nil => simp
  | cons hone _ ih => exact List.forall_mem_cons.mpr ⟨hone.not_naive, ih⟩

/-- The search of a root that is read back comes through. -/
theorem match_restored {root : TrustRoot lib} (restored : TrustRoot lib)
    (h : List.Forall₂ Restores root.keys restored.keys) {signerPem : List UInt8}
    (kind : Option String) {moment : Moment} (haware : moment.Aware)
    (hsupported : root.keys = [] ∨ ¬Unsupported lib signerPem) :
    ∃ found, restored.match signerPem kind moment = .ok found := by
  refine (match_comes_through haware).mpr ⟨hsupported.imp_left fun hnil => ?_, ?_⟩
  · rw [hnil] at h
    exact List.forall₂_nil_left_iff.mp h
  · intro before key after hkeys _ hnaive
    have hmem : key ∈ restored.keys := by
      rw [hkeys]
      exact List.mem_append_right _ List.mem_cons_self
    exact absurd hnaive (not_naive_restored h key hmem)

/-- **Documents.** A root and its document decide alike exactly where the root is plain. -/
theorem decidesAlike_iff {root : TrustRoot lib} (version : String)
    (hreadable : ∀ key ∈ root.keys, key.Readable) (signerPem : List UInt8) (kind : Option String)
    {moment : Moment} (haware : moment.Aware) :
    DecidesAlike F root version signerPem kind moment ↔ PlainFor root signerPem kind moment := by
  constructor
  · rintro ⟨hsearched, document, restored, hdocument, hrestored, haccepts⟩
    obtain ⟨htext, hrestores⟩ :=
      (restored_iff restored version hreadable).mp ⟨document, hdocument, hrestored⟩
    obtain ⟨hsupported, hguarded⟩ := (match_comes_through haware).mp hsearched
    refine ⟨hsupported, htext, (exists_restores_all _).mp ⟨_, hrestores⟩, hguarded, ?_⟩
    obtain ⟨found, hfound⟩ := hsearched
    obtain ⟨found', hfound'⟩ := match_restored restored hrestores kind haware hsupported
    rw [TrustRoot.accepts, TrustRoot.accepts, hfound, hfound'] at haccepts
    rw [← honours_restored hrestores haware, ← matchKeys_eq_ok hfound, ← matchKeys_eq_ok hfound',
      Except.ok.inj haccepts]
  · rintro ⟨hsupported, htext, hordered, hguarded, hclocks⟩
    obtain ⟨keys, hrestores⟩ := (exists_restores_all root.keys).mpr hordered
    obtain ⟨document, hdocument, hrestored⟩ :=
      (restored_iff (F := F) ⟨keys⟩ version hreadable).mpr ⟨htext, hrestores⟩
    obtain ⟨found, hfound⟩ := (match_comes_through haware).mpr ⟨hsupported, hguarded⟩
    refine ⟨⟨found, hfound⟩, document, ⟨keys⟩, hdocument, hrestored, ?_⟩
    obtain ⟨found', hfound'⟩ := match_restored ⟨keys⟩ hrestores kind haware hsupported
    rw [TrustRoot.accepts, TrustRoot.accepts, hfound, hfound']
    refine congrArg Except.ok (Bool.eq_iff_iff.mpr ?_)
    rw [matchKeys_eq_ok hfound, matchKeys_eq_ok hfound', hclocks]
    exact honours_restored hrestores haware

/-- **Main theorem.** Where some signature is intact, the configurations that fail closed are those
whose document lists keys, and a root decides with its document alike exactly where it is plain. -/
theorem trust_fails_closed_iff {signature : Signature} {digest certificate : String}
    (hintact : Intact lib signature digest certificate) :
    (∀ config : TrustConfig lib F, FailsClosed config ↔ ListsKeys config) ∧
      ∀ (root : TrustRoot lib) (version : String) (signerPem : List UInt8) (kind : Option String)
        (moment : Moment), (∀ key ∈ root.keys, key.Readable) → moment.Aware →
        (DecidesAlike F root version signerPem kind moment ↔
          PlainFor root signerPem kind moment) :=
  ⟨failsClosed_iff hintact, fun _ version signerPem kind _ hreadable haware =>
    decidesAlike_iff version hreadable signerPem kind haware⟩

/-! ## A document without keys -/

/-- A library with one timestamp, for which every text that begins like a PEM is a key. -/
def demoLibrary : Library (List UInt8) where
  loadPem pem := if pem.take 2 = [45, 45] then .ok pem else .error .malformed
  publicBytes := id
  isEllipticCurve _ := true
  verify _ _ _ := true
  b64decode s := some (encode s)
  isoformat _ := "2027-01-01T00:00:00+00:00"
  fromisoformat text :=
    if text = "2027-01-01T00:00:00+00:00" then some ⟨63934012800000000, some (.fixed 0)⟩ else none

/-- A signature by a signer of whom no configuration knows. -/
def strangerSignature : Signature where
  scheme := .sigstoreCosign
  value := some "c2ln"
  payload := some "sha256:00"
  certificate := some "-----BEGIN PUBLIC KEY-----"

theorem stranger_intact :
    Intact demoLibrary strangerSignature "sha256:00" "-----BEGIN PUBLIC KEY-----" :=
  ⟨rfl, rfl, rfl, "c2ln", rfl, by decide +kernel⟩

/-- The environment names a document without keys: trust nobody. -/
def emptyDocument : TrustConfig demoLibrary ℚ where
  explicit := none
  trustedPublicKeyPem := none
  environment :=
    { configured := some "/etc/trust.json"
      document := fun _ => .ok (.obj [("trust_root_version", .str "0.1"), ("keys", .arr [])])
      packaged := none }

/-- A key that expires. -/
def expiringKey : TrustedKey demoLibrary where
  identity := "release"
  publicKeyPem := [45, 45]
  notBefore := none
  notAfter := some ⟨63934012800000000, some (.fixed 0)⟩
  kinds := none
  normalized := by decide
  loadable := ⟨[45, 45], rfl⟩
  named := by decide
  ordered := rfl

/-- The theorem at the document without keys, and at a root with one key that expires. -/
theorem expiring_decided :
    (FailsClosed emptyDocument ↔ ListsKeys emptyDocument) ∧
      (DecidesAlike ℚ ⟨[expiringKey]⟩ "0.1" [45, 45] none ⟨0, some (.fixed 0)⟩ ↔
        PlainFor ⟨[expiringKey]⟩ [45, 45] none ⟨0, some (.fixed 0)⟩) := by
  have hmain := trust_fails_closed_iff (F := ℚ) stranger_intact
  refine ⟨hmain.1 emptyDocument, hmain.2 ⟨[expiringKey]⟩ "0.1" [45, 45] none _ ?_ (by decide)⟩
  intro key hkey m hm
  obtain rfl := List.mem_singleton.mp hkey
  obtain hm | hm := hm
  · cases hm
  · obtain rfl := Option.some.inj hm
    rfl

/-- **Counterexample.** The document of the environment lists no keys, so that nobody is trusted:
it resolves to no root, and the signature of a stranger is verified. -/
theorem emptyDocument_not_closed : ¬FailsClosed emptyDocument := by
  intro h
  have hresolve : emptyDocument.resolve = .ok none := rfl
  have hsource : emptyDocument.source = some (.ok ⟨[]⟩) := rfl
  have hverified : verifySignature strangerSignature "sha256:00" none
      (none : Option (TrustRoot demoLibrary)) none ⟨0, none⟩ = .ok () :=
    verifySignature_eq_ok.2 ⟨by simp, _, stranger_intact, rfl⟩
  obtain ⟨trusted, htrusted, _, -, key, hkey, -⟩ :=
    h _ hsource none hresolve strangerSignature "sha256:00" none ⟨0, none⟩ hverified
  obtain rfl := Except.ok.inj htrusted
  cases hkey

end AstroMine.Seal
