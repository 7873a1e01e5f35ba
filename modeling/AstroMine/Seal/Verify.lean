import AstroMine.Seal.FailsClosed

/-!
# Verifying twice (`seal/_supply_chain.py`)

`verify` asks a store whether the bytes of a subject are intact, and for each kind of evidence that
is required, for the attestations of this kind and for the payload of each. One that cannot be read
or is not valid refuses the subject, however many others are attached.

A store may answer each call as it likes, or raise: its answers depend on the number of the call,
and so does the moment. How bytes are parsed is a parameter (`Parsers`): `json.loads` raises a
`ValueError`, or a `RecursionError` on a document that is nested too deep. The latter is not caught.

Results:
* `checkEach_eq_ok`, `checkEach_recursion`: what becomes of the attestations of a kind.
* `verify_eq_ok`: what is accepted.
* `verifies_exactly_iff`: when every refusal is a `SupplyChainError`.
* `deepDocument_not_exact`: the counterexample.
-/

namespace AstroMine.Seal

/-! ## Evidence -/

/-- `_KNOWN_KINDS` (lines 51–56). -/
inductive EvidenceKind
  | signature
  | slsa
  | sbom
  deriving DecidableEq, Repr

/-- The token of `require`. -/
def EvidenceKind.token : EvidenceKind → String
  | .signature => "signature"
  | .slsa => "slsa"
  | .sbom => "sbom"

/-- The `ARTIFACT_TYPE_*` constants (`_attest.py`, lines 62–64). -/
def EvidenceKind.artifactType : EvidenceKind → String
  | .signature => "application/vnd.astro-mine.signature.v1"
  | .slsa => "application/vnd.astro-mine.provenance.slsa.v1"
  | .sbom => "application/vnd.astro-mine.sbom.cyclonedx.v1"

/-- `DEFAULT_REQUIRED`, and the kinds that are known. -/
def defaultRequired : List String := ["signature", "slsa", "sbom"]

/-- How `json.loads` raises. -/
inductive JsonError
  | notJson
  | tooDeep
  deriving DecidableEq, Repr

/-- `Signature.model_validate_json`, and `json.loads` of bytes. -/
structure Parsers (F : Type) where
  parseSignature : List UInt8 → Option Signature
  jsonLoads : List UInt8 → Except JsonError (Json F)

/-- The answers of an `AttestationStore` (`_attest.py`, lines 73–118), by the number of the call. -/
structure AttestationStore (E : Type) where
  verifyIntegrity : ℕ → String → Except E Unit
  attestationDigests : ℕ → String → String → Except E (List String)
  readAttestation : ℕ → String → Except E (List UInt8)

/-- `SupplyChainError`, by what is found. -/
inductive SupplyChainError (E : Type)
  | unknownKinds (tokens : List String)
  | integrity (e : E)
  | unlisted (kind : EvidenceKind) (e : E)
  | missing (kind : EvidenceKind)
  | unreadable (kind : EvidenceKind) (e : E)
  | malformedSignature
  | signature (e : SignatureError)
  | notJson (kind : EvidenceKind)
  | notObject (kind : EvidenceKind)
  | wrongDocument (kind : EvidenceKind)

/-- What `verify` raises. -/
inductive VerifyError (E : Type)
  | supplyChain (e : SupplyChainError E)
  | recursion

/-- Whose signature counts, and when. -/
structure VerifyConfig {PublicKey : Type} (lib : Library PublicKey) where
  trustedPublicKeyPem : Option (List UInt8)
  trustRoot : Option (TrustRoot lib)
  kind : Option String
  clock : ℕ → Moment

variable {PublicKey E F : Type} {lib : Library PublicKey}

/-! ## The check -/

/-- One signature (lines 133–144). -/
def checkSignature (parsers : Parsers F) (config : VerifyConfig lib) (subject : String) (call : ℕ)
    (payload : List UInt8) : Except (VerifyError E) Unit :=
  match parsers.parseSignature payload with
  | none => .error (.supplyChain .malformedSignature)
  | some signature =>
    (verifySignature signature subject config.trustedPublicKeyPem config.trustRoot config.kind
      (config.clock call)).mapError fun e => .supplyChain (.signature e)

/-- The field that shows what a document is, and its value (lines 67–84). -/
def EvidenceKind.mark : EvidenceKind → String × String
  | .sbom => ("bomFormat", "CycloneDX")
  | _ => ("predicateType", "https://slsa.dev/provenance/v1")

/-- `verify_slsa_document` and `verify_sbom_document`. -/
def isDocument (kind : EvidenceKind) (fields : List (String × Json F)) : Bool :=
  match fields.lookup kind.mark.1 with
  | some (.str value) => value = kind.mark.2
  | _ => false

/-- One document (`_document`, lines 105–114, and the check, lines 160–164). -/
def checkDocument (parsers : Parsers F) (kind : EvidenceKind) (payload : List UInt8) :
    Except (VerifyError E) Unit :=
  match parsers.jsonLoads payload with
  | .error .tooDeep => .error .recursion
  | .error .notJson => .error (.supplyChain (.notJson kind))
  | .ok (.obj fields) =>
    if isDocument kind fields then .ok () else .error (.supplyChain (.wrongDocument kind))
  | .ok _ => .error (.supplyChain (.notObject kind))

/-- One payload of a kind. -/
def checkPayload (parsers : Parsers F) (config : VerifyConfig lib) (subject : String) (call : ℕ)
    (payload : List UInt8) : EvidenceKind → Except (VerifyError E) Unit
  | .signature => checkSignature parsers config subject call payload
  | .slsa => checkDocument parsers .slsa payload
  | .sbom => checkDocument parsers .sbom payload

/-- The attestations of a kind, one after the other, from the number of the first call. -/
def checkEach (store : AttestationStore E) (parsers : Parsers F) (config : VerifyConfig lib)
    (subject : String) (kind : EvidenceKind) : ℕ → List String → Except (VerifyError E) ℕ
  | call, [] => .ok call
  | call, digest :: digests => do
    let payload ← (store.readAttestation call digest).mapError fun e =>
      .supplyChain (.unreadable kind e)
    checkPayload parsers config subject call payload kind
    checkEach store parsers config subject kind (call + 1) digests

/-- `_check_signatures` and `_check_documents` (lines 117–164): the number of the next call. -/
def checkKind (store : AttestationStore E) (parsers : Parsers F) (config : VerifyConfig lib)
    (subject : String) (kind : EvidenceKind) (call : ℕ) : Except (VerifyError E) ℕ := do
  let digests ← (store.attestationDigests call subject kind.artifactType).mapError fun e =>
    .supplyChain (.unlisted kind e)
  refuseIf (digests = []) (.supplyChain (.missing kind))
  checkEach store parsers config subject kind (call + 1) digests

/-- A kind, if it is required. -/
def checkRequired (store : AttestationStore E) (parsers : Parsers F) (config : VerifyConfig lib)
    (subject : String) (require : List String) (kind : EvidenceKind) (call : ℕ) :
    Except (VerifyError E) ℕ :=
  if kind.token ∈ require then checkKind store parsers config subject kind call else .ok call

/-- The tokens that are not known (line 199). -/
def unknownTokens (require : List String) : List String :=
  sortOn id (require.filter (· ∉ defaultRequired)).dedup

/-- `verify` (lines 167–225). -/
def verify (store : AttestationStore E) (parsers : Parsers F) (config : VerifyConfig lib)
    (subject : String) (require : List String) : Except (VerifyError E) Unit := do
  refuseIf (unknownTokens require ≠ []) (.supplyChain (.unknownKinds (unknownTokens require)))
  (store.verifyIntegrity 0 subject).mapError fun e => .supplyChain (.integrity e)
  let call ← checkRequired store parsers config subject require .signature 1
  let call ← checkRequired store parsers config subject require .slsa call
  let _ ← checkRequired store parsers config subject require .sbom call
  return ()

/-! ## What is accepted -/

variable {store : AttestationStore E} {parsers : Parsers F} {config : VerifyConfig lib}
  {subject : String}

/-- A signature over the subject, intact, by a signer whom the configuration trusts. -/
def SignatureValid (parsers : Parsers F) (config : VerifyConfig lib) (subject : String) (call : ℕ)
    (payload : List UInt8) : Prop :=
  ∃ signature, parsers.parseSignature payload = some signature ∧
    ¬(config.trustRoot.isSome ∧ config.trustedPublicKeyPem.isSome) ∧
    ∃ certificate, Intact lib signature subject certificate ∧
      checkSigner (encode certificate) config.trustedPublicKeyPem config.trustRoot config.kind
        (config.clock call) = .ok ()

/-- A JSON object that is a document of the kind. -/
def DocumentValid (parsers : Parsers F) (kind : EvidenceKind) (payload : List UInt8) : Prop :=
  ∃ fields, parsers.jsonLoads payload = .ok (.obj fields) ∧
    fields.lookup kind.mark.1 = some (.str kind.mark.2)

/-- A payload is valid evidence of its kind. -/
def PayloadValid (parsers : Parsers F) (config : VerifyConfig lib) (subject : String) (call : ℕ)
    (payload : List UInt8) : EvidenceKind → Prop
  | .signature => SignatureValid parsers config subject call payload
  | .slsa => DocumentValid parsers .slsa payload
  | .sbom => DocumentValid parsers .sbom payload

/-- An attestation can be read in a call, and is valid. -/
def ReadsValid (store : AttestationStore E) (parsers : Parsers F) (config : VerifyConfig lib)
    (subject : String) (kind : EvidenceKind) (call : ℕ) (digest : String) : Prop :=
  ∃ payload, store.readAttestation call digest = .ok payload ∧
    PayloadValid parsers config subject call payload kind

/-- There are attestations of the kind, and each of them can be read and is valid. -/
def Attested (store : AttestationStore E) (parsers : Parsers F) (config : VerifyConfig lib)
    (subject : String) (kind : EvidenceKind) (call : ℕ) : Prop :=
  ∃ digests, store.attestationDigests call subject kind.artifactType = .ok digests ∧
    digests ≠ [] ∧ ∀ i digest, digests[i]? = some digest →
      ReadsValid store parsers config subject kind (call + 1 + i) digest

/-- The number of the next call after a kind that starts at a call. -/
def callAfter (store : AttestationStore E) (subject : String) (require : List String)
    (kind : EvidenceKind) (call : ℕ) : ℕ :=
  if kind.token ∈ require then
    call + 1 + (((store.attestationDigests call subject kind.artifactType).toOption).getD []).length
  else call

/-- The number of the call with which a kind starts. -/
def startOf (store : AttestationStore E) (subject : String) (require : List String) :
    EvidenceKind → ℕ
  | .signature => 1
  | .slsa => callAfter store subject require .signature 1
  | .sbom =>
    callAfter store subject require .slsa (callAfter store subject require .signature 1)

/-- The evidence that is required is complete and intact. -/
structure Complete (store : AttestationStore E) (parsers : Parsers F) (config : VerifyConfig lib)
    (subject : String) (require : List String) : Prop where
  known : ∀ token ∈ require, token ∈ defaultRequired
  intact : store.verifyIntegrity 0 subject = .ok ()
  attested : ∀ kind : EvidenceKind, kind.token ∈ require →
    Attested store parsers config subject kind (startOf store subject require kind)

theorem isDocument_iff {kind : EvidenceKind} {fields : List (String × Json F)} :
    isDocument kind fields = true ↔ fields.lookup kind.mark.1 = some (.str kind.mark.2) := by
  unfold isDocument
  split
  · rename_i value hvalue
    rw [hvalue]
    simp
  · rename_i hother
    refine iff_of_false Bool.false_ne_true fun h => hother kind.mark.2 h

theorem checkDocument_eq_ok {kind : EvidenceKind} {payload : List UInt8} :
    (checkDocument parsers kind payload : Except (VerifyError E) Unit) = .ok () ↔
      DocumentValid parsers kind payload := by
  unfold checkDocument DocumentValid
  split
  · rename_i h
    simp [h]
  · rename_i h
    simp [h]
  · rename_i fields h
    rw [h]
    simp [← isDocument_iff]
  · rename_i document hother h
    rw [h]
    refine iff_of_false (by simp) ?_
    rintro ⟨fields, hfields, -⟩
    exact hother fields (Except.ok.inj hfields)

/-- **Spec.** One payload passes exactly if it is valid. -/
theorem checkPayload_eq_ok {kind : EvidenceKind} {call : ℕ} {payload : List UInt8} :
    (checkPayload parsers config subject call payload kind : Except (VerifyError E) Unit) =
      .ok () ↔ PayloadValid parsers config subject call payload kind := by
  cases kind with
  | signature =>
    unfold checkPayload checkSignature PayloadValid SignatureValid
    cases hparse : parsers.parseSignature payload with
    | none => simp
    | some signature =>
      simp only [mapError_eq_ok, verifySignature_eq_ok, Option.some.injEq, exists_eq_left']
  | slsa => exact checkDocument_eq_ok
  | sbom => exact checkDocument_eq_ok

/-- **Spec.** The attestations of a kind pass exactly if each of them can be read and is valid. -/
theorem checkEach_eq_ok {kind : EvidenceKind} {call next : ℕ} {digests : List String} :
    checkEach store parsers config subject kind call digests = .ok next ↔
      next = call + digests.length ∧ ∀ i digest, digests[i]? = some digest →
        ReadsValid store parsers config subject kind (call + i) digest := by
  induction digests generalizing call with
  | nil => simp [checkEach, eq_comm]
  | cons digest digests ih =>
    rw [checkEach, bind_eq_ok]
    simp only [mapError_eq_ok, seq_eq_ok, checkPayload_eq_ok, ih, List.length_cons]
    constructor
    · rintro ⟨payload, hread, hvalid, hnext, hrest⟩
      refine ⟨by omega, fun i x hx => ?_⟩
      cases i with
      | zero =>
        obtain rfl := Option.some.inj hx
        exact ⟨payload, hread, hvalid⟩
      | succ i =>
        rw [show call + (i + 1) = call + 1 + i by omega]
        exact hrest i x hx
    · rintro ⟨hnext, hall⟩
      obtain ⟨payload, hread, hvalid⟩ := hall 0 digest rfl
      refine ⟨payload, hread, hvalid, by omega, fun i x hx => ?_⟩
      rw [show call + 1 + i = call + (i + 1) by omega]
      exact hall (i + 1) x hx

theorem checkKind_eq_ok {kind : EvidenceKind} {call next : ℕ} :
    checkKind store parsers config subject kind call = .ok next ↔
      ∃ digests, store.attestationDigests call subject kind.artifactType = .ok digests ∧
        digests ≠ [] ∧ (∀ i digest, digests[i]? = some digest →
          ReadsValid store parsers config subject kind (call + 1 + i) digest) ∧
        next = call + 1 + digests.length := by
  rw [checkKind, bind_eq_ok]
  simp only [mapError_eq_ok, seq_eq_ok, refuseIf_eq_ok, checkEach_eq_ok, ne_eq]
  refine exists_congr fun digests => and_congr_right fun _ => and_congr_right fun _ => ?_
  exact and_comm

/-- A kind passes exactly if it is attested where it is required. -/
theorem checkRequired_eq_ok {require : List String} {kind : EvidenceKind} {call next : ℕ} :
    checkRequired store parsers config subject require kind call = .ok next ↔
      (kind.token ∈ require → Attested store parsers config subject kind call) ∧
        next = callAfter store subject require kind call := by
  unfold checkRequired callAfter
  split_ifs with hrequired
  · rw [checkKind_eq_ok]
    constructor
    · rintro ⟨digests, hdigests, hne, hall, hnext⟩
      refine ⟨fun _ => ⟨digests, hdigests, hne, hall⟩, ?_⟩
      rw [hdigests]
      exact hnext
    · rintro ⟨hattested, hnext⟩
      obtain ⟨digests, hdigests, hne, hall⟩ := hattested hrequired
      rw [hdigests] at hnext
      exact ⟨digests, hdigests, hne, hall, hnext⟩
  · simp [hrequired, eq_comm]

theorem unknownTokens_eq_nil {require : List String} :
    unknownTokens require = [] ↔ ∀ token ∈ require, token ∈ defaultRequired := by
  rw [unknownTokens, sortOn_eq_nil, List.dedup_eq_nil, List.filter_eq_nil_iff]
  simp only [decide_eq_true_eq, not_not]

/-- **Spec.** `verify` accepts exactly the complete and intact evidence. -/
theorem verify_eq_ok {require : List String} :
    verify store parsers config subject require = .ok () ↔
      Complete store parsers config subject require := by
  rw [verify, seq_eq_ok, seq_eq_ok, refuseIf_eq_ok, mapError_eq_ok, not_not, unknownTokens_eq_nil]
  simp only [bind_eq_ok, checkRequired_eq_ok]
  constructor
  · rintro ⟨hknown, hintact, call, ⟨hsignature, rfl⟩, call', ⟨hslsa, rfl⟩, _, ⟨hsbom, -⟩, -⟩
    refine ⟨hknown, hintact, fun kind => ?_⟩
    cases kind with
    | signature => exact hsignature
    | slsa => exact hslsa
    | sbom => exact hsbom
  · rintro ⟨hknown, hintact, hattested⟩
    exact ⟨hknown, hintact, _, ⟨hattested .signature, rfl⟩, _, ⟨hattested .slsa, rfl⟩, _,
      ⟨hattested .sbom, rfl⟩, rfl⟩

/-! ## What escapes -/

/-- A document of the kind that is nested too deep to be parsed. -/
def TooDeep (parsers : Parsers F) (kind : EvidenceKind) (payload : List UInt8) : Prop :=
  kind ≠ .signature ∧ parsers.jsonLoads payload = .error .tooDeep

/-- Among the attestations of a kind, after others that are valid, there is one that can be read and
is nested too deep. -/
def DeepAmong (store : AttestationStore E) (parsers : Parsers F) (config : VerifyConfig lib)
    (subject : String) (kind : EvidenceKind) (call : ℕ) (digests : List String) : Prop :=
  ∃ i digest, digests[i]? = some digest ∧
    (∀ j < i, ∀ earlier, digests[j]? = some earlier →
      ReadsValid store parsers config subject kind (call + j) earlier) ∧
    ∃ payload, store.readAttestation (call + i) digest = .ok payload ∧ TooDeep parsers kind payload

/-- The same of a kind that starts at a call. -/
def DeepKind (store : AttestationStore E) (parsers : Parsers F) (config : VerifyConfig lib)
    (subject : String) (require : List String) (kind : EvidenceKind) : Prop :=
  kind.token ∈ require ∧ ∃ digests, store.attestationDigests (startOf store subject require kind)
    subject kind.artifactType = .ok digests ∧
    DeepAmong store parsers config subject kind (startOf store subject require kind + 1) digests

/-- The kinds in the order in which they are checked. -/
def EvidenceKind.rank : EvidenceKind → ℕ
  | .signature => 0
  | .slsa => 1
  | .sbom => 2

/-- All that comes before is in order, and then there is a document that is nested too deep. -/
def ReachesDeep (store : AttestationStore E) (parsers : Parsers F) (config : VerifyConfig lib)
    (subject : String) (require : List String) : Prop :=
  (∀ token ∈ require, token ∈ defaultRequired) ∧ store.verifyIntegrity 0 subject = .ok () ∧
    ∃ kind : EvidenceKind, DeepKind store parsers config subject require kind ∧
      ∀ earlier : EvidenceKind, earlier.rank < kind.rank → earlier.token ∈ require →
        Attested store parsers config subject earlier (startOf store subject require earlier)

theorem checkPayload_recursion {kind : EvidenceKind} {call : ℕ} {payload : List UInt8} :
    (checkPayload parsers config subject call payload kind : Except (VerifyError E) Unit) =
      .error .recursion ↔ TooDeep parsers kind payload := by
  have hdocument : (checkDocument parsers kind payload : Except (VerifyError E) Unit) =
      .error .recursion ↔ parsers.jsonLoads payload = .error .tooDeep := by
    unfold checkDocument
    split
    · rename_i h
      simp [h]
    · rename_i h
      simp [h]
    · rename_i fields h
      rw [h]
      split_ifs <;> simp
    · rename_i document _ h
      simp [h]
  unfold TooDeep
  cases kind with
  | signature =>
    refine iff_of_false ?_ fun h => h.1 rfl
    unfold checkPayload checkSignature
    cases parsers.parseSignature payload with
    | none => simp
    | some signature => simp [mapError_eq_error]
  | slsa => simpa [checkPayload] using hdocument
  | sbom => simpa [checkPayload] using hdocument

/-- **Spec.** The attestations of a kind let a `RecursionError` through exactly if one of them is
nested too deep, after others that are valid. -/
theorem checkEach_recursion {kind : EvidenceKind} {call : ℕ} {digests : List String} :
    checkEach store parsers config subject kind call digests = .error .recursion ↔
      DeepAmong store parsers config subject kind call digests := by
  induction digests generalizing call with
  | nil => simp [checkEach, DeepAmong]
  | cons digest digests ih =>
    rw [checkEach, bind_eq_error]
    simp only [seq_eq_error, mapError_eq_error, mapError_eq_ok, checkPayload_recursion,
      checkPayload_eq_ok, ih, reduceCtorEq, and_false, exists_false, false_or]
    constructor
    · rintro ⟨payload, hread, hdeep | ⟨hvalid, i, x, hx, hbefore, hlast⟩⟩
      · exact ⟨0, digest, rfl, fun j hj => absurd hj (Nat.not_lt_zero j), payload, hread, hdeep⟩
      · refine ⟨i + 1, x, hx, fun j hj y hy => ?_, ?_⟩
        · cases j with
          | zero =>
            obtain rfl := Option.some.inj hy
            exact ⟨payload, hread, hvalid⟩
          | succ j =>
            rw [show call + (j + 1) = call + 1 + j by omega]
            exact hbefore j (by omega) y hy
        · rw [show call + (i + 1) = call + 1 + i by omega]
          exact hlast
    · rintro ⟨i, x, hx, hbefore, payload, hread, hdeep⟩
      cases i with
      | zero =>
        obtain rfl := Option.some.inj hx
        exact ⟨payload, hread, Or.inl hdeep⟩
      | succ i =>
        obtain ⟨first, hfirst, hvalid⟩ := hbefore 0 (Nat.succ_pos i) digest rfl
        refine ⟨first, hfirst, Or.inr ⟨hvalid, i, x, hx, fun j hj y hy => ?_, payload, ?_, hdeep⟩⟩
        · rw [show call + 1 + j = call + (j + 1) by omega]
          exact hbefore (j + 1) (by omega) y hy
        · rw [show call + 1 + i = call + (i + 1) by omega]
          exact hread

theorem checkRequired_recursion {require : List String} {kind : EvidenceKind} {call : ℕ} :
    checkRequired store parsers config subject require kind call = .error .recursion ↔
      kind.token ∈ require ∧ ∃ digests,
        store.attestationDigests call subject kind.artifactType = .ok digests ∧
          DeepAmong store parsers config subject kind (call + 1) digests := by
  unfold checkRequired
  split_ifs with hrequired
  · rw [checkKind, bind_eq_error]
    simp only [seq_eq_error, mapError_eq_error, mapError_eq_ok, refuseIf_eq_error, refuseIf_eq_ok,
      checkEach_recursion, reduceCtorEq, and_false, exists_false, false_or, hrequired, true_and]
    refine exists_congr fun digests => and_congr_right fun _ => ?_
    refine ⟨And.right, fun h => ⟨?_, h⟩⟩
    rintro rfl
    obtain ⟨i, digest, hi, -⟩ := h
    cases hi
  · simp [hrequired]

/-- A `RecursionError` comes through exactly from a document that is nested too deep. -/
theorem verify_recursion {require : List String} :
    verify store parsers config subject require = .error .recursion ↔
      ReachesDeep store parsers config subject require := by
  rw [verify, seq_eq_error, seq_eq_error]
  simp only [bind_eq_error, mapError_eq_error, mapError_eq_ok, refuseIf_eq_error, refuseIf_eq_ok,
    checkRequired_recursion, checkRequired_eq_ok, reduceCtorEq, and_false, exists_false, false_or,
    not_not, unknownTokens_eq_nil, pure, Except.pure, or_false]
  unfold ReachesDeep
  refine and_congr_right fun _ => and_congr_right fun _ => ?_
  constructor
  · rintro (hdeep | ⟨_, ⟨hsignature, rfl⟩, hdeep | ⟨_, ⟨hslsa, rfl⟩, hdeep⟩⟩)
    · exact ⟨.signature, hdeep, fun earlier h => absurd h (Nat.not_lt_zero _)⟩
    · refine ⟨.slsa, hdeep, fun earlier h => ?_⟩
      cases earlier with
      | signature => exact hsignature
      | slsa => exact absurd h (Nat.lt_irrefl _)
      | sbom => exact absurd h (by decide)
    · refine ⟨.sbom, hdeep, fun earlier h => ?_⟩
      cases earlier with
      | signature => exact hsignature
      | slsa => exact hslsa
      | sbom => exact absurd h (Nat.lt_irrefl _)
  · rintro ⟨kind, hdeep, hbefore⟩
    cases kind with
    | signature => exact Or.inl hdeep
    | slsa => exact Or.inr ⟨_, ⟨hbefore .signature (by decide), rfl⟩, Or.inl hdeep⟩
    | sbom =>
      exact Or.inr ⟨_, ⟨hbefore .signature (by decide), rfl⟩, Or.inr
        ⟨_, ⟨hbefore .slsa (by decide), rfl⟩, hdeep⟩⟩

/-! ## The law -/

/-- An attestation that is always listed for a required kind, and never read as a valid one. -/
def Poisoned (store : AttestationStore E) (parsers : Parsers F) (config : VerifyConfig lib)
    (subject : String) (require : List String) : Prop :=
  ∃ kind : EvidenceKind, kind.token ∈ require ∧ ∃ digest, ∀ call,
    (∀ digests, store.attestationDigests call subject kind.artifactType = .ok digests →
      digest ∈ digests) ∧
    ¬ReadsValid store parsers config subject kind call digest

/-- `verify` accepts exactly the complete and intact evidence, refuses with `SupplyChainError`, and
an invalid attestation refuses the subject whatever else is attached. -/
structure VerifiesExactly (store : AttestationStore E) (parsers : Parsers F)
    (config : VerifyConfig lib) (subject : String) (require : List String) : Prop where
  accepts : verify store parsers config subject require = .ok () ↔
    Complete store parsers config subject require
  refuses : ¬Complete store parsers config subject require →
    ∃ e, verify store parsers config subject require = .error (.supplyChain e)
  notOutvoted : Poisoned store parsers config subject require →
    ∃ e, verify store parsers config subject require = .error (.supplyChain e)

theorem not_complete_of_poisoned {require : List String}
    (h : Poisoned store parsers config subject require) :
    ¬Complete store parsers config subject require := by
  intro hcomplete
  obtain ⟨kind, hrequired, digest, hdigest⟩ := h
  obtain ⟨digests, hdigests, -, hall⟩ := hcomplete.attested kind hrequired
  obtain ⟨i, hi⟩ := List.getElem?_of_mem ((hdigest _).1 digests hdigests)
  exact (hdigest _).2 (hall i digest hi)

/-- **Main theorem.** `verify` verifies exactly if and only if it does not reach a document that is
nested too deep. -/
theorem verifies_exactly_iff (store : AttestationStore E) (parsers : Parsers F)
    (config : VerifyConfig lib) (subject : String) (require : List String) :
    VerifiesExactly store parsers config subject require ↔
      ¬ReachesDeep store parsers config subject require := by
  rw [← verify_recursion]
  constructor
  · intro h hrecursion
    have hincomplete : ¬Complete store parsers config subject require := by
      rw [← verify_eq_ok, hrecursion]
      exact fun h => (by cases h)
    obtain ⟨e, he⟩ := h.refuses hincomplete
    rw [hrecursion] at he
    cases he
  · intro h
    have hrefuses : ¬Complete store parsers config subject require →
        ∃ e, verify store parsers config subject require = .error (.supplyChain e) := by
      intro hincomplete
      cases hverify : verify store parsers config subject require with
      | ok => exact absurd (verify_eq_ok.1 hverify) hincomplete
      | error e =>
        cases e with
        | supplyChain e => exact ⟨e, rfl⟩
        | recursion => exact absurd hverify h
    exact ⟨verify_eq_ok, hrefuses, fun hpoisoned => hrefuses (not_complete_of_poisoned hpoisoned)⟩

/-! ## A document that is nested too deep -/

/-- A parser that gives up on a thousand open brackets, and finds no JSON elsewhere. -/
def bracketParsers : Parsers ℚ where
  parseSignature _ := none
  jsonLoads payload :=
    if 1000 ≤ (payload.takeWhile (· = 91)).length then .error .tooDeep else .error .notJson

theorem jsonLoads_brackets {n : ℕ} (h : 1000 ≤ n) :
    bracketParsers.jsonLoads (List.replicate n 91) = .error .tooDeep := by
  refine if_pos ?_
  rw [List.takeWhile_replicate_eq_filter, List.filter_replicate_of_pos (by decide),
    List.length_replicate]
  exact h

/-- A hundred thousand open brackets. -/
def deepDocument : List UInt8 := List.replicate 100000 91

/-- A store with one SLSA attestation. -/
def deepStore : AttestationStore Unit where
  verifyIntegrity _ _ := .ok ()
  attestationDigests _ _ _ := .ok ["sha256:deep"]
  readAttestation _ _ := .ok deepDocument

/-- No key is trusted in particular. -/
def anyKey : VerifyConfig demoLibrary where
  trustedPublicKeyPem := none
  trustRoot := none
  kind := none
  clock _ := ⟨0, none⟩

/-- **Counterexample.** The document is not JSON, and the error that is raised is not a
`SupplyChainError`. -/
theorem deepDocument_not_exact :
    verify deepStore bracketParsers anyKey "sha256:00" ["slsa"] = .error .recursion ∧
      ¬VerifiesExactly deepStore bracketParsers anyKey "sha256:00" ["slsa"] := by
  have hdeep : ReachesDeep deepStore bracketParsers anyKey "sha256:00" ["slsa"] := by
    refine ⟨by decide, rfl, .slsa, ⟨by decide, ["sha256:deep"], rfl, 0, "sha256:deep", rfl,
      fun j hj => ?_, deepDocument, rfl, by decide, jsonLoads_brackets (by norm_num)⟩,
      fun earlier hrank hrequired => ?_⟩
    · exact absurd hj (Nat.not_lt_zero j)
    · cases earlier with
      | signature => exact absurd hrequired (by decide)
      | slsa => exact absurd hrank (Nat.lt_irrefl _)
      | sbom => exact absurd hrank (by decide)
  have hrecursion := verify_recursion.2 hdeep
  refine ⟨hrecursion, fun h => ?_⟩
  obtain ⟨e, he⟩ := h.refuses fun hcomplete => by
    rw [← verify_eq_ok, hrecursion] at hcomplete
    cases hcomplete
  rw [hrecursion] at he
  cases he

end AstroMine.Seal
