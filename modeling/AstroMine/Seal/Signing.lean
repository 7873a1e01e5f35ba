import AstroMine.Seal.Trust

/-!
# Verifying a signature (`seal/_signing.py`)

`verify_signature` checks the envelope of a signature, then whether the signer is trusted, then the
signature itself. Without a root and without a key every signer is.

Results:
* `verifySignature_eq_ok`: a signature is verified if it is intact and its signer trusted.
* `checkSigner_root`: a root trusts the signers that it honours.
-/

namespace AstroMine.Seal

/-- `SignatureScheme` (`core/registry/enums.py`, lines 90–100). -/
inductive SignatureScheme
  | sigstoreCosign
  | unsigned
  deriving DecidableEq, Repr

/-- `Signature` (`core/registry/model.py`, lines 81–102), up to the fields that are not read. -/
structure Signature where
  scheme : SignatureScheme
  value : Option String
  payload : Option String
  certificate : Option String

/-- What the verification raises: the `SignatureError`s, the `binascii.Error` of the decoding, and
what the trust root raises. -/
inductive SignatureError
  | notCosign
  | incomplete
  | otherDigest
  | twoAnswers
  | malformedKey
  | notEllipticCurve
  | unsupportedKey
  | notTheTrustedKey
  | untrusted
  | undecodableValue
  | doesNotVerify
  | trust (e : TrustError)
  deriving DecidableEq, Repr

variable {PublicKey F : Type} (lib : Library PublicKey)

/-- `_load_public` (lines 78–85). -/
def loadPublic (pem : List UInt8) : Except SignatureError PublicKey :=
  match lib.loadPem pem with
  | .error .malformed => .error .malformedKey
  | .error .unsupported => .error .unsupportedKey
  | .ok key => if lib.isEllipticCurve key then .ok key else .error .notEllipticCurve

/-- The signature itself (lines 173–181). -/
def checkValue (signerPem : List UInt8) (value payload : String) : Except SignatureError Unit := do
  let publicKey ← loadPublic lib signerPem
  match lib.b64decode value with
  | none => throw .undecodableValue
  | some bytes =>
    if !lib.verify publicKey bytes (encode payload) then throw .doesNotVerify

variable {lib}

/-- Whether the caller trusts the signer (lines 162–171). -/
def checkSigner (signerPem : List UInt8) (trustedPublicKeyPem : Option (List UInt8))
    (trustRoot : Option (TrustRoot lib)) (kind : Option String) (moment : Moment) :
    Except SignatureError Unit :=
  match trustedPublicKeyPem, trustRoot with
  | some pem, _ => do
    let _ ← loadPublic lib pem
    if !(← (sameKey lib pem signerPem).mapError .trust) then throw .notTheTrustedKey
  | none, some root => do
    if !(← (root.accepts signerPem kind moment).mapError .trust) then throw .untrusted
  | none, none => .ok ()

/-- `verify_signature` (lines 119–181), at a moment. -/
def verifySignature (signature : Signature) (digest : String)
    (trustedPublicKeyPem : Option (List UInt8)) (trustRoot : Option (TrustRoot lib))
    (kind : Option String) (moment : Moment) : Except SignatureError Unit :=
  if signature.scheme ≠ .sigstoreCosign then .error .notCosign
  else match signature.value, signature.payload, signature.certificate with
    | some value, some payload, some certificate =>
      if payload ≠ digest then .error .otherDigest
      else if trustRoot.isSome ∧ trustedPublicKeyPem.isSome then .error .twoAnswers
      else do
        checkSigner (encode certificate) trustedPublicKeyPem trustRoot kind moment
        checkValue lib (encode certificate) value payload
    | _, _, _ => .error .incomplete

/-! ## What is verified -/

/-- A signature over the digest, complete and valid, with this certificate. -/
structure Intact (lib : Library PublicKey) (signature : Signature) (digest certificate : String) :
    Prop where
  cosign : signature.scheme = .sigstoreCosign
  payload : signature.payload = some digest
  signer : signature.certificate = some certificate
  valid : ∃ value, signature.value = some value ∧
    checkValue lib (encode certificate) value digest = .ok ()

/-- **Spec.** A signature is verified exactly if it is intact and the caller trusts its signer. -/
theorem verifySignature_eq_ok {signature : Signature} {digest : String}
    {trustedPublicKeyPem : Option (List UInt8)} {trustRoot : Option (TrustRoot lib)}
    {kind : Option String} {moment : Moment} :
    verifySignature signature digest trustedPublicKeyPem trustRoot kind moment = .ok () ↔
      ¬(trustRoot.isSome ∧ trustedPublicKeyPem.isSome) ∧
        ∃ certificate, Intact lib signature digest certificate ∧
          checkSigner (encode certificate) trustedPublicKeyPem trustRoot kind moment = .ok () := by
  unfold verifySignature
  constructor
  · intro h
    by_cases hscheme : signature.scheme = .sigstoreCosign
    · rw [if_neg (not_not.mpr hscheme)] at h
      split at h
      · rename_i value payload certificate hvalue hpayload hcertificate
        by_cases hdigest : payload = digest
        · subst hdigest
          rw [if_neg (not_not.mpr rfl)] at h
          split_ifs at h with hboth
          obtain ⟨_, hsigner, hchecked⟩ := bind_eq_ok.1 h
          exact ⟨hboth, certificate,
            ⟨hscheme, hpayload, hcertificate, value, hvalue, hchecked⟩, hsigner⟩
        · rw [if_pos hdigest] at h
          cases h
      · cases h
    · rw [if_pos hscheme] at h
      cases h
  · rintro ⟨hboth, certificate, ⟨hscheme, hpayload, hcertificate, value, hvalue, hchecked⟩, hsigner⟩
    rw [if_neg (not_not.mpr hscheme), hvalue, hpayload, hcertificate]
    dsimp only
    rw [if_neg (not_not.mpr rfl), if_neg hboth]
    exact bind_eq_ok.2 ⟨(), hsigner, hchecked⟩

/-- A root trusts the signers that it honours. -/
theorem checkSigner_root {signerPem : List UInt8} {root : TrustRoot lib} {kind : Option String}
    {moment : Moment} (h : checkSigner signerPem none (some root) kind moment = .ok ()) :
    ∃ key ∈ root.keys, key.Honours signerPem kind moment := by
  unfold checkSigner at h
  dsimp only at h
  obtain ⟨accepted, haccepted, h⟩ := bind_eq_ok.1 h
  obtain ⟨found, hfound, rfl⟩ := map_eq_ok.1 (mapError_eq_ok.1 haccepted)
  refine (matchKeys_eq_ok hfound).mp ?_
  by_contra hnone
  rw [Bool.not_eq_true] at hnone
  rw [hnone] at h
  cases h

end AstroMine.Seal
