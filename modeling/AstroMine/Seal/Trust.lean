import Mathlib.Data.Finset.Sort
import Mathlib.Data.String.Basic
import AstroMine.Lib.Dict
import AstroMine.Lib.Except
import AstroMine.Lib.Instances
import AstroMine.Lib.Json
import AstroMine.Lib.Lines
import AstroMine.Guard.SpecCompiler
import AstroMine.Seal.Moment

/-!
# The trust root (`seal/_trust.py`)

A trust root is a list of keys with validity windows and kinds. It is built by the constructors, or
read from a document, and `match` searches it for a key that honours a signer.

What the module uses of the cryptography package, and the texts of timestamps, are a parameter
(`Library`). A document is the value that `json.loads` gives for its text. The texts of the errors
are left out.

Results:
* `sameKey_eq`: the comparison of two keys raises only on a key that is not supported.
* `validAt_eq_true`, `validAt_error`: a window is judged unless one of its ends is naive.
* `matchKeys_eq_ok`: what the search finds.
* `matchKeys_comes_through`: when it does not raise.
-/

namespace AstroMine.Seal

open Guard (isSpace)
open scoped Texts

/-- How a PEM fails to load: with a `ValueError` or `TypeError`, or as an unsupported algorithm. -/
inductive LoadError
  | malformed
  | unsupported
  deriving DecidableEq, Repr

/-- What is used of the libraries: `load_pem_public_key`, the DER form of a key, whether it is an
elliptic curve key, its `verify`, and the text forms of bytes and timestamps. -/
structure Library (PublicKey : Type) where
  loadPem : List UInt8 → Except LoadError PublicKey
  publicBytes : PublicKey → List UInt8
  isEllipticCurve : PublicKey → Bool
  verify : PublicKey → List UInt8 → List UInt8 → Bool
  b64decode : String → Option (List UInt8)
  isoformat : Moment → String
  fromisoformat : String → Option Moment

/-- What the module raises: `TrustRootError` with its cases, `UnsupportedAlgorithm` from a key that
is loaded, `TypeError` from moments that do not compare, `UnicodeDecodeError` from PEM bytes. -/
inductive TrustError
  | notLoadable (identity : String)
  | anonymous
  | neverValid (identity : String)
  | notJson
  | notObject
  | unknownFields (names : List String)
  | keysNotList
  | entryNotObject (index : ℕ)
  | unknownEntryFields (index : ℕ) (names : List String)
  | missingStrings (index : ℕ)
  | kindsNotStrings (index : ℕ)
  | notIso (index : ℕ) (field : String)
  | unreadable (source : String)
  | unsupported
  | incomparable
  | undecodable
  deriving DecidableEq, Repr

/-! ## Keys -/

/-- The white space of `bytes.strip`. -/
def isSpaceByte (b : UInt8) : Bool := b = 32 || (9 ≤ b && b ≤ 13)

/-- `_normalize` (lines 67–70). -/
def normalize (pem : List UInt8) : List UInt8 := tidyLines isSpaceByte 13 10 pem

theorem normalize_idem (pem : List UInt8) : normalize (normalize pem) = normalize pem :=
  tidyLines_idem (by decide) (by decide) (by decide) pem

section Keys

variable {PublicKey : Type} (lib : Library PublicKey)

/-- `_der` (lines 73–81). -/
def der (pem : List UInt8) : Except TrustError (Option (List UInt8)) :=
  match lib.loadPem pem with
  | .ok key => .ok (some (lib.publicBytes key))
  | .error .malformed => .ok none
  | .error .unsupported => .error .unsupported

/-- `same_key` (lines 84–98). -/
def sameKey (a b : List UInt8) : Except TrustError Bool := do
  let left ← der lib a
  let right ← der lib b
  return left.isSome && right.isSome && left == right

/-- The check of a window (lines 134–138). -/
def windowError (identity : String) (notBefore notAfter : Option Moment) : Option TrustError :=
  match notBefore, notAfter with
  | some before, some after =>
    match after.lt before with
    | none => some .incomparable
    | some true => some (.neverValid identity)
    | some false => none
  | _, _ => none

/-- `TrustedKey` (lines 101–138), with what its constructor checks. -/
@[ext]
structure TrustedKey where
  identity : String
  publicKeyPem : List UInt8
  notBefore : Option Moment
  notAfter : Option Moment
  kinds : Option (Finset String)
  normalized : normalize publicKeyPem = publicKeyPem
  loadable : ∃ key, lib.loadPem publicKeyPem = .ok key
  named : identity.toList.all isSpace = false
  ordered : windowError identity notBefore notAfter = none

/-- The constructor (lines 123–138). -/
def TrustedKey.create (identity : String) (pem : List UInt8) (notBefore notAfter : Option Moment)
    (kinds : Option (Finset String)) : Except TrustError (TrustedKey lib) :=
  match hload : lib.loadPem (normalize pem) with
  | .error .unsupported => .error .unsupported
  | .error .malformed => .error (.notLoadable identity)
  | .ok key =>
    if hname : identity.toList.all isSpace = true then .error .anonymous
    else match hwindow : windowError identity notBefore notAfter with
      | some e => .error e
      | none =>
        .ok
          { identity, publicKeyPem := normalize pem, notBefore, notAfter, kinds
            normalized := normalize_idem pem
            loadable := ⟨key, hload⟩
            named := Bool.eq_false_iff.mpr hname
            ordered := hwindow }

variable {lib}

/-- A comparison with an end of a window, if it has this end. -/
def comparison (test : Moment → Option Bool) : Option Moment → Except TrustError Bool
  | none => .ok false
  | some m =>
    match test m with
    | none => .error .incomparable
    | some b => .ok b

/-- `TrustedKey.valid_at` (lines 141–145). -/
def TrustedKey.validAt (key : TrustedKey lib) (moment : Moment) : Except TrustError Bool := do
  if ← comparison moment.lt key.notBefore then return false
  return !(← comparison (·.lt moment) key.notAfter)

/-- `TrustedKey.covers` (lines 147–149). -/
def TrustedKey.covers (key : TrustedKey lib) (kind : Option String) : Bool :=
  match key.kinds, kind with
  | none, _ => true
  | some kinds, some kind => kind ∈ kinds
  | some _, none => false

variable (lib) in
/-- `TrustRoot` (lines 152–162). -/
structure TrustRoot where
  keys : List (TrustedKey lib)

variable (lib) in
/-- `TrustRoot.single` (lines 168–175). -/
def TrustRoot.single (pem : List UInt8) : Except TrustError (TrustRoot lib) :=
  (TrustedKey.create lib "unnamed" pem none none none).map fun key => ⟨[key]⟩

/-- The loop of `match` (lines 193–200). -/
def matchKeys (candidate : List UInt8) (kind : Option String) (moment : Moment) :
    List (TrustedKey lib) → Except TrustError (Option (TrustedKey lib))
  | [] => .ok none
  | key :: keys => do
    if ← sameKey lib key.publicKeyPem candidate then
      if ← key.validAt moment then
        if key.covers kind then return some key
    matchKeys candidate kind moment keys

/-- `TrustRoot.match` (lines 183–200), at a moment. -/
def TrustRoot.match (root : TrustRoot lib) (signerPem : List UInt8) (kind : Option String)
    (moment : Moment) : Except TrustError (Option (TrustedKey lib)) :=
  matchKeys (normalize signerPem) kind moment root.keys

/-- `TrustRoot.accepts` (lines 177–181). -/
def TrustRoot.accepts (root : TrustRoot lib) (signerPem : List UInt8) (kind : Option String)
    (moment : Moment) : Except TrustError Bool :=
  (root.match signerPem kind moment).map Option.isSome

/-! ## What the search finds -/

/-- The signer has this key: both load, to keys with one DER form. -/
def TrustedKey.Same (key : TrustedKey lib) (signerPem : List UInt8) : Prop :=
  ∃ a b, lib.loadPem key.publicKeyPem = .ok a ∧ lib.loadPem (normalize signerPem) = .ok b ∧
    lib.publicBytes a = lib.publicBytes b

/-- The moment is in the window of the key. -/
def TrustedKey.InWindow (key : TrustedKey lib) (moment : Moment) : Prop :=
  (∀ before ∈ key.notBefore, moment.lt before = some false) ∧
    ∀ after ∈ key.notAfter, after.lt moment = some false

/-- The key honours a signer for a kind at a moment. -/
def TrustedKey.Honours (key : TrustedKey lib) (signerPem : List UInt8) (kind : Option String)
    (moment : Moment) : Prop :=
  key.Same signerPem ∧ key.InWindow moment ∧ key.covers kind = true

/-- An end of the window is a naive reading. -/
def TrustedKey.Naive (key : TrustedKey lib) : Prop :=
  ∃ m, (key.notBefore = some m ∨ key.notAfter = some m) ∧ ¬m.Aware

variable (lib) in
/-- A PEM that the cryptography package refuses as unsupported. -/
def Unsupported (signerPem : List UInt8) : Prop :=
  lib.loadPem (normalize signerPem) = .error .unsupported

/-- The comparison with a trusted key raises only on a signer that is not supported. -/
theorem sameKey_eq (key : TrustedKey lib) (signerPem : List UInt8) :
    (Unsupported lib signerPem ∧
      sameKey lib key.publicKeyPem (normalize signerPem) = .error .unsupported) ∨
    (¬Unsupported lib signerPem ∧ ∃ b, (b = true ↔ key.Same signerPem) ∧
      sameKey lib key.publicKeyPem (normalize signerPem) = .ok b) := by
  obtain ⟨a, ha⟩ := key.loadable
  have hleft : der lib key.publicKeyPem = .ok (some (lib.publicBytes a)) := by rw [der, ha]
  unfold Unsupported TrustedKey.Same
  simp only [sameKey, hleft]
  cases hload : lib.loadPem (normalize signerPem) with
  | ok b =>
    have hright : der lib (normalize signerPem) = .ok (some (lib.publicBytes b)) := by
      rw [der, hload]
    refine Or.inr ⟨by simp, _, ?_, by rw [hright]; rfl⟩
    simp [ha]
  | error e =>
    cases e with
    | malformed =>
      have hright : der lib (normalize signerPem) = .ok none := by rw [der, hload]
      exact Or.inr ⟨by simp, false, by simp, by rw [hright]; rfl⟩
    | unsupported =>
      have hright : der lib (normalize signerPem) = .error .unsupported := by rw [der, hload]
      exact Or.inl ⟨rfl, by rw [hright]; rfl⟩

/-- The ends of a window are both naive, or both aware. -/
theorem TrustedKey.aware_iff (key : TrustedKey lib) {before after : Moment}
    (hbefore : key.notBefore = some before) (hafter : key.notAfter = some after) :
    after.Aware ↔ before.Aware := by
  have hordered := key.ordered
  rw [hbefore, hafter] at hordered
  by_contra hmixed
  have hnone := Moment.lt_eq_none_iff.2 hmixed
  simp only [windowError, hnone] at hordered
  cases hordered

theorem comparison_eq_false {test : Moment → Option Bool} {m : Option Moment} :
    comparison test m = .ok false ↔ ∀ end' ∈ m, test end' = some false := by
  cases m with
  | none => simp [comparison]
  | some m => cases h : test m <;> simp [comparison, h]

theorem comparison_eq_true {test : Moment → Option Bool} {m : Option Moment} :
    comparison test m = .ok true ↔ ∃ end', m = some end' ∧ test end' = some true := by
  cases m with
  | none => simp [comparison]
  | some m => cases h : test m <;> simp [comparison, h]

theorem comparison_eq_error {test : Moment → Option Bool} {m : Option Moment} {e : TrustError} :
    comparison test m = .error e ↔ e = .incomparable ∧ ∃ end' ∈ m, test end' = none := by
  cases m with
  | none => simp [comparison]
  | some m => cases h : test m <;> simp [comparison, h, eq_comm]

/-- The start of the window is looked at first. -/
theorem TrustedKey.validAt_cases (key : TrustedKey lib) (moment : Moment) :
    (∃ e, comparison moment.lt key.notBefore = .error e ∧ key.validAt moment = .error e) ∨
    (comparison moment.lt key.notBefore = .ok true ∧ key.validAt moment = .ok false) ∨
    (comparison moment.lt key.notBefore = .ok false ∧ key.validAt moment =
      (comparison (·.lt moment) key.notAfter).map (! ·)) := by
  unfold validAt
  cases hstart : comparison moment.lt key.notBefore with
  | error e => exact Or.inl ⟨e, rfl, rfl⟩
  | ok early =>
    cases early with
    | true => exact Or.inr (Or.inl ⟨rfl, rfl⟩)
    | false =>
      refine Or.inr (Or.inr ⟨rfl, ?_⟩)
      cases comparison (·.lt moment) key.notAfter <;> rfl

/-- The window says yes exactly to the moments in it. -/
theorem TrustedKey.validAt_eq_true {key : TrustedKey lib} {moment : Moment} :
    key.validAt moment = .ok true ↔ key.InWindow moment := by
  unfold InWindow
  rw [← comparison_eq_false, ← comparison_eq_false]
  obtain ⟨e, hstart, hvalid⟩ | ⟨hstart, hvalid⟩ | ⟨hstart, hvalid⟩ := key.validAt_cases moment
  · simp [hstart, hvalid]
  · simp [hstart, hvalid]
  · rw [hstart, hvalid]
    cases comparison (·.lt moment) key.notAfter with
    | error e => simp [Except.map]
    | ok late => cases late <;> simp [Except.map]

/-- At an aware moment the window is judged unless it has a naive end. -/
theorem TrustedKey.validAt_error {key : TrustedKey lib} {moment : Moment} (h : moment.Aware) :
    (∃ e, key.validAt moment = .error e) ↔ key.Naive := by
  have hnaive (m : Moment) : moment.lt m = none ↔ ¬m.Aware := by
    rw [Moment.lt_eq_none_iff, iff_true_left h]
  have hnaive' (m : Moment) : m.lt moment = none ↔ ¬m.Aware := by
    rw [Moment.lt_eq_none_iff, iff_true_right h]
  constructor
  · rintro ⟨e, he⟩
    obtain ⟨e', hstart, -⟩ | ⟨-, hvalid⟩ | ⟨-, hvalid⟩ := key.validAt_cases moment
    · obtain ⟨-, m, hm, hnone⟩ := comparison_eq_error.1 hstart
      exact ⟨m, Or.inl hm, (hnaive m).mp hnone⟩
    · rw [hvalid] at he
      cases he
    · rw [hvalid] at he
      cases hend : comparison (·.lt moment) key.notAfter with
      | ok late =>
        rw [hend] at he
        cases he
      | error e' =>
        obtain ⟨-, m, hm, hnone⟩ := comparison_eq_error.1 hend
        exact ⟨m, Or.inr hm, (hnaive' m).mp hnone⟩
  · rintro ⟨m, hm, hmnaive⟩
    obtain ⟨e, -, hvalid⟩ | ⟨hstart, -⟩ | ⟨hstart, hvalid⟩ := key.validAt_cases moment
    · exact ⟨e, hvalid⟩
    -- a start that was compared is aware, and then the end is
    · obtain ⟨before, hbefore, hcompared⟩ := comparison_eq_true.1 hstart
      have haware : before.Aware := by
        by_contra hbnaive
        rw [(hnaive before).mpr hbnaive] at hcompared
        cases hcompared
      rcases hm with hm | hm
      · rw [hbefore] at hm
        exact absurd (Option.some.inj hm ▸ haware) hmnaive
      · exact absurd ((key.aware_iff hbefore hm).mpr haware) hmnaive
    · rcases hm with hm | hm
      · have hsome := comparison_eq_false.1 hstart m hm
        rw [(hnaive m).mpr hmnaive] at hsome
        cases hsome
      · have hend : comparison (·.lt moment) key.notAfter = .error .incomparable :=
          comparison_eq_error.2 ⟨rfl, m, hm, (hnaive' m).mpr hmnaive⟩
        exact ⟨.incomparable, by rw [hvalid, hend]; rfl⟩

/-- One round of the search, for a signer that is supported. -/
theorem matchKeys_cons (key : TrustedKey lib) (keys : List (TrustedKey lib))
    {signerPem : List UInt8} (kind : Option String) (moment : Moment)
    (hsupported : ¬Unsupported lib signerPem) :
    (key.Same signerPem ∧ (∃ e, key.validAt moment = .error e ∧
      matchKeys (normalize signerPem) kind moment (key :: keys) = .error e)) ∨
    (key.Honours signerPem kind moment ∧
      matchKeys (normalize signerPem) kind moment (key :: keys) = .ok (some key)) ∨
    (¬key.Honours signerPem kind moment ∧
      ¬(key.Same signerPem ∧ ∃ e, key.validAt moment = .error e) ∧
      matchKeys (normalize signerPem) kind moment (key :: keys) =
        matchKeys (normalize signerPem) kind moment keys) := by
  obtain ⟨hun, -⟩ | ⟨-, same, hsame, heq⟩ := sameKey_eq key signerPem
  · exact absurd hun hsupported
  have hvalid : key.validAt moment = .ok true ↔ key.InWindow moment :=
    TrustedKey.validAt_eq_true
  unfold TrustedKey.Honours
  rw [← hsame, ← hvalid, matchKeys, heq]
  cases same with
  | false => exact Or.inr (Or.inr ⟨by simp, by simp, rfl⟩)
  | true =>
    cases hjudged : key.validAt moment with
    | error e => exact Or.inl ⟨rfl, e, rfl, rfl⟩
    | ok valid =>
      refine Or.inr ?_
      cases valid with
      | false => exact Or.inr ⟨by simp, by simp, rfl⟩
      | true =>
        cases hcovers : key.covers kind with
        | false => exact Or.inr ⟨by simp, by simp, rfl⟩
        | true => exact Or.inl ⟨by simp, rfl⟩

/-- On a signer that is not supported the search raises at its first key. -/
theorem matchKeys_unsupported (key : TrustedKey lib) (keys : List (TrustedKey lib))
    {signerPem : List UInt8} (kind : Option String) (moment : Moment)
    (h : Unsupported lib signerPem) :
    matchKeys (normalize signerPem) kind moment (key :: keys) = .error .unsupported := by
  obtain ⟨-, heq⟩ | ⟨hsupported, -⟩ := sameKey_eq key signerPem
  · rw [matchKeys, heq]
    rfl
  · exact absurd h hsupported

/-- What the search finds honours the signer, and it misses no key. -/
theorem matchKeys_eq_ok {keys : List (TrustedKey lib)} {signerPem : List UInt8}
    {kind : Option String} {moment : Moment} {found : Option (TrustedKey lib)}
    (h : matchKeys (normalize signerPem) kind moment keys = .ok found) :
    found.isSome = true ↔ ∃ key ∈ keys, key.Honours signerPem kind moment := by
  induction keys with
  | nil =>
    obtain rfl : none = found := Except.ok.inj h
    simp
  | cons key keys ih =>
    by_cases hsupported : Unsupported lib signerPem
    · rw [matchKeys_unsupported key keys kind moment hsupported] at h
      cases h
    · simp only [List.mem_cons, exists_eq_or_imp]
      obtain ⟨-, e, -, heq⟩ | ⟨hhonours, heq⟩ | ⟨hnot, -, heq⟩ :=
        matchKeys_cons key keys kind moment hsupported
      · rw [heq] at h
        cases h
      · rw [heq] at h
        obtain rfl := Except.ok.inj h
        simp [hhonours]
      · rw [heq] at h
        rw [ih h, iff_comm, or_iff_right hnot]

/-- The search comes through exactly if each key of the signer with a naive window stands behind
one that honours the signer. -/
theorem matchKeys_comes_through {keys : List (TrustedKey lib)} {signerPem : List UInt8}
    {kind : Option String} {moment : Moment} (hsupported : ¬Unsupported lib signerPem)
    (h : moment.Aware) :
    (∃ found, matchKeys (normalize signerPem) kind moment keys = .ok found) ↔
      ∀ before key after, keys = before ++ key :: after → key.Same signerPem → key.Naive →
        ∃ earlier ∈ before, earlier.Honours signerPem kind moment := by
  induction keys with
  | nil =>
    refine iff_of_true ⟨none, rfl⟩ fun before key after heq => ?_
    exact absurd heq (by simp)
  | cons first keys ih =>
    obtain ⟨hsame, e, he, heq⟩ | ⟨hhonours, heq⟩ | ⟨hnot, hjudged, heq⟩ :=
      matchKeys_cons first keys kind moment hsupported
    · refine iff_of_false (by simp [heq]) fun hall => ?_
      obtain ⟨earlier, hearlier, -⟩ :=
        hall [] first keys rfl hsame ((TrustedKey.validAt_error h).mp ⟨e, he⟩)
      cases hearlier
    · refine iff_of_true ⟨_, heq⟩ fun before key after hkeys _ hnaive => ?_
      cases before with
      | nil =>
        -- the first key is the naive one: then it would not have been judged
        obtain ⟨rfl, -⟩ := List.cons.inj hkeys
        obtain ⟨e, he⟩ := (TrustedKey.validAt_error h).mpr hnaive
        rw [TrustedKey.validAt_eq_true.2 hhonours.2.1] at he
        cases he
      | cons other before =>
        obtain ⟨rfl, -⟩ := List.cons.inj hkeys
        exact ⟨first, List.mem_cons_self, hhonours⟩
    · rw [heq, ih]
      constructor
      · intro hall before key after hkeys hsame hnaive
        cases before with
        | nil =>
          obtain ⟨rfl, -⟩ := List.cons.inj hkeys
          exact absurd ⟨hsame, (TrustedKey.validAt_error h).mpr hnaive⟩ hjudged
        | cons other before =>
          obtain ⟨-, hkeys⟩ := List.cons.inj hkeys
          obtain ⟨earlier, hearlier, hhonours⟩ := hall before key after hkeys hsame hnaive
          exact ⟨earlier, List.mem_cons_of_mem _ hearlier, hhonours⟩
      · intro hall before key after hkeys hsame hnaive
        obtain ⟨earlier, hearlier, hhonours⟩ :=
          hall (first :: before) key after (by rw [hkeys]; rfl) hsame hnaive
        rcases List.mem_cons.mp hearlier with rfl | hearlier
        · exact absurd hhonours hnot
        · exact ⟨earlier, hearlier, hhonours⟩

end Keys

/-! ## Documents -/

section Documents

variable {PublicKey F : Type} (lib : Library PublicKey)

/-- `str.encode`. -/
def encode (s : String) : List UInt8 := s.toByteArray.data.toList

/-- `bytes.decode`. -/
def decode (bytes : List UInt8) : Option String := String.fromUTF8? ⟨bytes.toArray⟩

/-- `_parse_moment` (lines 236–247). -/
def parseMoment (index : ℕ) (field : String) : Option (Json F) → Except TrustError (Option Moment)
  | none | some .null => .ok none
  | some (.str text) =>
    match lib.fromisoformat text with
    | none => .error (.notIso index field)
    | some moment => .ok (some moment.assumeUtc)
  | some _ => .error (.notIso index field)

/-- The kinds of an entry (lines 300–304). -/
def parseKinds (index : ℕ) : Option (Json F) → Except TrustError (Option (Finset String))
  | none | some .null => .ok none
  | some (.arr items) =>
    match Json.asStrs items with
    | none => .error (.kindsNotStrings index)
    | some kinds => .ok (some kinds.toFinset)
  | some _ => .error (.kindsNotStrings index)

/-- The fields of an entry (line 292). -/
def entryFields : List String :=
  ["identity", "public_key_pem", "not_before", "not_after", "kinds"]

/-- One entry of a document (lines 287–313). -/
def loadKey (index : ℕ) : Json F → Except TrustError (TrustedKey lib)
  | .obj entry => do
    let extra := sortOn id ((entry.map Prod.fst).filter (· ∉ entryFields))
    if extra ≠ [] then throw (.unknownEntryFields index extra)
    match entry.lookup "public_key_pem", entry.lookup "identity" with
    | some (.str pem), some (.str identity) =>
      let kinds ← parseKinds index (entry.lookup "kinds")
      let notBefore ← parseMoment lib index "not_before" (entry.lookup "not_before")
      let notAfter ← parseMoment lib index "not_after" (entry.lookup "not_after")
      TrustedKey.create lib identity (encode pem) notBefore notAfter kinds
    | _, _ => throw (.missingStrings index)
  | _ => throw (.entryNotObject index)

/-- `load_trust_root` (lines 250–314), on a parsed document. -/
def loadTrustRoot : Json F → Except TrustError (TrustRoot lib)
  | .obj parsed => do
    let unknown :=
      sortOn id ((parsed.map Prod.fst).filter (· ∉ ["trust_root_version", "keys"]))
    if unknown ≠ [] then throw (.unknownFields unknown)
    match (parsed.lookup "keys").getD (.arr []) with
    | .arr entries => do
      let keys ← entries.zipIdx.mapM fun (entry, index) => loadKey lib index entry
      return ⟨keys⟩
    | _ => throw .keysNotList
  | _ => throw .notObject

variable {lib}

/-- A field that may be left out. -/
def optional (field : String) (value : Option (Json F)) : List (String × Json F) :=
  value.toList.map fun value => (field, value)

/-- The fields of an entry, in their order. -/
def entryOf (identity pem : String) (notBefore notAfter kinds : Option (Json F)) : Json F :=
  .obj ([("identity", .str identity), ("public_key_pem", .str pem)] ++
    optional "not_before" notBefore ++ optional "not_after" notAfter ++ optional "kinds" kinds)

/-- The entry of a key (lines 366–377). -/
def keyDocument (key : TrustedKey lib) : Except TrustError (Json F) :=
  match decode key.publicKeyPem with
  | none => .error .undecodable
  | some pem =>
    .ok (entryOf key.identity pem (key.notBefore.map fun m => .str (lib.isoformat m))
      (key.notAfter.map fun m => .str (lib.isoformat m))
      (key.kinds.map fun kinds => .arr ((kinds.sort (· ≤ ·)).map .str)))

/-- `to_document` (lines 363–380). -/
def toDocument (root : TrustRoot lib) (version : String) : Except TrustError (Json F) := do
  let keys ← root.keys.mapM keyDocument
  return .obj [("trust_root_version", .str version), ("keys", .arr keys)]

end Documents

/-! ## Where a root comes from -/

section Sources

variable {PublicKey F : Type} (lib : Library PublicKey)

/-- The environment of a process: the value of `ASTRO_MINE_TRUST_ROOT`, the documents at the paths
it can name, and the one packaged in the wheel, if there is one. -/
structure Environment (F : Type) where
  configured : Option String
  document : String → Except TrustError (Json F)
  packaged : Option (Except TrustError (Json F))

/-- The path of the environment, where it is not blank (lines 333 and 334). -/
def Environment.source (env : Environment F) : Option String :=
  let source := String.ofList (strip isSpace (env.configured.getD "").toList)
  if source = "" then none else some source

/-- `default_trust_root` (lines 317–328). -/
def defaultTrustRoot (env : Environment F) : Except TrustError (TrustRoot lib) :=
  match env.packaged with
  | none => .ok ⟨[]⟩
  | some document => do loadTrustRoot lib (← document)

/-- `trust_root_from_env` (lines 331–340). -/
def trustRootFromEnv (env : Environment F) : Except TrustError (TrustRoot lib) :=
  match env.source with
  | none => defaultTrustRoot lib env
  | some path => do loadTrustRoot lib (← env.document path)

variable {lib}

/-- `resolve_trust_root` (lines 343–360). -/
def resolveTrustRoot (explicit : Option (TrustRoot lib)) (trustedPublicKeyPem : Option (List UInt8))
    (env : Environment F) : Except TrustError (Option (TrustRoot lib)) :=
  match explicit, trustedPublicKeyPem with
  | some root, _ => .ok (some root)
  | none, some pem => (TrustRoot.single lib pem).map some
  | none, none => do
    let resolved ← trustRootFromEnv lib env
    return if resolved.keys = [] then none else some resolved

end Sources

end AstroMine.Seal
