import AstroMine.Lib.AtomicWrite
import AstroMine.Lib.Decimal
import AstroMine.Lib.Except
import AstroMine.Lib.Joined

/-!
# Files that many workers share (`cloud/data/cache.py`, `cloud/artifacts/store.py`)

The pull-through cache and the artifact store write a file beside its place, under a name of the
writer's own, and rename it into place. The cache names a file by the chunk that it holds, the
store by its contents.

SHA-256, the names that `uuid4` gives the writers, and the remote object store are parameters.

Results:
* `identity_injective`, `chunkRef_injective`: distinct chunks have distinct identities.
* `pullThrough_run`: in every interleaving of reads, the cache gives what the remote store has.
* `artifactStore_run`: in every interleaving of writes, the store gives back what was put.
-/

namespace AstroMine.Cloud

open AtomicWrite

/-! ## Model: chunks (`cloud/data/chunks.py`) -/

/-- `ChunkRef` (line 32). -/
structure ChunkRef where
  key : String
  offset : Option ℤ
  length : Option ℤ
deriving DecidableEq

/-- `ObjectStore` (`objectstore.py`, line 26), as far as chunks are read from it. -/
structure ObjectStore (V ε : Type) where
  get : String → Except ε V
  getRange : String → ℤ → ℤ → Except ε V

/-- What reading a chunk raises. -/
inductive ReadError (ε : Type)
  | noLength
  | store (e : ε)

/-- `read_chunk` (lines 47–53). -/
def readChunk {V ε : Type} (store : ObjectStore V ε) (ref : ChunkRef) : Except (ReadError ε) V :=
  match ref.offset, ref.length with
  | none, _ => (store.get ref.key).mapError .store
  | some _, none => .error .noLength
  | some offset, some length => (store.getRange ref.key offset length).mapError .store

/-- `ZarrArray` (line 56). -/
structure ZarrArray where
  path : String
  shape : List ℤ
  chunks : List ℤ
  dimensionSeparator : String

/-- What `chunk_ref` raises. -/
inductive ChunkError
  | strictZip
  | zeroDivision
  | rank
  | range
deriving DecidableEq

namespace ZarrArray

/-- `grid_shape` (lines 82–84). -/
def gridShape (array : ZarrArray) : Except ChunkError (List ℤ) := do
  refuseIf (array.shape.length ≠ array.chunks.length) .strictZip
  refuseIf (0 ∈ array.chunks) .zeroDivision
  return (array.shape.zip array.chunks).map fun p => -((-p.1).fdiv p.2)

/-- `chunk_ref` (lines 86–94). -/
def chunkRef (array : ZarrArray) (index : List ℤ) : Except ChunkError ChunkRef := do
  let grid ← array.gridShape
  refuseIf (index.length ≠ grid.length) .rank
  refuseIf (∃ p ∈ index.zip grid, ¬ (0 ≤ p.1 ∧ p.1 < p.2)) .range
  -- No entry is negative here, so that its digits are those of a natural number.
  let name := Decimal.joinedBy array.dimensionSeparator (index.map Int.toNat)
  return ⟨array.path ++ "/" ++ String.ofList name, none, none⟩

end ZarrArray

/-! ## Model: names of files -/

/-- `hashlib.sha256(...).hexdigest()`. -/
structure Sha256 (D : Type) where
  hexdigest : D → String
  length_eq : ∀ d, (hexdigest d).toList.length = 64
  hex : ∀ d, ∀ c ∈ (hexdigest d).toList, c ∈ "0123456789abcdef".toList

/-- Where a worker keeps a file: in a directory, under a name, and before that under
`f"{name}.{uuid4().hex}.tmp"`. -/
structure Naming (W : Type) where
  dir : W → String
  name : W → String
  uuid : W → String
  dir_length : ∀ w w', (dir w).toList.length = (dir w').toList.length
  name_dot : ∀ w, '.' ∉ (name w).toList
  uuid_injective : Function.Injective uuid

namespace Naming

variable {W : Type} (N : Naming W)

/-- The place of the file. -/
def path (w : W) : String := N.dir w ++ N.name w

/-- The name it is written under. -/
def scratch (w : W) : String := N.dir w ++ (N.name w ++ ("." ++ (N.uuid w ++ ".tmp")))

end Naming

/-! ## Model: the cache (`cloud/data/cache.py`) -/

/-- `str` of an optional number. -/
def strOption : Option ℤ → String
  | none => "None"
  | some n => toString n

/-- `f"{ref.key}:{ref.offset}:{ref.length}"` (line 43). -/
def ChunkRef.identity (ref : ChunkRef) : String :=
  joined (joined ref.key (strOption ref.offset)) (strOption ref.length)

/-- `_cache_path` (lines 41–44), and the names of the writers (line 59). -/
def cacheNaming {W : Type} (sha : Sha256 String) (scratch : String) (refs : W → ChunkRef)
    {uuid : W → String} (huuid : Function.Injective uuid) : Naming W where
  dir _ := scratch ++ "/"
  name w := sha.hexdigest (refs w).identity
  uuid := uuid
  dir_length _ _ := rfl
  name_dot w h := by
    have hmem := sha.hex _ _ h
    revert hmem
    decide
  uuid_injective := huuid

/-! ## Model: the store (`cloud/artifacts/store.py`, `cloud/artifacts/addressing.py`) -/

/-- What an address is refused for. -/
inductive AddressError
  | unsupported (algorithm : String)
  | malformed (hexdigest : String)
deriving DecidableEq

/-- `_validate` (lines 78–82). -/
def validate (algorithm hexdigest : String) : Except AddressError Unit := do
  refuseIf (algorithm ≠ "sha256") (.unsupported algorithm)
  refuseIf (hexdigest.toList.length ≠ 64 ∨
    hexdigest.toList.any (· ∉ "0123456789abcdef".toList)) (.malformed hexdigest)

/-- `parse_address` (lines 61–70). -/
def parseAddress (address : String) : Except AddressError (String × String) := do
  let parts := (partition ':' address).getD ("sha256", address)
  validate parts.1 parts.2
  return parts

/-- `content_address` of bytes (lines 44–58). A digest is always valid. -/
def contentAddress {Bytes : Type} (sha : Sha256 Bytes) (data : Bytes) : String :=
  joined "sha256" (sha.hexdigest data)

/-- The directory that a digest falls into: `<root>/sha256/<h[:2]>/` (line 59). -/
def fanout (root hexdigest : String) : String :=
  root ++ ("/sha256/" ++ (String.ofList (hexdigest.toList.take 2) ++ "/"))

/-- `_path` (lines 57–59). -/
def artifactPath (root address : String) : Except AddressError String := do
  let parts ← parseAddress address
  return fanout root parts.2 ++ parts.2

/-- The names of the files of the writers (line 74). -/
def artifactNaming {W Bytes : Type} (sha : Sha256 Bytes) (root : String) (data : W → Bytes)
    {uuid : W → String} (huuid : Function.Injective uuid) : Naming W where
  dir w := fanout root (sha.hexdigest (data w))
  name w := sha.hexdigest (data w)
  uuid := uuid
  dir_length w w' := by simp [fanout, sha.length_eq]
  name_dot w h := by
    have hmem := sha.hex _ _ h
    revert hmem
    decide
  uuid_injective := huuid

/-- What `get` raises. -/
inductive GetError
  | value (e : AddressError)
  | key (address : String)
deriving DecidableEq

/-- `get` (lines 83–87). -/
def artifactGet {Bytes : Type} (root : String) (files : String → Option Bytes) (address : String) :
    Except GetError Bytes := do
  let path ← (artifactPath root address).mapError .value
  match files path with
  | none => .error (.key address)
  | some data => .ok data

/-! ## Distinct chunks -/

theorem strOption_colon (o : Option ℤ) : ':' ∉ (strOption o).toList := by
  cases o with
  | none => decide
  | some n =>
    intro h
    rcases Decimal.mem_toString h with hc | hc
    · revert hc
      decide
    · revert hc
      decide

theorem strOption_injective : Function.Injective strOption := by
  have hnone : ∀ n : ℤ, toString n ≠ "None" := by
    intro n h
    have hmem : 'N' ∈ (toString n).toList := by rw [h]; decide
    rcases Decimal.mem_toString hmem with hc | hc
    · revert hc
      decide
    · revert hc
      decide
  intro o o' h
  cases o with
  | none =>
    cases o' with
    | none => rfl
    | some n => exact absurd h.symm (hnone n)
  | some n =>
    cases o' with
    | none => exact absurd h (hnone n)
    | some m => rw [Decimal.toString_injective h]

/-- Chunks have their identities alone, whatever the key is. -/
theorem identity_injective : Function.Injective ChunkRef.identity := by
  rintro ⟨key, offset, length⟩ ⟨key', offset', length'⟩ h
  obtain ⟨h, hlength⟩ :=
    (joined_inj_of_notMem_right (strOption_colon length) (strOption_colon length')).mp h
  obtain ⟨hkey, hoffset⟩ :=
    (joined_inj_of_notMem_right (strOption_colon offset) (strOption_colon offset')).mp h
  obtain rfl : key = key' := hkey
  rw [strOption_injective hoffset, strOption_injective hlength]

/-- An index that is not refused has an entry for each dimension, none of them negative. -/
theorem chunkRef_eq_ok {array : ZarrArray} {index : List ℤ} {ref : ChunkRef}
    (h : array.chunkRef index = .ok ref) : ∃ grid, array.gridShape = .ok grid ∧
      index.length = grid.length ∧ (∀ i ∈ index, 0 ≤ i) ∧
      ref.key = array.path ++ "/" ++
        String.ofList (Decimal.joinedBy array.dimensionSeparator (index.map Int.toNat)) := by
  obtain ⟨grid, hgrid, h⟩ := bind_eq_ok.mp h
  rw [seq_eq_ok, refuseIf_eq_ok] at h
  obtain ⟨hrank, h⟩ := h
  rw [seq_eq_ok, refuseIf_eq_ok] at h
  obtain ⟨hrange, h⟩ := h
  obtain rfl := Except.ok.inj h
  rw [not_not] at hrank
  refine ⟨grid, hgrid, hrank, fun i hi => ?_, rfl⟩
  obtain ⟨k, hk, rfl⟩ := List.getElem_of_mem hi
  by_contra hneg
  have hzip : k < (index.zip grid).length := by simpa using ⟨hk, hrank ▸ hk⟩
  exact hrange ⟨_, List.getElem_mem hzip, by simp [hneg]⟩

theorem map_toNat {index : List ℤ} (h : ∀ i ∈ index, 0 ≤ i) :
    (index.map Int.toNat).map ((↑) : ℕ → ℤ) = index := by
  rw [List.map_map]
  exact (List.map_congr_left fun i hi => Int.toNat_of_nonneg (h i hi)).trans (List.map_id index)

/-- **Main theorem.** Where the separator of an array is not all digits, two indices that it accepts
are one index exactly if their chunks have one identity, so distinct chunks never share a file. -/
theorem chunkRef_identity_iff {array : ZarrArray}
    (hsep : ∃ c ∈ array.dimensionSeparator.toList, c.isDigit = false) {i j : List ℤ}
    {ref ref' : ChunkRef} (hi : array.chunkRef i = .ok ref) (hj : array.chunkRef j = .ok ref') :
    ref.identity = ref'.identity ↔ i = j := by
  constructor
  · intro h
    obtain ⟨grid, hgrid, hrank, hpos, hkey⟩ := chunkRef_eq_ok hi
    obtain ⟨grid', hgrid', hrank', hpos', hkey'⟩ := chunkRef_eq_ok hj
    obtain rfl := Except.ok.inj (hgrid.symm.trans hgrid')
    have hkeys : array.path ++ "/" ++ String.ofList (Decimal.joinedBy array.dimensionSeparator
        (i.map Int.toNat)) = array.path ++ "/" ++ String.ofList
          (Decimal.joinedBy array.dimensionSeparator (j.map Int.toNat)) := by
      rw [← hkey, ← hkey', identity_injective h]
    have hname := congrArg String.toList hkeys
    simp only [String.toList_append, String.toList_ofList] at hname
    have hnat := Decimal.joinedBy_injective hsep (by simp [hrank, hrank'])
      (List.append_cancel_left hname)
    rw [← map_toNat hpos, ← map_toNat hpos', hnat]
  · rintro rfl
    rw [Except.ok.inj (hi.symm.trans hj)]

/-- A raster of a hundred by a hundred cells, in chunks of thirty. -/
def demArray : ZarrArray := ⟨"dem", [100, 100], [30, 30], "."⟩

theorem demArray_apart : ∃ ref ref', demArray.chunkRef [1, 3] = .ok ref ∧
    demArray.chunkRef [3, 1] = .ok ref' ∧
    (ref.identity = ref'.identity ↔ [(1 : ℤ), 3] = [3, 1]) := by
  obtain ⟨ref, href⟩ : ∃ ref, demArray.chunkRef [1, 3] = .ok ref := ⟨_, rfl⟩
  obtain ⟨ref', href'⟩ : ∃ ref', demArray.chunkRef [3, 1] = .ok ref' := ⟨_, rfl⟩
  exact ⟨ref, ref', href, href', chunkRef_identity_iff ⟨'.', by simp [demArray], rfl⟩ href href'⟩

/-! ## The files of the workers -/

namespace Naming

variable {W : Type} (N : Naming W)

/-- Two names in directories of one length are one name exactly if both parts are. -/
theorem append_dir_inj {w w' : W} {x y : String} (h : N.dir w ++ x = N.dir w' ++ y) : x = y := by
  rw [← String.toList_inj, String.toList_append, String.toList_append] at h
  exact String.toList_inj.mp (List.append_inj h (N.dir_length w w')).2

theorem scratch_ne_path (w w' : W) : N.scratch w ≠ N.path w' := by
  intro h
  have hname := N.append_dir_inj h
  refine N.name_dot w' ?_
  rw [← hname]
  simp

theorem scratch_injective : Function.Injective N.scratch := by
  intro w w' h
  have hrest := congrArg String.toList (N.append_dir_inj h)
  simp only [String.toList_append] at hrest
  have hdot : ∀ v, ∀ c ∈ (N.name v).toList, (c != '.') = true := by
    intro v c hc
    rw [bne_iff_ne]
    rintro rfl
    exact N.name_dot v hc
  obtain ⟨-, htail⟩ := @Decimal.append_cons_inj _ (· != '.') _ _ _ _ '.' '.' (hdot w) (hdot w')
    rfl rfl hrest
  exact N.uuid_injective (String.toList_inj.mp (List.append_cancel_right htail))

/-- The files as the workers see them. -/
def layout : Layout W String := ⟨N.path, N.scratch, N.scratch_ne_path, N.scratch_injective⟩

end Naming

/-! ## The cache over a run -/

section Cache

variable {W V ε : Type} [DecidableEq W] {sha : Sha256 String} {scratch : String}
  {refs : W → ChunkRef} {uuid : W → String} {huuid : Function.Injective uuid}
  {remote : ObjectStore V ε}

/-- One step of one of the readers (`PullThroughCache.read_chunk`, lines 46–66): is the file there
(49), then it is read (51), or else the chunk is read from the remote store (53), written to a
scratch file (61) and renamed (62), which is removed again if either fails (64). -/
def cacheStep (sha : Sha256 String) (scratch : String) (remote : ObjectStore V ε)
    (refs : W → ChunkRef) {uuid : W → String} (huuid : Function.Injective uuid) :
    State W String V (ReadError ε) → AtomicWrite.Action W V →
      Option (State W String V (ReadError ε)) :=
  AtomicWrite.step (cacheNaming sha scratch refs huuid).layout fun w => readChunk remote (refs w)

/-- `warm` (lines 68–70). -/
def warm (sha : Sha256 String) (scratch : String) (files : String → Option V) (ref : ChunkRef) :
    Bool :=
  (files (scratch ++ "/" ++ sha.hexdigest ref.identity)).isSome

omit [DecidableEq W] in
/-- What belongs at the file of a reader is its own chunk, as far as no two of the chunks that are
read have one digest. -/
theorem readChunk_of_belongs
    (hcollide : ∀ w w', sha.hexdigest (refs w).identity = sha.hexdigest (refs w').identity →
      (refs w).identity = (refs w').identity) {w : W} {v : V}
    (h : Belongs (cacheNaming sha scratch refs huuid).layout (fun w => readChunk remote (refs w))
      ((cacheNaming sha scratch refs huuid).path w) v) : readChunk remote (refs w) = .ok v := by
  obtain ⟨w', hpath, hv⟩ := h
  have hdigest := (cacheNaming sha scratch refs huuid).append_dir_inj hpath
  rw [← identity_injective (hcollide w' w hdigest)]
  exact hv

/-- **Main theorem.** In every interleaving of any number of readers, with writes that stop half-way
and readers that fail or die: a reader that returns has what the remote store has of its chunk; a
file in the cache is whole; a chunk that one reader has had is warm, and no reader of it that starts
later goes to the remote store; and no reader fails for a file that is not there. -/
theorem pullThrough_run
    (hcollide : ∀ w w', sha.hexdigest (refs w).identity = sha.hexdigest (refs w').identity →
      (refs w).identity = (refs w').identity)
    {as : List (AtomicWrite.Action W V)} {s : State W String V (ReadError ε)}
    (hrun : Transition.run (cacheStep sha scratch remote refs huuid) init as = some s) :
    (∀ w v, s.stage w = .returned v → readChunk remote (refs w) = .ok v ∧
      warm sha scratch s.files (refs w) = true ∧
      ∀ w', refs w' = refs w → s.stage w' = .idle → ∀ bs t,
        Transition.run (cacheStep sha scratch remote refs huuid) s bs = some t →
          (t.stage w').Local) ∧
    (∀ w v, s.files ((cacheNaming sha scratch refs huuid).path w) = some v →
      readChunk remote (refs w) = .ok v) ∧
    ∀ w, s.stage w ≠ .failed .noFile := by
  have hsound := run_sound hrun
  refine ⟨fun w v hstage => ?_, fun w v hv => ?_, fun w hstage => hsound.stage_of_eq hstage⟩
  · obtain ⟨hbelongs, hsome⟩ := hsound.stage_of_eq hstage
    refine ⟨readChunk_of_belongs hcollide hbelongs, hsome, fun w' href hidle bs t hlater => ?_⟩
    have hpath : (cacheNaming sha scratch refs huuid).path w' =
        (cacheNaming sha scratch refs huuid).path w := by
      simp only [Naming.path, cacheNaming, href]
    refine (run_present hlater ?_ ?_).2
    · rw [show (cacheNaming sha scratch refs huuid).layout.path w' = _ from hpath]
      exact hsome
    · rw [hidle]
      exact trivial
  · exact readChunk_of_belongs hcollide (hsound.files_path hv)

/-- A digest for texts of less than sixteen characters: their length, in hex. -/
def lengthDigest : Sha256 String where
  hexdigest s := String.ofList (List.replicate 63 '0' ++ [Nat.digitChar (s.toList.length % 16)])
  length_eq s := by simp
  hex s c h := by
    rw [String.toList_ofList, List.mem_append, List.mem_replicate, List.mem_singleton] at h
    have hdigit : ∀ k < 16, Nat.digitChar k ∈ "0123456789abcdef".toList := by decide
    rcases h with ⟨-, rfl⟩ | rfl
    · decide
    · exact hdigit _ (Nat.mod_lt _ (by decide))

/-- Two readers of one chunk, and a third of another. -/
def threeReaders : Fin 3 → ChunkRef
  | 0 => ⟨"dem", some 0, some 5⟩
  | 1 => ⟨"dem", some 0, some 5⟩
  | 2 => ⟨"dem", some 10, some 5⟩

/-- The names of three writers. -/
def threeNames (w : Fin 3) : String := toString (w.val : ℤ)

theorem threeNames_injective : Function.Injective threeNames := fun _ _ h =>
  Fin.ext (Int.ofNat.inj (Decimal.toString_injective h))

/-- A remote store that has something of everything. -/
def offsetStore : ObjectStore ℤ Unit := ⟨fun _ => .ok 0, fun _ offset _ => .ok offset⟩

/-- Both readers of the one chunk miss, one of them is slow, and one reader dies. -/
def racing : List (AtomicWrite.Action (Fin 3) ℤ) :=
  [.start 0, .start 1, .start 2, .fetch 0, .fetch 1, .fetch 2, .writePart 0 7, .writeAll 1,
    .replace 1, .writeAll 0, .writePart 2 3, .crash 2, .replace 0]

theorem racing_safe : ∃ s, Transition.run
      (cacheStep lengthDigest "tmp" offsetStore threeReaders threeNames_injective) init racing =
        some s ∧
    (∀ w v, s.stage w = .returned v → readChunk offsetStore (threeReaders w) = .ok v ∧
      warm lengthDigest "tmp" s.files (threeReaders w) = true ∧
      ∀ w', threeReaders w' = threeReaders w → s.stage w' = .idle → ∀ bs t,
        Transition.run
            (cacheStep lengthDigest "tmp" offsetStore threeReaders threeNames_injective) s bs =
          some t → (t.stage w').Local) ∧
    (∀ w v, s.files ((cacheNaming lengthDigest "tmp" threeReaders threeNames_injective).path w) =
      some v → readChunk offsetStore (threeReaders w) = .ok v) ∧
    ∀ w, s.stage w ≠ .failed .noFile := by
  have hrun : (Transition.run (cacheStep lengthDigest "tmp" offsetStore threeReaders
    threeNames_injective) init racing).isSome := by decide +kernel
  obtain ⟨s, hs⟩ := Option.isSome_iff_exists.mp hrun
  exact ⟨s, hs, pullThrough_run (by decide) hs⟩

end Cache

/-! ## The store over a run -/

section Store

variable {W Bytes : Type} [DecidableEq W] {sha : Sha256 Bytes} {root : String} {data : W → Bytes}
  {uuid : W → String} {huuid : Function.Injective uuid}

/-- One step of one of the writers (`FilesystemArtifactStore.put`, lines 61–81): is the file there
(64), then it is kept, or else the bytes are written to a scratch file (76) and renamed (77), which
is removed again if either fails (79). -/
def storeStep (sha : Sha256 Bytes) (root : String) (data : W → Bytes) {uuid : W → String}
    (huuid : Function.Injective uuid) :
    State W String Bytes Empty → AtomicWrite.Action W Bytes → Option (State W String Bytes Empty) :=
  AtomicWrite.step (artifactNaming sha root data huuid).layout fun w => .ok (data w)

theorem not_mem_hex {c : Char} {hexdigest : String}
    (h : ∀ c ∈ hexdigest.toList, c ∈ "0123456789abcdef".toList)
    (hc : c ∉ "0123456789abcdef".toList) : c ∉ hexdigest.toList := fun hmem => hc (h c hmem)

/-- An address is accepted if it is a digest, alone or behind the name of the algorithm. -/
theorem parseAddress_eq_ok {address : String} {parts : String × String} :
    parseAddress address = .ok parts ↔ parts.1 = "sha256" ∧ parts.2.toList.length = 64 ∧
      (∀ c ∈ parts.2.toList, c ∈ "0123456789abcdef".toList) ∧
      (address = joined "sha256" parts.2 ∨ address = parts.2) := by
  obtain ⟨algorithm, hexdigest⟩ := parts
  rw [parseAddress, seq_eq_ok, validate, seq_eq_ok, refuseIf_eq_ok, refuseIf_eq_ok, not_not, not_or,
    not_not, List.any_eq_true]
  simp only [decide_eq_true_eq, not_exists, not_and, not_not]
  constructor
  · rintro ⟨⟨halgorithm, hlen, hhex⟩, hparts⟩
    have hparts := Except.ok.inj hparts
    rw [hparts] at halgorithm hlen hhex
    refine ⟨halgorithm, hlen, hhex, ?_⟩
    cases hcut : partition ':' address with
    | none =>
      rw [hcut] at hparts
      exact .inr (Prod.mk.inj hparts).2
    | some cut =>
      rw [hcut] at hparts
      obtain rfl : cut = (algorithm, hexdigest) := hparts
      obtain rfl : algorithm = "sha256" := halgorithm
      exact .inl ((partition_colon_iff _ _ _).mp hcut).1
  · rintro ⟨halgorithm, hlen, hhex, haddress⟩
    obtain rfl : algorithm = "sha256" := halgorithm
    have hcut : (partition ':' address).getD ("sha256", address) = ("sha256", hexdigest) := by
      rcases haddress with rfl | rfl
      · rw [(partition_colon_iff _ "sha256" hexdigest).mpr ⟨rfl, by decide⟩, Option.getD_some]
      · rw [(partition_eq_none_iff _ _).mpr (not_mem_hex hhex (by decide)), Option.getD_none]
    rw [hcut]
    exact ⟨⟨rfl, hlen, hhex⟩, rfl⟩

/-- The bytes that are found under an address are in the file of its digest. -/
theorem artifactGet_eq_ok {files : String → Option Bytes} {address : String} {bytes : Bytes} :
    artifactGet root files address = .ok bytes ↔ ∃ hexdigest, hexdigest.toList.length = 64 ∧
      (∀ c ∈ hexdigest.toList, c ∈ "0123456789abcdef".toList) ∧
      (address = joined "sha256" hexdigest ∨ address = hexdigest) ∧
      files (fanout root hexdigest ++ hexdigest) = some bytes := by
  rw [artifactGet, bind_eq_ok]
  constructor
  · rintro ⟨path, hpath, h⟩
    obtain ⟨parts, hparts, hfile⟩ := bind_eq_ok.mp (mapError_eq_ok.mp hpath)
    obtain rfl := Except.ok.inj hfile
    obtain ⟨-, hlen, hhex, haddress⟩ := parseAddress_eq_ok.mp hparts
    refine ⟨parts.2, hlen, hhex, haddress, ?_⟩
    cases hfiles : files (fanout root parts.2 ++ parts.2) with
    | none =>
      rw [hfiles] at h
      cases h
    | some found =>
      rw [hfiles] at h
      exact congrArg some (Except.ok.inj h)
  · rintro ⟨hexdigest, hlen, hhex, haddress, hfile⟩
    have hparts := parseAddress_eq_ok.mpr
      (show ("sha256", hexdigest).1 = "sha256" ∧ _ from ⟨rfl, hlen, hhex, haddress⟩)
    refine ⟨_, mapError_eq_ok.mpr (bind_eq_ok.mpr ⟨_, hparts, rfl⟩), ?_⟩
    rw [hfile]

omit [DecidableEq W] in
/-- The file of a digest is none that a writer has in the making. -/
theorem file_ne_scratch {hexdigest : String} (hlen : hexdigest.toList.length = 64)
    (hhex : ∀ c ∈ hexdigest.toList, c ∈ "0123456789abcdef".toList) (w : W) :
    fanout root hexdigest ++ hexdigest ≠ (artifactNaming sha root data huuid).scratch w := by
  intro h
  have hlist := congrArg String.toList h
  rw [Naming.scratch, String.toList_append, String.toList_append] at hlist
  have hname := (List.append_inj hlist (by simp [artifactNaming, fanout, hlen, sha.length_eq])).2
  refine not_mem_hex (c := '.') hhex (by decide) ?_
  rw [hname]
  simp

/-- **Main theorem.** In every interleaving of any number of writers, with writes that stop half-way
and writers that fail or die: the bytes of a writer that returned are what its address gives, then
and ever after; an address gives nothing but whole bytes that some writer put and that it is the
address of; and no writer fails for a file that is not there. -/
theorem artifactStore_run
    (hcollide : ∀ w w', sha.hexdigest (data w) = sha.hexdigest (data w') → data w = data w')
    {as : List (AtomicWrite.Action W Bytes)} {s : State W String Bytes Empty}
    (hrun : Transition.run (storeStep sha root data huuid) init as = some s) :
    (∀ w v, s.stage w = .returned v → ∀ bs t,
      Transition.run (storeStep sha root data huuid) s bs = some t →
        artifactGet root t.files (contentAddress sha (data w)) = .ok (data w)) ∧
    (∀ address bytes, artifactGet root s.files address = .ok bytes → ∃ w, bytes = data w ∧
      (address = contentAddress sha (data w) ∨ address = sha.hexdigest (data w))) ∧
    ∀ w, s.stage w ≠ .failed .noFile := by
  have hsound := run_sound hrun
  refine ⟨fun w v hstage bs t hlater => ?_, fun address bytes hget => ?_,
    fun w hstage => hsound.stage_of_eq hstage⟩
  · obtain ⟨-, hsome⟩ := hsound.stage_of_eq hstage
    obtain ⟨hpresent, -⟩ := run_present hlater hsome (by rw [hstage]; exact trivial)
    obtain ⟨bytes, hbytes⟩ := Option.isSome_iff_exists.mp hpresent
    obtain ⟨w', hpath, hdata⟩ := (hsound.run hlater).files_path hbytes
    have hdigest := (artifactNaming sha root data huuid).append_dir_inj hpath
    rw [← Except.ok.inj hdata, hcollide w' w hdigest] at hbytes
    exact artifactGet_eq_ok.mpr ⟨_, sha.length_eq _, sha.hex _, .inl rfl, hbytes⟩
  · obtain ⟨hexdigest, hlen, hhex, haddress, hfile⟩ := artifactGet_eq_ok.mp hget
    obtain ⟨w, hpath, hdata⟩ := hsound.files _ _ (file_ne_scratch hlen hhex) hfile
    have hlist := congrArg String.toList hpath
    rw [show (artifactNaming sha root data huuid).layout.path w =
      fanout root (sha.hexdigest (data w)) ++ sha.hexdigest (data w) from rfl, String.toList_append,
      String.toList_append] at hlist
    obtain rfl : sha.hexdigest (data w) = hexdigest :=
      String.toList_inj.mp (List.append_inj hlist (by simp [fanout, hlen, sha.length_eq])).2
    exact ⟨w, (Except.ok.inj hdata).symm, haddress⟩

/-- A digest for lists of less than sixteen bytes. -/
def countDigest : Sha256 (List ℕ) where
  hexdigest bytes := lengthDigest.hexdigest (String.ofList (bytes.map fun _ => 'x'))
  length_eq _ := lengthDigest.length_eq _
  hex _ := lengthDigest.hex _

/-- Two writers of the same bytes, and a third of others. -/
def threeWriters : Fin 3 → List ℕ
  | 0 => [1, 2]
  | 1 => [1, 2]
  | 2 => [3]

theorem twice_stored : ∃ s, Transition.run
      (storeStep countDigest "root" threeWriters threeNames_injective) init
        [.start 0, .start 1, .fetch 0, .fetch 1, .writeAll 0, .writePart 1 [1], .replace 0,
          .writeAll 1, .replace 1] = some s ∧
    (∀ w v, s.stage w = .returned v → ∀ bs t,
      Transition.run (storeStep countDigest "root" threeWriters threeNames_injective) s bs =
        some t →
        artifactGet "root" t.files (contentAddress countDigest (threeWriters w)) =
          .ok (threeWriters w)) ∧
    (∀ address bytes, artifactGet "root" s.files address = .ok bytes →
      ∃ w, bytes = threeWriters w ∧ (address = contentAddress countDigest (threeWriters w) ∨
        address = countDigest.hexdigest (threeWriters w))) ∧
    ∀ w, s.stage w ≠ .failed .noFile := by
  have hrun : (Transition.run (storeStep countDigest "root" threeWriters threeNames_injective) init
      [.start 0, .start 1, .fetch 0, .fetch 1, .writeAll 0, .writePart 1 [1], .replace 0,
        .writeAll 1, .replace 1]).isSome := by decide +kernel
  obtain ⟨s, hs⟩ := Option.isSome_iff_exists.mp hrun
  exact ⟨s, hs, artifactStore_run (by decide) hs⟩

end Store

end AstroMine.Cloud
