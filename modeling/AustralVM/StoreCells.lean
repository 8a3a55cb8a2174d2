import AustralVM.Chunker
import AustralVM.KeyedSets

/-!
# Cells of the package store

A cell is stored as its chunks and a manifest, which is written without limits on the
length of its strings and on the number of its chunks.  Reading a manifest has such
limits.
-/

namespace AustralVM.Cas

open AustralVM.Comp List Manifest

def hexDigits (bytes : List UInt8) : String :=
  String.ofList (bytes.flatMap fun byte =>
    [Nat.digitChar (byte.toNat / 16), Nat.digitChar (byte.toNat % 16)])

/-- The digests of the chunks in the index, and the files of the manifests by identity.
What the packs hold is left out. -/
structure ChunkStore where
  chunker : ChunkerConfig
  index : List Digest
  manifests : List (Digest × List UInt8)

namespace ChunkStore

section

variable (blake3 : List UInt8 → Digest)

/-- Every chunk of the manifest must be in the index. -/
def putManifest (store : ChunkStore) (manifest : Manifest) :
    Except CasError (Digest × ChunkStore) :=
  match manifest.chunks.find? (· ∉ store.index) with
  | some missing => .error (.notFound ("chunk " ++ hexDigits missing.toList ++ " of manifest"))
  | none =>
    let id := manifest.identityDigest blake3
    .ok (id, { store with
      manifests := (id, manifest.encodeSigned) :: store.manifests.filter (·.1 ≠ id) })

def getManifest (store : ChunkStore) (id : Digest) : Except CasError Manifest :=
  match store.manifests.lookup id with
  | none => .error (.notFound (hexDigits id.toList))
  | some bytes => do
    let manifest ← decode bytes
    ensure (manifest.identityDigest blake3 = id)
      (.corrupt "manifest file does not hash to its name")
    return manifest

/-- The chunks that are new go to the index before the manifest is put. -/
def putBuffer (store : ChunkStore) (name version : String) (data : List UInt8)
    (drvHash : Option Digest) : Except CasError (Manifest × ChunkStore) := do
  let chunks ← chunkPayload blake3 data store.chunker
  let hashes := chunks.map Chunk.hash
  let manifest : Manifest :=
    { new name version with
      totalSize := UInt64.ofNat data.length
      chunks := hashes
      drvHash }
  let index := store.index ++ (hashes.filter (· ∉ store.index)).dedup
  let (_, after) ← putManifest blake3 { store with index } manifest
  return (manifest, after)

/-- A collection reads all manifests for their chunks. -/
def readManifests (store : ChunkStore) : Except CasError Unit :=
  (store.manifests.map Prod.fst).forM fun id => do let _ ← getManifest blake3 store id

end

variable {blake3 : List UInt8 → Digest} {store after : ChunkStore} {manifest : Manifest} {id : Digest}

section

variable (put : putManifest blake3 store manifest = .ok (id, after))
include put

theorem putManifest_eq_ok :
    id = manifest.identityDigest blake3 ∧
      after.manifests = (id, manifest.encodeSigned) :: store.manifests.filter (·.1 ≠ id) := by
  rw [putManifest] at put
  split at put
  · cases put
  · cases put
    exact ⟨rfl, rfl⟩

theorem getManifest_of_putManifest :
    getManifest blake3 after id = .ok manifest ↔ manifest.Fits := by
  obtain ⟨idEq, files⟩ := putManifest_eq_ok put
  rw [getManifest, files, lookup_cons_self]
  constructor
  · intro got
    obtain ⟨_, decoded, checked⟩ := bind_eq_ok.mp got
    obtain ⟨-, returned⟩ := ensure_bind_eq_ok.mp checked
    rw [← pure_eq_ok.mp returned]
    exact (decode_eq_ok decoded).2
  · intro fits
    have decoded := decode_encodeSigned fits
    exact bind_eq_ok.mpr ⟨manifest, decoded,
      ensure_bind_eq_ok.mpr ⟨idEq.symm, rfl⟩⟩

theorem getManifest_of_putManifest_ne
    (different : other ≠ id) : getManifest blake3 after other = getManifest blake3 store other := by
  have otherId : (other == id) = false := by simpa using different
  simp only [getManifest, (putManifest_eq_ok put).2, lookup_cons, otherId,
    lookup_filter_ne, if_neg different]

theorem readManifests_of_putManifest
    (fits : manifest.Fits) (allRead : readManifests blake3 store = .ok ()) :
    readManifests blake3 after = .ok () := by
  obtain ⟨-, files⟩ := putManifest_eq_ok put
  have got := (getManifest_of_putManifest put).mpr fits
  rw [readManifests, forM_eq_ok] at allRead ⊢
  intro other stored
  by_cases new : other = id
  · rw [new, got]
    rfl
  · rw [getManifest_of_putManifest_ne put new]
    apply allRead
    rw [files] at stored
    simp only [map_cons, mem_cons, new, false_or, mem_map, mem_filter] at stored
    obtain ⟨entry, ⟨member, -⟩, isOther⟩ := stored
    exact mem_map.mpr ⟨entry, member, isOther⟩

end

/-- **A cell is read back if it is within the limits of the reader**, and then it does
not make a collection fail that did not fail before.  This holds for manifests that are
put and for those of buffers. -/
theorem cell_is_read_back_iff (blake3 : List UInt8 → Digest) (store : ChunkStore) :
    (∀ manifest id after, putManifest blake3 store manifest = .ok (id, after) →
      (getManifest blake3 after id = .ok manifest ↔ manifest.Fits) ∧
      (manifest.Fits → readManifests blake3 store = .ok () → readManifests blake3 after = .ok ())) ∧
      ∀ name version data drvHash manifest after,
        putBuffer blake3 store name version data drvHash = .ok (manifest, after) →
        (getManifest blake3 after (manifest.identityDigest blake3) = .ok manifest ↔ manifest.Fits) ∧
        (manifest.Fits → readManifests blake3 store = .ok () →
          readManifests blake3 after = .ok ()) := by
  refine ⟨fun manifest id after put => ?_, ?_⟩
  · exact ⟨getManifest_of_putManifest put, readManifests_of_putManifest put⟩
  · intro _ _ _ _ _ _ put
    obtain ⟨_, -, put⟩ := bind_eq_ok.mp put
    obtain ⟨⟨_, _⟩, putManifest, returned⟩ := bind_eq_ok.mp put
    cases returned
    rw [← (putManifest_eq_ok putManifest).1]
    exact ⟨getManifest_of_putManifest putManifest,
      fun fits allRead => readManifests_of_putManifest putManifest fits allRead⟩

theorem cell_is_read_back_at_twoChunks : ∃ id after,
    putManifest lengthDigest ⟨⟨1, 1, 1⟩, twoChunks.chunks, []⟩ twoChunks = .ok (id, after) ∧
      getManifest lengthDigest after id = .ok twoChunks := by
  obtain ⟨id, after, put⟩ : ∃ id after,
      putManifest lengthDigest ⟨⟨1, 1, 1⟩, twoChunks.chunks, []⟩ twoChunks = .ok (id, after) :=
    ⟨_, _, rfl⟩
  exact ⟨id, after, put, ((cell_is_read_back_iff lengthDigest _).1 _ _ _ put).1.mpr fits_twoChunks⟩

/-- A manifest that lists one chunk over and over. -/
def repeated (count : Nat) : Manifest :=
  { new "lib" "1" with chunks := List.replicate count (List.Vector.replicate 32 0) }

theorem exists_putManifest_repeated (blake3 : List UInt8 → Digest) (count : Nat) :
    ∃ store id after, putManifest blake3 store (repeated count) = .ok (id, after) := by
  let store : ChunkStore := ⟨⟨1, 1, 1⟩, [List.Vector.replicate 32 0], []⟩
  have present : (repeated count).chunks.find? (· ∉ store.index) = none := by
    rw [find?_eq_none]
    intro _ member
    simp [store, (mem_replicate.mp member).2]
  exact ⟨store, _, _, by rw [putManifest, present]⟩

/-- The reader refuses a manifest with one chunk more than its limit. -/
theorem accepted_cell_cannot_be_read : ∃ store id after,
      putManifest lengthDigest store (repeated (2 ^ 24 + 1)) = .ok (id, after) ∧
      getManifest lengthDigest after id ≠ .ok (repeated (2 ^ 24 + 1)) := by
  obtain ⟨store, id, after, put⟩ := exists_putManifest_repeated lengthDigest (2 ^ 24 + 1)
  refine ⟨store, id, after, put, fun got => ?_⟩
  have fits := ((getManifest_of_putManifest put).mp got).chunks
  have count : (repeated (2 ^ 24 + 1)).chunks.length = 2 ^ 24 + 1 := length_replicate
  omega

end ChunkStore

end AustralVM.Cas
