import AustralVM.RemoteSync

/-!
# Signed cells

The identity of a manifest leaves the signature out, so the signed and the unsigned
manifest of a cell are one file.  Storing a buffer and pulling a manifest write that file
whatever it holds.
-/

namespace AustralVM.Cas

open AustralVM.Comp Manifest ChunkStore

/-- The signature scheme. -/
structure Ed25519 where
  Key : Type
  fromBytes : List.Vector UInt8 32 → Except String Key
  verify : Key → Digest → List.Vector UInt8 64 → Except String Unit

section

variable (crypto : Ed25519) (blake3 : List UInt8 → Digest)

def verifyManifest (manifest : Manifest) : Except CasError Unit :=
  match manifest.pubkey, manifest.signature with
  | none, _ => .error (.signature "manifest carries no public key")
  | some _, none => .error (.signature "manifest is unsigned")
  | some bytes, some signature => do
    let key ← (crypto.fromBytes bytes).mapError fun error =>
      .signature ("invalid public key: " ++ error)
    (crypto.verify key (manifest.identityDigest blake3) signature).mapError fun error =>
      .signature ("signature mismatch: " ++ error)

/-- Whether a hot store goes on with a manifest. -/
def checkSignature (enforce : Bool) (id : Digest) (manifest : Manifest) : Except CasError Unit :=
  match manifest.pubkey, manifest.signature, enforce with
  | some _, some _, _ => verifyManifest crypto blake3 manifest
  | none, none, false => .ok ()
  | _, _, _ => .error (.signature ("manifest " ++ hexDigits id.toList ++
      " is unsigned and this hot store requires signatures"))

/-- The manifest that a remote answers with. -/
def Remote.receiveManifest (remote : Remote) (id : Digest)
    (answer : Except String (Status × Except String (List UInt8))) : Except CasError Manifest := do
  let url := remote.base ++ "/manifests/" ++ hexDigits id.toList
  let (status, body) ← answer.mapError (failed ("GET " ++ url ++ ": "))
  ensure (status.code ≠ 404) (.notFound (hexDigits id.toList))
  ensure status.isSuccess (statusErr "GET" url status)
  let bytes ← body.mapError (failed ("GET " ++ url ++ " body: "))
  let manifest ← (decode bytes).mapError fun error =>
    failed ("manifest " ++ hexDigits id.toList ++ " undecodable: ") error.display
  let identity := manifest.identityDigest blake3
  ensure (identity = id) (.corrupt ("remote manifest " ++ hexDigits id.toList ++
    " has identity " ++ hexDigits identity.toList))
  return manifest

def Remote.pullManifest (remote : Remote) (store : ChunkStore) (id : Digest)
    (answer : Except String (Status × Except String (List UInt8))) :
    Except CasError ChunkStore := do
  let manifest ← remote.receiveManifest blake3 id answer
  let (_, after) ← store.putManifest blake3 manifest
  return after

/-- What may happen to the manifests, other than that one is dropped. -/
inductive ManifestWrite
  | ingest (name version : String) (data : List UInt8) (drvHash : Option Digest)
  | pull (remote : Remote) (id : Digest)
      (answer : Except String (Status × Except String (List UInt8)))

/-- A call that fails leaves the manifests as they are. -/
def ManifestWrite.apply (store : ChunkStore) : ManifestWrite → ChunkStore
  | ingest name version data drvHash =>
    match store.putBuffer blake3 name version data drvHash with
    | .ok (_, after) => after
    | .error _ => store
  | pull remote id answer => (remote.pullManifest blake3 store id answer).toOption.getD store

/-- A hot store that enforces signatures loads the manifest. -/
def Loads (store : ChunkStore) (id : Digest) : Prop :=
  ∃ manifest, store.getManifest blake3 id = .ok manifest ∧
    checkSignature crypto blake3 true id manifest = .ok ()

/-- The buffer is not that of the cell, and a manifest of the cell that a remote sends is
signed. -/
def ManifestWrite.Keeps (id : Digest) (store : ChunkStore) : ManifestWrite → Prop
  | ingest name version data drvHash => ∀ chunks,
    chunkPayload blake3 data store.chunker = .ok chunks →
      identityDigest blake3 { new name version with
        totalSize := UInt64.ofNat data.length
        chunks := chunks.map Chunk.hash
        drvHash } ≠ id
  | pull remote other answer => other = id → ∀ manifest,
    remote.receiveManifest blake3 id answer = .ok manifest →
      verifyManifest crypto blake3 manifest = .ok ()

/-- Every write of a run is one that keeps the cell. -/
def KeepsAll (id : Digest) : ChunkStore → List ManifestWrite → Prop
  | _, [] => True
  | store, write :: writes =>
    write.Keeps crypto blake3 id store ∧ KeepsAll id (write.apply blake3 store) writes

end

variable {crypto : Ed25519} {blake3 : List UInt8 → Digest} {id written : Digest}

theorem receiveManifest_eq_ok {remote : Remote}
    (received : remote.receiveManifest blake3 id answer = .ok manifest) :
    manifest.identityDigest blake3 = id ∧ manifest.Fits := by
  obtain ⟨⟨_, _⟩, -, received⟩ := bind_eq_ok.mp received
  obtain ⟨-, received⟩ := ensure_bind_eq_ok.mp received
  obtain ⟨-, received⟩ := ensure_bind_eq_ok.mp received
  obtain ⟨bytes, -, received⟩ := bind_eq_ok.mp received
  obtain ⟨_, decoded, received⟩ := bind_eq_ok.mp received
  obtain ⟨same, returned⟩ := ensure_bind_eq_ok.mp received
  cases returned
  cases read : decode bytes with
  | error => simp [read, Except.mapError] at decoded
  | ok =>
    rw [read] at decoded
    cases decoded
    exact ⟨same, (decode_eq_ok read).2⟩

theorem loads_of_verifyManifest (got : getManifest blake3 store id = .ok manifest)
    (verified : verifyManifest crypto blake3 manifest = .ok ()) : Loads crypto blake3 store id := by
  refine ⟨manifest, got, ?_⟩
  cases key : manifest.pubkey with
  | none => simp [verifyManifest, key] at verified
  | some =>
    cases signature : manifest.signature with
    | none => simp [verifyManifest, key, signature] at verified
    | some signature =>
      unfold checkSignature
      rw [key, signature]
      exact verified

theorem loads_of_putManifest_ne (put : putManifest blake3 store manifest = .ok (written, after))
    (different : id ≠ written) (loads : Loads crypto blake3 store id) :
    Loads crypto blake3 after id := by
  obtain ⟨found, got, accepted⟩ := loads
  exact ⟨found, (getManifest_of_putManifest_ne put different).trans got, accepted⟩

theorem loads_apply (loads : Loads crypto blake3 store id)
    (keeps : ManifestWrite.Keeps crypto blake3 id store write) :
    Loads crypto blake3 (write.apply blake3 store) id := by
  cases write with
  | ingest =>
    rw [ManifestWrite.apply]
    split
    next manifest after put =>
      obtain ⟨chunks, cut, put⟩ := bind_eq_ok.mp put
      obtain ⟨⟨_, _⟩, put, returned⟩ := bind_eq_ok.mp put
      cases returned
      have different := keeps chunks cut
      rw [← (putManifest_eq_ok put).1] at different
      exact loads_of_putManifest_ne put different.symm loads
    next => exact loads
  | pull remote other answer =>
    rw [ManifestWrite.apply]
    cases pulled : remote.pullManifest blake3 store other answer with
    | error => exact loads
    | ok =>
      obtain ⟨manifest, received, pulled⟩ := bind_eq_ok.mp pulled
      obtain ⟨⟨written, _⟩, put, returned⟩ := bind_eq_ok.mp pulled
      cases returned
      obtain ⟨identity, fits⟩ := receiveManifest_eq_ok received
      obtain rfl := (putManifest_eq_ok put).1.trans identity
      by_cases same : id = written
      · subst same
        exact loads_of_verifyManifest ((getManifest_of_putManifest put).mpr fits)
          (keeps rfl manifest received)
      · exact loads_of_putManifest_ne put same loads

/-- **A signed cell stays one that an enforcing hot store loads** in every run in which no
buffer of the cell is stored again and no remote sends an unsigned or a wrongly signed
manifest of it. -/
theorem signed_cell_stays_loadable (crypto : Ed25519) (blake3 : List UInt8 → Digest) (id : Digest)
    (store : ChunkStore) (writes : List ManifestWrite) (loads : Loads crypto blake3 store id)
    (keeps : KeepsAll crypto blake3 id store writes) :
    Loads crypto blake3 (writes.foldl (ManifestWrite.apply blake3) store) id := by
  induction writes generalizing store with
  | nil => exact loads
  | cons _ _ ih => exact ih _ (loads_apply loads keeps.1) keeps.2

/-- A scheme whose signatures are the key and the digest. -/
def plainSignature : Ed25519 where
  Key := List.Vector UInt8 32
  fromBytes := .ok
  verify (key : List.Vector UInt8 32) digest signature :=
    if signature.toList = key.toList ++ digest.toList then .ok () else .error "signature error"

def signManifest (manifest : Manifest) (key : List.Vector UInt8 32) : Manifest :=
  { manifest with
    pubkey := some key
    signature := some (key ++ manifest.identityDigest lengthDigest) }

/-- The empty cell, signed with a key. -/
def signedManifest (key : UInt8) : Manifest := signManifest (new "lib" "1") (.replicate 32 key)

def signedId : Digest := (new "lib" "1").identityDigest lengthDigest

def signedStore : ChunkStore := ⟨⟨1, 1, 1⟩, [], [(signedId, (signedManifest 0).encodeSigned)]⟩

theorem fits_signedManifest (key : UInt8) : (signedManifest key).Fits := by
  have named : (new "lib" "1").Fits := ⟨by decide +kernel, by decide +kernel, by decide +kernel⟩
  exact ⟨named.name, named.version, named.chunks⟩

theorem verify_signedManifest (key : UInt8) :
    verifyManifest plainSignature lengthDigest (signedManifest key) = .ok () := by
  have accepted := List.Vector.toList_append (List.Vector.replicate 32 key) signedId
  exact congrArg (Except.mapError _) (if_pos accepted)

theorem loads_signed : Loads plainSignature lengthDigest signedStore signedId := by
  have put : putManifest lengthDigest ⟨⟨1, 1, 1⟩, [], []⟩ (signedManifest 0) =
      .ok (signedId, signedStore) := rfl
  exact loads_of_verifyManifest ((getManifest_of_putManifest put).mpr (fits_signedManifest 0))
    (verify_signedManifest 0)

/-- Another buffer is stored, and a remote sends the cell signed with another key. -/
theorem signed_cell_stays_loadable_at_writes : let writes : List ManifestWrite :=
      [.ingest "lib" "2" [7] none, .pull ⟨"cache", fun _ => .error "closed"⟩ signedId
        (.ok (⟨200, "OK"⟩, .ok (signedManifest 1).encodeSigned))]
    Loads plainSignature lengthDigest
      (writes.foldl (ManifestWrite.apply lengthDigest) signedStore) signedId := by
  refine signed_cell_stays_loadable plainSignature lengthDigest signedId signedStore _
    loads_signed ⟨?_, ?_, trivial⟩
  · intro chunks cut
    have oneChunk : chunkPayload lengthDigest [7] signedStore.chunker =
        .ok [⟨0, 1, lengthDigest [7]⟩] := by
      rw [chunkPayload, dif_pos ⟨by decide, by decide, by decide⟩]
      simp [chunksFrom, cutPoint, signedStore]
    cases oneChunk.symm.trans cut
    decide +kernel
  · intro _ manifest received
    obtain ⟨⟨_, _⟩, ⟨⟩, received⟩ := bind_eq_ok.mp received
    obtain ⟨-, received⟩ := ensure_bind_eq_ok.mp received
    obtain ⟨-, received⟩ := ensure_bind_eq_ok.mp received
    obtain ⟨_, ⟨⟩, received⟩ := bind_eq_ok.mp received
    obtain ⟨_, decoded, received⟩ := bind_eq_ok.mp received
    obtain ⟨-, ⟨⟩⟩ := ensure_bind_eq_ok.mp received
    rw [decode_encodeSigned (fits_signedManifest 1)] at decoded
    cases decoded
    exact verify_signedManifest 1

/-- The empty buffer is stored again, and the signature is gone. -/
theorem ingest_drops_signature : Loads plainSignature lengthDigest signedStore signedId ∧
      ¬ Loads plainSignature lengthDigest
        (ManifestWrite.apply lengthDigest signedStore (.ingest "lib" "1" [] none)) signedId := by
  refine ⟨loads_signed, ?_⟩
  rintro ⟨_, got, accepted⟩
  have cut : chunkPayload lengthDigest [] signedStore.chunker = .ok [] := by
    rw [chunkPayload, dif_pos ⟨by decide, by decide, by decide⟩, chunksFrom]
    rfl
  have put : putManifest lengthDigest signedStore (new "lib" "1") =
      .ok (signedId, ManifestWrite.apply lengthDigest signedStore
        (.ingest "lib" "1" [] none)) := by
    rw [ManifestWrite.apply, putBuffer, cut]
    rfl
  rw [(getManifest_of_putManifest put).mpr
    ⟨by decide +kernel, by decide +kernel, by decide +kernel⟩] at got
  cases got
  cases accepted

end AustralVM.Cas
