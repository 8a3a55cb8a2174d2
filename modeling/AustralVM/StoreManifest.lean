import AustralVM.Errors
import AustralVM.WireFormat
import Mathlib.Data.Set.Function

/-!
# Manifests of the package store

A manifest names the chunks of a cell in the order in which they are put
together.  It is stored as bytes, and its identity is the hash of those bytes
without the key and the signature, so that signing does not change it.
-/

namespace AustralVM.Cas

open ByteParser

abbrev Digest := List.Vector UInt8 32

inductive CasError
  | io (message : String)
  | notFound (what : String)
  | corrupt (what : String)
  | signature (what : String)
  | capacity (what : String)
  | codec (id : UInt8)
  | remote (what : String)
  deriving DecidableEq, Repr

structure Manifest where
  name : String
  version : String
  totalSize : UInt64
  chunks : List Digest
  drvHash : Option Digest
  pubkey : Option (List.Vector UInt8 32)
  signature : Option (List.Vector UInt8 64)
  deriving DecidableEq

def Manifest.new (name version : String) : Manifest :=
  ⟨name, version, 0, [], none, none, none⟩

/-! ## Writing -/

/-- A byte that tells whether the field is there, and the field. -/
def writeOptional {count : Nat} : Option (List.Vector UInt8 count) → List UInt8
  | none => [0]
  | some data => 1 :: data.toList

def manifestMagic : List UInt8 := [0x41, 0x56, 0x4D, 0x4D]

def manifestFormat : Nat := 1

namespace Manifest

def encodeUnsigned (manifest : Manifest) : List UInt8 :=
  manifestMagic ++ LittleEndian.encode 2 manifestFormat ++
    writeString manifest.name ++ writeString manifest.version ++
    LittleEndian.encode 8 manifest.totalSize.toNat ++ writeOptional manifest.drvHash ++
    writeU32 manifest.chunks.length ++ manifest.chunks.flatMap List.Vector.toList

def encodeSigned (manifest : Manifest) : List UInt8 :=
  manifest.encodeUnsigned ++ writeOptional manifest.pubkey ++ writeOptional manifest.signature

def identityDigest (blake3 : List UInt8 → Digest) (manifest : Manifest) : Digest :=
  blake3 manifest.encodeUnsigned

end Manifest

/-! ## Reading -/

namespace Reader

def truncated : CasError := .corrupt "manifest truncated"

def take (count : Nat) : ByteParser CasError (List UInt8) := ByteParser.take truncated count

def u8 : ByteParser CasError UInt8 := ByteParser.byte truncated

def u16 : ByteParser CasError Nat := ByteParser.number truncated 2

def u32 : ByteParser CasError Nat := ByteParser.number truncated 4

def u64 : ByteParser CasError UInt64 := UInt64.ofNat <$> ByteParser.number truncated 8

def array (count : Nat) : ByteParser CasError (List.Vector UInt8 count) :=
  ByteParser.array truncated count

def text (data : List UInt8) : Except CasError String :=
  match fromUtf8 data with
  | some text => .ok text
  | none => .error (.corrupt "manifest string not utf-8")

def string : ByteParser CasError String := do
  let length ← u32
  require (length ≤ 2 ^ 20) (.corrupt "string length implausible")
  let data ← take length
  ByteParser.ofExcept (text data)

/-- A field after the byte that tells whether it is there. -/
def optional (field : String) (count : Nat) :
    ByteParser CasError (Option (List.Vector UInt8 count)) := do
  match ← u8 with
  | 0 => pure none
  | 1 => some <$> array count
  | _ => ByteParser.fail (.corrupt (field ++ " presence byte invalid"))

end Reader

open Reader

namespace Manifest

def read : ByteParser CasError Manifest := do
  let magic ← take 4
  require (magic = manifestMagic) (.corrupt "manifest magic mismatch")
  let format ← u16
  require (format = manifestFormat)
    (.corrupt ("manifest format " ++ toString format ++ " unsupported"))
  let name ← string
  let version ← string
  let totalSize ← u64
  let drvHash ← optional "drv_hash" 32
  let count ← u32
  require (count ≤ 2 ^ 24) (.corrupt "manifest chunk count implausible")
  let chunks ← times count (array 32)
  let pubkey ← optional "pubkey" 32
  let signature ← optional "signature" 64
  return ⟨name, version, totalSize, chunks, drvHash, pubkey, signature⟩

def decode (bytes : List UInt8) : Except CasError Manifest := do
  let (manifest, rest) ← read bytes
  ensure (rest = []) (.corrupt "trailing bytes after manifest")
  return manifest

structure Fits (manifest : Manifest) : Prop where
  name : (utf8 manifest.name).length ≤ 2 ^ 20
  version : (utf8 manifest.version).length ≤ 2 ^ 20
  chunks : manifest.chunks.length ≤ 2 ^ 24

def contents (manifest : Manifest) : String × String × UInt64 × Option Digest × List Digest :=
  (manifest.name, manifest.version, manifest.totalSize, manifest.drvHash, manifest.chunks)

end Manifest

/-! ## The fields -/

namespace Reader

theorem text_eq_ok : text data = .ok found ↔ utf8 found = data := by
  rw [← fromUtf8_eq_some, text]
  cases fromUtf8 data with
  | none => simp
  | some => simp

theorem yields_u64 (value : UInt64) :
    Yields u64 (LittleEndian.encode 8 value.toNat) (.ok value) := by
  have fits : value.toNat < 256 ^ 8 := value.toNat_lt
  have read := (yields_number truncated fits).map_ok UInt64.ofNat
  rwa [UInt64.ofNat_toNat] at read

theorem yields_string (fits : (utf8 value).length ≤ 2 ^ 20) :
    Yields string (writeString value) (.ok value) := by
  have length : (utf8 value).length < 256 ^ 4 := by omega
  have isText : text (utf8 value) = .ok value := text_eq_ok.mpr rfl
  apply (yields_number truncated length).andThen
  apply Yields.afterRequire fits
  apply (yields_take truncated (utf8 value) rfl).andFinish
  rw [isText]
  exact yields_ofExcept (.ok value)

theorem yields_optional (field : String) {count : Nat} (value : Option (List.Vector UInt8 count)) :
    Yields (optional field count) (writeOptional value) (.ok value) := by
  cases value with
  | none => exact (yields_byte truncated 0).andFinish (yields_pure none)
  | some data =>
    apply (yields_byte truncated 1).andThen
    exact (yields_array truncated data).map_ok some

theorem u64_eq_ok (parsed : u64 bytes = .ok (value, rest)) :
    bytes = LittleEndian.encode 8 value.toNat ++ rest := by
  rw [u64, map_eq_pure_bind] at parsed
  obtain ⟨number, _, read, parsed⟩ := bind_eq_ok parsed
  cases parsed
  obtain ⟨bytesEq, fits⟩ := number_eq_ok read
  have kept : (UInt64.ofNat number).toNat = number := by
    rw [UInt64.toNat_ofNat']
    exact Nat.mod_eq_of_lt fits
  rw [kept]
  exact bytesEq

theorem string_eq_ok (parsed : string bytes = .ok (value, rest)) :
    bytes = writeString value ++ rest ∧ (utf8 value).length ≤ 2 ^ 20 := by
  obtain ⟨_, _, readLength, parsed⟩ := bind_eq_ok parsed
  obtain ⟨small, parsed⟩ := require_bind_eq_ok parsed
  obtain ⟨_, _, taken, parsed⟩ := bind_eq_ok parsed
  obtain ⟨isText, rfl⟩ := ofExcept_eq_ok parsed
  obtain ⟨rfl, rfl⟩ := take_eq_ok_iff.mp taken
  obtain rfl := text_eq_ok.mp isText
  obtain ⟨bytesEq, -⟩ := number_eq_ok readLength
  rw [writeString, writeU32, List.append_assoc]
  exact ⟨bytesEq, small⟩

theorem optional_eq_ok {field : String} {count : Nat} {bytes rest : List UInt8}
    {value : Option (List.Vector UInt8 count)}
    (parsed : optional field count bytes = .ok (value, rest)) :
    bytes = writeOptional value ++ rest := by
  rw [optional] at parsed
  obtain ⟨_, _, readPresence, parsed⟩ := bind_eq_ok parsed
  rw [byte_eq_ok readPresence]
  split at parsed
  · cases parsed
    rfl
  · rw [map_eq_pure_bind] at parsed
    obtain ⟨_, _, read, parsed⟩ := bind_eq_ok parsed
    cases parsed
    rw [array_eq_ok_iff.mp read]
    rfl
  · cases parsed

theorem reads_array (count : Nat) : ByteParser.Reads List.Vector.toList (array count) :=
  fun _ _ _ => array_eq_ok_iff.mp

end Reader

/-! ## The format -/

namespace Manifest

variable {manifest manifest' : Manifest}

theorem yields_read (fits : manifest.Fits) : Yields read manifest.encodeSigned (.ok manifest) := by
  have count : manifest.chunks.length < 256 ^ 4 := by
    have := fits.chunks
    omega
  have chunks : Yields (times manifest.chunks.length (array 32))
      (manifest.chunks.flatMap List.Vector.toList) (.ok manifest.chunks) :=
    yields_times_ok fun chunk _ => yields_array truncated chunk
  simp only [encodeSigned, encodeUnsigned, List.append_assoc]
  apply (yields_take truncated manifestMagic rfl).andThen
  apply Yields.afterRequire rfl
  apply (yields_number truncated (by decide : manifestFormat < 256 ^ 2)).andThen
  apply Yields.afterRequire rfl
  apply (yields_string fits.name).andThen
  apply (yields_string fits.version).andThen
  apply (yields_u64 manifest.totalSize).andThen
  apply (yields_optional "drv_hash" manifest.drvHash).andThen
  apply (yields_number truncated count).andThen
  apply Yields.afterRequire fits.chunks
  apply chunks.andThen
  apply (yields_optional "pubkey" manifest.pubkey).andThen
  apply (yields_optional "signature" manifest.signature).andFinish
  exact yields_pure manifest

theorem read_eq_ok (parsed : read bytes = .ok (manifest, rest)) :
    bytes = manifest.encodeSigned ++ rest ∧ manifest.Fits := by
  obtain ⟨_, _, taken, parsed⟩ := bind_eq_ok parsed
  obtain ⟨isMagic, parsed⟩ := require_bind_eq_ok parsed
  obtain ⟨_, _, readFormat, parsed⟩ := bind_eq_ok parsed
  obtain ⟨isFormat, parsed⟩ := require_bind_eq_ok parsed
  obtain ⟨_, _, readName, parsed⟩ := bind_eq_ok parsed
  obtain ⟨_, _, readVersion, parsed⟩ := bind_eq_ok parsed
  obtain ⟨_, _, readSize, parsed⟩ := bind_eq_ok parsed
  obtain ⟨_, _, readHash, parsed⟩ := bind_eq_ok parsed
  obtain ⟨_, _, readCount, parsed⟩ := bind_eq_ok parsed
  obtain ⟨few, parsed⟩ := require_bind_eq_ok parsed
  obtain ⟨_, _, readChunks, parsed⟩ := bind_eq_ok parsed
  obtain ⟨_, _, readKey, parsed⟩ := bind_eq_ok parsed
  obtain ⟨_, _, readSignature, parsed⟩ := bind_eq_ok parsed
  cases parsed
  obtain ⟨magicBytes, -⟩ := take_eq_ok_iff.mp taken
  obtain ⟨formatBytes, -⟩ := number_eq_ok readFormat
  obtain ⟨nameBytes, nameFits⟩ := string_eq_ok readName
  obtain ⟨versionBytes, versionFits⟩ := string_eq_ok readVersion
  obtain ⟨countBytes, -⟩ := number_eq_ok readCount
  have chunkBytes := (reads_array 32).times readChunks
  obtain rfl := length_of_times readChunks
  constructor
  · rw [magicBytes, isMagic, formatBytes, isFormat, nameBytes, versionBytes,
      u64_eq_ok readSize, optional_eq_ok readHash, countBytes, chunkBytes,
      optional_eq_ok readKey, optional_eq_ok readSignature]
    simp only [encodeSigned, encodeUnsigned, writeU32, List.append_assoc]
  · exact ⟨nameFits, versionFits, few⟩

theorem decode_encodeSigned (fits : manifest.Fits) :
    decode manifest.encodeSigned = .ok manifest := by
  have parsed := (yields_read fits).run
  rw [decode, parsed]
  rfl

theorem decode_eq_ok (decoded : decode bytes = .ok manifest) :
    manifest.encodeSigned = bytes ∧ manifest.Fits := by
  obtain ⟨⟨_, _⟩, parsed, decoded⟩ := Comp.bind_eq_ok.mp decoded
  obtain ⟨complete, decoded⟩ := Comp.ensure_bind_eq_ok.mp decoded
  obtain rfl := Comp.pure_eq_ok.mp decoded
  obtain ⟨encoded, fits⟩ := read_eq_ok parsed
  rw [complete, List.append_nil] at encoded
  exact ⟨encoded.symm, fits⟩

def unsigned (manifest : Manifest) : Manifest :=
  { manifest with pubkey := none, signature := none }

theorem encodeUnsigned_inj (fits : manifest.Fits) (fits' : manifest'.Fits) :
    manifest.encodeUnsigned = manifest'.encodeUnsigned ↔
      manifest.contents = manifest'.contents := by
  constructor
  · intro same
    have signed : manifest.unsigned.encodeSigned = manifest'.unsigned.encodeSigned := by
      change manifest.encodeUnsigned ++ _ ++ _ = manifest'.encodeUnsigned ++ _ ++ _
      rw [same]
      rfl
    have decoded : decode manifest.unsigned.encodeSigned = .ok manifest.unsigned :=
      decode_encodeSigned ⟨fits.name, fits.version, fits.chunks⟩
    have decoded' : decode manifest'.unsigned.encodeSigned = .ok manifest'.unsigned :=
      decode_encodeSigned ⟨fits'.name, fits'.version, fits'.chunks⟩
    rw [signed, decoded'] at decoded
    have manifests : manifest'.unsigned = manifest.unsigned := Except.ok.inj decoded
    change manifest.unsigned.contents = manifest'.unsigned.contents
    rw [manifests]
  · intro same
    simp only [contents, Prod.mk.injEq] at same
    obtain ⟨name, version, size, hash, chunks⟩ := same
    simp only [encodeUnsigned, name, version, size, hash, chunks]

/-- Encoding and decoding are inverse to each other, and the identity is that of the
contents. -/
theorem manifest_format (blake3 : List UInt8 → Digest) (messages : Set (List UInt8))
    (collisionFree : Set.InjOn blake3 messages) :
    (∀ manifest : Manifest, manifest.Fits → decode manifest.encodeSigned = .ok manifest) ∧
      (∀ bytes manifest, decode bytes = .ok manifest → manifest.encodeSigned = bytes) ∧
      ∀ manifest manifest' : Manifest, manifest.Fits → manifest'.Fits →
        (manifest.encodeUnsigned = manifest'.encodeUnsigned ↔
          manifest.contents = manifest'.contents) ∧
        (manifest.encodeUnsigned ∈ messages → manifest'.encodeUnsigned ∈ messages →
          (manifest.identityDigest blake3 = manifest'.identityDigest blake3 ↔
            manifest.contents = manifest'.contents)) := by
  refine ⟨fun manifest => decode_encodeSigned,
    fun bytes manifest decoded => (decode_eq_ok decoded).1,
    fun manifest manifest' fits fits' => ⟨encodeUnsigned_inj fits fits', fun hashed hashed' => ?_⟩⟩
  rw [← encodeUnsigned_inj fits fits', identityDigest, identityDigest]
  exact collisionFree.eq_iff hashed hashed'

/-- A stand-in for the hash that keeps messages of different lengths apart. -/
def lengthDigest (message : List UInt8) : Digest :=
  List.Vector.replicate 32 (UInt8.ofNat message.length)

/-- A signed manifest of two chunks. -/
def twoChunks : Manifest where
  name := "lib"
  version := "1"
  totalSize := 70
  chunks := [.replicate 32 1, .replicate 32 2]
  drvHash := some (.replicate 32 3)
  pubkey := some (.replicate 32 4)
  signature := some (.replicate 64 5)

/-- The same with one chunk less. -/
def oneChunk : Manifest := { twoChunks with chunks := [.replicate 32 1] }

theorem fits_twoChunks : twoChunks.Fits :=
  ⟨by decide +kernel, by decide +kernel, by decide +kernel⟩

theorem manifest_format_at_twoChunks :
    Set.InjOn lengthDigest {twoChunks.encodeUnsigned, oneChunk.encodeUnsigned} ∧
      decode twoChunks.encodeSigned = .ok twoChunks ∧
      twoChunks.identityDigest lengthDigest ≠ oneChunk.identityDigest lengthDigest := by
  have collisionFree :
      Set.InjOn lengthDigest {twoChunks.encodeUnsigned, oneChunk.encodeUnsigned} := by
    rintro _ (rfl | rfl) _ (rfl | rfl) same
    · rfl
    · exact absurd same (by decide +kernel)
    · exact absurd same (by decide +kernel)
    · rfl
  obtain ⟨written, -, identified⟩ := manifest_format lengthDigest _ collisionFree
  refine ⟨collisionFree, written twoChunks fits_twoChunks, ?_⟩
  have identities := (identified twoChunks oneChunk fits_twoChunks
    ⟨by decide +kernel, by decide +kernel, by decide +kernel⟩).2 (.inl rfl) (.inr rfl)
  rw [ne_eq, identities]
  decide +kernel

end Manifest

end AustralVM.Cas
