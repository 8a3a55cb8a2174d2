import AustralVM.AvceFormat

/-!
# Cells

The builder lays out the functions of a container one after another, pads the
code to whole pages, and writes it with a header, tables of symbols and
relocations and a signature.  The view of a cell reads all of this back.
-/

namespace AustralVM.Cell

open ByteParser AustralVM.Comp UInt64
open AvceFn (body)
open List hiding length

/-- `serde_json`: how a value is written, and how bytes are read. -/
structure JsonCodec (Json : Type) where
  toVec : Json → List UInt8
  fromSlice : List UInt8 → Except String Json

/-- Ed25519: what is signed with a seed verifies with the key of the seed. -/
structure Signatures where
  sign : List.Vector UInt8 32 → List UInt8 → List.Vector UInt8 64
  verifyingKey : List.Vector UInt8 32 → List.Vector UInt8 32
  verify : List.Vector UInt8 32 → List UInt8 → List.Vector UInt8 64 → Bool
  verifies : ∀ seed message, verify (verifyingKey seed) message (sign seed message) = true

variable {Json : Type} (json : JsonCodec Json)

def avmcMagic : List UInt8 := [0x41, 0x56, 0x4D, 0x43]

def avmcVersion : Nat := 1

def page : Nat := 4096

def sigLen : Nat := 64

def archCode (name : String) : Except CellError Nat :=
  if name = "x86_64" ∨ name = "x86-64" then .ok 1
  else if name = "aarch64" ∨ name = "arm64" then .ok 2
  else .error (.arch ("cannot put arch \"" ++ name ++
    "\" into a cell header (known: x86_64, aarch64)"))

def archName (code : Nat) : Except CellError String :=
  if code = 1 then .ok "x86_64"
  else if code = 2 then .ok "aarch64"
  else .error (.arch ("unknown arch code " ++ toString code))

structure SymDef where
  name : String
  offset : UInt64
  len : UInt32
  deriving DecidableEq, Repr

/-! ## Reading -/

structure CellView (Json : Type) where
  version : Nat
  arch : Nat
  drvHash : List.Vector UInt8 32
  capabilityTable : Json
  text : List UInt8
  symdefs : List SymDef
  imports : List String
  relocs : List AvceReloc
  signature : List.Vector UInt8 64
  signed : List UInt8

structure CellHeader (Json : Type) where
  version : Nat
  arch : Nat
  drvHash : List.Vector UInt8 32
  capabilityTable : Json

namespace CellView

def readTable (data : List UInt8) : Except CellError Json :=
  match json.fromSlice data with
  | .ok table => .ok table
  | .error message => .error (.parse ("capability table is not valid JSON: " ++ message))

def readHeader (total : Nat) : ByteParser CellError (CellHeader Json) := do
  let magic ← R.take total 4
  require (magic = avmcMagic)
    (.parse ("bad AVMC magic " ++ toString (magic.map UInt8.toNat)))
  let version ← R.u16 total
  require (version = avmcVersion) (.parse ("version " ++ toString version ++ " unsupported"))
  let arch ← R.u16 total
  let _ ← ByteParser.ofExcept (archName arch)
  let drvHash ← R.array total 32
  let capLen ← R.u32 total
  require (capLen ≤ 16 * 1024 * 1024) (.parse "capability table > 16 MiB")
  let capBytes ← R.take total capLen
  let capabilityTable ← ByteParser.ofExcept (readTable json capBytes)
  return ⟨version, arch, drvHash, capabilityTable⟩

def readText (total : Nat) : ByteParser CellError (List UInt8) := do
  let length ← R.u32 total
  require (length ≠ 0 ∧ length % page = 0)
    (.parse ("text length " ++ toString length ++ " must be a positive page multiple"))
  require (length ≤ 2 ^ 30) (.parse "text > 1 GiB")
  R.take total length

def readSymDef (total length : Nat) : ByteParser CellError SymDef := do
  let name ← R.bytesStr total
  let offset ← R.u64 total
  let len ← R.u32 total
  require (offset.toNat + len < 2 ^ 64 ∧ offset.toNat + len ≤ length)
    (.parse ("symdef " ++ name ++ " runs past the text section"))
  return ⟨name, offset, UInt32.ofNat len⟩

/-- A list with its length in front, which must be plausible. -/
def counted {α : Type} (total : Nat) (tooMany : String) (item : ByteParser CellError α) :
    ByteParser CellError (List α) := do
  let count ← R.u32 total
  require (count ≤ 2 ^ 20) (.parse tooMany)
  times count item

def readSymDefs (total length : Nat) : ByteParser CellError (List SymDef) :=
  counted total "symdef count absurd" (readSymDef total length)

def readImports (total : Nat) : ByteParser CellError (List String) :=
  counted total "import count absurd" (R.bytesStr total)

def readRelocs (total length : Nat) : ByteParser CellError (List AvceReloc) :=
  counted total "reloc count absurd" <| R.reloc total length fun offset =>
    "reloc offset " ++ toString offset.toNat ++ " outside text (" ++ toString length ++ " bytes)"

/-- The trailer of a cell, which must be a signature. -/
def readSignature (total : Nat) (trailer : List UInt8) :
    Except CellError (List.Vector UInt8 64) :=
  if isSignature : trailer.length = sigLen then .ok ⟨trailer, isSignature⟩
  else .error (.parse ("K region did not end at the signature: cursor " ++
    toString (total - trailer.length) ++ " vs " ++ toString (total - sigLen)))

def parse (bytes : List UInt8) : Except CellError (CellView Json) := do
  let total := bytes.length
  ensure (0x2C + sigLen + 4 ≤ total) (.parse "cell far too short")
  let (header, afterHeader) ← readHeader json total bytes
  let (text, afterText) ← readText total afterHeader
  ensure (sigLen ≤ afterText.length) (.parse "cell truncated before signature")
  let (symdefs, afterSymDefs) ← readSymDefs total text.length afterText
  let (imports, afterImports) ← readImports total afterSymDefs
  let (relocs, trailer) ← readRelocs total text.length afterImports
  let signature ← readSignature total trailer
  return ⟨header.version, header.arch, header.drvHash, header.capabilityTable, text, symdefs,
    imports, relocs, signature, bytes.take (total - sigLen)⟩

def verifySignature (signatures : Signatures) (view : CellView Json)
    (verifyingKey : List.Vector UInt8 32) : Except CellError Unit :=
  if signatures.verify verifyingKey view.signed view.signature then .ok ()
  else .error (.sig "signature check failed")

/-- The end of the last function, or the length of the text if there is none. -/
def codeLen (view : CellView Json) : Nat :=
  ((view.symdefs.map fun symdef => symdef.offset.toNat + symdef.len.toNat).max?).getD
    view.text.length

end CellView

/-! ## Building -/

structure BuildCell (Json : Type) where
  drvHash : List.Vector UInt8 32
  capabilityTable : Json
  avce : AvceDoc
  signingSeed : List.Vector UInt8 32

/-- The code laid out so far, with its symbols and relocations. -/
structure Layout where
  text : List UInt8
  symdefs : List SymDef
  relocs : List AvceReloc
  deriving DecidableEq, Repr

/-- A relocation of a function at its place in the cell; the sum wraps around. -/
def shiftReloc (off length : Nat) (reloc : AvceReloc) : Except CellError AvceReloc :=
  let shifted := reloc.offset + ofNat off
  if shifted.toNat ≥ length then
    .error (.parse ("reloc offset " ++ toString shifted.toNat ++ " outside laid-out text"))
  else .ok { reloc with offset := shifted }

def layFunction (layout : Layout) (function : AvceFn) : Except CellError Layout := do
  let off := layout.text.length
  let text := layout.text ++ function.body
  let symdef := ⟨function.name, ofNat off, UInt32.ofNat function.body.length⟩
  let relocs ← function.relocs.mapM (shiftReloc off text.length)
  return ⟨text, layout.symdefs ++ [symdef], layout.relocs ++ relocs⟩

def writeSymDef (symdef : SymDef) : List UInt8 :=
  writeString symdef.name ++ LittleEndian.encode 8 symdef.offset.toNat ++
    writeU32 symdef.len.toNat

def pageAligned (length : Nat) : Nat := (length + (page - 1)) / page * page

def buildCell (signatures : Signatures) (spec : BuildCell Json) :
    Except CellError (List UInt8) := do
  ensure (spec.avce.functions ≠ []) (.parse "no functions to put in the cell")
  let arch ← archCode spec.avce.arch
  let capBytes := json.toVec spec.capabilityTable
  ensure (capBytes.length ≤ 16 * 1024 * 1024) (.parse "capability table > 16 MiB")
  let layout ← spec.avce.functions.foldlM layFunction ⟨[], [], []⟩
  let real := layout.text.length
  ensure (real + (page - 1) < 2 ^ 64) (.parse "text length overflow")
  let length := pageAligned real
  ensure (length ≠ 0) (.parse "empty text")
  let text := layout.text.rightpad length 0
  let signed := avmcMagic ++ LittleEndian.encode 2 avmcVersion ++ LittleEndian.encode 2 arch ++
    spec.drvHash.toList ++ writeSized capBytes ++ writeU32 length ++ text ++
    writeU32 layout.symdefs.length ++ layout.symdefs.flatMap writeSymDef ++
    writeU32 spec.avce.imports.length ++ spec.avce.imports.flatMap writeString ++
    writeU32 layout.relocs.length ++ layout.relocs.flatMap writeReloc
  return signed ++ (signatures.sign spec.signingSeed signed).toList

/-! ## The layout -/

/-- The functions with the places where their code begins. -/
def placed : Nat → List AvceFn → List (Nat × AvceFn)
  | _, [] => []
  | off, function :: functions => (off, function) :: placed (off + function.body.length) functions

theorem map_snd_placed (off : Nat) (functions : List AvceFn) :
    (placed off functions).map Prod.snd = functions := by
  induction functions generalizing off with
  | nil => rfl
  | cons _ _ ih => rw [placed, map_cons, ih]

variable {functions : List AvceFn}

theorem exists_mem_placed (off : Nat) (member : function ∈ functions) :
    ∃ start, (start, function) ∈ placed off functions := by
  rw [← map_snd_placed off functions] at member
  obtain ⟨⟨start, _⟩, isPlaced, rfl⟩ := mem_map.mp member
  exact ⟨start, isPlaced⟩

theorem end_le_of_mem_placed (member : (start, function) ∈ placed off functions) :
    start + function.body.length ≤ off + (functions.flatMap body).length := by
  induction functions generalizing off with
  | nil => cases member
  | cons _ _ ih =>
    rw [flatMap_cons, length_append]
    rw [placed] at member
    rcases mem_cons.mp member with isFirst | later
    · cases isFirst
      omega
    · have := ih later
      omega

def symdefAt (place : Nat × AvceFn) : SymDef :=
  ⟨place.2.name, ofNat place.1, UInt32.ofNat place.2.body.length⟩

def shifted (off : Nat) (reloc : AvceReloc) : AvceReloc :=
  { reloc with offset := reloc.offset + ofNat off }

def relocsAt (place : Nat × AvceFn) : List AvceReloc := place.2.relocs.map (shifted place.1)

theorem mapM_shiftReloc_eq_ok {relocs moved : List AvceReloc}
    (shift : relocs.mapM (shiftReloc off length) = .ok moved) : moved = relocs.map (shifted off) ∧
      ∀ reloc ∈ relocs, (shifted off reloc).offset.toNat < length := by
  induction relocs generalizing moved with
  | nil =>
    cases shift
    exact ⟨rfl, nofun⟩
  | cons reloc relocs ih =>
    rw [mapM_cons] at shift
    by_cases beyond : (reloc.offset + ofNat off).toNat ≥ length
    · rw [shiftReloc, if_pos beyond] at shift
      cases shift
    · rw [shiftReloc, if_neg beyond] at shift
      cases others : relocs.mapM (shiftReloc off length) with
      | error =>
        rw [others] at shift
        cases shift
      | ok =>
        rw [others] at shift
        cases shift
        obtain ⟨rfl, inside⟩ := ih others
        exact ⟨rfl, forall_mem_cons.mpr ⟨Nat.lt_of_not_ge beyond, inside⟩⟩

theorem layout_eq_ok (laid : functions.foldlM layFunction layout = .ok result) :
    result = ⟨layout.text ++ functions.flatMap body,
        layout.symdefs ++ (placed layout.text.length functions).map symdefAt,
        layout.relocs ++ (placed layout.text.length functions).flatMap relocsAt⟩ ∧
      ∀ place ∈ placed layout.text.length functions, ∀ reloc ∈ place.2.relocs,
        (shifted place.1 reloc).offset.toNat < place.1 + place.2.body.length := by
  induction functions generalizing layout with
  | nil =>
    cases laid
    simp [placed]
  | cons function _ ih =>
    rw [foldlM_cons] at laid
    cases moves : function.relocs.mapM (shiftReloc layout.text.length
        (layout.text ++ function.body).length) with
    | error error =>
      simp only [layFunction, moves] at laid
      cases laid
    | ok moved =>
      simp only [layFunction, moves] at laid
      obtain ⟨rfl, inside⟩ := mapM_shiftReloc_eq_ok moves
      obtain ⟨rfl, insideRest⟩ := ih laid
      rw [length_append] at inside insideRest
      constructor
      · simp [placed, symdefAt, relocsAt]
      · rw [placed, forall_mem_cons]
        exact ⟨inside, insideRest⟩

/-! ## The sections -/

def headerBytes (arch : Nat) (drvHash : List.Vector UInt8 32) (capBytes : List UInt8) :
    List UInt8 :=
  avmcMagic ++ LittleEndian.encode 2 avmcVersion ++ LittleEndian.encode 2 arch ++
    drvHash.toList ++ writeSized capBytes

theorem archCode_eq_ok (code : archCode name = .ok arch) : arch = 1 ∨ arch = 2 := by
  rw [archCode] at code
  split_ifs at code <;> cases code <;> simp

namespace CellView

variable {total length : Nat}

theorem yields_readHeader (total : Nat) {arch : Nat} (known : arch = 1 ∨ arch = 2)
    (drvHash : List.Vector UInt8 32) (small : capBytes.length ≤ 16 * 1024 * 1024) :
    Yields (readHeader json total) (headerBytes arch drvHash capBytes)
      ((fun table => ⟨avmcVersion, arch, drvHash, table⟩) <$> readTable json capBytes) := by
  have narrow : arch < 256 ^ 2 := by omega
  have capLen : capBytes.length < 256 ^ 4 := by omega
  have named : ∃ found, archName arch = .ok found := by
    rcases known with rfl | rfl
    · exact ⟨"x86_64", rfl⟩
    · exact ⟨"aarch64", rfl⟩
  obtain ⟨found, isName⟩ := named
  simp only [headerBytes, writeSized, append_assoc]
  apply (R.yields_take avmcMagic rfl).andThen
  apply Yields.afterRequire rfl
  apply (R.yields_number (by decide : avmcVersion < 256 ^ 2)).andThen
  apply Yields.afterRequire rfl
  apply (R.yields_number narrow).andThen
  rw [isName]
  apply (yields_ofExcept (.ok found)).andThen
  apply (R.yields_array drvHash).andThen
  apply (R.yields_number capLen).andThen
  apply Yields.afterRequire small
  apply (R.yields_take capBytes rfl).andFinish
  rw [map_eq_pure_bind]
  exact (yields_ofExcept _).finish fun table _ => yields_pure _

theorem yields_readText {text : List UInt8} (positive : text.length ≠ 0)
    (aligned : text.length % page = 0) (small : text.length ≤ 2 ^ 30) :
    Yields (readText total) (writeU32 text.length ++ text) (.ok text) := by
  have fits : text.length < 256 ^ 4 := by omega
  apply (R.yields_number fits).andThen
  apply Yields.afterRequire ⟨positive, aligned⟩
  apply Yields.afterRequire small
  exact R.yields_take text rfl

theorem yields_readSymDef (name : (utf8 symdef.name).length < 2 ^ 32)
    (inside : symdef.offset.toNat + symdef.len.toNat ≤ length) (small : length < 2 ^ 64) :
    Yields (readSymDef total length) (writeSymDef symdef) (.ok symdef) := by
  have len : symdef.len.toNat < 256 ^ 4 := symdef.len.toNat_lt
  rw [writeSymDef, append_assoc]
  apply (R.yields_bytesStr name).andThen
  apply (R.yields_u64 symdef.offset).andThen
  apply (R.yields_number len).andFinish
  apply Yields.afterRequire ⟨by omega, inside⟩
  rw [UInt32.ofNat_toNat]
  exact yields_pure symdef

theorem yields_counted (tooMany : String) (few : items.length ≤ 2 ^ 20)
    (each : ∀ value ∈ items, Yields item (encode value) (.ok value)) :
    Yields (counted total tooMany item) (writeU32 items.length ++ items.flatMap encode)
      (.ok items) := by
  have count : items.length < 256 ^ 4 := by omega
  apply (R.yields_number count).andThen
  apply Yields.afterRequire few
  exact yields_times_ok each

variable {json} {bytes : List UInt8} {view : CellView Json}

def header (view : CellView Json) : CellHeader Json :=
  ⟨view.version, view.arch, view.drvHash, view.capabilityTable⟩

theorem readSignature_eq_ok {signature : List.Vector UInt8 64} :
    readSignature total trailer = .ok signature ↔ trailer = signature.toList := by
  rw [readSignature]
  constructor
  · intro read
    split at read
    · cases read
      rfl
    · cases read
  · rintro rfl
    exact dif_pos signature.toList_length

theorem parse_eq_ok_iff : parse json bytes = .ok view ↔
    0x2C + sigLen + 4 ≤ bytes.length ∧ ∃ afterHeader afterText afterSymDefs afterImports,
      readHeader json bytes.length bytes = .ok (view.header, afterHeader) ∧
      readText bytes.length afterHeader = .ok (view.text, afterText) ∧ sigLen ≤ afterText.length ∧
      readSymDefs bytes.length view.text.length afterText = .ok (view.symdefs, afterSymDefs) ∧
      readImports bytes.length afterSymDefs = .ok (view.imports, afterImports) ∧
      readRelocs bytes.length view.text.length afterImports =
        .ok (view.relocs, view.signature.toList) ∧
      view.signed = bytes.take (bytes.length - sigLen) := by
  rw [parse, ensure_bind_eq_ok]
  constructor
  · rintro ⟨long, parsed⟩
    obtain ⟨⟨_, afterHeader⟩, readsHeader, parsed⟩ := bind_eq_ok.mp parsed
    obtain ⟨⟨_, afterText⟩, readsText, parsed⟩ := bind_eq_ok.mp parsed
    obtain ⟨rest, parsed⟩ := ensure_bind_eq_ok.mp parsed
    obtain ⟨⟨_, afterSymDefs⟩, readsSymDefs, parsed⟩ := bind_eq_ok.mp parsed
    obtain ⟨⟨_, afterImports⟩, readsImports, parsed⟩ := bind_eq_ok.mp parsed
    obtain ⟨⟨_, _⟩, readsRelocs, parsed⟩ := bind_eq_ok.mp parsed
    obtain ⟨_, readsSignature, parsed⟩ := bind_eq_ok.mp parsed
    obtain rfl := pure_eq_ok.mp parsed
    rw [readSignature_eq_ok.mp readsSignature] at readsRelocs
    exact ⟨long, afterHeader, afterText, afterSymDefs, afterImports, readsHeader, readsText, rest,
      readsSymDefs, readsImports, readsRelocs, rfl⟩
  · rintro ⟨long, _, _, _, _, readsHeader, readsText,
      rest, readsSymDefs, readsImports, readsRelocs, signed⟩
    refine ⟨long, ?_⟩
    refine bind_eq_ok.mpr ⟨_, readsHeader, ?_⟩
    refine bind_eq_ok.mpr ⟨_, readsText, ?_⟩
    refine ensure_bind_eq_ok.mpr ⟨rest, ?_⟩
    refine bind_eq_ok.mpr ⟨_, readsSymDefs, ?_⟩
    refine bind_eq_ok.mpr ⟨_, readsImports, ?_⟩
    refine bind_eq_ok.mpr ⟨_, readsRelocs, ?_⟩
    refine bind_eq_ok.mpr ⟨_, readSignature_eq_ok.mpr rfl, ?_⟩
    rw [← signed]
    rfl

/-! The limits of what is returned. -/

theorem returns_bytesStr :
    Returns (fun text => (utf8 text).length < 2 ^ 32) (R.bytesStr total) := by
  intro _ _ _ parsed
  obtain ⟨_, _, readLength, parsed⟩ := bind_eq_ok parsed
  obtain ⟨_, _, taken, parsed⟩ := bind_eq_ok parsed
  obtain ⟨isText, -⟩ := ofExcept_eq_ok parsed
  obtain ⟨-, isLength⟩ := take_eq_ok_iff.mp taken
  obtain ⟨-, small⟩ := number_eq_ok readLength
  rw [R.text_eq_ok.mp isText, isLength]
  exact small

theorem readText_eq_ok {text rest : List UInt8} (parsed : readText total bytes = .ok (text, rest)) :
    bytes = writeU32 text.length ++ (text ++ rest) ∧ text.length ≤ 2 ^ 30 := by
  obtain ⟨_, _, readLength, parsed⟩ := bind_eq_ok parsed
  obtain ⟨_, parsed⟩ := require_bind_eq_ok parsed
  obtain ⟨small, parsed⟩ := require_bind_eq_ok parsed
  obtain ⟨bytesEq, -⟩ := number_eq_ok readLength
  obtain ⟨textEq, isLength⟩ := take_eq_ok_iff.mp parsed
  rw [bytesEq, textEq, isLength]
  exact ⟨rfl, small⟩

theorem returns_counted {P : α → Prop} (returns : Returns P item) :
    Returns (fun items => items.length ≤ 2 ^ 20 ∧ ∀ value ∈ items, P value)
      (counted total tooMany item) := by
  intro _ _ _ parsed
  obtain ⟨count, _, _, parsed⟩ := bind_eq_ok parsed
  obtain ⟨few, parsed⟩ := require_bind_eq_ok parsed
  rw [length_of_times parsed]
  exact ⟨few, returns.times count _ _ _ parsed⟩

theorem returns_readSymDef : Returns (fun symdef => (utf8 symdef.name).length < 2 ^ 32)
      (readSymDef total length) := by
  refine returns_bytesStr.bind fun name short => ?_
  refine .after fun offset => ?_
  refine .after fun len => ?_
  refine .after fun checked => ?_
  exact returns_pure short

theorem returns_reloc : Returns (fun reloc =>
    (utf8 reloc.kind).length < 2 ^ 32 ∧ (utf8 reloc.symbol).length < 2 ^ 32)
      (R.reloc total length outside) := by
  refine .after fun offset => ?_
  refine .after fun addend => ?_
  refine returns_bytesStr.bind fun kind shortKind => ?_
  refine returns_bytesStr.bind fun symbol shortSymbol => ?_
  refine .after fun checked => ?_
  exact returns_pure ⟨shortKind, shortSymbol⟩

theorem limits_of_parse (parsed : parse json bytes = .ok view) : view.text.length ≤ 2 ^ 30 ∧
      (view.symdefs.length ≤ 2 ^ 20 ∧ ∀ symdef ∈ view.symdefs, (utf8 symdef.name).length < 2 ^ 32) ∧
      (view.imports.length ≤ 2 ^ 20 ∧ ∀ name ∈ view.imports, (utf8 name).length < 2 ^ 32) ∧
      view.relocs.length ≤ 2 ^ 20 ∧ ∀ reloc ∈ view.relocs,
        (utf8 reloc.kind).length < 2 ^ 32 ∧ (utf8 reloc.symbol).length < 2 ^ 32 := by
  obtain ⟨-, _, _, _, _, -, readsText, -, readsSymDefs,
    readsImports, readsRelocs, -⟩ := parse_eq_ok_iff.mp parsed
  exact ⟨(readText_eq_ok readsText).2, returns_counted returns_readSymDef _ _ _ readsSymDefs,
    returns_counted returns_bytesStr _ _ _ readsImports,
    returns_counted returns_reloc _ _ _ readsRelocs⟩

def encode (json : JsonCodec Json) (view : CellView Json) : List UInt8 :=
  headerBytes view.arch view.drvHash (json.toVec view.capabilityTable) ++
    ((writeU32 view.text.length ++ view.text) ++
    ((writeU32 view.symdefs.length ++ view.symdefs.flatMap writeSymDef) ++
    ((writeU32 view.imports.length ++ view.imports.flatMap writeString) ++
    (writeU32 view.relocs.length ++ view.relocs.flatMap writeReloc))))

structure Fits (json : JsonCodec Json) (view : CellView Json) : Prop where
  version : view.version = avmcVersion
  arch : view.arch = 1 ∨ view.arch = 2
  table : json.fromSlice (json.toVec view.capabilityTable) = .ok view.capabilityTable
  tableLength : (json.toVec view.capabilityTable).length ≤ 16 * 1024 * 1024
  nonempty : view.text.length ≠ 0
  aligned : view.text.length % page = 0
  textLength : view.text.length ≤ 2 ^ 30
  symdefCount : view.symdefs.length ≤ 2 ^ 20
  symdef : ∀ symdef ∈ view.symdefs, (utf8 symdef.name).length < 2 ^ 32 ∧
    symdef.offset.toNat + symdef.len.toNat ≤ view.text.length
  importCount : view.imports.length ≤ 2 ^ 20
  importName : ∀ name ∈ view.imports, (utf8 name).length < 2 ^ 32
  relocCount : view.relocs.length ≤ 2 ^ 20
  reloc : ∀ reloc ∈ view.relocs, reloc.offset.toNat < view.text.length ∧
    (utf8 reloc.kind).length < 2 ^ 32 ∧ (utf8 reloc.symbol).length < 2 ^ 32
  signed : view.signed = view.encode json

section ReadBack

variable (fits : view.Fits json)
include fits

theorem yields_header (total : Nat) : Yields (readHeader json total)
      (headerBytes view.arch view.drvHash (json.toVec view.capabilityTable)) (.ok view.header) := by
  have isTable : readTable json (json.toVec view.capabilityTable) = .ok view.capabilityTable := by
    rw [readTable, fits.table]
  have read := yields_readHeader json total fits.arch view.drvHash fits.tableLength
  rw [isTable, ← fits.version] at read
  exact read

theorem yields_symdefs (total : Nat) : Yields (readSymDefs total view.text.length)
      (writeU32 view.symdefs.length ++ view.symdefs.flatMap writeSymDef) (.ok view.symdefs) := by
  have small := fits.textLength
  apply yields_counted "symdef count absurd" fits.symdefCount
  intro symdef member
  obtain ⟨name, inside⟩ := fits.symdef symdef member
  exact yields_readSymDef name inside (by omega)

theorem yields_imports (total : Nat) : Yields (readImports total)
      (writeU32 view.imports.length ++ view.imports.flatMap writeString) (.ok view.imports) := by
  apply yields_counted "import count absurd" fits.importCount
  intro name member
  exact R.yields_bytesStr (fits.importName name member)

theorem yields_relocs (total : Nat) : Yields (readRelocs total view.text.length)
      (writeU32 view.relocs.length ++ view.relocs.flatMap writeReloc) (.ok view.relocs) := by
  apply yields_counted "reloc count absurd" fits.relocCount
  intro reloc member
  obtain ⟨inside, kind, symbol⟩ := fits.reloc reloc member
  exact R.yields_reloc _ inside kind symbol

theorem Fits.parse_encode : parse json (view.encode json ++ view.signature.toList) = .ok view := by
  have trailer : view.signature.toList.length = sigLen := view.signature.toList_length
  have long : 44 ≤ (headerBytes view.arch view.drvHash
      (json.toVec view.capabilityTable)).length := by
    simp [headerBytes, writeSized, writeU32, avmcMagic]
    omega
  have total : (view.encode json ++ view.signature.toList).length - sigLen =
      (view.encode json).length := by
    rw [length_append, trailer, Nat.add_sub_cancel]
  rw [parse_eq_ok_iff, total, take_left' rfl]
  refine ⟨?_, _, _, _, _, ?_, yields_readText fits.nonempty fits.aligned fits.textLength _, ?_,
    yields_symdefs fits _ _, yields_imports fits _ _, yields_relocs fits _ _, fits.signed⟩
  · simp only [encode, length_append, writeU32, LittleEndian.length_encode, trailer]
    omega
  · have read := yields_header fits
    simp only [encode, append_assoc] at read ⊢
    exact read _ _
  · simp only [length_append, trailer]
    omega

end ReadBack

end CellView

/-! ## Round trip -/

/-- The view shows the request: its hash and table, its code with padding, and its
functions and relocations at the places where they are laid out. -/
structure CellView.Shows (view : CellView Json) (spec : BuildCell Json) : Prop where
  drvHash : view.drvHash = spec.drvHash
  capabilityTable : view.capabilityTable = spec.capabilityTable
  code : ∃ padding,
    view.text = spec.avce.functions.flatMap body ++ List.replicate padding 0
  symdefs : (view.symdefs.map fun symdef => (symdef.name, symdef.offset.toNat, symdef.len.toNat)) =
    (placed 0 spec.avce.functions).map fun (off, function) =>
      (function.name, off, function.body.length)
  imports : view.imports = spec.avce.imports
  relocs : (view.relocs.map fun reloc =>
      (reloc.offset.toNat, reloc.addend, reloc.kind, reloc.symbol)) =
    (placed 0 spec.avce.functions).flatMap fun (off, function) =>
      function.relocs.map fun reloc =>
        (off + reloc.offset.toNat, reloc.addend, reloc.kind, reloc.symbol)

/-- The request is within the limits of the reader. -/
structure BuildCell.Within (json : JsonCodec Json) (spec : BuildCell Json) : Prop where
  table : json.fromSlice (json.toVec spec.capabilityTable) = .ok spec.capabilityTable
  code : (spec.avce.functions.flatMap body).length ≤ 2 ^ 30
  functions : spec.avce.functions.length ≤ 2 ^ 20
  imports : spec.avce.imports.length ≤ 2 ^ 20
  relocs : (spec.avce.functions.flatMap AvceFn.relocs).length ≤ 2 ^ 20
  functionName : ∀ function ∈ spec.avce.functions, (utf8 function.name).length < 2 ^ 32
  importName : ∀ name ∈ spec.avce.imports, (utf8 name).length < 2 ^ 32
  inside : ∀ function ∈ spec.avce.functions, ∀ reloc ∈ function.relocs,
    reloc.offset.toNat < function.body.length
  kind : ∀ function ∈ spec.avce.functions, ∀ reloc ∈ function.relocs,
    (utf8 reloc.kind).length < 2 ^ 32
  symbol : ∀ function ∈ spec.avce.functions, ∀ reloc ∈ function.relocs,
    (utf8 reloc.symbol).length < 2 ^ 32

def paddedText (functions : List AvceFn) : List UInt8 :=
  (functions.flatMap body).rightpad
    (pageAligned (functions.flatMap body).length) 0

theorem le_pageAligned (length : Nat) : length ≤ pageAligned length := by
  simp only [pageAligned, page]
  omega

theorem pageAligned_mod_page (length : Nat) : pageAligned length % page = 0 :=
  Nat.mul_mod_left _ page

theorem length_paddedText (functions : List AvceFn) :
    (paddedText functions).length = pageAligned (functions.flatMap body).length := by
  rw [paddedText, length_rightpad]
  exact max_eq_left (le_pageAligned _)

def signedBytes (json : JsonCodec Json) (spec : BuildCell Json) (arch : Nat) : List UInt8 :=
  let places := placed 0 spec.avce.functions
  let text := paddedText spec.avce.functions
  headerBytes arch spec.drvHash (json.toVec spec.capabilityTable) ++
    ((writeU32 text.length ++ text) ++
    ((writeU32 (places.map symdefAt).length ++ (places.map symdefAt).flatMap writeSymDef) ++
    ((writeU32 spec.avce.imports.length ++ spec.avce.imports.flatMap writeString) ++
    (writeU32 (places.flatMap relocsAt).length ++ (places.flatMap relocsAt).flatMap writeReloc))))

theorem buildCell_eq_ok (built : buildCell json signatures spec = .ok bytes) :
    ∃ arch, archCode spec.avce.arch = .ok arch ∧
      (json.toVec spec.capabilityTable).length ≤ 16 * 1024 * 1024 ∧
      (paddedText spec.avce.functions).length ≠ 0 ∧
      (∀ place ∈ placed 0 spec.avce.functions, ∀ reloc ∈ place.2.relocs,
        (shifted place.1 reloc).offset.toNat < place.1 + place.2.body.length) ∧
      bytes = signedBytes json spec arch ++
        (signatures.sign spec.signingSeed (signedBytes json spec arch)).toList := by
  obtain ⟨-, built⟩ := ensure_bind_eq_ok.mp built
  obtain ⟨arch, code, built⟩ := bind_eq_ok.mp built
  obtain ⟨small, built⟩ := ensure_bind_eq_ok.mp built
  obtain ⟨_, laid, built⟩ := bind_eq_ok.mp built
  obtain ⟨-, built⟩ := ensure_bind_eq_ok.mp built
  obtain ⟨nonempty, built⟩ := ensure_bind_eq_ok.mp built
  obtain ⟨isLayout, inside⟩ := layout_eq_ok laid
  rw [isLayout] at nonempty built
  refine ⟨arch, code, small, ?_, inside, ?_⟩
  · rw [length_paddedText]
    exact nonempty
  · have written := pure_eq_ok.mp built
    simp only [nil_append, length_nil, append_assoc] at written
    simp only [signedBytes, headerBytes, length_paddedText, append_assoc]
    exact written.symm

section Places

variable {functions : List AvceFn} {place : Nat × AvceFn} {reloc : AvceReloc}

section

variable (small : (functions.flatMap body).length ≤ 2 ^ 30)
  (member : place ∈ placed 0 functions)
include small member

theorem end_le_of_small : place.1 + place.2.body.length ≤ 2 ^ 30 := by
  have := end_le_of_mem_placed member
  omega

theorem toNat_symdefAt : (symdefAt place).offset.toNat = place.1 ∧
      (symdefAt place).len.toNat = place.2.body.length := by
  have bound := end_le_of_small small member
  simp only [symdefAt, toNat_ofNat', UInt32.toNat_ofNat']
  omega

end

theorem toNat_shifted (fits : off + reloc.offset.toNat < 2 ^ 64) :
    (shifted off reloc).offset.toNat = off + reloc.offset.toNat := by
  simp only [shifted, UInt64.toNat_add, UInt64.toNat_ofNat']
  omega

theorem mem_snd_of_placed (member : place ∈ placed off functions) : place.2 ∈ functions := by
  rw [← map_snd_placed off functions]
  exact mem_map_of_mem member

theorem length_flatMap_placed (move : Nat → AvceReloc → α) (off : Nat) (functions : List AvceFn) :
    ((placed off functions).flatMap fun place => place.2.relocs.map (move place.1)).length =
      (functions.flatMap AvceFn.relocs).length := by
  nth_rewrite 2 [← map_snd_placed off functions]
  rw [flatMap_map, length_flatMap, length_flatMap]
  simp only [length_map]

theorem length_map_placed (f : Nat × AvceFn → α) (off : Nat) (functions : List AvceFn) :
    ((placed off functions).map f).length = functions.length := by
  nth_rewrite 2 [← map_snd_placed off functions]
  rw [length_map, length_map]

end Places

section RoundTrip

variable {json} {signatures : Signatures} {spec : BuildCell Json} {bytes : List UInt8}

def viewOf (json : JsonCodec Json) (spec : BuildCell Json) (arch : Nat)
    (signature : List.Vector UInt8 64) : CellView Json where
  version := avmcVersion
  arch := arch
  drvHash := spec.drvHash
  capabilityTable := spec.capabilityTable
  text := paddedText spec.avce.functions
  symdefs := (placed 0 spec.avce.functions).map symdefAt
  imports := spec.avce.imports
  relocs := (placed 0 spec.avce.functions).flatMap relocsAt
  signature := signature
  signed := signedBytes json spec arch

theorem shows_viewOf (within : spec.Within json) (arch : Nat)
    (signature : List.Vector UInt8 64) : (viewOf json spec arch signature).Shows spec where
  drvHash := rfl
  capabilityTable := rfl
  code := ⟨_, rfl⟩
  symdefs := by
    rw [viewOf, map_map]
    apply map_congr_left
    intro _ member
    obtain ⟨offset, len⟩ := toNat_symdefAt within.code member
    rw [Function.comp_apply, offset, len]
    rfl
  imports := rfl
  relocs := by
    rw [viewOf, map_flatMap]
    apply flatMap_congr
    intro place member
    rw [relocsAt, map_map]
    apply map_congr_left
    intro reloc isReloc
    have bound := end_le_of_small within.code member
    have inside := within.inside place.2 (mem_snd_of_placed member) reloc isReloc
    rw [Function.comp_apply, toNat_shifted (by omega)]
    rfl

theorem length_paddedText_le (within : spec.Within json) :
    (paddedText spec.avce.functions).length ≤ 2 ^ 30 := by
  have small := within.code
  rw [length_paddedText]
  simp only [pageAligned, page]
  omega

theorem end_le_paddedText (member : place ∈ placed 0 spec.avce.functions) :
    place.1 + place.2.body.length ≤ (paddedText spec.avce.functions).length := by
  have atEnd := end_le_of_mem_placed member
  have padded := le_pageAligned (spec.avce.functions.flatMap body).length
  rw [length_paddedText]
  omega

variable {arch : Nat} {view : CellView Json}

theorem fits_viewOf (within : spec.Within json) (code : archCode spec.avce.arch = .ok arch)
    (table : (json.toVec spec.capabilityTable).length ≤ 16 * 1024 * 1024)
    (nonempty : (paddedText spec.avce.functions).length ≠ 0) (signature : List.Vector UInt8 64) :
    (viewOf json spec arch signature).Fits json where
  version := rfl
  arch := archCode_eq_ok code
  table := within.table
  tableLength := table
  nonempty := nonempty
  aligned := by
    rw [viewOf, length_paddedText]
    exact pageAligned_mod_page _
  textLength := length_paddedText_le within
  symdefCount := (length_map_placed symdefAt 0 _).trans_le within.functions
  symdef := by
    intro _ member
    obtain ⟨place, isPlace, rfl⟩ := mem_map.mp member
    obtain ⟨offset, len⟩ := toNat_symdefAt within.code isPlace
    rw [offset, len]
    exact ⟨within.functionName place.2 (mem_snd_of_placed isPlace), end_le_paddedText isPlace⟩
  importCount := within.imports
  importName := within.importName
  relocCount := (length_flatMap_placed shifted 0 _).trans_le within.relocs
  reloc := by
    intro _ member
    obtain ⟨place, isPlace, isReloc⟩ := mem_flatMap.mp member
    obtain ⟨original, isOriginal, rfl⟩ := mem_map.mp isReloc
    have isFunction := mem_snd_of_placed isPlace
    have small := length_paddedText_le within
    have bound := end_le_paddedText isPlace
    have inside := within.inside place.2 isFunction original isOriginal
    have below : (shifted place.1 original).offset.toNat <
        (paddedText spec.avce.functions).length := by
      rw [toNat_shifted (by omega)]
      omega
    exact ⟨below, within.kind place.2 isFunction original isOriginal,
      within.symbol place.2 isFunction original isOriginal⟩
  signed := rfl

theorem parse_built (within : spec.Within json)
    (built : buildCell json signatures spec = .ok bytes) :
    ∃ arch signature, CellView.parse json bytes = .ok (viewOf json spec arch signature) ∧
      signature = signatures.sign spec.signingSeed (signedBytes json spec arch) := by
  obtain ⟨arch, code, table, nonempty, -, rfl⟩ := buildCell_eq_ok json built
  exact ⟨arch, _, (fits_viewOf within code table nonempty _).parse_encode, rfl⟩

theorem CellView.Shows.exists_reloc (displays : view.Shows spec)
    (isPlace : (start, function) ∈ placed 0 spec.avce.functions)
    (ofFunction : reloc ∈ function.relocs) :
    ∃ found ∈ view.relocs, found.offset.toNat = start + reloc.offset.toNat ∧
      found.addend = reloc.addend ∧ found.kind = reloc.kind ∧ found.symbol = reloc.symbol := by
  have listed : (start + reloc.offset.toNat, reloc.addend, reloc.kind, reloc.symbol) ∈
      view.relocs.map fun reloc =>
        (reloc.offset.toNat, reloc.addend, reloc.kind, reloc.symbol) := by
    rw [displays.relocs]
    exact mem_flatMap.mpr ⟨(start, function), isPlace, mem_map_of_mem ofFunction⟩
  obtain ⟨found, isFound, same⟩ := mem_map.mp listed
  simp only [Prod.mk.injEq] at same
  exact ⟨found, isFound, same⟩

section

variable {signature : List.Vector UInt8 64} (code : archCode spec.avce.arch = .ok arch)
  (table : (json.toVec spec.capabilityTable).length ≤ 16 * 1024 * 1024)
  (parsed : CellView.parse json (signedBytes json spec arch ++ signature.toList) = .ok view)
include code table parsed

theorem fromSlice_of_parse :
    json.fromSlice (json.toVec spec.capabilityTable) = .ok view.capabilityTable := by
  obtain ⟨-, _, -, -, -, readsHeader, -⟩ := CellView.parse_eq_ok_iff.mp parsed
  have read := CellView.yields_readHeader json (signedBytes json spec arch ++
    signature.toList).length (archCode_eq_ok code) spec.drvHash table
  rw [signedBytes, append_assoc] at read readsHeader
  rw [read] at readsHeader
  obtain ⟨_, readsTable, isHeader⟩ := map_eq_ok.mp readsHeader
  obtain ⟨found, isTable, rfl⟩ := map_eq_ok.mp readsTable
  have sameTable : found = view.capabilityTable :=
    congrArg (fun pair => pair.1.capabilityTable) isHeader
  rw [CellView.readTable] at isTable
  cases result : json.fromSlice (json.toVec spec.capabilityTable) with
  | error =>
    rw [result] at isTable
    cases isTable
  | ok =>
    rw [result] at isTable
    rw [← sameTable, Except.ok.inj isTable]

theorem within_of_shows
    (inside : ∀ place ∈ placed 0 spec.avce.functions, ∀ reloc ∈ place.2.relocs,
      (shifted place.1 reloc).offset.toNat < place.1 + place.2.body.length)
    (displays : view.Shows spec) : spec.Within json := by
  obtain ⟨textLimit, ⟨_, symdefName⟩, ⟨importLimit, importName⟩, relocLimit,
    relocName⟩ := CellView.limits_of_parse parsed
  have names (function : AvceFn) (member : function ∈ spec.avce.functions) (reloc : AvceReloc)
      (ofFunction : reloc ∈ function.relocs) :
      (utf8 reloc.kind).length < 2 ^ 32 ∧ (utf8 reloc.symbol).length < 2 ^ 32 := by
    obtain ⟨_, isPlace⟩ := exists_mem_placed 0 member
    obtain ⟨found, isFound, -, -, kind, symbol⟩ := displays.exists_reloc isPlace ofFunction
    rw [← kind, ← symbol]
    exact relocName found isFound
  refine
    { table := ?_, code := ?_, functions := ?_, imports := ?_, relocs := ?_, functionName := ?_,
      importName := ?_, inside := ?_, kind := fun _ member _ inFn => (names _ member _ inFn).1,
      symbol := fun _ member _ inFn => (names _ member _ inFn).2 }
  · rw [fromSlice_of_parse code table parsed, displays.capabilityTable]
  · obtain ⟨_, isText⟩ := displays.code
    rw [isText, length_append] at textLimit
    omega
  · have count := congrArg List.length displays.symdefs
    rw [length_map, length_map_placed] at count
    omega
  · rw [← displays.imports]
    exact importLimit
  · have count := congrArg List.length displays.relocs
    have each := length_flatMap_placed (fun off (reloc : AvceReloc) =>
      (off + reloc.offset.toNat, reloc.addend, reloc.kind, reloc.symbol)) 0 spec.avce.functions
    rw [length_map] at count
    exact (count.trans each).ge.trans relocLimit
  · intro function member
    obtain ⟨start, isPlace⟩ := exists_mem_placed 0 member
    have listed : (function.name, start, function.body.length) ∈ view.symdefs.map fun symdef =>
        (symdef.name, symdef.offset.toNat, symdef.len.toNat) := by
      rw [displays.symdefs]
      exact mem_map_of_mem isPlace
    obtain ⟨symdef, isSymdef, same⟩ := mem_map.mp listed
    have sameName : symdef.name = function.name := congrArg Prod.fst same
    rw [← sameName]
    exact symdefName symdef isSymdef
  · rw [← displays.imports]
    exact importName
  · intro function member reloc ofFunction
    obtain ⟨start, isPlace⟩ := exists_mem_placed 0 member
    obtain ⟨found, -, _, -⟩ := displays.exists_reloc isPlace ofFunction
    have fits : found.offset.toNat < 2 ^ 64 := found.offset.toNat_lt
    have below : (shifted start reloc).offset.toNat < start + function.body.length :=
      inside _ isPlace reloc ofFunction
    rw [toNat_shifted (by omega)] at below
    omega

end

/-- A cell that is built is read back, with the contents and the signature of its
request, exactly if the request is within the limits of the reader. -/
theorem cell_round_trip_iff (json : JsonCodec Json) (signatures : Signatures)
    (spec : BuildCell Json) (bytes : List UInt8)
    (built : buildCell json signatures spec = .ok bytes) :
    (∃ view, CellView.parse json bytes = .ok view ∧ view.Shows spec ∧
      view.verifySignature signatures (signatures.verifyingKey spec.signingSeed) = .ok ()) ↔
      spec.Within json := by
  constructor
  · rintro ⟨_, parsed, displays, -⟩
    obtain ⟨_, code, table, _, inside, rfl⟩ := buildCell_eq_ok json built
    exact within_of_shows code table parsed inside displays
  · intro within
    obtain ⟨arch, _, parsed, rfl⟩ := parse_built within built
    refine ⟨_, parsed, shows_viewOf within arch _, ?_⟩
    rw [CellView.verifySignature]
    exact if_pos (signatures.verifies _ _)

end RoundTrip

/-! ## Requests inside and outside of the limits -/

def plainTables : JsonCodec String where
  toVec := utf8
  fromSlice data := match fromUtf8 data with
    | some text => .ok text
    | none => .error "not a text"

theorem plainTables_fromSlice (text : String) :
    plainTables.fromSlice (plainTables.toVec text) = .ok text := by
  have read : fromUtf8 (utf8 text) = some text := fromUtf8_eq_some.mpr rfl
  simp only [plainTables, read]

def blankSignatures : Signatures where
  sign _ _ := List.Vector.replicate 64 0
  verifyingKey seed := seed
  verify _ _ _ := true
  verifies _ _ := rfl

/-- One function with the code `mov eax, 7; ret`. -/
def giveSeven (imports : List String) : BuildCell String where
  drvHash := List.Vector.replicate 32 9
  capabilityTable := "[]"
  avce := ⟨"x86_64", [⟨"run", [0xB8, 0x07, 0x00, 0x00, 0x00, 0xC3], []⟩], imports⟩
  signingSeed := List.Vector.replicate 32 7

theorem exists_buildCell (nonempty : spec.avce.functions ≠ [])
    (code : archCode spec.avce.arch = .ok arch) (table : spec.capabilityTable = "[]")
    (laid : spec.avce.functions.foldlM layFunction ⟨[], [], []⟩ = .ok layout)
    (short : layout.text.length + (page - 1) < 2 ^ 64)
    (isText : pageAligned layout.text.length ≠ 0) :
    ∃ bytes, buildCell plainTables blankSignatures spec = .ok bytes := by
  have small : (plainTables.toVec spec.capabilityTable).length ≤ 16 * 1024 * 1024 := by
    rw [table]
    decide +kernel
  exact ⟨_, ensure_bind_eq_ok.mpr ⟨nonempty, bind_eq_ok.mpr ⟨arch, code,
    ensure_bind_eq_ok.mpr ⟨small, bind_eq_ok.mpr ⟨layout, laid,
      ensure_bind_eq_ok.mpr ⟨short, ensure_bind_eq_ok.mpr ⟨isText, rfl⟩⟩⟩⟩⟩⟩⟩

theorem exists_buildCell_giveSeven (imports : List String) :
    ∃ bytes, buildCell plainTables blankSignatures (giveSeven imports) = .ok bytes := by
  have laid : (giveSeven imports).avce.functions.foldlM layFunction ⟨[], [], []⟩ =
      .ok ⟨[0xB8, 0x07, 0x00, 0x00, 0x00, 0xC3], [⟨"run", 0, 6⟩], []⟩ := rfl
  exact exists_buildCell nofun rfl rfl laid (by decide) (by decide)

theorem cell_round_trip_at_giveSeven :
    ∃ bytes, buildCell plainTables blankSignatures (giveSeven []) = .ok bytes ∧
      ∃ view, CellView.parse plainTables bytes = .ok view ∧ view.Shows (giveSeven []) := by
  obtain ⟨bytes, built⟩ := exists_buildCell_giveSeven []
  have within : (giveSeven []).Within plainTables :=
    { table := plainTables_fromSlice _, code := by decide, functions := by decide, imports := by decide,
      relocs := by decide, functionName := by decide +kernel, importName := nofun,
      inside := by decide, kind := by decide, symbol := by decide }
  obtain ⟨view, parsed, displays, -⟩ :=
    (cell_round_trip_iff plainTables blankSignatures (giveSeven []) bytes built).mpr within
  exact ⟨bytes, built, view, parsed, displays⟩

/-- One import more than the reader takes. -/
theorem built_cell_is_not_read : ∃ bytes, buildCell plainTables blankSignatures
        (giveSeven (List.replicate (2 ^ 20 + 1) "")) = .ok bytes ∧
      ¬ ∃ view, CellView.parse plainTables bytes = .ok view ∧
        view.Shows (giveSeven (List.replicate (2 ^ 20 + 1) "")) := by
  obtain ⟨bytes, built⟩ := exists_buildCell_giveSeven (List.replicate (2 ^ 20 + 1) "")
  refine ⟨bytes, built, ?_⟩
  rintro ⟨_, parsed, displays⟩
  obtain ⟨-, -, ⟨few, -⟩, -⟩ := CellView.limits_of_parse parsed
  rw [displays.imports] at few
  simp only [giveSeven, length_replicate] at few
  omega

end AustralVM.Cell
