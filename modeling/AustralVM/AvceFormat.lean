import AustralVM.Errors
import AustralVM.WireFormat
import Mathlib.Data.List.Destutter
import Mathlib.Data.String.Basic

/-!
# The container of captured functions

The capture backend keeps the machine code of each function with its
relocations and writes all of them into a container, from which the builder of
cells reads them.  Writer and reader are two programs.
-/

namespace AustralVM.Cell

open ByteParser List LittleEndian Yields

/-! ## Captured modules -/

inductive Linkage
  | imported
  | internal
  | preemptible
  | hidden
  | exported
  deriving DecidableEq, Repr

def Linkage.isDefinable : Linkage → Bool
  | .imported => false
  | _ => true

/-- A place in a function's code that refers to a symbol. -/
structure AvceReloc where
  offset : UInt64
  addend : BitVec 64
  kind : String
  symbol : String
  deriving DecidableEq, Repr

structure CapturedBody where
  bytes : List UInt8
  relocs : List AvceReloc
  deriving DecidableEq, Repr

/-- A declared function, with its body once it is defined. -/
structure CapturedFunction where
  name : String
  linkage : Linkage
  body : Option CapturedBody
  deriving DecidableEq, Repr

/-- The functions stand in the order in which they were declared. -/
structure CaptureModule where
  archName : String
  functions : List CapturedFunction
  deriving DecidableEq, Repr

namespace CaptureModule

def defined (module : CaptureModule) : List (String × CapturedBody) :=
  module.functions.filterMap fun function => function.body.map fun body => (function.name, body)

/-- The names that are declared and never defined. -/
def imports (module : CaptureModule) : List String :=
  let names := (module.functions.filter fun function =>
    !function.linkage.isDefinable && function.body.isNone).map CapturedFunction.name
  (names.mergeSort fun name name' => decide (name ≤ name')).destutter (· ≠ ·)

end CaptureModule

/-! ## Writing -/

def writeReloc (reloc : AvceReloc) : List UInt8 :=
  encode 8 reloc.offset.toNat ++ encode 8 reloc.addend.toNat ++
    writeString reloc.kind ++ writeString reloc.symbol

def writeFunction (name : String) (body : CapturedBody) : List UInt8 :=
  writeString name ++ writeSized body.bytes ++ writeU32 body.relocs.length ++
    body.relocs.flatMap writeReloc

def avceMagic : Nat := 0x41564345

def encodeAvce (module : CaptureModule) : List UInt8 :=
  writeU32 avceMagic ++ encode 2 1 ++ writeString module.archName ++
    writeU32 module.defined.length ++
    (module.defined.flatMap fun (name, body) => writeFunction name body) ++
    writeU32 module.imports.length ++ module.imports.flatMap writeString

/-! ## Reading -/

inductive CellError
  | parse (message : String)
  | arch (message : String)
  | sig (message : String)
  | link (message : String)
  deriving DecidableEq, Repr

/-! The readers of containers and cells.  Their first argument is the length of the
whole input, for the messages. -/

namespace R

def needs (total count : Nat) (bytes : List UInt8) : CellError :=
  .parse ("needs " ++ toString count ++ " bytes at offset " ++ toString (total - bytes.length) ++
    ", only " ++ toString bytes.length ++ " remain")

def take (total count : Nat) : ByteParser CellError (List UInt8) := fun bytes =>
  ByteParser.take (needs total count bytes) count bytes

def array (total count : Nat) : ByteParser CellError (List.Vector UInt8 count) := fun bytes =>
  ByteParser.array (needs total count bytes) count bytes

def number (total width : Nat) : ByteParser CellError Nat :=
  decode <$> take total width

def u16 (total : Nat) : ByteParser CellError Nat := number total 2

def u32 (total : Nat) : ByteParser CellError Nat := number total 4

def u64 (total : Nat) : ByteParser CellError UInt64 := UInt64.ofNat <$> number total 8

def i64v (total : Nat) : ByteParser CellError (BitVec 64) := BitVec.ofNat 64 <$> number total 8

def text (data : List UInt8) : Except CellError String :=
  match fromUtf8 data with
  | some text => .ok text
  | none => .error (.parse "utf-8 in string field")

def bytesStr (total : Nat) : ByteParser CellError String := do
  let length ← u32 total
  let raw ← take total length
  ByteParser.ofExcept (text raw)

def reloc (total limit : Nat) (outside : UInt64 → String) : ByteParser CellError AvceReloc := do
  let offset ← u64 total
  let addend ← i64v total
  let kind ← bytesStr total
  let symbol ← bytesStr total
  require (offset.toNat < limit) (.parse (outside offset))
  return ⟨offset, addend, kind, symbol⟩

end R

open R

structure AvceFn where
  name : String
  body : List UInt8
  relocs : List AvceReloc
  deriving DecidableEq, Repr

structure AvceDoc where
  arch : String
  functions : List AvceFn
  imports : List String
  deriving DecidableEq, Repr

/-- `{:#010x}` of a 32-bit number. -/
def hexWord (value : Nat) : String :=
  "0x" ++ String.ofList (List.leftpad 8 '0' (Nat.toDigits 16 value))

def readFunction (total : Nat) : ByteParser CellError AvceFn := do
  let name ← bytesStr total
  let length ← u32 total
  let body ← take total length
  require (body ≠ []) (.parse ("function " ++ name ++ " has empty body"))
  let count ← u32 total
  require (count ≤ 2 ^ 20) (.parse "relocation count absurd")
  let relocs ← times count <| reloc total body.length fun offset =>
    "reloc offset " ++ toString offset.toNat ++ " outside function " ++ name ++ " (" ++
      toString body.length ++ " bytes)"
  return ⟨name, body, relocs⟩

def readAvce (total : Nat) : ByteParser CellError AvceDoc := do
  let magic ← u32 total
  require (magic = avceMagic) (.parse ("bad AVCE magic " ++ hexWord magic))
  let version ← u16 total
  require (version = 1) (.parse ("AVCE version " ++ toString version ++ " unsupported"))
  let arch ← bytesStr total
  let count ← u32 total
  require (count ≠ 0) (.parse "container defines no functions")
  let functions ← times count (readFunction total)
  let importCount ← u32 total
  let imports ← times importCount (bytesStr total)
  return ⟨arch, functions, imports⟩

def parseAvce (bytes : List UInt8) : Except CellError AvceDoc := do
  let (doc, rest) ← readAvce bytes.length bytes
  ensure (rest = []) (.parse (toString rest.length ++ " trailing bytes after AVCE body"))
  return doc

/-! ## The readers on what is written -/

namespace R

variable {total : Nat}

theorem yields_take {count : Nat} (data : List UInt8) (length : data.length = count) :
    Yields (take total count) data (.ok data) :=
  fun rest => ByteParser.yields_take _ data length rest

theorem yields_array {count : Nat} (data : List.Vector UInt8 count) :
    Yields (array total count) data.toList (.ok data) :=
  fun rest => ByteParser.yields_array _ data rest

theorem yields_number (fits : value < 256 ^ width) :
    Yields (number total width) (encode width value) (.ok value) :=
  fun rest => ByteParser.yields_number _ fits rest

theorem yields_u64 (value : UInt64) : Yields (u64 total) (encode 8 value.toNat) (.ok value) := by
  have fits : value.toNat < 256 ^ 8 := value.toNat_lt
  have read : Yields (u64 total) _ _ := (yields_number fits).map_ok UInt64.ofNat
  rwa [UInt64.ofNat_toNat] at read

theorem yields_i64v (value : BitVec 64) :
    Yields (i64v total) (encode 8 value.toNat) (.ok value) := by
  have fits : value.toNat < 256 ^ 8 := value.isLt
  have read : Yields (i64v total) _ _ := (yields_number fits).map_ok (BitVec.ofNat 64)
  rwa [BitVec.ofNat_toNat, BitVec.setWidth_eq] at read

theorem text_eq_ok : text data = .ok found ↔ utf8 found = data := by
  rw [← fromUtf8_eq_some, text]
  cases fromUtf8 data with
  | none => simp
  | some => simp

theorem yields_bytesStr (fits : (utf8 value).length < 2 ^ 32) :
    Yields (bytesStr total) (writeString value) (.ok value) := by
  have isText : text (utf8 value) = .ok value := text_eq_ok.mpr rfl
  apply (yields_number (fits : _ < 256 ^ 4)).andThen
  apply (yields_take (utf8 value) rfl).andFinish
  rw [isText]
  exact yields_ofExcept (.ok value)

theorem yields_reloc (outside : UInt64 → String) (inside : value.offset.toNat < limit)
    (kind : (utf8 value.kind).length < 2 ^ 32) (symbol : (utf8 value.symbol).length < 2 ^ 32) :
    Yields (reloc total limit outside) (writeReloc value) (.ok value) := by
  rw [writeReloc, append_assoc, append_assoc]
  apply (yields_u64 value.offset).andThen
  apply (yields_i64v value.addend).andThen
  apply (yields_bytesStr kind).andThen
  apply (yields_bytesStr symbol).andFinish
  apply afterRequire inside
  exact yields_pure value

theorem extends_take (count : Nat) : Extends (take total count) := by
  intro _ _ _ _ parsed
  obtain ⟨rfl, length⟩ := take_eq_ok_iff.mp parsed
  rw [append_assoc]
  exact take_eq_ok_iff.mpr ⟨rfl, length⟩

theorem extends_number (width : Nat) : Extends (number total width) := (extends_take width).map _

theorem extends_bytesStr : Extends (bytesStr total) := by
  apply (extends_number 4).bind
  intro length
  apply (extends_take length).bind
  intro raw
  exact extends_ofExcept (text raw)

theorem extends_reloc (limit : Nat) (outside : UInt64 → String) :
    Extends (reloc total limit outside) := by
  apply ((extends_number 8).map UInt64.ofNat).bind
  intro _
  apply ((extends_number 8).map (BitVec.ofNat 64)).bind
  intro _
  apply extends_bytesStr.bind
  intro _
  apply extends_bytesStr.bind
  intro _
  apply (extends_require _ _).bind
  intro _
  exact extends_pure _

end R

/-! ## Round trip -/

/-- The container of the module, as its reader returns it. -/
def CaptureModule.doc (module : CaptureModule) : AvceDoc where
  arch := module.archName
  functions := module.defined.map fun (name, body) => ⟨name, body.bytes, body.relocs⟩
  imports := module.imports

/-- The function has a body, its lengths fit their fields, and its relocations are
inside. -/
structure AvceFn.Fits (function : AvceFn) : Prop where
  name : (utf8 function.name).length < 2 ^ 32
  nonempty : function.body ≠ []
  body : function.body.length < 2 ^ 32
  relocs : function.relocs.length ≤ 2 ^ 20
  inside : ∀ reloc ∈ function.relocs, reloc.offset.toNat < function.body.length
  kind : ∀ reloc ∈ function.relocs, (utf8 reloc.kind).length < 2 ^ 32
  symbol : ∀ reloc ∈ function.relocs, (utf8 reloc.symbol).length < 2 ^ 32

structure AvceDoc.Fits (doc : AvceDoc) : Prop where
  arch : (utf8 doc.arch).length < 2 ^ 32
  nonempty : doc.functions ≠ []
  count : doc.functions.length < 2 ^ 32
  functions : ∀ function ∈ doc.functions, function.Fits
  importCount : doc.imports.length < 2 ^ 32
  imports : ∀ name ∈ doc.imports, (utf8 name).length < 2 ^ 32

theorem yields_readFunction (total : Nat) (fits : function.Fits) :
    Yields (readFunction total) (writeFunction function.name ⟨function.body, function.relocs⟩)
      (.ok function) := by
  have relocs : Yields (times function.relocs.length (reloc total function.body.length _))
      (function.relocs.flatMap writeReloc) (.ok function.relocs) :=
    yields_times_ok fun reloc member => yields_reloc (fun offset =>
        "reloc offset " ++ toString offset.toNat ++ " outside function " ++ function.name ++
          " (" ++ toString function.body.length ++ " bytes)")
      (fits.inside reloc member) (fits.kind reloc member) (fits.symbol reloc member)
  have count : function.relocs.length < 256 ^ 4 := by
    have := fits.relocs
    omega
  have length : function.body.length < 256 ^ 4 := fits.body
  simp only [writeFunction, writeSized, append_assoc]
  apply (yields_bytesStr fits.name).andThen
  apply (yields_number length).andThen
  apply (yields_take function.body rfl).andThen
  apply afterRequire fits.nonempty
  apply (yields_number count).andThen
  apply afterRequire fits.relocs
  apply relocs.andFinish
  exact yields_pure function

theorem yields_readAvce (total : Nat) (fits : module.doc.Fits) :
    Yields (readAvce total) (encodeAvce module) (.ok module.doc) := by
  have written : (module.defined.flatMap fun (name, body) => writeFunction name body) =
      module.doc.functions.flatMap fun function =>
        writeFunction function.name ⟨function.body, function.relocs⟩ := by
    rw [CaptureModule.doc, flatMap_map]
  have defined : module.defined.length = module.doc.functions.length := by
    rw [CaptureModule.doc, length_map]
  have functions := yields_times_ok fun function member =>
    yields_readFunction total (fits.functions function member)
  have imports : Yields (times module.imports.length (bytesStr total))
      (module.imports.flatMap writeString) (.ok module.imports) :=
    yields_times_ok fun name member => yields_bytesStr (fits.imports name member)
  have nonempty : module.doc.functions.length ≠ 0 := by
    rw [ne_eq, length_eq_zero_iff]
    exact fits.nonempty
  simp only [encodeAvce, written, defined, append_assoc]
  apply (yields_number (by decide : avceMagic < 256 ^ 4)).andThen
  apply afterRequire rfl
  apply (yields_number (by decide : 1 < 256 ^ 2)).andThen
  apply afterRequire rfl
  apply (yields_bytesStr fits.arch).andThen
  apply (R.yields_number fits.count).andThen
  apply afterRequire nonempty
  apply functions.andThen
  apply (R.yields_number fits.importCount).andThen
  apply imports.andFinish
  exact yields_pure module.doc

theorem extends_readFunction (total : Nat) : Extends (readFunction total) := by
  apply extends_bytesStr.bind
  intro _
  apply (extends_number 4).bind
  intro length
  apply (extends_take length).bind
  intro body
  apply (extends_require _ _).bind
  intro _
  apply (extends_number 4).bind
  intro count
  apply (extends_require _ _).bind
  intro _
  apply ((extends_reloc body.length _).times count).bind
  intro _
  exact extends_pure _

theorem extends_readAvce (total : Nat) : Extends (readAvce total) := by
  apply (extends_number 4).bind
  intro _
  apply (extends_require _ _).bind
  intro _
  apply (extends_number 2).bind
  intro _
  apply (extends_require _ _).bind
  intro _
  apply extends_bytesStr.bind
  intro _
  apply (extends_number 4).bind
  intro count
  apply (extends_require _ _).bind
  intro _
  apply ((extends_readFunction total).times count).bind
  intro _
  apply (extends_number 4).bind
  intro importCount
  apply (extends_bytesStr.times importCount).bind
  intro _
  exact extends_pure _

theorem parseAvce_eq_ok :
    parseAvce bytes = .ok doc ↔ readAvce bytes.length bytes = .ok (doc, []) := by
  rw [parseAvce, Comp.bind_eq_ok]
  constructor
  · rintro ⟨⟨_, _⟩, parsed, finished⟩
    obtain ⟨complete, finished⟩ := Comp.ensure_bind_eq_ok.mp finished
    obtain rfl := Comp.pure_eq_ok.mp finished
    rwa [complete] at parsed
  · intro parsed
    exact ⟨(doc, []), parsed, rfl⟩

/-- The container of a captured module is read back as that module, and no part of
it that ends earlier is accepted. -/
theorem avce_round_trip (module : CaptureModule) (fits : module.doc.Fits) :
    parseAvce (encodeAvce module) = .ok module.doc ∧
      ∀ bytes, bytes <+: encodeAvce module → bytes ≠ encodeAvce module →
        ∃ error, parseAvce bytes = .error error := by
  constructor
  · exact parseAvce_eq_ok.mpr (yields_readAvce _ fits).run
  · rintro bytes ⟨missing, whole⟩ proper
    cases parsed : parseAvce bytes with
    | error error => exact ⟨error, rfl⟩
    | ok =>
      have extended := extends_readAvce _ _ _ _ missing (parseAvce_eq_ok.mp parsed)
      have complete : readAvce bytes.length (encodeAvce module) = .ok (module.doc, []) :=
        (yields_readAvce _ fits).run
      rw [whole, complete, nil_append] at extended
      have nothing : missing = [] := by
        cases extended
        rfl
      rw [nothing, append_nil] at whole
      exact absurd whole proper

/-- The function `run` with the code `call au_alloc; ret`, and its import. -/
def callingFunction : CaptureModule where
  archName := "x86_64"
  functions :=
    [⟨"run", .exported, some ⟨[0xE8, 0, 0, 0, 0, 0xC3], [⟨1, -4, "X86CallPCRel4", "au_alloc"⟩]⟩⟩,
      ⟨"au_alloc", .imported, none⟩]

theorem avce_round_trip_at_call : parseAvce (encodeAvce callingFunction) = .ok ⟨"x86_64",
    [⟨"run", [0xE8, 0, 0, 0, 0, 0xC3], [⟨1, -4, "X86CallPCRel4", "au_alloc"⟩]⟩],
    ["au_alloc"]⟩ := by
  have fits : callingFunction.doc.Fits := by
    refine ⟨by decide +kernel, by decide +kernel, by decide +kernel, ?_, by decide +kernel,
      by decide +kernel⟩
    intro _ member
    cases mem_singleton.mp member
    exact ⟨by decide +kernel, by decide, by decide, by decide, by decide, by decide +kernel,
      by decide +kernel⟩
  rw [(avce_round_trip callingFunction fits).1]
  decide +kernel

end AustralVM.Cell
