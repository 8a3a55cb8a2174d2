import AustralVM.ByteFields
import AustralVM.CellFormat
import Mathlib.Data.List.AList

/-!
# Linking cells

The linker copies the code of a cell and patches the copy: each relocation
gets the address of the symbol that it names, from the cell itself or from
other cells that are mapped.
-/

namespace AustralVM.Cell

open AustralVM.Comp List Option
open ByteFields (overwrite)

abbrev SymbolTable := AList fun _ : String => UInt64

structure LinkedImage where
  text : List UInt8
  symbols : SymbolTable

structure Provider (Json : Type) where
  view : CellView Json
  base : UInt64

variable {Json : Type}

/-! ## Patching -/

def patch (text : List UInt8) (off : Nat) (bytes : List UInt8) :
    Except CellError (List UInt8) := do
  ensure (off + bytes.length < 2 ^ 64) (.link "offset overflow")
  ensure (off + bytes.length ≤ text.length)
    (.link ("reloc at " ++ toString off ++ " runs past the text (" ++ toString text.length ++
      " bytes)"))
  return overwrite text off bytes

/-- The lowest bytes of a number in two's complement. -/
def twosComplement (width : Nat) (value : Int) : List UInt8 :=
  LittleEndian.encode width (value % 256 ^ width).toNat

def isI32 (value : Int) : Prop := -2 ^ 31 ≤ value ∧ value < 2 ^ 31

instance (value : Int) : Decidable (isI32 value) := inferInstanceAs (Decidable (_ ∧ _))

def unsupported (kind : String) : CellError :=
  if kind = "X86GOTPCRel4" ∨ kind = "X86GOTPCRel8" ∨ kind = "X86CallPLTRel4GOT" then
    .link ("relocation kind " ++ kind ++
      " needs GOT/PLT indirection the cell format does not carry")
  else .link ("unknown relocation kind \"" ++ kind ++ "\"")

/-- The kinds of relocation that count from the place they are at. -/
def isPcRelative (kind : String) : Prop :=
  kind = "X86PCRel4" ∨ kind = "X86CallPCRel4" ∨ kind = "X86CallPLTRel4"

instance (kind : String) : Decidable (isPcRelative kind) := inferInstanceAs (Decidable (_ ∨ _))

def applyOne (text : List UInt8) (siteBase : UInt64) (reloc : AvceReloc) (target : UInt64) :
    Except CellError (List UInt8) := do
  let off := reloc.offset.toNat
  let value := (target.toNat : Int) + reloc.addend.toInt
  if reloc.kind = "Abs8" then patch text off (twosComplement 8 value)
  else if reloc.kind = "Abs4" then
    ensure (isI32 value) (.link ("Abs4 target " ++ toString value ++ " out of range"))
    patch text off (twosComplement 4 value)
  else if isPcRelative reloc.kind then
    let site := siteBase.toNat + off
    ensure (site < 2 ^ 64) (.link "site address overflow")
    let rel := value - (site + 4)
    ensure (isI32 rel)
      (.link ("PC-relative distance " ++ toString rel ++ " from 0x" ++
        String.ofList (Nat.toDigits 16 site) ++ " to 0x" ++
        String.ofList (Nat.toDigits 16 target.toNat) ++
        " out of i32 range (provider cell more than 2 GiB away)"))
    patch text off (twosComplement 4 rel)
  else .error (unsupported reloc.kind)

def checkKind (kind : String) : Except CellError Unit :=
  if kind = "Abs8" ∨ kind = "Abs4" ∨ isPcRelative kind then .ok ()
  else .error (unsupported kind)

/-! ## Symbols -/

/-- The symbols of the cell itself; the sum of an address wraps around. -/
def defineOwn (base : UInt64) (symbols : SymbolTable) (symdef : SymDef) :
    Except CellError SymbolTable :=
  if symdef.name ∈ symbols then .error (.link ("duplicate symbol " ++ symdef.name))
  else .ok (symbols.insert symdef.name (base + symdef.offset))

/-- A provider supplies a symbol that is not known yet. -/
def supply (base : UInt64) (symbols : SymbolTable) (symdef : SymDef) : SymbolTable :=
  if symdef.name ∈ symbols then symbols
  else symbols.insert symdef.name (base + symdef.offset)

def collectSymbols (owner : CellView Json) (ownerBase : UInt64)
    (providers : List (Provider Json)) : Except CellError SymbolTable := do
  let own ← owner.symdefs.foldlM (defineOwn ownerBase) ∅
  return providers.foldl
    (fun symbols provider => provider.view.symdefs.foldl (supply provider.base) symbols) own

def unresolved (owner : CellView Json) (providers : List (Provider Json)) (symbol : String) :
    CellError :=
  .link ("unresolved symbol \"" ++ symbol ++ "\" (owner defines " ++
    toString owner.symdefs.length ++ " symbol(s), providers supply " ++
    toString (providers.map fun provider => provider.view.symdefs.length).sum ++ ")")

def relocate (symbols : SymbolTable) (base : UInt64) (missing : String → CellError)
    (text : List UInt8) (reloc : AvceReloc) : Except CellError (List UInt8) :=
  match symbols.lookup reloc.symbol with
  | some target => applyOne text base reloc target
  | none => .error (missing reloc.symbol)

def link (owner : CellView Json) (ownerBase : UInt64) (providers : List (Provider Json)) :
    Except CellError LinkedImage := do
  let codeLen := owner.codeLen
  ensure (codeLen ≤ owner.text.length) (.link "symdefs run past the text")
  let text := owner.text.take codeLen
  owner.relocs.forM fun reloc => checkKind reloc.kind
  let symbols ← collectSymbols owner ownerBase providers
  let text ← owner.relocs.foldlM (relocate symbols ownerBase (unresolved owner providers)) text
  return ⟨text, symbols⟩

/-! ## Which definition a symbol has -/

def CellView.symdef (view : CellView Json) (name : String) : Option SymDef :=
  view.symdefs.find? fun symdef => symdef.name = name

/-- The first cell that defines a symbol, and the definition. -/
def definition {Cell : Type} (view : Cell → CellView Json) (cells : List Cell) (name : String) :
    Option (Cell × SymDef) :=
  cells.findSome? fun cell => ((view cell).symdef name).map fun symdef => (cell, symdef)

theorem definition_cons (view : Cell → CellView Json) (cell : Cell) (cells : List Cell)
    (name : String) : definition view (cell :: cells) name =
      (((view cell).symdef name).map fun symdef => (cell, symdef)).or
        (definition view cells name) := by
  rw [definition, findSome?_cons]
  cases (view cell).symdef name with
  | none => rfl
  | some => rfl

theorem definition_eq_none_iff : definition view cells name = none ↔
      ∀ cell ∈ cells, ∀ symdef ∈ (view cell).symdefs, symdef.name ≠ name := by
  simp only [definition, findSome?_eq_none_iff, CellView.symdef, map_eq_none_iff,
    find?_eq_none, decide_eq_true_eq, ne_eq]

def address (place : Provider Json × SymDef) : UInt64 := place.1.base + place.2.offset

section Lookup

variable {name : String} {symbols result : SymbolTable} {base : UInt64} {owner : CellView Json}
  {providers : List (Provider Json)}

theorem lookup_insert (symbols : SymbolTable) (key name : String) (value : UInt64) :
    (symbols.insert key value).lookup name =
      if key = name then some value else symbols.lookup name := by
  by_cases same : key = name
  · subst same
    rw [AList.lookup_insert, if_pos rfl]
  · rw [AList.lookup_insert_ne (Ne.symm same), if_neg same]

theorem lookup_supply (base : UInt64) (symbols : SymbolTable) (symdef : SymDef) (name : String) :
    (supply base symbols symdef).lookup name = (symbols.lookup name).or
      (if symdef.name = name then some (base + symdef.offset) else none) := by
  rw [supply]
  by_cases known : symdef.name ∈ symbols
  · rw [if_pos known]
    by_cases same : symdef.name = name
    · subst same
      obtain ⟨_, found⟩ := isSome_iff_exists.mp (AList.lookup_isSome.mpr known)
      rw [found, some_or]
    · rw [if_neg same, or_none]
  · rw [if_neg known, lookup_insert]
    by_cases same : symdef.name = name
    · subst same
      rw [if_pos rfl, if_pos rfl, AList.lookup_eq_none.mpr known, none_or]
    · rw [if_neg same, if_neg same, or_none]

theorem lookup_foldl_supply (base : UInt64) (symdefs : List SymDef) (symbols : SymbolTable)
    (name : String) : (symdefs.foldl (supply base) symbols).lookup name = (symbols.lookup name).or
      ((symdefs.find? fun symdef => symdef.name = name).map fun symdef =>
        base + symdef.offset) := by
  induction symdefs generalizing symbols with
  | nil => rw [foldl_nil, find?_nil, map_none, or_none]
  | cons symdef _ ih =>
    rw [foldl_cons, ih, lookup_supply, Option.or_assoc, find?_cons]
    by_cases same : symdef.name = name
    · simp [same]
    · simp [same]

theorem lookup_foldl_providers (providers : List (Provider Json)) (symbols : SymbolTable)
    (name : String) : (providers.foldl (fun symbols provider =>
        provider.view.symdefs.foldl (supply provider.base) symbols) symbols).lookup name =
      (symbols.lookup name).or ((definition Provider.view providers name).map address) := by
  induction providers generalizing symbols with
  | nil => rw [foldl_nil, definition, findSome?_nil, map_none, or_none]
  | cons _ _ ih =>
    rw [foldl_cons, ih, lookup_foldl_supply, Option.or_assoc, definition_cons,
      Option.map_or, Option.map_map]
    rfl

theorem lookup_foldlM_defineOwn {symdefs : List SymDef}
    (defined : symdefs.foldlM (defineOwn base) symbols = .ok result) :
    result.lookup name = (symbols.lookup name).or
      ((symdefs.find? fun symdef => symdef.name = name).map fun symdef =>
        base + symdef.offset) := by
  have supplied : result = symdefs.foldl (supply base) symbols := by
    induction symdefs generalizing symbols with
    | nil => exact (Except.ok.inj defined).symm
    | cons symdef _ ih =>
      rw [foldlM_cons] at defined
      by_cases known : symdef.name ∈ symbols
      · rw [defineOwn, if_pos known] at defined
        cases defined
      · rw [defineOwn, if_neg known] at defined
        rw [foldl_cons, supply, if_neg known]
        exact ih defined
  rw [supplied, lookup_foldl_supply]

theorem lookup_collectSymbols (collected : collectSymbols owner base providers = .ok symbols)
    (name : String) : symbols.lookup name =
      (definition Provider.view (⟨owner, base⟩ :: providers) name).map address := by
  obtain ⟨_, defined, collected⟩ := bind_eq_ok.mp collected
  rw [← pure_eq_ok.mp collected, lookup_foldl_providers, lookup_foldlM_defineOwn defined,
    AList.lookup_empty, Option.none_or, definition_cons, Option.map_or, Option.map_map]
  rfl

theorem link_eq_ok (linked : link owner base providers = .ok image) :
    collectSymbols owner base providers = .ok image.symbols ∧
      owner.relocs.foldlM (relocate image.symbols base (unresolved owner providers))
        (owner.text.take owner.codeLen) = .ok image.text := by
  obtain ⟨-, linked⟩ := ensure_bind_eq_ok.mp linked
  obtain ⟨_, -, linked⟩ := bind_eq_ok.mp linked
  obtain ⟨_, collected, linked⟩ := bind_eq_ok.mp linked
  obtain ⟨_, patched, linked⟩ := bind_eq_ok.mp linked
  obtain rfl := pure_eq_ok.mp linked
  exact ⟨collected, patched⟩

theorem link_of_relocated (inside : owner.codeLen ≤ owner.text.length)
    (kinds : (owner.relocs.forM fun reloc => checkKind reloc.kind) = .ok ())
    (collected : collectSymbols owner base providers = .ok symbols)
    (relocated : owner.relocs.foldlM (relocate symbols base (unresolved owner providers))
      (owner.text.take owner.codeLen) = .ok text) :
    link owner base providers = .ok ⟨text, symbols⟩ :=
  ensure_bind_eq_ok.mpr ⟨inside, bind_eq_ok.mpr ⟨(), kinds,
    bind_eq_ok.mpr ⟨symbols, collected, bind_eq_ok.mpr ⟨text, relocated, rfl⟩⟩⟩⟩

end Lookup

/-! ## Cells in memory -/

structure MappedCell (json : JsonCodec Json) where
  bytes : List UInt8
  view : CellView Json
  parsed : CellView.parse json bytes = .ok view
  base : UInt64

/-- Where the text of a cell begins: after the header, the capability table and the
length of the text. -/
def textPosition (bytes : List UInt8) : Nat :=
  0x2C + LittleEndian.decode ((bytes.drop 0x28).take 4) + 4

namespace MappedCell

variable {json : JsonCodec Json}

def provider (cell : MappedCell json) : Provider Json := ⟨cell.view, cell.base⟩

theorem definition_provider (cells : List (MappedCell json)) (name : String) :
    definition Provider.view (cells.map provider) name =
      (definition MappedCell.view cells name).map fun place => (place.1.provider, place.2) := by
  induction cells with
  | nil => rfl
  | cons _ _ ih =>
    rw [map_cons, definition_cons, ih, definition_cons, map_or, Option.map_map]
    congr 1

end MappedCell

/-- A symbol is recorded at the address of the first byte of its code. -/
def RecordsCode {json : JsonCodec Json} (cells : List (MappedCell json)) (symbols : SymbolTable) :
    Prop :=
  ∀ name address, symbols.lookup name = some address →
    ∃ cell symdef, definition MappedCell.view cells name = some (cell, symdef) ∧
      address.toNat = cell.base.toNat + textPosition cell.bytes + symdef.offset.toNat

theorem lookup_linked {json : JsonCodec Json} {owner : MappedCell json}
    {providers : List (MappedCell json)} {image : LinkedImage}
    (linked : link owner.view owner.base (providers.map MappedCell.provider) = .ok image)
    (name : String) :
    image.symbols.lookup name = (definition MappedCell.view (owner :: providers) name).map
      fun place => place.1.base + place.2.offset := by
  have found := MappedCell.definition_provider (owner :: providers) name
  rw [map_cons] at found
  rw [lookup_collectSymbols (link_eq_ok linked).1 name]
  change (definition Provider.view (owner.provider :: _) name).map address = _
  rw [found, Option.map_map]
  rfl

theorem toNat_add_ne_code (bytes : List UInt8) (base offset : UInt64) :
    (base + offset).toNat ≠ base.toNat + textPosition bytes + offset.toNat := by
  have sum : (base + offset).toNat ≤ base.toNat + offset.toNat := by
    rw [UInt64.toNat_add]
    exact Nat.mod_le _ _
  rw [textPosition]
  omega

/-- Linking records the addresses of code exactly if there is no symbol. -/
theorem linked_symbols_iff {json : JsonCodec Json} (owner : MappedCell json)
    (providers : List (MappedCell json)) (image : LinkedImage)
    (linked : link owner.view owner.base (providers.map MappedCell.provider) = .ok image) :
    RecordsCode (owner :: providers) image.symbols ↔
      ∀ cell ∈ owner :: providers, cell.view.symdefs = [] := by
  constructor
  · intro records cell member
    rw [eq_nil_iff_forall_not_mem]
    intro symdef isSymdef
    have lookup := lookup_linked linked symdef.name
    cases found : definition MappedCell.view (owner :: providers) symdef.name with
    | none => exact definition_eq_none_iff.mp found cell member symdef isSymdef rfl
    | some =>
      rw [found] at lookup
      obtain ⟨_, _, same, recorded⟩ := records symdef.name _ lookup
      rw [found] at same
      cases same
      exact toNat_add_ne_code _ _ _ recorded
  · intro empty name _ lookup
    have undefined : definition MappedCell.view (owner :: providers) name = none := by
      rw [definition_eq_none_iff]
      intro cell member
      rw [empty cell member]
      nofun
    rw [lookup_linked linked, undefined] at lookup
    cases lookup

/-! ## A page of code -/

def pageView (code : List UInt8) (symdefs : List SymDef) : CellView String :=
  let view : CellView String :=
    { version := avmcVersion, arch := 1, drvHash := List.Vector.replicate 32 9,
      capabilityTable := "[]", text := code.rightpad page 0, symdefs := symdefs, imports := [],
      relocs := [], signature := List.Vector.replicate 64 0, signed := [] }
  { view with signed := view.encode plainTables }

theorem fits_pageView (short : code.length ≤ page) (few : symdefs.length ≤ 2 ^ 20)
    (inside : ∀ symdef ∈ symdefs, (utf8 symdef.name).length < 2 ^ 32 ∧
      symdef.offset.toNat + symdef.len.toNat ≤ page) :
    (pageView code symdefs).Fits plainTables := by
  have length : (pageView code symdefs).text.length = page := by
    rw [pageView, length_rightpad]
    exact max_eq_left short
  have small : (plainTables.toVec "[]").length ≤ 16 * 1024 * 1024 := by decide +kernel
  have same : (pageView code symdefs).capabilityTable = "[]" := rfl
  exact
    { version := rfl, arch := .inl rfl, table := plainTables_fromSlice _,
      tableLength := by rw [same]; exact small,
      nonempty := by rw [length]; decide, aligned := by rw [length]; decide,
      textLength := by rw [length]; decide, symdefCount := few,
      symdef := by rw [length]; exact inside, importCount := Nat.zero_le _, importName := nofun,
      relocCount := Nat.zero_le _, reloc := nofun, signed := rfl }

def mapPage (code : List UInt8) (symdefs : List SymDef) (base : UInt64)
    (fits : (pageView code symdefs).Fits plainTables) : MappedCell plainTables :=
  ⟨_, pageView code symdefs, fits.parse_encode, base⟩

theorem link_bare (collected : collectSymbols (pageView [] []) base providers = .ok symbols) :
    link (pageView [] []) base providers =
      .ok ⟨(pageView [] []).text.take (pageView [] []).text.length, symbols⟩ :=
  link_of_relocated le_rfl rfl collected rfl

theorem fits_bare : (pageView [] []).Fits plainTables :=
  fits_pageView (Nat.zero_le _) (Nat.zero_le _) nofun

theorem linked_symbols_of_bare : ∃ (owner : MappedCell plainTables) (image : LinkedImage),
      link owner.view owner.base [] = .ok image ∧ RecordsCode [owner] image.symbols := by
  have linked : link (pageView [] []) 0x1000 [] = .ok _ := link_bare rfl
  refine ⟨mapPage [] [] 0x1000 fits_bare, _, linked, ?_⟩
  rw [linked_symbols_iff (mapPage [] [] 0x1000 fits_bare) [] _ linked]
  intro _ member
  rw [mem_singleton.mp member]
  rfl

/-- The address of a symbol of a provider is that of the provider's magic bytes. -/
theorem provided_symbol_is_at_magic :
    ∃ (owner provider : MappedCell plainTables) (image : LinkedImage),
      link owner.view owner.base [provider.provider] = .ok image ∧
        image.symbols.lookup "run" = some provider.base ∧ provider.bytes.take 4 = avmcMagic ∧
        ¬ RecordsCode [owner, provider] image.symbols := by
  have fits : (pageView [0xB8, 0x07, 0x00, 0x00, 0x00, 0xC3] [⟨"run", 0, 6⟩]).Fits plainTables :=
    fits_pageView (by decide) (by decide) (by decide +kernel)
  have linked : link (pageView [] []) 0x1000 [⟨pageView [0xB8, 0x07, 0x00, 0x00, 0x00, 0xC3]
      [⟨"run", 0, 6⟩], 0xAAAA0000⟩] = .ok _ := link_bare rfl
  refine ⟨mapPage [] [] 0x1000 fits_bare, mapPage _ _ 0xAAAA0000 fits, _, linked, rfl, rfl, ?_⟩
  intro records
  obtain ⟨_, _, found, recorded⟩ := records "run" 0xAAAA0000 rfl
  obtain ⟨rfl, rfl⟩ := Prod.mk.inj (some.inj found).symm
  exact toNat_add_ne_code _ 0xAAAA0000 0 recorded

end AustralVM.Cell
