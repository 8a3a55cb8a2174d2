import AustralVM.CellLinker

/-!
# Where linked references land

A call or another reference that counts from its own place has four bytes, and
the processor adds them to the address after them.  Capture, cell and linker
pass on an addend for each such reference.  The linker subtracts the four bytes
of the field itself, so a reference lands on its symbol only if the addend does
not account for them.
-/

namespace AustralVM.Cell

open ByteFields AustralVM.Comp List BitVec LittleEndian

variable {Json : Type}

/-! ## One relocation -/

def fieldWidth (kind : String) : Nat := if kind = "Abs8" then 8 else 4

def Apart (reloc reloc' : AvceReloc) : Prop :=
  reloc.offset.toNat + fieldWidth reloc.kind ≤ reloc'.offset.toNat ∨
    reloc'.offset.toNat + fieldWidth reloc'.kind ≤ reloc.offset.toNat

def distance (base : UInt64) (reloc : AvceReloc) (target : UInt64) : Int :=
  target.toNat + reloc.addend.toInt - (base.toNat + reloc.offset.toNat + 4)

theorem length_twosComplement (width : Nat) (value : Int) :
    (twosComplement width value).length = width := length_encode width _

theorem patch_eq_ok (patched : patch text off bytes = .ok result) :
    off + bytes.length ≤ text.length ∧ result = overwrite text off bytes := by
  obtain ⟨-, patched⟩ := ensure_bind_eq_ok.mp patched
  obtain ⟨inside, patched⟩ := ensure_bind_eq_ok.mp patched
  exact ⟨inside, (pure_eq_ok.mp patched).symm⟩

/-- The number that the kind of a relocation prescribes for the address of its symbol. -/
def fieldValue (base : UInt64) (reloc : AvceReloc) (target : UInt64) : Int :=
  if isPcRelative reloc.kind then distance base reloc target
  else target.toNat + reloc.addend.toInt

theorem applyOne_eq_ok (applied : applyOne text base reloc target = .ok result) :
    reloc.offset.toNat + fieldWidth reloc.kind ≤ text.length ∧
      (reloc.kind ≠ "Abs8" → isI32 (fieldValue base reloc target)) ∧
      result = overwrite text reloc.offset.toNat
        (twosComplement (fieldWidth reloc.kind) (fieldValue base reloc target)) := by
  rw [applyOne] at applied
  by_cases wide : reloc.kind = "Abs8"
  · rw [if_pos wide] at applied
    obtain ⟨inside, isResult⟩ := patch_eq_ok applied
    rw [length_twosComplement] at inside
    have absolute : ¬ isPcRelative reloc.kind := by
      rw [wide]
      decide
    rw [fieldWidth, fieldValue, if_pos wide, if_neg absolute]
    exact ⟨inside, fun narrow => absurd wide narrow, isResult⟩
  rw [if_neg wide] at applied
  rw [fieldWidth, if_neg wide, fieldValue]
  by_cases absolute : reloc.kind = "Abs4"
  · rw [if_pos absolute] at applied
    obtain ⟨small, applied⟩ := ensure_bind_eq_ok.mp applied
    obtain ⟨inside, isResult⟩ := patch_eq_ok applied
    rw [length_twosComplement] at inside
    have notRelative : ¬ isPcRelative reloc.kind := by
      rw [absolute]
      decide
    rw [if_neg notRelative]
    exact ⟨inside, fun _ => small, isResult⟩
  rw [if_neg absolute] at applied
  by_cases relative : isPcRelative reloc.kind
  · rw [if_pos relative] at applied ⊢
    obtain ⟨-, applied⟩ := ensure_bind_eq_ok.mp applied
    obtain ⟨small, applied⟩ := ensure_bind_eq_ok.mp applied
    obtain ⟨inside, isResult⟩ := patch_eq_ok applied
    rw [length_twosComplement] at inside
    exact ⟨inside, fun _ => small, isResult⟩
  · rw [if_neg relative] at applied
    cases applied

/-! ## All relocations -/

section Relocate

variable {symbols : SymbolTable} {base : UInt64} {missing : String → CellError}
  {text result : List UInt8}

theorem relocate_eq_ok (relocated : relocate symbols base missing text reloc = .ok result) :
    ∃ target, symbols.lookup reloc.symbol = some target ∧
      applyOne text base reloc target = .ok result := by
  rw [relocate] at relocated
  cases found : symbols.lookup reloc.symbol with
  | none =>
    rw [found] at relocated
    cases relocated
  | some target =>
    rw [found] at relocated
    exact ⟨target, rfl, relocated⟩

theorem slice_of_relocated {relocs : List AvceReloc} {start width : Nat}
    (apart : ∀ reloc ∈ relocs, reloc.offset.toNat + fieldWidth reloc.kind ≤ start ∨
      start + width ≤ reloc.offset.toNat)
    (relocated : relocs.foldlM (relocate symbols base missing) text = .ok result) :
    slice result start width = slice text start width := by
  induction relocs generalizing text with
  | nil => rw [pure_eq_ok.mp relocated]
  | cons _ _ ih =>
    obtain ⟨_, rest⟩ := forall_mem_cons.mp apart
    rw [foldlM_cons] at relocated
    obtain ⟨_, one, relocated⟩ := bind_eq_ok.mp relocated
    obtain ⟨_, -, applied⟩ := relocate_eq_ok one
    obtain ⟨_, -, rfl⟩ := applyOne_eq_ok applied
    rw [ih rest relocated]
    apply slice_overwrite_of_apart <;> rwa [length_twosComplement]

/-- A relocation holds its number at the end, as no later relocation changes it. -/
theorem slice_of_mem {relocs : List AvceReloc} {reloc : AvceReloc} (apart : relocs.Pairwise Apart)
    (relocated : relocs.foldlM (relocate symbols base missing) text = .ok result)
    (member : reloc ∈ relocs) : ∃ target, symbols.lookup reloc.symbol = some target ∧
      reloc.offset.toNat + fieldWidth reloc.kind ≤ text.length ∧
      (reloc.kind ≠ "Abs8" → isI32 (fieldValue base reloc target)) ∧
      slice result reloc.offset.toNat (fieldWidth reloc.kind) =
        twosComplement (fieldWidth reloc.kind) (fieldValue base reloc target) := by
  induction relocs generalizing text with
  | nil => cases member
  | cons _ _ ih =>
    obtain ⟨firstApart, restApart⟩ := pairwise_cons.mp apart
    rw [foldlM_cons] at relocated
    obtain ⟨_, one, relocated⟩ := bind_eq_ok.mp relocated
    obtain ⟨target, found, applied⟩ := relocate_eq_ok one
    obtain ⟨inside, small, rfl⟩ := applyOne_eq_ok applied
    rcases mem_cons.mp member with rfl | later
    · refine ⟨target, found, inside, small, ?_⟩
      rw [slice_of_relocated (fun other isOther => (firstApart other isOther).symm) relocated]
      rw [← length_twosComplement (fieldWidth reloc.kind) (fieldValue base reloc target)] at inside
      have own := slice_overwrite inside
      rwa [length_twosComplement] at own
    · obtain ⟨other, known, within, rest⟩ := ih restApart relocated later
      rw [length_overwrite (by rwa [length_twosComplement])] at within
      exact ⟨other, known, within, rest⟩

theorem length_of_relocated {relocs : List AvceReloc}
    (relocated : relocs.foldlM (relocate symbols base missing) text = .ok result) :
    result.length = text.length := by
  induction relocs generalizing text with
  | nil => rw [pure_eq_ok.mp relocated]
  | cons _ _ ih =>
    rw [foldlM_cons] at relocated
    obtain ⟨_, one, relocated⟩ := bind_eq_ok.mp relocated
    obtain ⟨_, -, applied⟩ := relocate_eq_ok one
    obtain ⟨_, -, rfl⟩ := applyOne_eq_ok applied
    rw [ih relocated]
    apply length_overwrite
    rwa [length_twosComplement]

end Relocate

/-! ## The linked code -/

def fitsField (kind : String) (value : Int) : Prop :=
  if kind = "Abs8" then 0 ≤ value ∧ value < 2 ^ 64 else isI32 value

/-- The code of a cell, changed at the sites of its relocations and nowhere else, with the
number of the symbol that the cell itself or else the first provider defines. -/
structure LinkedImage.Patches (image : LinkedImage) (owner : CellView Json) (base : UInt64)
    (providers : List (Provider Json)) : Prop where
  length : image.text.length = owner.codeLen
  others : ∀ index < owner.codeLen,
    (∀ reloc ∈ owner.relocs, index < reloc.offset.toNat ∨
      reloc.offset.toNat + fieldWidth reloc.kind ≤ index) →
    image.text[index]? = owner.text[index]?
  sites : ∀ reloc ∈ owner.relocs, ∃ place,
    definition Provider.view (⟨owner, base⟩ :: providers) reloc.symbol = some place ∧
    reloc.offset.toNat + fieldWidth reloc.kind ≤ owner.codeLen ∧
    fitsField reloc.kind (fieldValue base reloc (address place)) ∧
    slice image.text reloc.offset.toNat (fieldWidth reloc.kind) =
      twosComplement (fieldWidth reloc.kind) (fieldValue base reloc (address place))

/-- Linking patches the code as it should exactly if no address of eight bytes wraps
around, as nothing checks the range of these. -/
theorem linked_patches_iff (owner : CellView Json) (base : UInt64)
    (providers : List (Provider Json)) (image : LinkedImage)
    (apart : owner.relocs.Pairwise Apart) (linked : link owner base providers = .ok image) :
    image.Patches owner base providers ↔ ∀ reloc ∈ owner.relocs, reloc.kind = "Abs8" → ∀ place,
        definition Provider.view (⟨owner, base⟩ :: providers) reloc.symbol = some place →
        0 ≤ (address place).toNat + reloc.addend.toInt ∧
          (address place).toNat + reloc.addend.toInt < 2 ^ 64 := by
  have absolute : ¬ isPcRelative "Abs8" := by decide
  constructor
  · intro patches reloc member wide _ isPlace
    obtain ⟨_, isFound, -, fits, -⟩ := patches.sites reloc member
    rw [isPlace] at isFound
    cases isFound
    rwa [fitsField, if_pos wide, fieldValue, if_neg (wide ▸ absolute)] at fits
  · intro fits
    obtain ⟨collected, relocated⟩ := link_eq_ok linked
    have inside := (ensure_bind_eq_ok.mp linked).1
    have length : (owner.text.take owner.codeLen).length = owner.codeLen := length_take_of_le inside
    refine ⟨(length_of_relocated relocated).trans length, ?_, ?_⟩
    · intro index within outside
      have kept : slice image.text index 1 = slice (owner.text.take owner.codeLen) index 1 :=
        slice_of_relocated (fun reloc member => (outside reloc member).symm) relocated
      have same := congrArg (·[0]?) kept
      simpa only [getElem?_slice, Nat.one_pos, if_true, Nat.add_zero,
        getElem?_take_of_lt within] using same
    · intro reloc member
      obtain ⟨_, lookup, site, small, stored⟩ := slice_of_mem apart relocated member
      rw [lookup_collectSymbols collected, Option.map_eq_some_iff] at lookup
      obtain ⟨place, isPlace, rfl⟩ := lookup
      rw [length] at site
      refine ⟨place, isPlace, site, ?_, stored⟩
      rw [fitsField]
      split_ifs with wide
      · rw [fieldValue, if_neg (wide ▸ absolute)]
        exact fits reloc member wide place isPlace
      · exact small wide

/-- A cell with a word that holds the address of the word itself, changed by an addend. -/
def wordCell (addend : BitVec 64) : CellView String where
  version := avmcVersion
  arch := 1
  drvHash := List.Vector.replicate 32 9
  capabilityTable := "[]"
  text := List.replicate 8 0
  symdefs := [⟨"word", 0, 8⟩]
  imports := []
  relocs := [⟨0, addend, "Abs8", "word"⟩]
  signature := List.Vector.replicate 64 0
  signed := []

theorem linked_patches_wordCell : ∃ image, link (wordCell 8) 0x1000 [] = .ok image ∧
      image.Patches (wordCell 8) 0x1000 [] := by
  refine ⟨_, rfl, (linked_patches_iff _ _ _ _ (pairwise_singleton _ _) rfl).mpr ?_⟩
  intro _ member _ _ isPlace
  cases mem_singleton.mp member
  cases isPlace
  decide

/-- An address past the end of memory becomes zero. -/
theorem word_wraps_around : ∃ image, link (wordCell 0x1000) 0xFFFFFFFFFFFFF000 [] = .ok image ∧
      image.text = List.replicate 8 0 ∧
      ¬ image.Patches (wordCell 0x1000) 0xFFFFFFFFFFFFF000 [] := by
  refine ⟨_, rfl, rfl, fun patches => ?_⟩
  obtain ⟨_, isPlace, -, fits, -⟩ := patches.sites _ (mem_singleton_self _)
  cases isPlace
  exact absurd fits.2 (by decide)

/-! ## Landing -/

/-- Where the processor goes from a field of four bytes: the field is a signed number
that is added to the address after it. -/
def landing (text : List UInt8) (base : UInt64) (off : Nat) : UInt64 :=
  base + UInt64.ofNat off + 4 +
    ⟨(BitVec.ofNat 32 (decode (slice text off 4))).signExtend 64⟩

theorem signExtend_twosComplement (small : isI32 value) :
    (BitVec.ofNat 32 (decode (twosComplement 4 value))).signExtend 64 = BitVec.ofInt 64 value := by
  have field : BitVec.ofNat 32 (decode (twosComplement 4 value)) =
      BitVec.ofInt 32 value := by
    rw [twosComplement, decode_encode]
    apply eq_of_toNat_eq
    rw [toNat_ofNat, toNat_ofInt]
    omega
  have read : (BitVec.ofInt 32 value).toInt = value := by
    rw [toInt_ofInt]
    obtain ⟨_, _⟩ := small
    apply Int.bmod_eq_of_le <;> omega
  rw [field, signExtend, read]

theorem ofInt_toNat (value : UInt64) : BitVec.ofInt 64 value.toNat = value.toBitVec := by
  rw [ofInt_natCast]
  exact ofNat_toNat 64 value.toBitVec

theorem landing_of_distance (small : isI32 (distance base reloc target))
    (stored : slice text reloc.offset.toNat 4 = twosComplement 4 (distance base reloc target)) :
    landing text base reloc.offset.toNat = target + ⟨reloc.addend⟩ := by
  have after : (base + reloc.offset + 4).toBitVec =
      BitVec.ofInt 64 (base.toNat + reloc.offset.toNat + 4) := by
    rw [ofInt_add, ofInt_add, ofInt_toNat, ofInt_toNat]
    rfl
  apply UInt64.toBitVec_inj.mp
  calc (landing text base reloc.offset.toNat).toBitVec
      = (base + reloc.offset + 4).toBitVec + BitVec.ofInt 64 (distance base reloc target) := by
        rw [landing, stored, signExtend_twosComplement small, UInt64.ofNat_toNat,
          UInt64.toBitVec_add]
    _ = BitVec.ofInt 64 (target.toNat + reloc.addend.toInt) := by
        rw [after, ← ofInt_add, distance]
        congr 1
        omega
    _ = (target + ⟨reloc.addend⟩).toBitVec := by
        rw [ofInt_add, ofInt_toNat, ofInt_toInt, UInt64.toBitVec_add]

/-! ## From capture to image -/

/-- The fields of a function's relocations are inside of its code and change different
bytes, as the code generator places them. -/
structure AvceFn.Placed (function : AvceFn) : Prop where
  inside : ∀ reloc ∈ function.relocs,
    reloc.offset.toNat + fieldWidth reloc.kind ≤ function.body.length
  apart : function.relocs.Pairwise Apart

theorem le_of_mem_placed (member : place ∈ placed off functions) : off ≤ place.1 := by
  induction functions generalizing off with
  | nil => cases member
  | cons _ _ ih =>
    rw [placed] at member
    rcases mem_cons.mp member with rfl | later
    · exact le_rfl
    · have := ih later
      omega

theorem pairwise_placed (off : Nat) (functions : List AvceFn) :
    (placed off functions).Pairwise fun place place' =>
      place.1 + place.2.body.length ≤ place'.1 := by
  induction functions generalizing off with
  | nil => exact List.Pairwise.nil
  | cons _ _ ih =>
    rw [placed]
    exact List.Pairwise.cons (fun place member => le_of_mem_placed member) (ih _)

theorem CellView.Shows.pairwise_apart {view : CellView Json} {spec : BuildCell Json}
    (displays : view.Shows spec) (generated : ∀ function ∈ spec.avce.functions, function.Placed) :
    view.relocs.Pairwise Apart := by
  have sites : (view.relocs.map fun reloc =>
      (reloc.offset.toNat, reloc.addend, reloc.kind, reloc.symbol)).Pairwise fun site site' =>
        site.1 + fieldWidth site.2.2.1 ≤ site'.1 ∨ site'.1 + fieldWidth site'.2.2.1 ≤ site.1 := by
    rw [displays.relocs, pairwise_flatMap]
    constructor
    · rintro ⟨_, function⟩ isPlace
      rw [pairwise_map]
      apply (generated function (mem_snd_of_placed isPlace)).apart.imp
      rintro _ _ (_ | _)
      · left
        simp only
        omega
      · right
        simp only
        omega
    · apply (pairwise_placed 0 spec.avce.functions).imp_of_mem
      rintro ⟨_, function⟩ ⟨_, _⟩ isPlace _ follows _ isSite _ isSite'
      obtain ⟨reloc, isReloc, rfl⟩ := mem_map.mp isSite
      obtain ⟨_, _, rfl⟩ := mem_map.mp isSite'
      have inside := (generated function (mem_snd_of_placed isPlace)).inside reloc isReloc
      left
      simp only at follows ⊢
      omega
  rw [pairwise_map] at sites
  exact sites

/-- A captured module that is written to a container, read, built into a cell, read
again and linked. -/
structure LinkedModule (json : JsonCodec Json) (signatures : Signatures) where
  module : CaptureModule
  spec : BuildCell Json
  bytes : List UInt8
  view : CellView Json
  base : UInt64
  providers : List (Provider Json)
  image : LinkedImage
  captured : parseAvce (encodeAvce module) = .ok spec.avce
  built : buildCell json signatures spec = .ok bytes
  parsed : CellView.parse json bytes = .ok view
  linked : link view base providers = .ok image

namespace LinkedModule

variable {json : JsonCodec Json} {signatures : Signatures} (way : LinkedModule json signatures)

/-- A reference of the function at a place goes to the address of its symbol. -/
def LandsOnSymbol (start : Nat) (reloc : AvceReloc) : Prop :=
  ∃ place, definition Provider.view (⟨way.view, way.base⟩ :: way.providers) reloc.symbol =
      some place ∧
    landing way.image.text way.base (start + reloc.offset.toNat) = address place

variable {way}

theorem avce_eq_doc (fits : way.module.doc.Fits) : way.spec.avce = way.module.doc := by
  have read := parseAvce_eq_ok.mpr (yields_readAvce _ fits).run
  rw [way.captured] at read
  exact Except.ok.inj read

theorem view_shows (within : way.spec.Within json) : way.view.Shows way.spec := by
  obtain ⟨arch, signature, parsed, -⟩ := parse_built within way.built
  rw [way.parsed] at parsed
  rw [Except.ok.inj parsed]
  exact shows_viewOf within arch signature

theorem landsOnSymbol_iff (within : way.spec.Within json)
    (generated : ∀ function ∈ way.spec.avce.functions, function.Placed)
    {start : Nat} {function : AvceFn}
    (isPlace : (start, function) ∈ placed 0 way.spec.avce.functions) {reloc : AvceReloc}
    (ofFunction : reloc ∈ function.relocs) (relative : isPcRelative reloc.kind) :
    way.LandsOnSymbol start reloc ↔ reloc.addend = 0 := by
  have displays := view_shows within
  obtain ⟨found, isFound, offset, addend, kind, symbol⟩ := displays.exists_reloc isPlace ofFunction
  obtain ⟨collected, relocated⟩ := link_eq_ok way.linked
  rw [← kind] at relative
  obtain ⟨_, lookup, -, small, stored⟩ :=
    slice_of_mem (displays.pairwise_apart generated) relocated isFound
  have narrow : found.kind ≠ "Abs8" := by
    rcases relative with same | same | same <;> rw [same] <;> decide
  rw [fieldWidth, if_neg narrow, fieldValue, if_pos relative] at stored
  rw [fieldValue, if_pos relative] at small
  have lands := landing_of_distance (small narrow) stored
  rw [offset, addend] at lands
  rw [symbol, lookup_collectSymbols collected, Option.map_eq_some_iff] at lookup
  obtain ⟨place, isPlace, rfl⟩ := lookup
  rw [LandsOnSymbol, lands]
  constructor
  · rintro ⟨_, isOther, same⟩
    rw [isPlace] at isOther
    cases isOther
    have sum : (address place).toBitVec + reloc.addend = (address place).toBitVec :=
      congrArg UInt64.toBitVec same
    exact BitVec.add_right_eq_self.mp sum
  · intro zero
    refine ⟨place, isPlace, ?_⟩
    rw [zero]
    exact UInt64.add_zero _

end LinkedModule

/-- All calls and other references that count from their place land on their symbols
exactly if no addend accounts for the field. -/
theorem references_land_iff {json : JsonCodec Json} {signatures : Signatures}
    (way : LinkedModule json signatures) (fits : way.module.doc.Fits)
    (within : way.spec.Within json)
    (generated : ∀ function ∈ way.module.doc.functions, function.Placed) :
    (∀ place ∈ placed 0 way.module.doc.functions, ∀ reloc ∈ place.2.relocs,
      isPcRelative reloc.kind → way.LandsOnSymbol place.1 reloc) ↔
      ∀ function ∈ way.module.doc.functions, ∀ reloc ∈ function.relocs,
        isPcRelative reloc.kind → reloc.addend = 0 := by
  rw [← LinkedModule.avce_eq_doc fits] at generated ⊢
  constructor
  · intro land _ member reloc ofFunction relative
    obtain ⟨_, isPlace⟩ := exists_mem_placed 0 member
    exact (LinkedModule.landsOnSymbol_iff within generated isPlace ofFunction relative).mp
      (land _ isPlace reloc ofFunction relative)
  · rintro zero ⟨_, function⟩ isPlace reloc ofFunction relative
    exact (LinkedModule.landsOnSymbol_iff within generated isPlace ofFunction relative).mpr
      (zero function (mem_snd_of_placed isPlace) reloc ofFunction relative)

/-! ## A function that calls itself -/

/-- The code `call run; ret` of the function `run`. -/
def selfCall (addend : BitVec 64) : AvceFn where
  name := "run"
  body := [0xE8, 0x00, 0x00, 0x00, 0x00, 0xC3]
  relocs := [⟨1, addend, "X86CallPCRel4", "run"⟩]

def selfCallModule (addend : BitVec 64) : CaptureModule where
  archName := "x86_64"
  functions := [⟨"run", .exported, some ⟨(selfCall addend).body, (selfCall addend).relocs⟩⟩]

def selfCallCell (addend : BitVec 64) : BuildCell String where
  drvHash := List.Vector.replicate 32 9
  capabilityTable := "[]"
  avce := ⟨"x86_64", [selfCall addend], []⟩
  signingSeed := List.Vector.replicate 32 7

section SelfCall

variable (addend : BitVec 64)

theorem doc_selfCallModule : (selfCallModule addend).doc = (selfCallCell addend).avce := by
  simp [CaptureModule.doc, CaptureModule.imports, CaptureModule.defined, selfCallModule,
    selfCallCell, Linkage.isDefinable, selfCall]

theorem forall_mem_selfCall {p : AvceReloc → Prop} (call : p ⟨1, addend, "X86CallPCRel4", "run"⟩) :
    ∀ function ∈ [selfCall addend], ∀ reloc ∈ function.relocs, p reloc := by
  intro _ member _ ofFunction
  rw [mem_singleton.mp member] at ofFunction
  rw [mem_singleton.mp ofFunction]
  exact call

theorem fits_selfCallModule : (selfCallModule addend).doc.Fits := by
  have kind : (utf8 "X86CallPCRel4").length < 2 ^ 32 := by decide +kernel
  have name : (utf8 "run").length < 2 ^ 32 := by decide +kernel
  have arch : (utf8 "x86_64").length < 2 ^ 32 := by decide +kernel
  rw [doc_selfCallModule]
  refine ⟨arch, nofun, Nat.one_lt_two_pow (by decide), ?_, Nat.two_pow_pos 32, nofun⟩
  intro function member
  have call (p : AvceReloc → Prop) (holds : p ⟨1, addend, "X86CallPCRel4", "run"⟩) :=
    forall_mem_selfCall addend holds function member
  rw [mem_singleton.mp member] at call ⊢
  exact ⟨name, nofun, by simp [selfCall], by simp [selfCall], call _ (by simp [selfCall]), call _ kind,
    call _ name⟩

theorem within_selfCallCell : (selfCallCell addend).Within plainTables := by
  have kind : (utf8 "X86CallPCRel4").length < 2 ^ 32 := by decide +kernel
  have name : (utf8 "run").length < 2 ^ 32 := by decide +kernel
  exact
    { table := plainTables_fromSlice _
      code := by simp [selfCallCell, selfCall]
      functions := by simp [selfCallCell]
      imports := by simp [selfCallCell]
      relocs := by simp [selfCallCell, selfCall]
      functionName := forall_mem_singleton.mpr name
      importName := nofun
      inside := by simp [selfCallCell, selfCall]
      kind := forall_mem_selfCall addend kind
      symbol := forall_mem_selfCall addend name }

theorem exists_buildCell_selfCall :
    ∃ bytes, buildCell plainTables blankSignatures (selfCallCell addend) = .ok bytes := by
  have laid : (selfCallCell addend).avce.functions.foldlM layFunction ⟨[], [], []⟩ =
      .ok ⟨[0xE8, 0x00, 0x00, 0x00, 0x00, 0xC3], [⟨"run", 0, 6⟩],
        [⟨1, addend, "X86CallPCRel4", "run"⟩]⟩ := rfl
  have short : 6 + (page - 1) < 2 ^ 64 := by decide
  have isText : pageAligned 6 ≠ 0 := by decide
  exact exists_buildCell nofun rfl rfl laid short isText

theorem placed_selfCall : (selfCall addend).Placed where
  inside := forall_mem_singleton.mpr (by change 1 + 4 ≤ 6; decide)
  apart := pairwise_singleton _ _

theorem exists_linkedModule_selfCall
    (stored : applyOne (selfCall addend).body 0x1000 ⟨1, addend, "X86CallPCRel4", "run"⟩ 0x1000 =
      .ok text) : ∃ way : LinkedModule plainTables blankSignatures,
      way.module = selfCallModule addend ∧ way.spec = selfCallCell addend ∧
        way.base = 0x1000 ∧ way.image.text = text ∧
        way.image.symbols.lookup "run" = some 0x1000 := by
  have captured := parseAvce_eq_ok.mpr (yields_readAvce _ (fits_selfCallModule addend)).run
  rw [doc_selfCallModule] at captured
  obtain ⟨bytes, built⟩ := exists_buildCell_selfCall addend
  obtain ⟨arch, signature, parsed, -⟩ := parse_built (within_selfCallCell addend) built
  have linked : link (viewOf plainTables (selfCallCell addend) arch signature) 0x1000 [] =
      .ok ⟨text, AList.insert "run" 0x1000 ∅⟩ := by
    have inside : (viewOf plainTables (selfCallCell addend) arch signature).codeLen ≤
        (viewOf plainTables (selfCallCell addend) arch signature).text.length := by
      rw [viewOf, length_paddedText]
      exact le_pageAligned _
    exact link_of_relocated inside rfl rfl (bind_eq_ok.mpr ⟨text, stored, rfl⟩)
  exact ⟨⟨_, _, bytes, _, 0x1000, [], _, captured, built, parsed, linked⟩, rfl, rfl, rfl,
    rfl, rfl⟩

end SelfCall

theorem references_land_at_selfCall :
    ∃ way : LinkedModule plainTables blankSignatures, way.module = selfCallModule 0 ∧
      way.LandsOnSymbol 0 ⟨1, 0, "X86CallPCRel4", "run"⟩ := by
  obtain ⟨way, isModule, isSpec, -⟩ := exists_linkedModule_selfCall 0 rfl
  have fits := fits_selfCallModule 0
  have within := within_selfCallCell 0
  have functions : way.module.doc.functions = [selfCall 0] := by
    rw [isModule, doc_selfCallModule, selfCallCell]
  rw [← isModule] at fits
  rw [← isSpec] at within
  have land := references_land_iff way fits within
  rw [functions] at land
  refine ⟨way, isModule, (land ?_).mpr ?_ (0, selfCall 0) ?_ _ (mem_singleton_self _) ?_⟩
  · exact forall_mem_singleton.mpr (placed_selfCall 0)
  · exact forall_mem_selfCall 0 fun _ => rfl
  · exact mem_singleton_self _
  · decide

/-- The addend of a call, which accounts for the field, is counted twice: the call goes
four bytes before its function. -/
theorem call_lands_before_function :
    ∃ way : LinkedModule plainTables blankSignatures, way.module = selfCallModule (-4) ∧
      way.base = 0x1000 ∧ way.image.symbols.lookup "run" = some 0x1000 ∧
      landing way.image.text way.base 1 = 0x0FFC ∧
      ¬ way.LandsOnSymbol 0 ⟨1, -4, "X86CallPCRel4", "run"⟩ := by
  have stored : applyOne (selfCall (-4)).body 0x1000 ⟨1, -4, "X86CallPCRel4", "run"⟩ 0x1000 =
      .ok [0xE8, 0xF7, 0xFF, 0xFF, 0xFF, 0xC3] := rfl
  obtain ⟨way, isModule, isSpec, isBase, isText, symbol⟩ := exists_linkedModule_selfCall _ stored
  have within := within_selfCallCell (-4)
  have functions : way.spec.avce.functions = [selfCall (-4)] := by rw [isSpec, selfCallCell]
  rw [← isSpec] at within
  refine ⟨way, isModule, isBase, symbol, ?_, ?_⟩
  · rw [isText, isBase]
    decide +kernel
  · have lands := LinkedModule.landsOnSymbol_iff within
    rw [functions] at lands
    intro onSymbol
    have zero := (lands (forall_mem_singleton.mpr (placed_selfCall (-4)))
      (mem_singleton_self (0, selfCall (-4))) (mem_singleton_self _) (by decide)).mp
      onSymbol
    exact absurd zero (by decide)

end AustralVM.Cell
