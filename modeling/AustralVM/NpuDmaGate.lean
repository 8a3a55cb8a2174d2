import AustralVM.LiquidTerms
import Mathlib.Data.List.Dedup

/-!
# The gate of the transfers to the NPU

A module declares a transfer by constants whose names hold its label.  The gate reads
the literals as native integers; one that does not fit is left out, and then the
transfer has no size, or begins at zero.
-/

namespace AustralVM.Npu

inductive Verdict
  | ok
  | reject (message : String)
  deriving DecidableEq, Repr

def maxNpuSram : Int := 262144

def fitsInSram (offset bytes : Int) : Bool :=
  offset ≥ 0 && bytes ≥ 0 && offset ≤ maxNpuSram && bytes ≤ maxNpuSram - offset

def dmaVerdict (offset bytes : Int) : Int := if fitsInSram offset bytes then 0 else 1

def evalInt : TExpr → Option Int
  | .intConstant text => Liquid.intOfString text
  | _ => none

inductive DmaKind
  | bytes
  | offset
  deriving DecidableEq, Repr

def parseDmaConstant (id : Identifier) : Option (String × DmaKind) := do
  let rest ← id.string.toList.dropPrefix? "dma_".toList
  match rest.dropSuffix? "_bytes".toList with
  | some label => return (String.ofList label, .bytes)
  | none =>
    let label ← rest.dropSuffix? "_offset".toList
    return (String.ofList label, .offset)

abbrev Constants := List (Identifier × TExpr)

def constantsOf (source : TypedModule) : Constants :=
  source.decls.filterMap fun
    | .constant _ name _ value => some (name, value)
    | _ => none

/-- The labels that constants of a kind declare, with their initializers, the latest
first. -/
def declared (kind : DmaKind) (constants : Constants) : List (String × TExpr) :=
  constants.reverse.filterMap fun (id, init) =>
    match parseDmaConstant id with
    | some (label, other) => if other = kind then some (label, init) else none
    | none => none

/-- The table of a kind: an initializer without a value is left out. -/
def table (kind : DmaKind) (constants : Constants) : List (String × Int) :=
  (declared kind constants).filterMap fun (label, init) => (evalInt init).map (label, ·)

def checkLabel (moduleName : String) (constants : Constants) (label : String) : Verdict :=
  let nbytes := ((table .bytes constants).lookup label).getD 0
  let offset := ((table .offset constants).lookup label).getD 0
  if nbytes < 0 ∨ offset < 0 then
    .reject (s!"module {moduleName} declares dma_{label} with negative size/offset " ++
      s!"(offset {offset}, {nbytes} bytes) — a negative DMA transfer is malformed")
  else if dmaVerdict offset nbytes = 0 then .ok
  else
    .reject (s!"module {moduleName} declares DMA transfer dma_{label} (offset {offset}, " ++
      s!"{nbytes} bytes) which overflows the NPU SRAM ({maxNpuSram} bytes) — the " ++
      "WhyML-verified gate (npu_dma_gate.mlw) guarantees no over-limit load is accepted")

def check (moduleName : String) (constants : Constants) : Verdict :=
  let labels := ((table .bytes constants).map Prod.fst).mergeSort.dedup
  labels.foldl (fun verdict label =>
    match verdict with
    | .reject _ => verdict
    | .ok => checkLabel moduleName constants label) .ok

def gate (source : TypedModule) : Verdict :=
  check source.name.string (constantsOf source)

/-! ## Labels -/

theorem foldl_eq_ok {judge : String → Verdict} {labels : List String} {verdict : Verdict}
    (accepted : labels.foldl (fun verdict label =>
      match verdict with
      | .reject _ => verdict
      | .ok => judge label) verdict = .ok) :
    verdict = .ok ∧ ∀ label ∈ labels, judge label = .ok := by
  induction labels generalizing verdict with
  | nil => exact ⟨accepted, List.forall_mem_nil _⟩
  | cons _ _ ih =>
    obtain ⟨first, rest⟩ := ih accepted
    cases verdict with
    | reject => cases first
    | ok => exact ⟨rfl, List.forall_mem_cons.mpr ⟨first, rest⟩⟩

theorem lookup_filterMap {inits : List (String × TExpr)}
    (isInit : inits.lookup label = some init) (isRead : evalInt init = some value) :
    (inits.filterMap fun (label, init) => (evalInt init).map (label, ·)).lookup label =
      some value := by
  induction inits with
  | nil => cases isInit
  | cons head _ ih =>
    obtain ⟨other, first⟩ := head
    rw [List.lookup_cons] at isInit
    by_cases same : label = other
    · subst same
      simp only [beq_self_eq_true, Option.some.injEq] at isInit
      subst isInit
      simp [isRead]
    · rw [beq_false_of_ne same] at isInit
      cases read : evalInt first with
      | none => simpa [read] using ih isInit
      | some => simpa [read, List.lookup_cons, beq_false_of_ne same] using ih isInit

theorem lookup_filterMap_eq_none {inits : List (String × TExpr)}
    (isNone : inits.lookup label = none) :
    (inits.filterMap fun (label, init) => (evalInt init).map (label, ·)).lookup label = none := by
  rw [List.lookup_eq_none_iff] at isNone ⊢
  intro _ isEntry
  obtain ⟨⟨other, init⟩, isInit, made⟩ := List.mem_filterMap.mp isEntry
  obtain ⟨_, -, rfl⟩ := Option.map_eq_some_iff.mp made
  exact isNone (other, init) isInit

theorem check_eq_ok (accepted : check moduleName constants = .ok)
    (isBytes : (table .bytes constants).lookup label = some bytes) :
    ((table .offset constants).lookup label).getD 0 + bytes ≤ maxNpuSram := by
  have isLabel : label ∈ ((table .bytes constants).map Prod.fst).mergeSort.dedup := by
    obtain ⟨_, _, split, -⟩ := List.lookup_eq_some_iff.mp isBytes
    rw [List.mem_dedup, List.mem_mergeSort, split]
    simp
  have passed := (foldl_eq_ok accepted).2 label isLabel
  rw [checkLabel, isBytes] at passed
  by_cases fits : fitsInSram (((table .offset constants).lookup label).getD 0) bytes = true
  · simp only [fitsInSram, Bool.and_eq_true, decide_eq_true_eq] at fits
    omega
  · simp only [dmaVerdict, Option.getD_some, if_neg fits] at passed
    split at passed <;> cases passed

/-! ## Transfers -/

/-- The value of a literal, of any size. -/
def literal : TExpr → Option Int
  | .intConstant text => integerOfText text
  | _ => none

def bytesInit (source : TypedModule) (label : String) : Option TExpr :=
  (declared .bytes (constantsOf source)).lookup label

/-- Without a constant for it the offset is zero. -/
def offsetInit (source : TypedModule) (label : String) : TExpr :=
  ((declared .offset (constantsOf source)).lookup label).getD (.intConstant "0")

abbrev InRange (value : Int) : Prop := Liquid.intMin ≤ value ∧ value ≤ Liquid.intMax

theorem evalInt_eq_iff (isLiteral : literal expr = some value) :
    evalInt expr = some value ↔ InRange value := by
  cases expr with
  | intConstant =>
    rw [literal] at isLiteral
    rw [evalInt, Liquid.intOfString, isLiteral, InRange]
    simp
  | _ => cases isLiteral

/-- **Transfers of an accepted module.**  The literals of a transfer are read as what
they are, and it ends within the memory, exactly if they are native integers. -/
theorem transfer_fits_iff {source : TypedModule} (accepted : gate source = .ok)
    {label : String} {init : TExpr} (isInit : bytesInit source label = some init)
    {bytes offset : Int} (isBytes : literal init = some bytes)
    (isOffset : literal (offsetInit source label) = some offset) :
    (evalInt init = some bytes ∧ evalInt (offsetInit source label) = some offset ∧
        offset + bytes ≤ maxNpuSram) ↔ InRange bytes ∧ InRange offset := by
  rw [evalInt_eq_iff isBytes, evalInt_eq_iff isOffset]
  refine ⟨fun ⟨inBytes, inOffset, _⟩ => ⟨inBytes, inOffset⟩, fun ⟨inBytes, inOffset⟩ => ?_⟩
  have readBytes := lookup_filterMap isInit ((evalInt_eq_iff isBytes).mpr inBytes)
  have readOffset := (evalInt_eq_iff isOffset).mpr inOffset
  have fits := check_eq_ok accepted readBytes
  refine ⟨inBytes, inOffset, ?_⟩
  cases found : (declared .offset (constantsOf source)).lookup label with
  | some =>
    rw [offsetInit, found] at readOffset
    rwa [table, lookup_filterMap found readOffset] at fits
  | none =>
    rw [offsetInit, found] at readOffset
    cases readOffset
    rwa [table, lookup_filterMap_eq_none found] at fits

/-- A module with one transfer. -/
def oneTransfer (size : String) : TypedModule :=
  ⟨⟨"Example"⟩, [.constant ⟨1⟩ ⟨"dma_w_bytes"⟩ (.integer .unsigned .width64) (.intConstant size)]⟩

theorem transfer_fits_at_page : bytesInit (oneTransfer "4096") "w" = some (.intConstant "4096") ∧
      (0 : Int) + 4096 ≤ maxNpuSram := by
  have accepted : gate (oneTransfer "4096") = .ok := by decide +kernel
  have isInit : bytesInit (oneTransfer "4096") "w" = some (.intConstant "4096") := rfl
  have isOffset : literal (offsetInit (oneTransfer "4096") "w") = some 0 := by decide +kernel
  have isBytes : literal (.intConstant "4096") = some 4096 := by decide +kernel
  have fits := transfer_fits_iff accepted isInit isBytes isOffset
  exact ⟨isInit, (fits.mpr ⟨by decide, by decide⟩).2.2⟩

/-- The gate accepts a transfer of all addresses. -/
theorem gate_skips_large_literal :
    let size := "4611686018427387904"
    gate (oneTransfer size) = .ok ∧ bytesInit (oneTransfer size) "w" = some (.intConstant size) ∧
      literal (.intConstant size) = some (2 ^ 62) ∧ evalInt (.intConstant size) = none ∧
      ¬ (2 ^ 62 : Int) ≤ maxNpuSram :=
  ⟨by decide +kernel, rfl, by decide +kernel, by decide +kernel, by decide⟩

end AustralVM.Npu
