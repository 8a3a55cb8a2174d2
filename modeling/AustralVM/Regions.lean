import Mathlib.Data.List.Pairwise
import Mathlib.Algebra.Order.Ring.Nat
import Mathlib.Data.UInt

/-!
# Regions

An allocator that only moves a mark: `region_alloc` rounds a size up to a multiple of
eight and takes the memory from the mark on.  Sizes are 64 bits wide, and so are the sums
that it compares.
-/

namespace AustralVM.Runtime

open List UInt64

structure Region where
  size : UInt64
  used : UInt64

/-- What a call of `region_alloc` hands out: the memory from an offset to the new mark. -/
structure RegionBlock where
  requested : UInt64
  offset : UInt64
  length : UInt64
  deriving DecidableEq

def alignedSize (size : UInt64) : UInt64 := (size + 7) &&& ~~~7

def regionAlloc (region : Region) (size : UInt64) : Option RegionBlock × Region :=
  let aligned := alignedSize size
  if region.used + aligned > region.size then (none, region)
  else (some ⟨size, region.used, aligned⟩, { region with used := region.used + aligned })

inductive RegionOp
  | alloc (size : UInt64)
  | reset

/-- A region with the blocks since it was last reset. -/
structure RegionState where
  region : Region
  blocks : List RegionBlock

def RegionState.step (state : RegionState) : RegionOp → RegionState
  | .alloc size =>
    let result := regionAlloc state.region size
    ⟨result.2, result.1.toList ++ state.blocks⟩
  | .reset => ⟨{ state.region with used := 0 }, []⟩

/-- The blocks are large enough, aligned, inside the region and apart from each other. -/
structure RegionState.Sound (state : RegionState) : Prop where
  each : ∀ block ∈ state.blocks, block.requested ≤ block.length ∧ 8 ∣ block.offset.toNat ∧
    block.offset.toNat + block.length.toNat ≤ state.region.size.toNat
  apart : state.blocks.Pairwise fun block earlier =>
    earlier.offset.toNat + earlier.length.toNat ≤ block.offset.toNat ∨
      block.offset.toNat + block.length.toNat ≤ earlier.offset.toNat

/-- The rounded size does not overflow, nor does its sum with the mark. -/
def RegionState.Fits (state : RegionState) : RegionOp → Prop
  | .alloc size => state.region.used.toNat + (size.toNat + 7) / 8 * 8 < 2 ^ 64
  | .reset => True

def RegionState.Always (property : RegionState → RegionOp → Prop) (state : RegionState) :
    List RegionOp → Prop
  | [] => True
  | op :: ops => property state op ∧ (state.step op).Always property ops

/-! ## The rounded size -/

theorem and_not_seven (word : BitVec 64) : word &&& ~~~7#64 = word >>> 3 <<< 3 := by
  have high : ∀ index < 64, (~~~7#64).getLsbD index = decide (3 ≤ index) := by decide
  apply BitVec.eq_of_getLsbD_eq
  intro index isBit
  rw [BitVec.getLsbD_and, high index isBit, BitVec.getLsbD_shiftLeft, BitVec.getLsbD_ushiftRight]
  grind

theorem toNat_alignedSize (size : UInt64) :
    (alignedSize size).toNat = (size.toNat + 7) % 2 ^ 64 / 8 * 8 := by
  change ((size + 7).toBitVec &&& ~~~7#64).toNat = _
  rw [and_not_seven, BitVec.toNat_shiftLeft, BitVec.toNat_ushiftRight, toNat_toBitVec,
    UInt64.toNat_add, Nat.shiftLeft_eq, Nat.shiftRight_eq_div_pow, Nat.mod_eq_of_lt]
  · rfl
  · have := Nat.mod_lt (size.toNat + 7) (Nat.two_pow_pos 64)
    omega

/-! ## Runs -/

/-- The blocks lie below the mark. -/
structure RegionState.Packed (state : RegionState) : Prop extends state.Sound where
  mark : 8 ∣ state.region.used.toNat ∧ state.region.used ≤ state.region.size
  below : ∀ block ∈ state.blocks,
    block.offset.toNat + block.length.toNat ≤ state.region.used.toNat

variable {state : RegionState}

theorem RegionState.Packed.step (packed : state.Packed) (fits : state.Fits op) :
    (state.step op).Packed := by
  cases op with
  | reset => exact ⟨⟨forall_mem_nil _, .nil⟩, ⟨Nat.dvd_zero 8, UInt64.zero_le⟩, forall_mem_nil _⟩
  | alloc size =>
    have aligned := toNat_alignedSize size
    have sum := UInt64.toNat_add state.region.used (alignedSize size)
    simp only [RegionState.Fits] at fits
    rw [RegionState.step, regionAlloc]
    split
    · exact packed
    · rename_i room
      have enough := UInt64.not_lt.mp room
      obtain ⟨⟨each, apart⟩, ⟨markAligned, inside⟩, below⟩ := packed
      rw [le_iff_toNat_le] at enough
      refine ⟨⟨forall_mem_cons.mpr ⟨⟨?_, markAligned, ?_⟩, each⟩, .cons ?_ apart⟩, ⟨?_, ?_⟩, ?_⟩
      · rw [le_iff_toNat_le]
        dsimp only
        omega
      · dsimp only
        omega
      · exact fun block member => .inl (below block member)
      · dsimp only
        omega
      · exact le_iff_toNat_le.mpr enough
      · refine forall_mem_cons.mpr ⟨by dsimp only; omega, fun block member => ?_⟩
        have := below block member
        dsimp only
        omega

/-- A sum that overflows is taken for one that there is room for. -/
theorem RegionState.Packed.fits (packed : state.Packed) (sound : (state.step op).Sound) :
    state.Fits op := by
  cases op with
  | reset => trivial
  | alloc size =>
    have aligned := toNat_alignedSize size
    have sum := UInt64.toNat_add state.region.used (alignedSize size)
    have inside := le_iff_toNat_le.mp packed.mark.2
    have limits := And.intro size.toNat_lt state.region.size.toNat_lt
    rw [RegionState.Fits]
    by_contra overflows
    have room : ¬ state.region.used + alignedSize size > state.region.size := by
      rw [gt_iff_lt, lt_iff_toNat_lt]
      omega
    rw [RegionState.step, regionAlloc, if_neg room] at sound
    obtain ⟨large, -, ends⟩ := sound.each _ mem_cons_self
    rw [le_iff_toNat_le] at large
    dsimp only at large ends
    omega

/-- From an empty region of any size on, all blocks of a run are sound exactly if no size
overflows when it is rounded and added to the mark. -/
theorem region_blocks_sound_iff (size : UInt64) (ops : List RegionOp) :
    RegionState.Always (fun state op => (state.step op).Sound) ⟨⟨size, 0⟩, []⟩ ops ↔
      RegionState.Always RegionState.Fits ⟨⟨size, 0⟩, []⟩ ops := by
  have packed : RegionState.Packed ⟨⟨size, 0⟩, []⟩ :=
    ⟨⟨forall_mem_nil _, .nil⟩, ⟨Nat.dvd_zero 8, UInt64.zero_le⟩, forall_mem_nil _⟩
  generalize (⟨⟨size, 0⟩, []⟩ : RegionState) = state at packed ⊢
  induction ops generalizing state with
  | nil => exact Iff.rfl
  | cons op _ ih =>
    constructor
    · rintro ⟨sound, always⟩
      have fits := packed.fits sound
      exact ⟨fits, (ih _ (packed.step fits)).mp always⟩
    · rintro ⟨fits, always⟩
      have next := packed.step fits
      exact ⟨next.toSound, (ih _ next).mpr always⟩

/-- The largest size is rounded to zero: a block without a byte is handed out for it. -/
theorem regionAlloc_largest :
    (regionAlloc ⟨1048576, 0⟩ 0xFFFFFFFFFFFFFFFF).1 = some ⟨0xFFFFFFFFFFFFFFFF, 0, 0⟩ ∧
      ¬ RegionState.Sound (RegionState.step ⟨⟨1048576, 0⟩, []⟩ (.alloc 0xFFFFFFFFFFFFFFFF)) := by
  refine ⟨by decide, fun sound => ?_⟩
  have large := (sound.each ⟨0xFFFFFFFFFFFFFFFF, 0, 0⟩ (by decide)).1
  exact absurd large (by decide)

end AustralVM.Runtime
