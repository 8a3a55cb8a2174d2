import AustralVM.StoreManifest

/-!
# Content-defined chunks

A payload is cut where a hash of the bytes since the last cut has its low bits
clear, no earlier than after `min` bytes and at the latest after `max`.  The mask of
the bits is wide before the middle between `min` and `avg` and narrow after it.
-/

namespace AustralVM.Cas

open List
open Manifest (lengthDigest)

/-! ## The gear table -/

def gearSeed : UInt64 := 0x9E3779B97F4A7C15

def splitmix64 (state : UInt64) : UInt64 × UInt64 :=
  let state := state + 0x9E3779B97F4A7C15
  let z := (state ^^^ (state >>> 30)) * 0xBF58476D1CE4E5B9
  let z := (z ^^^ (z >>> 27)) * 0x94D049BB133111EB
  (z ^^^ (z >>> 31), state)

def gearWords : Nat → UInt64 → List UInt64
  | 0, _ => []
  | count + 1, state => (splitmix64 state).1 :: gearWords count (splitmix64 state).2

def gear : List UInt64 := gearWords 256 gearSeed

/-! ## Cutting -/

structure ChunkerConfig where
  min : Nat
  avg : Nat
  max : Nat
  deriving DecidableEq, Repr

namespace ChunkerConfig

structure Valid (cfg : ChunkerConfig) : Prop where
  min_pos : 0 < cfg.min
  min_le : cfg.min ≤ cfg.avg
  avg_le : cfg.avg ≤ cfg.max

instance (cfg : ChunkerConfig) : Decidable cfg.Valid :=
  decidable_of_iff (0 < cfg.min ∧ cfg.min ≤ cfg.avg ∧ cfg.avg ≤ cfg.max)
    ⟨fun ⟨positive, below, above⟩ => ⟨positive, below, above⟩,
      fun valid => ⟨valid.min_pos, valid.min_le, valid.avg_le⟩⟩

def base (cfg : ChunkerConfig) : Nat := Nat.max (Nat.log2 cfg.avg) 3

def maskEarly (cfg : ChunkerConfig) : UInt64 :=
  if cfg.base + 2 ≥ 64 then 0xFFFFFFFFFFFFFFFF else (1 <<< UInt64.ofNat (cfg.base + 2)) - 1

def maskLate (cfg : ChunkerConfig) : UInt64 :=
  (1 <<< UInt64.ofNat (Nat.max (cfg.base - 2) 1)) - 1

def mid (cfg : ChunkerConfig) : Nat := cfg.min + (cfg.avg - cfg.min) / 2

end ChunkerConfig

def scan (cfg : ChunkerConfig) (data : List UInt8) (scanEnd index : Nat) (hash : UInt64) : Nat :=
  if index < scanEnd then
    let hash := (hash <<< 1) + gear.getD (data.getD index 0).toNat 0
    let mask := if index < cfg.mid then cfg.maskEarly else cfg.maskLate
    if hash &&& mask = 0 then index + 1 else scan cfg data scanEnd (index + 1) hash
  else scanEnd
termination_by scanEnd - index

def cutPoint (cfg : ChunkerConfig) (data : List UInt8) : Nat :=
  if data.length ≤ cfg.min then data.length
  else scan cfg data (min data.length cfg.max) cfg.min 0

theorem scan_bounds (cfg : ChunkerConfig) (data : List UInt8) (inside : index ≤ scanEnd)
    (hash : UInt64) :
    index ≤ scan cfg data scanEnd index hash ∧ scan cfg data scanEnd index hash ≤ scanEnd := by
  fun_induction scan cfg data scanEnd index hash with
  | case1 => omega
  | case2 index hash more hash' mask notCut ih =>
    have := ih more
    omega
  | case3 => omega

variable {cfg : ChunkerConfig} {data : List UInt8}

theorem cutPoint_bounds (valid : cfg.Valid) (some : data ≠ []) :
    0 < cutPoint cfg data ∧ cutPoint cfg data ≤ data.length ∧ cutPoint cfg data ≤ cfg.max ∧
      (cutPoint cfg data < data.length → cfg.min ≤ cutPoint cfg data) := by
  have positive := length_pos_iff.mpr some
  have ⟨minPos, minLe, avgLe⟩ := valid
  unfold cutPoint
  split
  · omega
  · have inside : cfg.min ≤ min data.length cfg.max := by omega
    have bounds := scan_bounds cfg data inside 0
    omega

/-! ## Chunks -/

structure Chunk where
  offset : Nat
  len : Nat
  hash : Digest
  deriving DecidableEq

section Payload

variable (blake3 : List UInt8 → Digest) (valid : cfg.Valid)

def chunksFrom (data : List UInt8) (offset : Nat) : List Chunk :=
  if more : offset < data.length then
    let len := cutPoint cfg (data.drop offset)
    have := (cutPoint_bounds valid (by simpa using more : data.drop offset ≠ [])).1
    ⟨offset, len, blake3 ((data.drop offset).take len)⟩ :: chunksFrom data (offset + len)
  else []
termination_by data.length - offset

end Payload

def chunkPayload (blake3 : List UInt8 → Digest) (data : List UInt8) (cfg : ChunkerConfig) :
    Except CasError (List Chunk) :=
  if valid : cfg.Valid then .ok (chunksFrom blake3 valid data 0)
  else .error (.corrupt ("invalid chunker config min=" ++ toString cfg.min ++ " avg=" ++
    toString cfg.avg ++ " max=" ++ toString cfg.max))

/-! ## The chunks tile the payload -/

/-- Chunks that follow each other from a position to another. -/
def Tiles : Nat → List Chunk → Nat → Prop
  | first, [], last => first = last
  | first, chunk :: chunks, last => chunk.offset = first ∧ Tiles (first + chunk.len) chunks last

section Payload

variable (blake3 : List UInt8 → Digest) (valid : cfg.Valid)

theorem chunksFrom_of_ge (atEnd : data.length ≤ offset) :
    chunksFrom blake3 valid data offset = [] := by
  rw [chunksFrom, dif_neg (by omega)]

theorem chunksFrom_of_lt (more : offset < data.length) : chunksFrom blake3 valid data offset =
      ⟨offset, cutPoint cfg (data.drop offset),
        blake3 ((data.drop offset).take (cutPoint cfg (data.drop offset)))⟩ ::
        chunksFrom blake3 valid data (offset + cutPoint cfg (data.drop offset)) := by
  rw [chunksFrom, dif_pos more]

theorem chunksFrom_tiles (inside : offset ≤ data.length) :
    Tiles offset (chunksFrom blake3 valid data offset) data.length ∧
      (∀ chunk ∈ chunksFrom blake3 valid data offset, 0 < chunk.len ∧ chunk.len ≤ cfg.max) ∧
      ∀ chunk ∈ (chunksFrom blake3 valid data offset).dropLast, cfg.min ≤ chunk.len := by
  fun_induction chunksFrom blake3 valid data offset with
  | case1 offset more len _ ih =>
    have bounds := cutPoint_bounds valid (by simpa using more : data.drop offset ≠ [])
    rw [length_drop] at bounds
    obtain ⟨tiles, lengths, full⟩ := ih (by omega)
    refine ⟨⟨rfl, tiles⟩, forall_mem_cons.mpr ⟨⟨bounds.1, bounds.2.2.1⟩, lengths⟩, ?_⟩
    intro chunk member
    by_cases notEnd : offset + len < data.length
    · -- a chunk with another one after it does not reach the end
      have follows : chunksFrom blake3 valid data (offset + len) ≠ [] := by
        rw [chunksFrom_of_lt blake3 valid notEnd]
        exact cons_ne_nil _ _
      rw [dropLast_cons_of_ne_nil follows] at member
      cases member with
      | head => exact bounds.2.2.2 (by omega)
      | tail _ member => exact full chunk member
    · rw [chunksFrom_of_ge blake3 valid (by omega)] at member
      simp at member
  | case2 offset notMore => exact ⟨by simp only [Tiles]; omega, by simp, by simp⟩

end Payload

/-- **Chunks tile the payload.**  With a valid configuration the chunks follow each other
from the start of the payload to its end; none is empty or longer than `max`, and none
but the last is shorter than `min`. -/
theorem chunks_tile_payload (blake3 : List UInt8 → Digest) (data : List UInt8)
    (cfg : ChunkerConfig) (valid : cfg.Valid) :
    ∃ chunks, chunkPayload blake3 data cfg = .ok chunks ∧ Tiles 0 chunks data.length ∧
      (∀ chunk ∈ chunks, 0 < chunk.len ∧ chunk.len ≤ cfg.max) ∧
      ∀ chunk ∈ chunks.dropLast, cfg.min ≤ chunk.len :=
  ⟨chunksFrom blake3 valid data 0, dif_pos valid,
    chunksFrom_tiles blake3 valid (Nat.zero_le data.length)⟩

/-- The chunks of a payload that is cut after each byte 2, where the hash is even. -/
def cutChunks (first : List UInt8) : List Chunk :=
  [⟨0, first.length, lengthDigest first⟩, ⟨first.length, 4, lengthDigest [5, 5, 5, 2]⟩,
    ⟨first.length + 4, 1, lengthDigest [7]⟩]

theorem chunks_tile_payload_at_cuts :
    chunkPayload lengthDigest [1, 1, 1, 2, 5, 5, 5, 2, 7] ⟨2, 4, 8⟩ =
        .ok (cutChunks [1, 1, 1, 2]) ∧ Tiles 0 (cutChunks [1, 1, 1, 2]) 9 := by
  have cut : chunkPayload lengthDigest [1, 1, 1, 2, 5, 5, 5, 2, 7] ⟨2, 4, 8⟩ =
      .ok (cutChunks [1, 1, 1, 2]) := by decide +kernel
  obtain ⟨_, computed, tiles, -⟩ := chunks_tile_payload lengthDigest _ ⟨2, 4, 8⟩ (by decide)
  cases cut.symm.trans computed
  exact ⟨cut, tiles⟩

/-! ## Payloads with a common end -/

/-- A chunk starts at the position, or the payload ends there. -/
def Boundary (chunks : List Chunk) (length position : Nat) : Prop :=
  position = length ∨ ∃ chunk ∈ chunks, chunk.offset = position

def Chunk.shift (count : Nat) (chunk : Chunk) : Chunk :=
  { chunk with offset := chunk.offset + count }

/-- The chunks from a position on, with offsets relative to what stands before a suffix. -/
def chunksOfSuffix (chunks : List Chunk) (before position : Nat) : List Chunk :=
  (chunks.filter (before + position ≤ ·.offset)).map fun chunk =>
    { chunk with offset := chunk.offset - before }

section Payload

variable (blake3 : List UInt8 → Digest) (valid : cfg.Valid)

theorem le_offset_of_mem (member : chunk ∈ chunksFrom blake3 valid data offset) :
    offset ≤ chunk.offset := by
  fun_induction chunksFrom blake3 valid data offset with
  | case1 offset more len _ ih =>
    cases member with
    | head => exact Nat.le_refl offset
    | tail _ member =>
      have := ih member
      omega
  | case2 => cases member

theorem filter_chunksFrom_self (offset : Nat) :
    (chunksFrom blake3 valid data offset).filter (offset ≤ ·.offset) =
      chunksFrom blake3 valid data offset := by
  apply filter_eq_self.mpr
  intro _ member
  exact decide_eq_true (le_offset_of_mem blake3 valid member)

/-- No state crosses a boundary. -/
theorem filter_chunksFrom (after : offset ≤ position)
    (boundary : Boundary (chunksFrom blake3 valid data offset) data.length position) :
    (chunksFrom blake3 valid data offset).filter (position ≤ ·.offset) =
      chunksFrom blake3 valid data position := by
  by_cases start : offset = position
  · rw [start, filter_chunksFrom_self]
  fun_induction chunksFrom blake3 valid data offset with
  | case1 offset more len positive ih =>
    have later : offset + len ≤ position ∧
        Boundary (chunksFrom blake3 valid data (offset + len)) data.length position := by
      have bounds := cutPoint_bounds valid (by simpa using more : data.drop offset ≠ [])
      rw [length_drop] at bounds
      rcases boundary with atEnd | ⟨chunk, member, isStart⟩
      · exact ⟨by omega, .inl atEnd⟩
      · cases member with
        | head => exact absurd isStart start
        | tail _ member =>
          have := le_offset_of_mem blake3 valid member
          exact ⟨by omega, .inr ⟨chunk, member, isStart⟩⟩
    rw [filter_cons_of_neg (by simp only [decide_eq_true_eq]; omega)]
    by_cases next : offset + len = position
    · rw [next, filter_chunksFrom_self]
    · exact ih later.1 later.2 next
  | case2 => exact (chunksFrom_of_ge blake3 valid (by omega)).symm

theorem chunksFrom_append (first last : List UInt8) (offset : Nat) :
    chunksFrom blake3 valid (first ++ last) (first.length + offset) =
      (chunksFrom blake3 valid last offset).map (·.shift first.length) := by
  fun_induction chunksFrom blake3 valid last offset with
  | case1 offset more len _ ih =>
    have rest : (first ++ last).drop (first.length + offset) = last.drop offset :=
      drop_length_add_append ..
    have moreOfBoth : first.length + offset < (first ++ last).length := by
      rw [length_append]
      omega
    rw [chunksFrom_of_lt blake3 valid moreOfBoth, rest, Nat.add_assoc, ih]
    simp only [map_cons, Chunk.shift, Nat.add_comm first.length]
    rfl
  | case2 offset notMore =>
    rw [chunksFrom_of_ge blake3 valid (by rw [length_append]; omega)]
    rfl

theorem chunksOfSuffix_chunksFrom (first last : List UInt8)
    (boundary : Boundary (chunksFrom blake3 valid (first ++ last) 0) (first ++ last).length
      (first.length + position)) :
    chunksOfSuffix (chunksFrom blake3 valid (first ++ last) 0) first.length position =
      chunksFrom blake3 valid last position := by
  rw [chunksOfSuffix, filter_chunksFrom blake3 valid (Nat.zero_le _) boundary, chunksFrom_append,
    map_map]
  conv_rhs => rw [← map_id (chunksFrom blake3 valid last position)]
  apply map_congr_left
  intro _ _
  simp [Chunk.shift]

end Payload

theorem chunkPayload_eq_ok (chunked : chunkPayload blake3 data cfg = .ok chunks) :
    ∃ valid : cfg.Valid, chunks = chunksFrom blake3 valid data 0 := by
  rw [chunkPayload] at chunked
  split at chunked
  · next valid => exact ⟨valid, (Except.ok.inj chunked).symm⟩
  · cases chunked

/-- **An edit changes only the chunks before the first shared boundary.**  If two payloads
with a common end have a boundary at the same position of that end, then from there on
they have the same chunks with the same hashes. -/
theorem chunks_agree_after_boundary (blake3 : List UInt8 → Digest) (cfg : ChunkerConfig)
    (first first' last : List UInt8) (position : Nat) {chunks chunks' : List Chunk}
    (chunked : chunkPayload blake3 (first ++ last) cfg = .ok chunks)
    (chunked' : chunkPayload blake3 (first' ++ last) cfg = .ok chunks')
    (boundary : Boundary chunks (first ++ last).length (first.length + position))
    (boundary' : Boundary chunks' (first' ++ last).length (first'.length + position)) :
    chunksOfSuffix chunks first.length position =
      chunksOfSuffix chunks' first'.length position := by
  obtain ⟨valid, rfl⟩ := chunkPayload_eq_ok chunked
  obtain ⟨_, rfl⟩ := chunkPayload_eq_ok chunked'
  rw [chunksOfSuffix_chunksFrom blake3 valid first last boundary,
    chunksOfSuffix_chunksFrom blake3 valid first' last boundary']

/-- Two payloads that differ up to their first cut. -/
theorem chunks_agree_after_boundary_at_cuts :
    chunksOfSuffix (cutChunks [1, 1, 1, 2]) 4 0 =
      chunksOfSuffix (cutChunks [3, 3, 3, 3, 2]) 5 0 :=
  chunks_agree_after_boundary lengthDigest ⟨2, 4, 8⟩ [1, 1, 1, 2] [3, 3, 3, 3, 2]
    [5, 5, 5, 2, 7] 0 (by decide +kernel) (by decide +kernel)
    (.inr ⟨_, .tail _ (.head _), rfl⟩) (.inr ⟨_, .tail _ (.head _), rfl⟩)

end AustralVM.Cas
