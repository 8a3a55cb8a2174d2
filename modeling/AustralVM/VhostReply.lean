import AustralVM.ByteParser

/-!
# The reply with the shared memory regions

A count of eight bytes, and sixteen bytes for each region.  The decoder multiplies
the count before it has compared it with the length of the reply, and it does not look
at the padding of a region.
-/

namespace AustralVM.Virtio

open LittleEndian

open List hiding count

structure SharedMemoryRegion where
  id : UInt8
  length : UInt64
  deriving DecidableEq, Repr

open SharedMemoryRegion

/-- How decoding ends without a result: an error of the codec, or a number that does
not fit in 64 bits. -/
inductive ReplyFailure
  | truncated (what : String)
  | badRegionReply
  | overflow
  deriving DecidableEq, Repr

namespace SharedMemoryRegion

def encode (region : SharedMemoryRegion) : List UInt8 :=
  region.id :: (List.replicate 7 0 ++ LittleEndian.encode 8 region.length.toNat)

def decode (bytes : List UInt8) : Except ReplyFailure SharedMemoryRegion :=
  if bytes.length < 16 then .error (.truncated "region")
  else .ok ⟨bytes.headD 0, UInt64.ofNat (LittleEndian.decode ((bytes.drop 8).take 8))⟩

end SharedMemoryRegion

def encodeRegionsReply (regions : List SharedMemoryRegion) : List UInt8 :=
  encode 8 regions.length ++ regions.flatMap encode

/-- A number of regions that follow each other. -/
def decodeRegions : Nat → List UInt8 → Except ReplyFailure (List SharedMemoryRegion)
  | 0, _ => .ok []
  | count + 1, bytes => do
    let region ← decode bytes
    return region :: (← decodeRegions count (bytes.drop 16))

def replyCount (bytes : List UInt8) : Nat := decode (bytes.take 8)

def decodeRegionsReply (bytes : List UInt8) : Except ReplyFailure (List SharedMemoryRegion) :=
  if bytes.length < 8 then .error (.truncated "region count")
  else if 8 + replyCount bytes * 16 ≥ 2 ^ 64 then .error .overflow
  else if bytes.length ≠ 8 + replyCount bytes * 16 then .error .badRegionReply
  else decodeRegions (replyCount bytes) (bytes.drop 8)

/-- The seven bytes after the first one of each region are zero. -/
def zeroPadding : Nat → List UInt8 → Bool
  | 0, _ => true
  | count + 1, bytes =>
    (bytes.drop 1).take 7 = List.replicate 7 0 && zeroPadding count (bytes.drop 16)

/-! ## One region -/

theorem append_eq_iff {first rest whole : List UInt8} {n : Nat} (lengthEq : first.length = n) :
    first ++ rest = whole ↔ first = whole.take n ∧ rest = whole.drop n := by
  constructor
  · rintro rfl
    exact ⟨(take_left' lengthEq).symm, (drop_left' lengthEq).symm⟩
  · rintro ⟨firstEq, restEq⟩
    rw [firstEq, restEq, take_append_drop]

theorem length_encode (region : SharedMemoryRegion) : region.encode.length = 16 := by
  simp [SharedMemoryRegion.encode]

theorem decode_encode_append (region : SharedMemoryRegion) (rest : List UInt8) :
    SharedMemoryRegion.decode (region.encode ++ rest) = .ok region := by
  have small : region.length.toNat < 256 ^ 8 := region.length.toNat_lt
  have enough : ¬ (region.encode ++ rest).length < 16 := by simp [SharedMemoryRegion.encode]
  have field : ((region.encode ++ rest).drop 8).take 8 =
      encode 8 region.length.toNat := by
    simp [SharedMemoryRegion.encode, take_left']
  rw [SharedMemoryRegion.decode, if_neg enough, field, LittleEndian.decode_encode,
    Nat.mod_eq_of_lt small, UInt64.ofNat_toNat]
  rfl

/-- A region is written as it was read if its padding is zero. -/
theorem encode_of_decode (enough : 16 ≤ bytes.length) :
    ∃ region, SharedMemoryRegion.decode bytes = .ok region ∧
      (region.encode = bytes.take 16 ↔ (bytes.drop 1).take 7 = List.replicate 7 0) := by
  refine ⟨_, if_neg (by omega), ?_⟩
  cases bytes with
  | nil => simp at enough
  | cons _ tail =>
    have fieldLength : ((tail.drop 7).take 8).length = 8 := by
      rw [length_cons] at enough
      rw [length_take, length_drop]
      omega
    have small := decode_lt ((tail.drop 7).take 8)
    have kept := encode_decode ((tail.drop 7).take 8)
    rw [fieldLength] at small kept
    have number : (UInt64.ofNat (decode ((tail.drop 7).take 8))).toNat =
        LittleEndian.decode ((tail.drop 7).take 8) := by
      rw [UInt64.toNat_ofNat']
      exact Nat.mod_eq_of_lt small
    have record : tail.take 15 = tail.take 7 ++ (tail.drop 7).take 8 := take_add (i := 7) (j := 8)
    simp only [SharedMemoryRegion.encode, headD_cons, drop_succ_cons, number, kept,
      take_succ_cons, record, List.cons.injEq, true_and, append_left_inj]
    exact eq_comm

/-! ## All regions -/

theorem decodeRegions_flatMap (regions : List SharedMemoryRegion) :
    decodeRegions regions.length (regions.flatMap encode) = .ok regions := by
  induction regions with
  | nil => rfl
  | cons region regions ih =>
    have rest : (region.encode ++ regions.flatMap encode).drop 16 =
        regions.flatMap encode :=
      drop_left' (length_encode region)
    rw [length_cons, flatMap_cons, decodeRegions, decode_encode_append, rest, ih]
    rfl

theorem encode_of_decodeRegions {count : Nat} (sizeEq : body.length = count * 16) :
    ∃ regions, decodeRegions count body = .ok regions ∧ regions.length = count ∧
      (regions.flatMap encode = body ↔ zeroPadding count body = true) := by
  induction count generalizing body with
  | zero =>
    obtain rfl := length_eq_zero_iff.mp (by simpa using sizeEq : body.length = 0)
    exact ⟨[], rfl, rfl, by simp [zeroPadding]⟩
  | succ _ ih =>
    obtain ⟨region, decoded, sameRegion⟩ := encode_of_decode (by omega : 16 ≤ body.length)
    obtain ⟨regions, decodedRest, lengthEq, sameRest⟩ :=
      @ih (body.drop 16) (by rw [length_drop]; omega)
    refine ⟨region :: regions, by rw [decodeRegions, decoded, decodedRest]; rfl,
      by rw [length_cons, lengthEq], ?_⟩
    rw [flatMap_cons, append_eq_iff (length_encode region), sameRegion, sameRest, zeroPadding,
      Bool.and_eq_true, decide_eq_true_eq]

/-- Decoding does not overflow, and what it returns is encoded as the bytes. -/
def Faithful (bytes : List UInt8) : Prop :=
  decodeRegionsReply bytes ≠ .error .overflow ∧
    ∀ regions, decodeRegionsReply bytes = .ok regions → encodeRegionsReply regions = bytes

/-- **Replies with regions.**  The regions that are encoded are decoded again, if the
reply fits in the memory of the machine.  Decoding is faithful exactly on replies whose
count can be multiplied and whose regions have no padding other than zero. -/
theorem regions_reply_faithful_iff (bytes : List UInt8) :
    (∀ regions, 8 + regions.length * 16 < 2 ^ 64 →
      decodeRegionsReply (encodeRegionsReply regions) = .ok regions) ∧
      (Faithful bytes ↔ bytes.length < 8 ∨ 8 + replyCount bytes * 16 < 2 ^ 64 ∧
          (bytes.length = 8 + replyCount bytes * 16 →
            zeroPadding (replyCount bytes) (bytes.drop 8) = true)) := by
  constructor
  · intro regions _
    have small : regions.length < 256 ^ 8 := by omega
    have count : replyCount (encodeRegionsReply regions) = regions.length := by
      rw [replyCount, encodeRegionsReply, take_left' (by simp), decode_encode,
        Nat.mod_eq_of_lt small]
    have lengthEq : (encodeRegionsReply regions).length = 8 + regions.length * 16 := by
      simp [encodeRegionsReply, length_flatMap, length_encode, map_const']
    have body : (encodeRegionsReply regions).drop 8 = regions.flatMap encode := drop_left' (by simp)
    rw [decodeRegionsReply, count, lengthEq, if_neg (by omega), if_neg (by omega),
      if_neg (by simp), body, decodeRegions_flatMap]
  · rw [Faithful, decodeRegionsReply]
    by_cases short : bytes.length < 8
    · rw [if_pos short]
      exact ⟨fun _ => .inl short, fun _ => ⟨nofun, nofun⟩⟩
    rw [if_neg short]
    by_cases large : 8 + replyCount bytes * 16 ≥ 2 ^ 64
    · rw [if_pos large]
      exact ⟨fun faithful => absurd rfl faithful.1, fun allowed => by omega⟩
    rw [if_neg large]
    by_cases other : bytes.length ≠ 8 + replyCount bytes * 16
    · rw [if_pos other]
      exact ⟨fun _ => .inr ⟨by omega, fun same => absurd same other⟩, fun _ => ⟨nofun, nofun⟩⟩
    · obtain ⟨regions, decoded, lengthEq, same⟩ := encode_of_decodeRegions
        (by rw [length_drop]; omega : (bytes.drop 8).length = replyCount bytes * 16)
      have countField : encode 8 regions.length = bytes.take 8 := by
        have kept := encode_decode (bytes.take 8)
        rwa [length_take, Nat.min_eq_left (by omega), ← replyCount, ← lengthEq] at kept
      have written : encodeRegionsReply regions = bytes ↔
          zeroPadding (replyCount bytes) (bytes.drop 8) = true := by
        rw [encodeRegionsReply, append_eq_iff (LittleEndian.length_encode _ _), same]
        exact and_iff_right countField
      rw [if_neg other, decoded, ← written]
      constructor
      · intro faithful
        exact .inr ⟨by omega, fun _ => faithful.2 regions rfl⟩
      · rintro (tooShort | ⟨-, padded⟩)
        · exact absurd tooShort short
        · refine ⟨nofun, fun found isFound => ?_⟩
          cases isFound
          exact padded (not_not.mp other)

theorem regions_reply_faithful_at_two :
    decodeRegionsReply (encodeRegionsReply [⟨3, 4096⟩, ⟨5, 512⟩]) = .ok [⟨3, 4096⟩, ⟨5, 512⟩] ∧
      Faithful (encodeRegionsReply [⟨3, 4096⟩, ⟨5, 512⟩]) ∧
      ¬ Faithful (encode 8 1 ++ 3 :: 9 :: List.replicate 14 0) :=
  ⟨(regions_reply_faithful_iff []).1 _ (by decide),
    (regions_reply_faithful_iff _).2.mpr (by decide +kernel),
    mt (regions_reply_faithful_iff _).2.mp (by decide +kernel)⟩

/-- A count whose product does not fit, and a region with padding. -/
theorem regions_reply_overflows_and_loses_padding :
    decodeRegionsReply (encode 8 (2 ^ 60)) = .error .overflow ∧
      ∃ bytes regions, decodeRegionsReply bytes = .ok regions ∧
        encodeRegionsReply regions ≠ bytes := by
  refine ⟨by decide +kernel,
    LittleEndian.encode 8 1 ++ 3 :: 9 :: List.replicate 14 0, [⟨3, 0⟩], ?_, ?_⟩ <;> decide +kernel

end AustralVM.Virtio
