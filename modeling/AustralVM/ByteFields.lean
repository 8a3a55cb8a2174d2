import AustralVM.ByteParser

/-!
# Fields in a list of bytes

A memory is a list of bytes.  Bytes are read and overwritten at an offset, and
numbers are kept there in little-endian order.  Writing a field changes that
field and no byte outside of it.
-/

namespace ByteFields

open LittleEndian

open List hiding count

variable {text bytes : List UInt8} {off : Nat}

/-! ## Bytes -/

def overwrite (text : List UInt8) (off : Nat) (bytes : List UInt8) : List UInt8 :=
  text.take off ++ bytes ++ text.drop (off + bytes.length)

def slice (text : List UInt8) (off width : Nat) : List UInt8 := (text.drop off).take width

theorem getElem?_slice (text : List UInt8) (off width index : Nat) :
    (slice text off width)[index]? = if index < width then text[off + index]? else none := by
  rw [slice, getElem?_take, getElem?_drop]

theorem le_length_overwrite (text : List UInt8) (off : Nat) (bytes : List UInt8) :
    text.length ≤ (overwrite text off bytes).length := by
  simp only [overwrite, length_append, length_take, length_drop]
  omega

section

variable (inside : off + bytes.length ≤ text.length)
include inside

theorem getElem?_overwrite (index : Nat) : (overwrite text off bytes)[index]? =
      if off ≤ index ∧ index < off + bytes.length then bytes[index - off]? else text[index]? := by
  have front : (text.take off).length = off := by
    rw [length_take]
    omega
  rw [overwrite, append_assoc]
  rcases Nat.lt_or_ge index off with before | after
  · rw [getElem?_append_left (by omega), getElem?_take, if_pos before, if_neg (by omega)]
  · rw [getElem?_append_right (by omega), front]
    by_cases within : index < off + bytes.length
    · rw [getElem?_append_left (by omega), if_pos ⟨after, within⟩]
    · rw [getElem?_append_right (by omega), getElem?_drop, if_neg (by omega)]
      congr 1
      omega

theorem length_overwrite : (overwrite text off bytes).length = text.length := by
  simp only [overwrite, length_append, length_take, length_drop]
  omega

theorem slice_overwrite : slice (overwrite text off bytes) off bytes.length = bytes := by
  apply ext_getElem?
  intro index
  rw [getElem?_slice, getElem?_overwrite inside]
  by_cases within : index < bytes.length
  · rw [if_pos within, if_pos ⟨by omega, by omega⟩, Nat.add_sub_cancel_left]
  · rw [if_neg within, getElem?_eq_none (by omega)]

theorem slice_overwrite_of_apart (apart : off + bytes.length ≤ start ∨ start + width ≤ off) :
    slice (overwrite text off bytes) start width = slice text start width := by
  apply ext_getElem?
  intro index
  rw [getElem?_slice, getElem?_slice, getElem?_overwrite inside]
  by_cases within : index < width
  · rw [if_pos within, if_pos within, if_neg (by omega)]
  · rw [if_neg within, if_neg within]

end

/-! ## Numbers -/

def read (text : List UInt8) (off width : Nat) : Nat := decode (slice text off width)

def write (text : List UInt8) (off width value : Nat) : List UInt8 :=
  overwrite text off (encode width value)

section Fields

variable {width : Nat}

theorem le_length_write (text : List UInt8) (off width value : Nat) :
    text.length ≤ (write text off width value).length :=
  le_length_overwrite _ _ _

section

variable (inside : off + width ≤ text.length) (value : Nat)
include inside value

theorem read_write : read (write text off width value) off width = value % 256 ^ width := by
  have placed : off + (encode width value).length ≤ text.length := by rwa [length_encode]
  have own := slice_overwrite placed
  rw [length_encode] at own
  rw [read, write, own, decode_encode]

theorem slice_write_of_apart (apart : off + width ≤ start ∨ start + count ≤ off) :
    slice (write text off width value) start count = slice text start count := by
  apply slice_overwrite_of_apart
  · rwa [length_encode]
  · rwa [length_encode]

theorem read_write_of_apart (apart : off + width ≤ start ∨ start + count ≤ off) :
    read (write text off width value) start count = read text start count := by
  rw [read, slice_write_of_apart inside value apart, read]

end

theorem read_replicate_zero (length off width : Nat) :
    read (List.replicate length 0) off width = 0 := by
  rw [read, slice, drop_replicate, take_replicate]
  generalize min width (length - off) = count
  induction count with
  | zero => rfl
  | succ _ ih => rw [replicate_succ, decode, ih]; rfl

end Fields

end ByteFields
