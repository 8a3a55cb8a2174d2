import AustralVM.ByteParser

/-!
# Fields of the binary formats

The fields that the binary formats of the compiler, the cells and the package
store are made of: little-endian numbers, and texts and data with their length
in front.  A length that does not fit its four bytes is cut off.
-/

namespace AustralVM

/-! ## Writing -/

def utf8 (text : String) : List UInt8 := text.toByteArray.data.toList

def writeU32 (value : Nat) : List UInt8 := LittleEndian.encode 4 value

def writeI64 (value : BitVec 64) : List UInt8 := LittleEndian.encode 8 value.toNat

def writeString (text : String) : List UInt8 := writeU32 (utf8 text).length ++ utf8 text

def writeSized (data : List UInt8) : List UInt8 := writeU32 data.length ++ data

/-! ## Texts -/

/-- `String::from_utf8`. -/
def fromUtf8 (bytes : List UInt8) : Option String := String.fromUTF8? ⟨bytes.toArray⟩

theorem fromUtf8_eq_some : fromUtf8 bytes = some text ↔ utf8 text = bytes := by
  rw [fromUtf8, String.fromUTF8?]
  constructor
  · intro read
    split at read
    · cases read
      rfl
    · cases read
  · rintro rfl
    have same : (⟨(utf8 text).toArray⟩ : ByteArray) = text.toByteArray := by
      rw [utf8, Array.toArray_toList]
    rw [same, dif_pos text.isValidUTF8]
    rfl

theorem utf8_injective : Function.Injective utf8 := by
  intro _ _ same
  have read := fromUtf8_eq_some.mpr same
  rw [fromUtf8_eq_some.mpr rfl] at read
  exact (Option.some.inj read).symm

end AustralVM
