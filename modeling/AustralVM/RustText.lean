import Mathlib.Data.List.Basic
import Mathlib.Algebra.Order.Ring.Nat

/-!
# Texts as Rust reads them

The functions of Rust's strings that take a text apart, over lists of characters,
with what they give for texts that are put together.
-/

namespace RustText

open List hiding after

/-- The text before and after the first place where a pattern stands. -/
def splitOnce (pattern : List Char) : List Char → Option (List Char × List Char)
  | [] => if pattern = [] then some ([], []) else none
  | char :: text =>
    if pattern.isPrefixOf (char :: text) then some ([], (char :: text).drop pattern.length)
    else (splitOnce pattern text).map fun (before, after) => (char :: before, after)

/-- The text before and after the last place where a character stands. -/
def rsplitOnce (separator : Char) (text : List Char) : Option (List Char × List Char) :=
  match text.reverse.dropWhile (· ≠ separator) with
  | [] => none
  | _ :: before => some (before.reverse, (text.reverse.takeWhile (· ≠ separator)).reverse)

/-- The pieces between line feeds; a line feed at the end starts no further piece. -/
def pieces : List Char → List (List Char)
  | [] => []
  | char :: text =>
    if char = '\n' then [] :: pieces text
    else
      match pieces text with
      | [] => [[char]]
      | line :: others => (char :: line) :: others

def withoutReturn (line : List Char) : List Char :=
  if line.getLast? = some '\r' then line.dropLast else line

def lines (text : List Char) : List (List Char) := (pieces text).map withoutReturn

/-- The characters that Unicode counts as white space. -/
def isWhitespace (char : Char) : Bool :=
  let code := char.toNat
  (9 ≤ code && code ≤ 13) || code = 32 || code = 0x85 || code = 0xA0 || code = 0x1680 ||
    (0x2000 ≤ code && code ≤ 0x200A) || code = 0x2028 || code = 0x2029 || code = 0x202F ||
    code = 0x205F || code = 0x3000

def trimStart (text : List Char) : List Char := text.dropWhile isWhitespace

def trimEnd (text : List Char) : List Char := (text.reverse.dropWhile isWhitespace).reverse

def trim (text : List Char) : List Char := trimEnd (trimStart text)

/-- An unsigned number of some width in decimal digits, with or without a sign. -/
def parseUnsigned (width : Nat) (text : List Char) : Option Nat :=
  let digits := match text with
    | '+' :: digits => digits
    | digits => digits
  if digits ≠ [] ∧ digits.all Char.isDigit then
    let value := Nat.ofDigitChars 10 digits 0
    if value < 2 ^ width then some value else none
  else none

/-! ## Texts that are put together -/

theorem splitOnce_append (after : List Char) (absent : separator ∉ before) :
    splitOnce [separator] (before ++ separator :: after) = some (before, after) := by
  induction before with
  | nil => simp [splitOnce]
  | cons char _ ih =>
    have different : separator ≠ char := fun same => absent (by simp [same])
    rw [cons_append, splitOnce, ih fun later => absent (mem_cons_of_mem char later)]
    simp [List.isPrefixOf, different]

theorem pieces_append (rest : List Char) (whole : '\n' ∉ line) :
    pieces (line ++ '\n' :: rest) = line :: pieces rest := by
  induction line with
  | nil => simp [pieces]
  | cons char _ ih =>
    have different : char ≠ '\n' := fun same => whole (by simp [same])
    rw [cons_append, pieces, if_neg different, ih fun later => whole (mem_cons_of_mem char later)]

theorem pieces_flatMap (whole : ∀ line ∈ parts, '\n' ∉ line) :
    pieces (parts.flatMap (· ++ ['\n'])) = parts := by
  induction parts with
  | nil => rfl
  | cons line _ ih =>
    rw [flatMap_cons, append_assoc, singleton_append, pieces_append _ (whole line mem_cons_self),
      ih (forall_mem_cons.mp whole).2]

theorem trimEnd_append (before after : List Char) (visible : ¬ isWhitespace char) :
    trimEnd (before ++ char :: after) = before ++ char :: trimEnd after := by
  rw [trimEnd, trimEnd, reverse_append, reverse_cons, append_assoc, dropWhile_append]
  split
  · rename_i blank
    have empty : after.reverse.dropWhile isWhitespace = [] := by simpa using blank
    simp [visible, empty]
  · simp

theorem trimStart_cons (text : List Char) (visible : ¬ isWhitespace char) :
    trimStart (char :: text) = char :: text := by
  rw [trimStart, dropWhile_cons_of_neg visible]

theorem trim_of_visible (visible : ∀ char ∈ text, ¬ isWhitespace char) : trim text = text := by
  have start : trimStart text = text := by
    cases text with
    | nil => rfl
    | cons char text => exact trimStart_cons text (visible char mem_cons_self)
  rw [trim, start]
  cases ends : text.reverse with
  | nil => rw [trimEnd, ends, reverse_eq_nil_iff.mp ends]; rfl
  | cons char =>
    have last : char ∈ text := by simpa [ends] using mem_reverse.mp (ends ▸ mem_cons_self)
    rw [trimEnd, ends, dropWhile_cons_of_neg (visible char last), ← ends, reverse_reverse]

theorem trimEnd_append_blank (text : List Char) (blank : isWhitespace char) :
    trimEnd (text ++ [char]) = trimEnd text := by
  rw [trimEnd, trimEnd, reverse_append, reverse_singleton, singleton_append,
    dropWhile_cons_of_pos blank]

theorem trim_append_blank (text : List Char) (blank : isWhitespace char) :
    trim (text ++ [char]) = trim text := by
  rw [trim, trim, trimStart, trimStart, dropWhile_append]
  split
  · rename_i allBlank
    rw [dropWhile_cons_of_pos blank, isEmpty_iff.mp allBlank]
    rfl
  · exact trimEnd_append_blank _ blank

theorem trim_withoutReturn (line : List Char) : trim (withoutReturn line) = trim line := by
  rw [withoutReturn]
  split
  · rename_i ends
    obtain ⟨start, rfl⟩ := getLast?_eq_some_iff.mp ends
    rw [dropLast_concat, trim_append_blank start (by decide)]
  · rfl

theorem parseUnsigned_toDigits (fits : value < 2 ^ width) :
    parseUnsigned width (Nat.toDigits 10 value) = some value := by
  have digits : ∀ char ∈ Nat.toDigits 10 value, char.isDigit := fun char inDigits =>
    Nat.isDigit_of_mem_toDigits (by decide) (by decide) inDigits
  have nonempty : Nat.toDigits 10 value ≠ [] := Nat.toDigits_ne_nil
  have unsigned (rest : List Char) (signed : Nat.toDigits 10 value = '+' :: rest) : False :=
    absurd (digits '+' (signed ▸ mem_cons_self)) (by decide)
  rw [parseUnsigned, if_pos ⟨nonempty, all_eq_true.mpr digits⟩]
  · simp only [Nat.ofDigitChars_ten_toDigits, if_pos fits]
  · exact unsigned

end RustText
