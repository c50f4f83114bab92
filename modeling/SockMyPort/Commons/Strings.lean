/-
# C strings

A C string is the list of its characters without the terminator, so that a
string with an embedded terminator cannot be built. Reading memory as a string
stops at the first terminator.
-/

import Mathlib.Data.List.Basic

namespace SockMyPort.Commons

/-- A character of a C string: any byte but the terminator. -/
abbrev CChar := {byte : UInt8 // byte ≠ 0}

/-- The contents of a `char *`. -/
abbrev CString := List CChar

instance : LawfulBEq CString := inferInstance

/-- The bytes of a string, without its terminator. -/
def bytesOf (string : CString) : List UInt8 := string.map Subtype.val

/-- Read bytes as a string: everything before the first terminator. -/
def stringOf : List UInt8 → CString
  | [] => []
  | byte :: bytes => if h : byte = 0 then [] else ⟨byte, h⟩ :: stringOf bytes

@[simp]
theorem length_bytesOf (string : CString) : (bytesOf string).length = string.length := by
  simp [bytesOf]

/-- Reading stops at the terminator that follows a string. -/
@[simp]
theorem stringOf_bytesOf_append_zero (string : CString) (rest : List UInt8) :
    stringOf (bytesOf string ++ 0 :: rest) = string := by
  induction string with
  | nil => simp [bytesOf, stringOf]
  | cons char string ih =>
      simp only [bytesOf, List.map_cons, List.cons_append, stringOf, dif_neg char.2] at ih ⊢
      rw [ih]

/-- `tolower` in the C locale. -/
def tolower (byte : UInt8) : UInt8 := if 65 ≤ byte ∧ byte ≤ 90 then byte + 32 else byte

/-- `strcasecmp(first, second) == 0`, which is also `string_equals_ignore_case`. -/
def stringEqualsIgnoreCase (first second : CString) : Bool :=
  (bytesOf first).map tolower == (bytesOf second).map tolower

@[simp]
theorem stringEqualsIgnoreCase_self (string : CString) :
    stringEqualsIgnoreCase string string = true := by
  simp [stringEqualsIgnoreCase]

/-- The text of the C literal with the given byte values. -/
def literal (bytes : List UInt8) : CString := stringOf bytes

/-- `string_repeat('X', size)`, the filler of generated values. -/
def stringRepeatX (size : ℕ) : CString := List.replicate size ⟨88, by decide⟩

@[simp]
theorem length_stringRepeatX (size : ℕ) : (stringRepeatX size).length = size := by
  simp [stringRepeatX]

end SockMyPort.Commons
