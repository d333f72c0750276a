/-
This file holds how numbers and texts are written in fixed places. Bytes and words are upper-case
hexadecimal: a byte always takes two digits and a word four, so that equal texts mean equal numbers
and columns line up. A column is filled up with blanks on the right, and a record shows its name and
its fields. For the way back, the file says which number a digit stands for in a given radix.
-/

import Mos6502.Word

namespace Mos6502.Text

/-! ### Writing digits -/

/-- The digit for a value below sixteen: `0` to `9`, then `A` to `F`. -/
def digitChar (value : Nat) : Char :=
  if value < 10 then Char.ofNat (0x30 + value) else Char.ofNat (0x37 + value)

/-- The two hexadecimal digits of a byte, high digit first. -/
def byteDigits (value : UInt8) : List Char :=
  [digitChar (value.toNat / 16), digitChar (value.toNat % 16)]

/-- The four hexadecimal digits of a word, high digit first. -/
def wordDigits (value : UInt16) : List Char :=
  byteDigits (highByte value) ++ byteDigits (lowByte value)

/-- A byte as two upper-case hexadecimal digits. -/
def hexByte (value : UInt8) : String :=
  String.ofList (byteDigits value)

/-- A word as four upper-case hexadecimal digits. -/
def hexWord (value : UInt16) : String :=
  String.ofList (wordDigits value)

@[simp] theorem toList_hexByte (value : UInt8) : (hexByte value).toList = byteDigits value :=
  String.toList_ofList

@[simp] theorem toList_hexWord (value : UInt16) : (hexWord value).toList = wordDigits value :=
  String.toList_ofList

@[simp] theorem length_byteDigits (value : UInt8) : (byteDigits value).length = 2 := rfl

/-! ### Reading digits -/

/-- The value of an ASCII digit or letter, whatever the radix: letters of either case go on from
ten. -/
def alphanumericValue? (char : Char) : Option Nat :=
  if '0' ≤ char ∧ char ≤ '9' then some (char.toNat - 0x30)
  else if 'A' ≤ char ∧ char ≤ 'Z' then some (char.toNat - 0x37)
  else if 'a' ≤ char ∧ char ≤ 'z' then some (char.toNat - 0x57)
  else none

/-- The value of a digit in the given radix, if the character is one of its digits. -/
def digitValue? (radix : Nat) (char : Char) : Option Nat :=
  (alphanumericValue? char).filter (· < radix)

theorem alphanumericValue?_digitChar :
    ∀ value < 16, alphanumericValue? (digitChar value) = some value := by
  decide

/-- Reading the digit written for a value gives the value back. -/
theorem digitValue?_digitChar {value radix : Nat} (small : value < 16) (below : value < radix) :
    digitValue? radix (digitChar value) = some value := by
  simp [digitValue?, alphanumericValue?_digitChar value small, below]

/-! ### Columns and records -/

/-- The text filled up with blanks on the right to at least the given width. -/
def padRight (width : Nat) (text : String) : String :=
  text ++ String.ofList (List.replicate (width - text.length) ' ')

@[simp] theorem toList_padRight (width : Nat) (text : String) : (padRight width text).toList =
    text.toList ++ List.replicate (width - text.toList.length) ' ' := by
  rw [padRight, String.toList_append, String.toList_ofList, String.length_toList]

/-- A record as its name and, between braces, its fields in order. -/
def record (name : String) (fields : List (String × String)) : String :=
  let written := fields.map fun field => field.1 ++ ": " ++ field.2
  name ++ " \x7b " ++ ", ".intercalate written ++ " \x7d"

end Mos6502.Text
