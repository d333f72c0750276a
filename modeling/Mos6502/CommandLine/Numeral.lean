/-
This file reads the numbers of the command line. A number is hexadecimal after `0x`, `0X` or `$` and
decimal otherwise; one plus sign may stand before the digits. A number is read by its value and
refused if it is too large for what it is meant for; it is never cut down to size.
-/

import Mos6502.Text.Basic

namespace Mos6502.CommandLine

/-! ### Digits -/

/-- Why digits do not stand for a number below a bound. -/
inductive NumeralFault where
  /-- There are none. -/
  | empty
  /-- There is something that is no digit. -/
  | invalidDigit
  /-- The number reaches the bound. -/
  | tooLarge
deriving DecidableEq

/-- The reason as text. -/
def NumeralFault.message : NumeralFault → String
  | empty => "cannot parse integer from empty string"
  | invalidDigit => "invalid digit found in string"
  | tooLarge => "number too large to fit in target type"

/-- Reads digits from left to right behind a number that was read so far. What is found first
counts, a character that is no digit or a number that reaches the bound. -/
def readDigits (radix bound value : Nat) : List Char → Except NumeralFault Nat
  | [] => .ok value
  | char :: rest =>
    match Text.digitValue? radix char with
    | none => .error .invalidDigit
    | some digit =>
      if value * radix + digit < bound then readDigits radix bound (value * radix + digit) rest
      else .error .tooLarge

/-- Reads a number below a bound: one plus sign, if there is one, and at least one digit. -/
def readNumeral (radix bound : Nat) : List Char → Except NumeralFault Nat
  | [] => .error .empty
  | ['+'] => .error .invalidDigit
  | '+' :: rest => readDigits radix bound 0 rest
  | text => readDigits radix bound 0 text

/-! ### Bounded numbers -/

/-- Why a text is no number of the wanted width. -/
inductive Misfit where
  /-- It is no number, or one beyond 32 bits. -/
  | malformed (text : String) (fault : NumeralFault)
  /-- It is a number that needs more bits. -/
  | tooWide (text : String) (bits : Nat)
deriving DecidableEq

/-- The reason as text. -/
def Misfit.message : Misfit → String
  | malformed text fault => "invalid number '" ++ text ++ "': " ++ fault.message
  | tooWide text bits => "'" ++ text ++ "' does not fit in " ++ bits.repr ++ " bits"

/-- The radix that a text announces, and what follows the announcement. -/
def splitRadix : List Char → Nat × List Char
  | '0' :: 'x' :: rest => (16, rest)
  | '0' :: 'X' :: rest => (16, rest)
  | '$' :: rest => (16, rest)
  | text => (10, text)

/-- Reads a number of at most 32 bits in the radix that it announces. -/
def readNumber (text : String) : Except Misfit Nat :=
  let (radix, digits) := splitRadix text.toList
  (readNumeral radix 0x100000000 digits).mapError (.malformed text)

/-- Reads a number of at most the given number of bits. -/
def readBits (bits : Nat) (text : String) : Except Misfit Nat := do
  let value ← readNumber text
  if value < Nat.pow 2 bits then return value else throw (.tooWide text bits)

/-- Reads a word. -/
def readWord (text : String) : Except Misfit UInt16 :=
  UInt16.ofNat <$> readBits 16 text

/-- Reads a byte. -/
def readByte (text : String) : Except Misfit UInt8 :=
  UInt8.ofNat <$> readBits 8 text

/-- Reads a count of cycles, which is always decimal. -/
def readCycles (text : String) : Except NumeralFault UInt64 :=
  UInt64.ofNat <$> readNumeral 10 0x10000000000000000 text.toList

end Mos6502.CommandLine
