/-
This file holds the strings of JSON. A string is read piece by piece: a character that stands for
itself or for a short escape, or a numbered escape, which is one UTF-16 unit. Two units may make up
one character, and a unit may be left alone; only a string without lone surrogates stands for a
text. Keeping the pieces apart lets a value that nobody looks at hold any escapes.
-/

import Mos6502.Text.Basic

namespace Mos6502.Json

/-- A piece of a string. -/
inductive Piece where
  /-- A character, written plainly or by a short escape. -/
  | literal (char : Char)
  /-- A UTF-16 unit, written by its number. -/
  | escaped (unit : UInt16)
deriving DecidableEq

namespace Piece

/-! ### The text of a string -/

/-- Whether a unit is the first of a surrogate pair. -/
def isHighSurrogate (unit : UInt16) : Bool :=
  0xD800 ≤ unit && unit < 0xDC00

/-- Whether a unit is the second of a surrogate pair. -/
def isLowSurrogate (unit : UInt16) : Bool :=
  0xDC00 ≤ unit && unit < 0xE000

/-- The character that a surrogate pair stands for. -/
def pairChar (high low : UInt16) : Char :=
  Char.ofNat (0x10000 + (high.toNat - 0xD800) * 0x400 + (low.toNat - 0xDC00))

/-- The characters that the pieces stand for, unless a surrogate is left alone. -/
def chars? : List Piece → Option (List Char)
  | [] => some []
  | literal char :: rest => (chars? rest).map (char :: ·)
  | escaped high :: escaped low :: rest =>
    if isHighSurrogate high then
      if isLowSurrogate low then (chars? rest).map (pairChar high low :: ·) else none
    else if isLowSurrogate high then none
    else (chars? (escaped low :: rest)).map (Char.ofNat high.toNat :: ·)
  | escaped unit :: rest =>
    if isHighSurrogate unit || isLowSurrogate unit then none
    else (chars? rest).map (Char.ofNat unit.toNat :: ·)

/-- The text that the pieces stand for, unless a surrogate is left alone. -/
def text? (pieces : List Piece) : Option String :=
  (chars? pieces).map String.ofList

/-- The pieces of a text, each character for itself. -/
def ofText (text : String) : List Piece :=
  text.toList.map literal

theorem text?_ofText (text : String) : text? (ofText text) = some text := by
  have chars (list : List Char) : chars? (list.map literal) = some list := by
    induction list with
    | nil => rfl
    | cons head rest inductionHypothesis => simp [chars?, inductionHypothesis]
  simp [text?, ofText, chars]

/-! ### Reading a string -/

/-- The character behind a short escape. -/
def shortEscape? : Char → Option Char
  | '"' => some '"'
  | '\\' => some '\\'
  | '/' => some '/'
  | 'b' => some '\x08'
  | 'f' => some '\x0c'
  | 'n' => some '\n'
  | 'r' => some '\r'
  | 't' => some '\t'
  | _ => none

/-- The unit that four hexadecimal digits number. -/
def unit? (first second third fourth : Char) : Option UInt16 := do
  let first ← Text.digitValue? 16 first
  let second ← Text.digitValue? 16 second
  let third ← Text.digitValue? 16 third
  let fourth ← Text.digitValue? 16 fourth
  return UInt16.ofNat (((first * 16 + second) * 16 + third) * 16 + fourth)

/-- Reads the rest of a string whose opening quote is already read, and what follows it. Control
characters must not stand in a string. -/
def read : List Char → Option (List Piece × List Char)
  | [] => none
  | '"' :: rest => some ([], rest)
  | '\\' :: 'u' :: first :: second :: third :: fourth :: rest => do
    let unit ← unit? first second third fourth
    let (pieces, rest) ← read rest
    return (escaped unit :: pieces, rest)
  | '\\' :: mark :: rest => do
    let char ← shortEscape? mark
    let (pieces, rest) ← read rest
    return (literal char :: pieces, rest)
  | char :: rest => do
    guard (char ≠ '\\' ∧ ' ' ≤ char)
    let (pieces, rest) ← read rest
    return (literal char :: pieces, rest)

/-! ### Writing a string -/

/-- A character as it is written in a string. -/
def writeChar (char : Char) : List Char :=
  match char with
  | '"' => ['\\', '"']
  | '\\' => ['\\', '\\']
  | '\x08' => ['\\', 'b']
  | '\x0c' => ['\\', 'f']
  | '\n' => ['\\', 'n']
  | '\r' => ['\\', 'r']
  | '\t' => ['\\', 't']
  | char =>
    if char < ' ' then '\\' :: 'u' :: Text.wordDigits (UInt16.ofNat char.toNat) else [char]

/-- A piece as it is written in a string. -/
def write : Piece → List Char
  | literal char => writeChar char
  | escaped unit => '\\' :: 'u' :: Text.wordDigits unit

/-- A string with its quotes. -/
def writeAll (pieces : List Piece) : List Char :=
  '"' :: pieces.flatMap write ++ ['"']

end Piece

end Mos6502.Json
