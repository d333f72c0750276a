/-
This file reads JSON text. The grammar is strict: no blanks but the four that JSON allows, no comma
before a closing bracket, no digit before a leading zero's point but the zero, no control characters
in strings and nothing after the value. Values may be nested to any depth.
-/

import Mos6502.Json.Value

namespace Mos6502.Json.Value

/-! ### Blanks and numbers -/

/-- Whether a character may stand between the parts of a value. -/
def isBlank (char : Char) : Bool :=
  char == ' ' || char == '\t' || char == '\n' || char == '\r'

/-- The text after its leading blanks. -/
def skipBlanks (text : List Char) : List Char :=
  text.dropWhile isBlank

/-- Reads a sign, if there is one. -/
def readMinus : List Char → List Char × List Char
  | '-' :: rest => (['-'], rest)
  | text => ([], text)

/-- Reads a point and the digits after it, if there is a point. -/
def readFraction : List Char → Option (List Char × List Char)
  | '.' :: rest =>
    let (digits, rest) := rest.span Char.isDigit
    if digits.isEmpty then none else some ('.' :: digits, rest)
  | text => some ([], text)

/-- Reads the sign and the digits of an exponent. -/
def readPower (mark : Char) (text : List Char) : Option (List Char × List Char) :=
  let (sign, text) := match text with
    | '+' :: rest => (['+'], rest)
    | '-' :: rest => (['-'], rest)
    | text => ([], text)
  let (digits, rest) := text.span Char.isDigit
  if digits.isEmpty then none else some (mark :: sign ++ digits, rest)

/-- Reads an exponent, if there is one. -/
def readExponent : List Char → Option (List Char × List Char)
  | 'e' :: rest => readPower 'e' rest
  | 'E' :: rest => readPower 'E' rest
  | text => some ([], text)

/-- Reads a number. A number of more than one digit does not begin with zero. -/
def readNumber (text : List Char) : Option (Value × List Char) := do
  let (sign, text) := readMinus text
  let (whole, text) := text.span Char.isDigit
  guard (whole ≠ [] ∧ (whole.head? = some '0' → whole.length = 1))
  let (fraction, text) ← readFraction text
  let (exponent, text) ← readExponent text
  if sign.isEmpty && fraction.isEmpty && exponent.isEmpty then
    return (natural (Nat.ofDigitChars 10 whole 0), text)
  else return (number (sign ++ whole ++ fraction ++ exponent), text)

/-! ### Values -/

mutual

/-- Reads a value after blanks; the fuel bounds how far the reading may go down and along. -/
def read : Nat → List Char → Option (Value × List Char)
  | 0, _ => none
  | fuel + 1, text =>
    match skipBlanks text with
    | 'n' :: 'u' :: 'l' :: 'l' :: rest => some (null, rest)
    | 't' :: 'r' :: 'u' :: 'e' :: rest => some (bool true, rest)
    | 'f' :: 'a' :: 'l' :: 's' :: 'e' :: rest => some (bool false, rest)
    | '"' :: rest => (Piece.read rest).map fun (pieces, rest) => (string pieces, rest)
    | '[' :: rest =>
      match skipBlanks rest with
      | ']' :: rest => some (array [], rest)
      | rest => (readItems fuel rest).map fun (items, rest) => (array items, rest)
    | '\x7b' :: rest =>
      match skipBlanks rest with
      | '\x7d' :: rest => some (object [], rest)
      | rest => (readMembers fuel rest).map fun (members, rest) => (object members, rest)
    | text => readNumber text

/-- Reads values with commas between them, and the bracket after the last. -/
def readItems : Nat → List Char → Option (List Value × List Char)
  | 0, _ => none
  | fuel + 1, text => do
    let (item, rest) ← read fuel text
    match skipBlanks rest with
    | ']' :: rest => return ([item], rest)
    | ',' :: rest =>
      let (items, rest) ← readItems fuel rest
      return (item :: items, rest)
    | _ => none

/-- Reads members with commas between them, and the brace after the last. -/
def readMembers : Nat → List Char → Option (List (List Piece × Value) × List Char)
  | 0, _ => none
  | fuel + 1, text =>
    match skipBlanks text with
    | '"' :: rest => do
      let (name, rest) ← Piece.read rest
      match skipBlanks rest with
      | ':' :: rest =>
        let (value, rest) ← read fuel rest
        match skipBlanks rest with
        | '\x7d' :: rest => return ([(name, value)], rest)
        | ',' :: rest =>
          let (members, rest) ← readMembers fuel rest
          return ((name, value) :: members, rest)
        | _ => none
      | _ => none
    | _ => none

end

/-- The value that a text holds, if it holds one and nothing else. Every second step of the reading
takes a character away, so the fuel never runs out. -/
def parse? (text : String) : Option Value := do
  let chars := text.toList
  let (value, rest) ← read (2 * chars.length + 1) chars
  guard (skipBlanks rest).isEmpty
  return value

end Mos6502.Json.Value
