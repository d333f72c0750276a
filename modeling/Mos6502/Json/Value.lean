/-
This file holds JSON values and writes them, on one line or with two blanks of indentation for each
level. A number that is written as plain digits is a natural number; any other number is kept as it
is written. Members of an object keep their order, and a name may come more than once.
-/

import Mos6502.Json.Piece

namespace Mos6502.Json

/-- A JSON value. -/
inductive Value where
  | null
  | bool (value : Bool)
  /-- A number written as plain digits. -/
  | natural (value : Nat)
  /-- A number with a sign, a fraction or an exponent, as it is written. -/
  | number (text : List Char)
  | string (pieces : List Piece)
  | array (items : List Value)
  | object (members : List (List Piece × Value))

namespace Value

instance : Inhabited Value :=
  ⟨null⟩

/-! ### Values of plain data -/

/-- A text as a value. -/
def ofString (text : String) : Value :=
  string (Piece.ofText text)

/-- An optional number as a value. -/
def ofOptional : Option Nat → Value
  | none => null
  | some value => natural value

/-- An object with the given members. -/
def ofMembers (members : List (String × Value)) : Value :=
  object (members.map fun member => (Piece.ofText member.1, member.2))

/-! ### Values as text -/

/-- The literal of a truth value. -/
def writeBool (value : Bool) : List Char :=
  if value then "true".toList else "false".toList

mutual

/-- A value on one line, without blanks. -/
def writeCompact : Value → List Char
  | null => "null".toList
  | bool value => writeBool value
  | natural value => Nat.toDigits 10 value
  | number text => text
  | string pieces => Piece.writeAll pieces
  | array items => '[' :: writeItems items ++ [']']
  | object members => '\x7b' :: writeMembers members ++ ['\x7d']

/-- Values with commas between them. -/
def writeItems : List Value → List Char
  | [] => []
  | [item] => writeCompact item
  | item :: rest => writeCompact item ++ ',' :: writeItems rest

/-- Members with commas between them. -/
def writeMembers : List (List Piece × Value) → List Char
  | [] => []
  | [(name, value)] => Piece.writeAll name ++ ':' :: writeCompact value
  | (name, value) :: rest =>
    Piece.writeAll name ++ ':' :: writeCompact value ++ ',' :: writeMembers rest

end

/-- A new line with the blanks of a level. -/
def newLine (level : Nat) : List Char :=
  '\n' :: List.replicate (2 * level) ' '

mutual

/-- A value with each item and each member on a line of its own. -/
def writePretty (level : Nat) : Value → List Char
  | null => "null".toList
  | bool value => writeBool value
  | natural value => Nat.toDigits 10 value
  | number text => text
  | string pieces => Piece.writeAll pieces
  | array [] => ['[', ']']
  | array (item :: rest) =>
    '[' :: writePrettyItems (level + 1) (item :: rest) ++ newLine level ++ [']']
  | object [] => ['\x7b', '\x7d']
  | object (member :: rest) =>
    '\x7b' :: writePrettyMembers (level + 1) (member :: rest) ++ newLine level ++ ['\x7d']

/-- Values on lines of their own. -/
def writePrettyItems (level : Nat) : List Value → List Char
  | [] => []
  | [item] => newLine level ++ writePretty level item
  | item :: rest =>
    newLine level ++ writePretty level item ++ ',' :: writePrettyItems level rest

/-- Members on lines of their own. -/
def writePrettyMembers (level : Nat) : List (List Piece × Value) → List Char
  | [] => []
  | [(name, value)] =>
    newLine level ++ Piece.writeAll name ++ ':' :: ' ' :: writePretty level value
  | (name, value) :: rest =>
    newLine level ++ Piece.writeAll name ++ ':' :: ' ' :: writePretty level value ++
      ',' :: writePrettyMembers level rest

end

/-- The text of a value on one line. -/
def compact (value : Value) : String :=
  String.ofList value.writeCompact

/-- The text of a value on several lines. -/
def pretty (value : Value) : String :=
  String.ofList (value.writePretty 0)

end Value

end Mos6502.Json
