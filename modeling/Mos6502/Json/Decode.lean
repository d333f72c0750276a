/-
This file takes plain data out of JSON values: bounded numbers, optional values, names out of a
fixed choice, and the fields of a record. A field may be missing but must not come twice; fields
that nobody asks for are ignored, whatever they hold. A record may also be an array that holds the
fields in order and may end early.
-/

import Mos6502.Json.Reader

namespace Mos6502.Json.Value

/-! ### Single values -/

/-- A natural number below a limit. -/
def below? (limit : Nat) : Value → Option Nat
  | natural value => if value < limit then some value else none
  | _ => none

/-- A number that fits in a byte. -/
def byte? (value : Value) : Option UInt8 :=
  (value.below? 0x100).map UInt8.ofNat

/-- A number that fits in a word. -/
def word? (value : Value) : Option UInt16 :=
  (value.below? 0x10000).map UInt16.ofNat

/-- A value that may be null. -/
def optional? {α : Type} (read : Value → Option α) : Value → Option (Option α)
  | null => some none
  | value => (read value).map some

/-- One of several names, as a string or as the only name of an object that holds null. -/
def choice? {α : Type} (ofName? : String → Option α) : Value → Option α
  | string pieces => Piece.text? pieces >>= ofName?
  | object [(pieces, null)] => Piece.text? pieces >>= ofName?
  | _ => none

/-! ### Records -/

/-- The members by the texts of their names. -/
def named? (members : List (List Piece × Value)) : Option (List (String × Value)) :=
  members.mapM fun (pieces, value) => (Piece.text? pieces).map (·, value)

/-- A field of a record by its name, or its default if it is missing. -/
def field? {α : Type} (members : List (String × Value)) (name : String) (fallback : α)
    (read : Value → Option α) : Option α :=
  match members.filter (·.1 == name) with
  | [] => some fallback
  | [(_, value)] => read value
  | _ => none

/-- A field of a record by its place, or its default if the record ends before it. -/
def item? {α : Type} (items : List Value) (place : Nat) (fallback : α)
    (read : Value → Option α) : Option α :=
  match items[place]? with
  | none => some fallback
  | some value => read value

end Mos6502.Json.Value
