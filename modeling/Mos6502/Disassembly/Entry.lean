/-
This file holds the entries of a disassembly and writes them as assembly text. An entry is an
instruction with its operand bytes, or a single byte that is no instruction. The operand text shows
the mode by its marks; for a branch it shows the address that the branch goes to. Operand bytes that
an entry lacks are written as question marks.
-/

import Mos6502.Mnemonic
import Mos6502.Mode
import Mos6502.Text.Basic

namespace Mos6502

open Text

/-! ### Operand texts -/

/-- The first operand byte in hexadecimal. -/
def operandByteText : List UInt8 → String
  | byte :: _ => hexByte byte
  | [] => "??"

/-- The first two operand bytes as a word in hexadecimal. -/
def operandWordText : List UInt8 → String
  | low :: high :: _ => hexWord (wordOf low high)
  | _ => "????"

/-- Where a branch at an address goes, in hexadecimal. -/
def branchTargetText (address : UInt16) : List UInt8 → String
  | offset :: _ => hexWord (address + Mode.relative.stride + signExtend offset)
  | [] => "????"

/-- The operand of an instruction at an address, if its mode shows one. -/
def Mode.operandText? (mode : Mode) (address : UInt16) (operand : List UInt8) : Option String :=
  match mode with
  | implied => none
  | accumulator => some "A"
  | immediate => some ("#$" ++ operandByteText operand)
  | zeroPage => some ("$" ++ operandByteText operand)
  | zeroPageX => some ("$" ++ operandByteText operand ++ ",X")
  | zeroPageY => some ("$" ++ operandByteText operand ++ ",Y")
  | relative => some ("$" ++ branchTargetText address operand)
  | absolute => some ("$" ++ operandWordText operand)
  | absoluteX => some ("$" ++ operandWordText operand ++ ",X")
  | absoluteY => some ("$" ++ operandWordText operand ++ ",Y")
  | indirect => some ("($" ++ operandWordText operand ++ ")")
  | indirectX => some ("($" ++ operandByteText operand ++ ",X)")
  | indirectY => some ("($" ++ operandByteText operand ++ "),Y")

/-! ### Entries -/

/-- What the bytes of an entry are. -/
inductive Content where
  /-- An instruction with its operand bytes and the cycles of its opcode. -/
  | instruction (mnemonic : Mnemonic) (mode : Mode) (operand : List UInt8) (cycles : UInt8)
  /-- A byte that is no instruction. -/
  | data
deriving DecidableEq

/-- One entry of a disassembly. -/
structure Entry where
  /-- Where its first byte is. -/
  address : UInt16
  /-- Its first byte. -/
  opcode : UInt8
  /-- What the first byte and those after it are. -/
  content : Content
deriving DecidableEq

namespace Entry

/-- A byte that is no instruction. -/
def ofByte (address : UInt16) (byte : UInt8) : Entry :=
  ⟨address, byte, .data⟩

/-- Whether the entry is a byte that is no instruction. -/
def isData (entry : Entry) : Bool :=
  entry.content matches .data

/-- The name of the instruction, or the directive that places a byte. -/
def name (entry : Entry) : String :=
  match entry.content with
  | .instruction mnemonic _ _ _ => mnemonic.name
  | .data => ".byte"

/-- The addressing mode; a mere byte has no operand. -/
def mode (entry : Entry) : Mode :=
  match entry.content with
  | .instruction _ mode _ _ => mode
  | .data => .implied

/-- What the entry is about: the operand bytes, or the byte itself. -/
def operand (entry : Entry) : List UInt8 :=
  match entry.content with
  | .instruction _ _ operand _ => operand
  | .data => [entry.opcode]

/-- The cycles of the opcode; a mere byte takes none. -/
def cycles (entry : Entry) : UInt8 :=
  match entry.content with
  | .instruction _ _ _ cycles => cycles
  | .data => 0

/-- How many bytes the entry covers. -/
def size (entry : Entry) : Nat :=
  entry.mode.size

/-- The address after the entry. -/
def next (entry : Entry) : UInt16 :=
  entry.address + entry.mode.stride

/-- The bytes the entry stands for. -/
def bytes (entry : Entry) : List UInt8 :=
  match entry.content with
  | .instruction _ _ operand _ => entry.opcode :: operand
  | .data => [entry.opcode]

/-- The entry as assembly text. -/
def text (entry : Entry) : String :=
  match entry.content with
  | .instruction mnemonic mode operand _ =>
    match mode.operandText? entry.address operand with
    | none => mnemonic.name
    | some shown => mnemonic.name ++ " " ++ shown
  | .data => ".byte $" ++ hexByte entry.opcode

/-- The bytes in hexadecimal, with blanks between them. -/
def hexColumn (entry : Entry) : String :=
  " ".intercalate (entry.bytes.map hexByte)

/-- The entry as a line of a listing: address, bytes and text. -/
def listingLine (entry : Entry) : String :=
  hexWord entry.address ++ "  " ++ padRight 8 entry.hexColumn ++ "  " ++ entry.text

end Entry

end Mos6502
