/-
This file names the thirteen addressing modes and says how many bytes an instruction takes in each.
The operand bytes follow the opcode byte, so an instruction is one byte longer than its operand and
takes one, two or three bytes.
-/

namespace Mos6502

/-- How an instruction finds its operand. -/
inductive Mode where
  /-- The operand is the accumulator. -/
  | accumulator
  /-- The operand is the byte after the opcode. -/
  | immediate
  /-- There is no operand. -/
  | implied
  /-- A signed distance from the next instruction. -/
  | relative
  /-- A full address. -/
  | absolute
  /-- An address in the zero page. -/
  | zeroPage
  /-- The address of a word that holds the address. -/
  | indirect
  /-- A full address plus X. -/
  | absoluteX
  /-- A full address plus Y. -/
  | absoluteY
  /-- A zero-page address plus X, staying in the zero page. -/
  | zeroPageX
  /-- A zero-page address plus Y, staying in the zero page. -/
  | zeroPageY
  /-- The word at a zero-page address plus X. -/
  | indirectX
  /-- The word at a zero-page address, plus Y. -/
  | indirectY
deriving DecidableEq

namespace Mode

/-- How many bytes follow the opcode. -/
def operandBytes : Mode → Nat
  | accumulator | implied => 0
  | immediate | relative | zeroPage | zeroPageX | zeroPageY | indirectX | indirectY => 1
  | absolute | absoluteX | absoluteY | indirect => 2

/-- The length of an instruction, its opcode included. -/
def size (mode : Mode) : Nat :=
  mode.operandBytes + 1

/-- The length of an instruction as a distance between addresses. -/
def stride : Mode → UInt16
  | accumulator | implied => 1
  | immediate | relative | zeroPage | zeroPageX | zeroPageY | indirectX | indirectY => 2
  | absolute | absoluteX | absoluteY | indirect => 3

/-- The stride is the length. -/
theorem toNat_stride (mode : Mode) : mode.stride.toNat = mode.size := by
  cases mode <;> rfl

theorem size_pos (mode : Mode) : 0 < mode.size :=
  Nat.succ_pos _

theorem size_le_three (mode : Mode) : mode.size ≤ 3 := by
  cases mode <;> decide

/-- The name of the mode, as messages spell it. -/
def name : Mode → String
  | accumulator => "Accumulator"
  | immediate => "Immediate"
  | implied => "Implied"
  | relative => "Relative"
  | absolute => "Absolute"
  | zeroPage => "ZeroPage"
  | indirect => "Indirect"
  | absoluteX => "AbsoluteX"
  | absoluteY => "AbsoluteY"
  | zeroPageX => "ZeroPageX"
  | zeroPageY => "ZeroPageY"
  | indirectX => "IndirectX"
  | indirectY => "IndirectY"

/-- Every addressing mode. -/
def all : List Mode :=
  [accumulator, immediate, implied, relative, absolute, zeroPage, indirect, absoluteX, absoluteY,
    zeroPageX, zeroPageY, indirectX, indirectY]

/-- The mode with the given name. -/
def ofName? (name : String) : Option Mode :=
  all.find? (·.name == name)

theorem mem_all (mode : Mode) : mode ∈ all := by
  cases mode <;> decide

end Mode

end Mos6502
