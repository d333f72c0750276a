/-
This file finds operands. The operand of an instruction depends on the mode, on the bytes after the
opcode and on the index registers; finding it changes nothing. Passing over the instruction is a
separate step: it moves the program counter, and for the three modes that add an index to a full
address it notes whether that led to another page.
-/

import Mos6502.Machine.Basic

namespace Mos6502

/-- What an instruction works on. -/
inductive Operand where
  /-- Nothing. -/
  | none
  /-- The accumulator. -/
  | accumulator
  /-- The byte at an address, or the address itself. -/
  | address (address : UInt16)
deriving DecidableEq

namespace Machine

/-- Where the operand bytes of the instruction at the program counter begin. -/
@[inline] def operandAddress (machine : Machine) : UInt16 :=
  machine.pc + 1

/-- The first operand byte. -/
@[inline] def operandByte (machine : Machine) : UInt8 :=
  machine.memory.read machine.operandAddress

/-- The operand bytes as a word. -/
@[inline] def operandWord (machine : Machine) : UInt16 :=
  machine.memory.readWord machine.operandAddress

/-- The word at a zero-page address, to which Y is added for the operand. -/
@[inline] def indirectBase (machine : Machine) : UInt16 :=
  machine.memory.readZeroPageWord machine.operandByte

/-- The operand of the instruction at the program counter, if it has the given mode. -/
def operand (machine : Machine) : Mode → Operand
  | .implied => .none
  | .accumulator => .accumulator
  | .immediate => .address machine.operandAddress
  | .zeroPage => .address machine.operandByte.toUInt16
  | .zeroPageX => .address (machine.operandByte + machine.x).toUInt16
  | .zeroPageY => .address (machine.operandByte + machine.y).toUInt16
  | .absolute => .address machine.operandWord
  | .absoluteX => .address (machine.operandWord + machine.x.toUInt16)
  | .absoluteY => .address (machine.operandWord + machine.y.toUInt16)
  | .indirect => .address (machine.memory.readWord machine.operandWord)
  | .indirectX =>
    .address (machine.memory.readZeroPageWord (machine.operandByte + machine.x))
  | .indirectY => .address (machine.indirectBase + machine.y.toUInt16)
  | .relative =>
    .address (machine.pc + Mode.relative.stride + signExtend machine.operandByte)

/-- Whether adding the index leads to another page, or what was noted before where no index is
added to a full address. -/
def crossing (machine : Machine) : Mode → Bool
  | .absoluteX =>
    crossesPage machine.operandWord (machine.operandWord + machine.x.toUInt16)
  | .absoluteY =>
    crossesPage machine.operandWord (machine.operandWord + machine.y.toUInt16)
  | .indirectY =>
    crossesPage machine.indirectBase (machine.indirectBase + machine.y.toUInt16)
  | _ => machine.pageCrossed

/-- Passes over the instruction at the program counter. -/
def advance (machine : Machine) (mode : Mode) : Machine :=
  { machine with pc := machine.pc + mode.stride, pageCrossed := machine.crossing mode }

end Machine

end Mos6502
