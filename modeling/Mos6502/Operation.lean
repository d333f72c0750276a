/-
This file sorts the fifty-six instructions by what they do. An operation says what happens and to
which register or flag, but not where the operand is found: instructions of one kind differ only in
the data of their operation. The kind also settles which addressing modes make sense.
-/

import Mos6502.Flag
import Mos6502.Mnemonic
import Mos6502.Mode

namespace Mos6502

/-- The three registers that data passes through. -/
inductive Register where
  | a
  | x
  | y
deriving DecidableEq

/-- What is done with a byte that is read from memory. -/
inductive Reading where
  /-- It goes into a register. -/
  | load (register : Register)
  /-- It is added to the accumulator, and the carry with it. -/
  | add
  /-- It is taken from the accumulator, and one more if carry is clear. -/
  | subtract
  /-- The accumulator keeps the bits that are set in both. -/
  | and
  /-- The accumulator gets the bits that are set in either. -/
  | or
  /-- The accumulator gets the bits that are set in one of the two. -/
  | xor
  /-- It is compared with a register. -/
  | compare (register : Register)
  /-- Its bits are tested against the accumulator. -/
  | test
deriving DecidableEq

/-- How a byte is moved by one bit. -/
inductive Shift where
  /-- Left, with zero coming in. -/
  | left
  /-- Right, with zero coming in. -/
  | right
  /-- Left, with the carry coming in. -/
  | rotateLeft
  /-- Right, with the carry coming in. -/
  | rotateRight
deriving DecidableEq

/-- What an instruction without operand does. -/
inductive Action where
  /-- Copies one register to another. -/
  | transfer (source target : Register)
  /-- Copies the stack pointer to X. -/
  | readStackPointer
  /-- Copies X to the stack pointer. -/
  | writeStackPointer
  /-- Adds a number to a register. -/
  | adjust (register : Register) (delta : UInt8)
  /-- Sets or clears a flag. -/
  | assign (flag : Flag) (on : Bool)
  /-- Pushes the accumulator. -/
  | pushAccumulator
  /-- Pushes the status register. -/
  | pushStatus
  /-- Pulls the accumulator. -/
  | pullAccumulator
  /-- Pulls the status register. -/
  | pullStatus
  /-- Enters the interrupt handler. -/
  | interrupt
  /-- Leaves a subroutine. -/
  | returnFromSubroutine
  /-- Leaves the interrupt handler. -/
  | returnFromInterrupt
  /-- Does nothing. -/
  | idle
deriving DecidableEq

/-- What an instruction does with its operand. -/
inductive Operation where
  /-- Reads a byte and works on the registers. -/
  | read (reading : Reading)
  /-- Stores a register in memory. -/
  | store (register : Register)
  /-- Adds a number to a byte in memory. -/
  | adjust (delta : UInt8)
  /-- Moves a byte in memory or in the accumulator by one bit. -/
  | shift (shift : Shift)
  /-- Goes to the operand if a flag has the given value. -/
  | branch (flag : Flag) (wanted : Bool)
  /-- Goes to the operand. -/
  | jump
  /-- Goes to the operand after pushing where to come back. -/
  | call
  /-- Has no operand. -/
  | implied (action : Action)
deriving DecidableEq

/-- What an instruction does. -/
def Mnemonic.operation : Mnemonic → Operation
  | lda => .read (.load .a)
  | ldx => .read (.load .x)
  | ldy => .read (.load .y)
  | sta => .store .a
  | stx => .store .x
  | sty => .store .y
  | adc => .read .add
  | sbc => .read .subtract
  | and => .read .and
  | ora => .read .or
  | eor => .read .xor
  | bit => .read .test
  | cmp => .read (.compare .a)
  | cpx => .read (.compare .x)
  | cpy => .read (.compare .y)
  | asl => .shift .left
  | lsr => .shift .right
  | rol => .shift .rotateLeft
  | ror => .shift .rotateRight
  | inc => .adjust 1
  | dec => .adjust 0xFF
  | inx => .implied (.adjust .x 1)
  | iny => .implied (.adjust .y 1)
  | dex => .implied (.adjust .x 0xFF)
  | dey => .implied (.adjust .y 0xFF)
  | bcc => .branch .carry false
  | bcs => .branch .carry true
  | beq => .branch .zero true
  | bne => .branch .zero false
  | bmi => .branch .negative true
  | bpl => .branch .negative false
  | bvc => .branch .overflow false
  | bvs => .branch .overflow true
  | jmp => .jump
  | jsr => .call
  | rts => .implied .returnFromSubroutine
  | rti => .implied .returnFromInterrupt
  | brk => .implied .interrupt
  | nop => .implied .idle
  | pha => .implied .pushAccumulator
  | php => .implied .pushStatus
  | pla => .implied .pullAccumulator
  | plp => .implied .pullStatus
  | clc => .implied (.assign .carry false)
  | sec => .implied (.assign .carry true)
  | cld => .implied (.assign .decimal false)
  | sed => .implied (.assign .decimal true)
  | cli => .implied (.assign .interruptDisable false)
  | sei => .implied (.assign .interruptDisable true)
  | clv => .implied (.assign .overflow false)
  | tax => .implied (.transfer .a .x)
  | tay => .implied (.transfer .a .y)
  | txa => .implied (.transfer .x .a)
  | tya => .implied (.transfer .y .a)
  | tsx => .implied .readStackPointer
  | txs => .implied .writeStackPointer

namespace Shift

/-- The byte moved by one bit, given the carry as 0 or 1. -/
def result (shift : Shift) (value carry : UInt8) : UInt8 :=
  match shift with
  | left => value <<< 1
  | right => value >>> 1
  | rotateLeft => (value <<< 1) ||| carry
  | rotateRight => (value >>> 1) ||| (carry <<< 7)

/-- The bit that leaves the byte, as a number. -/
def carryOut (shift : Shift) (value : UInt8) : UInt8 :=
  match shift with
  | left | rotateLeft => value >>> 7
  | right | rotateRight => value &&& 1

end Shift

namespace Operation

/-- Whether a mode is refused from its name alone, before the operand is looked for. Data in memory
is never relative, and only a byte that is read can be part of the instruction; branches, jumps and
calls have modes of their own. -/
def refuses : Operation → Mode → Bool
  | read _, .relative => true
  | store _, .relative | store _, .immediate => true
  | adjust _, .relative | adjust _, .immediate => true
  | shift _, .relative | shift _, .immediate => true
  | branch _ _, .relative => false
  | branch _ _, _ => true
  | jump, .absolute | jump, .indirect => false
  | jump, _ => true
  | call, .absolute => false
  | call, _ => true
  | _, _ => false

end Operation

end Mos6502
