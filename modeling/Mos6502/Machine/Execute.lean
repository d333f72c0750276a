/-
This file says what each operation does to the machine. The program counter has already passed over
the instruction when an operation takes effect, so branches and jumps only have to set it, and the
return addresses follow from it. An operation has no effect on an operand that does not suit it, and
then the instruction is refused. Flags that are bits of a byte are set from numbers, which is
refused for a number that is no bit.
-/

import Mos6502.Machine.Operand
import Mos6502.Machine.Stack

namespace Mos6502

/-- A computation on the machine that may be refused; a refusal leaves a machine behind, too. -/
abbrev Exec :=
  EStateM Fault Machine

namespace Machine

/-! ### Arithmetic and logic -/

/-- Adds a byte and the carry to the accumulator. Carry tells whether the sum of unsigned bytes is
too large for a byte, Overflow whether the sum of signed bytes is: then both summands differ from
the result in bit 7. -/
def addWithCarry (machine : Machine) (value : UInt8) : Machine :=
  let sum := machine.a.toUInt16 + value.toUInt16 + machine.status.carryBit.toUInt16
  let result := sum.toUInt8
  let overflow := ~~~(machine.a ^^^ value) &&& (machine.a ^^^ result) &&& 0x80 != 0
  let machine := machine.mapStatus fun status =>
    (status.set .carry (0xFF < sum)).set .overflow overflow
  machine.loadRegister .a result

/-- Compares a register with a byte: the flags are those of the difference, which goes nowhere. -/
def compare (machine : Machine) (register : Register) (value : UInt8) : Machine :=
  let held := machine.register register
  machine.mapStatus fun status =>
    (status.set .carry (value ≤ held)).updateZeroNegative (held - value)

/-- Sets a flag from a number that has to be 0 or 1. -/
@[inline] def setBit (flag : Flag) (value : UInt8) : Exec Unit := fun machine =>
  match machine.status.setBit flag value with
  | .ok status => .ok () { machine with status }
  | .error fault => .error fault machine

/-- Tests the bits of a byte: Zero tells whether it has none in common with the accumulator, and
Negative and Overflow are its bits 7 and 6. -/
def testBits (value : UInt8) : Exec Unit := do
  modify fun machine => machine.mapStatus (·.set .zero (machine.a &&& value == 0))
  setBit .negative (value >>> 7)
  setBit .overflow ((value >>> 6) &&& 1)

/-- Works on a byte that was read. Subtracting is adding the complement, since the carry then
stands for "no borrow". -/
def takeIn (reading : Reading) (value : UInt8) : Exec Unit :=
  match reading with
  | .load register => modify (·.loadRegister register value)
  | .add => modify (·.addWithCarry value)
  | .subtract => modify (·.addWithCarry (~~~value))
  | .and => modify fun machine => machine.loadRegister .a (machine.a &&& value)
  | .or => modify fun machine => machine.loadRegister .a (machine.a ||| value)
  | .xor => modify fun machine => machine.loadRegister .a (machine.a ^^^ value)
  | .compare register => modify (·.compare register value)
  | .test => testBits value

/-- Takes one more cycle if timing is strict and the operand was found in another page. -/
def chargeCrossing (machine : Machine) : Machine :=
  if machine.timing = .strict ∧ machine.pageCrossed then machine.charge else machine

/-- Reads the byte at an address and works on it. -/
def readFrom (reading : Reading) (address : UInt16) : Exec Unit := do
  modify (·.chargeCrossing)
  takeIn reading ((← get).memory.read address)

/-! ### Bytes changed in place -/

/-- Stores a result in memory and lets Zero and Negative describe it. -/
def storeResult (machine : Machine) (address : UInt16) (result : UInt8) : Machine :=
  (machine.mapMemory (·.write address result)).mapStatus (·.updateZeroNegative result)

/-- Adds a number to the byte at an address. -/
def adjustAt (machine : Machine) (delta : UInt8) (address : UInt16) : Machine :=
  machine.storeResult address (machine.memory.read address + delta)

/-- Moves the byte at an address by one bit. -/
def shiftAt (shift : Shift) (address : UInt16) : Exec Unit := do
  let machine ← get
  let value := machine.memory.read address
  let result := shift.result value machine.status.carryBit
  setBit .carry (shift.carryOut value)
  modify (·.storeResult address result)

/-- Moves the accumulator by one bit. -/
def shiftAccumulator (shift : Shift) : Exec Unit := do
  let machine ← get
  let value := machine.a
  let result := shift.result value machine.status.carryBit
  setBit .carry (shift.carryOut value)
  modify (·.loadRegister .a result)

/-! ### Changes of course -/

/-- Goes to an address. -/
@[inline] def goTo (machine : Machine) (target : UInt16) : Machine :=
  { machine with pc := target }

/-- Goes to the target if a flag has the wanted value, which takes one more cycle, and in strict
timing another one if the target lies in another page than the next instruction. -/
def branchIf (machine : Machine) (flag : Flag) (wanted : Bool) (target : UInt16) : Machine :=
  if machine.status.get flag = wanted then
    let far := machine.timing = .strict ∧ crossesPage machine.pc target
    let machine := machine.charge
    (if far then machine.charge else machine).goTo target
  else machine

/-- Goes to a subroutine. What is pushed is the address of the last byte of the call, one less than
that of the next instruction. -/
def callTo (machine : Machine) (target : UInt16) : Machine :=
  (machine.pushWord (machine.pc - 1)).goTo target

/-- Goes to the interrupt handler. The byte after the opcode is skipped on return. -/
def interrupt (machine : Machine) : Machine :=
  let machine := machine.pushWord (machine.pc + 1)
  let machine := machine.push machine.status.pushed
  let machine := machine.mapStatus (·.set .interruptDisable true)
  machine.goTo (machine.memory.readWord Memory.interruptVector)

/-- Pulls the status register. -/
def pullStatus (machine : Machine) : Machine :=
  let (bits, machine) := machine.pull
  machine.mapStatus fun _ => .ofPulled bits

/-- Goes to the address after the one on the stack. -/
def returnFromSubroutine (machine : Machine) : Machine :=
  let (address, machine) := machine.pullWord
  machine.goTo (address + 1)

/-- Pulls the status register and goes to the address on the stack. -/
def returnFromInterrupt (machine : Machine) : Machine :=
  let (address, machine) := machine.pullStatus.pullWord
  machine.goTo address

/-- Does what an instruction without operand does. -/
def act (machine : Machine) : Action → Machine
  | .transfer source target => machine.loadRegister target (machine.register source)
  | .readStackPointer => machine.loadRegister .x machine.sp
  | .writeStackPointer => { machine with sp := machine.x }
  | .adjust register delta => machine.loadRegister register (machine.register register + delta)
  | .assign flag on => machine.mapStatus (·.set flag on)
  | .pushAccumulator => machine.push machine.a
  | .pushStatus => machine.push machine.status.pushed
  | .pullAccumulator =>
    let (value, machine) := machine.pull
    machine.loadRegister .a value
  | .pullStatus => machine.pullStatus
  | .interrupt => machine.interrupt
  | .returnFromSubroutine => machine.returnFromSubroutine
  | .returnFromInterrupt => machine.returnFromInterrupt
  | .idle => machine

end Machine

/-! ### Instructions -/

/-- What an operation does, given an operand that suits it. -/
@[inline] def Operation.perform? : Operation → Operand → Option (Exec Unit)
  | .read reading, .address address => some (Machine.readFrom reading address)
  | .store register, .address address =>
    some (modify fun machine => machine.mapMemory (·.write address (machine.register register)))
  | .adjust delta, .address address => some (modify (·.adjustAt delta address))
  | .shift move, .address address => some (Machine.shiftAt move address)
  | .shift move, .accumulator => some (Machine.shiftAccumulator move)
  | .branch flag wanted, .address target => some (modify (·.branchIf flag wanted target))
  | .jump, .address target => some (modify (·.goTo target))
  | .call, .address target => some (modify (·.callTo target))
  | .implied action, .none => some (modify (·.act action))
  | _, _ => none

/-- Executes an instruction with an operand of the given mode at the program counter. A mode that
is refused from its name leaves the machine as it is; where only the operand turns out not to suit,
the program counter has already passed over the instruction. -/
def Machine.execute (mnemonic : Mnemonic) (mode : Mode) : Exec Unit := fun machine =>
  if mnemonic.operation.refuses mode then .error (.invalidMode mnemonic mode) machine
  else
    let operand := machine.operand mode
    let machine := machine.advance mode
    match mnemonic.operation.perform? operand with
    | some perform => perform machine
    | none => .error (.invalidMode mnemonic mode) machine

end Mos6502
