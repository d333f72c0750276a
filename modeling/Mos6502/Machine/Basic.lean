/-
This file holds the machine: its registers, its memory and the bookkeeping of cycles. A machine is
built from an image and some settings; it can run only after its program counter is loaded from the
reset vector.
-/

import Mos6502.Config
import Mos6502.Memory
import Mos6502.Operation
import Mos6502.Status

namespace Mos6502

/-- The state of the machine. -/
structure Machine where
  /-- The accumulator. -/
  a : UInt8 := 0
  /-- The X index register. -/
  x : UInt8 := 0
  /-- The Y index register. -/
  y : UInt8 := 0
  /-- The stack pointer; the stack lies in the page after the zero page and grows downward. -/
  sp : UInt8 := 0
  /-- The program counter. -/
  pc : UInt16 := 0
  /-- The status register. -/
  status : Status := .initial
  /-- Whether the program counter was ever loaded from the reset vector. -/
  initialized : Bool := false
  /-- How cycles are counted. -/
  timing : Timing := .base
  /-- The opcode byte that was fetched last. -/
  currentOpcode : UInt8 := 0
  /-- The cycles of the instruction that was completed last. -/
  lastCycles : UInt8 := 0
  /-- The cycles of all instructions so far. -/
  cycles : UInt64 := 0
  /-- The cycles that the running instruction takes beyond those of its opcode. -/
  penalty : UInt8 := 0
  /-- Whether the operand found last lies in another page than the address it was indexed from. -/
  pageCrossed : Bool := false
  /-- The memory. -/
  memory : Memory
deriving Inhabited

namespace Machine

/-! ### Registers and memory -/

/-- The byte in a register. -/
@[inline] def register (machine : Machine) : Register → UInt8
  | .a => machine.a
  | .x => machine.x
  | .y => machine.y

/-- Puts a byte into a register. -/
@[inline] def setRegister (machine : Machine) (register : Register) (value : UInt8) : Machine :=
  match register with
  | .a => { machine with a := value }
  | .x => { machine with x := value }
  | .y => { machine with y := value }

/-- Changes the status register. -/
@[inline] def mapStatus (machine : Machine) (change : Status → Status) : Machine :=
  { machine with status := change machine.status }

/-- Changes the memory. -/
@[inline] def mapMemory (machine : Machine) (change : Memory → Memory) : Machine :=
  { machine with memory := change machine.memory }

/-- Puts a byte into a register and lets Zero and Negative describe it. -/
@[inline] def loadRegister (machine : Machine) (register : Register) (value : UInt8) : Machine :=
  (machine.setRegister register value).mapStatus (·.updateZeroNegative value)

/-- Takes one more cycle for the running instruction. -/
@[inline] def charge (machine : Machine) : Machine :=
  { machine with penalty := machine.penalty + 1 }

/-! ### Building a machine -/

/-- A machine with an image in its memory and all registers at their power-on values. -/
def ofImage (image : List UInt8) (loadAddress : UInt16) : Except Fault Machine := do
  let memory ← Memory.empty.load image loadAddress
  return { memory }

/-- A machine whose reset vector holds the entry point; zero keeps the vector of the image. -/
def ofEntryPoint (image : List UInt8) (loadAddress entryPoint : UInt16) :
    Except Fault Machine := do
  let machine ← ofImage image loadAddress
  if entryPoint = 0 then return machine
  else return machine.mapMemory (·.writeWord Memory.resetVector entryPoint)

/-- A machine built with every setting of a configuration. -/
def ofConfig (image : List UInt8) (config : Config) : Except Fault Machine := do
  let machine ← ofEntryPoint image config.loadAddress (config.effectiveEntryPoint.getD 0)
  return { machine with sp := config.stackPointer.getD machine.sp, timing := config.timing }

/-- Loads the program counter from the reset vector, which makes the machine ready to run. Nothing
else changes, so doing it again only starts the program over. -/
def reset (machine : Machine) : Machine :=
  { machine with pc := machine.memory.readWord Memory.resetVector, initialized := true }

/-! ### What a host may change between instructions -/

/-- Sets the program counter. -/
def setPC (machine : Machine) (address : UInt16) : Machine :=
  { machine with pc := address }

/-- Sets the stack pointer. -/
def setSP (machine : Machine) (value : UInt8) : Machine :=
  { machine with sp := value }

/-- Sets the status register from a byte; the reserved bit is set whatever the byte says. -/
def setStatus (machine : Machine) (bits : UInt8) : Machine :=
  { machine with status := .ofBits bits }

/-- Sets or clears a flag. -/
def setFlag (machine : Machine) (flag : Flag) (on : Bool) : Machine :=
  machine.mapStatus (·.set flag on)

/-- Sets how cycles are counted. -/
def setTiming (machine : Machine) (timing : Timing) : Machine :=
  { machine with timing }

/-- Stores a byte in memory. -/
def write (machine : Machine) (address : UInt16) (value : UInt8) : Machine :=
  machine.mapMemory (·.write address value)

/-- Stores a word in memory. -/
def writeWord (machine : Machine) (address value : UInt16) : Machine :=
  machine.mapMemory (·.writeWord address value)

/-- Stores an image in memory, unless it would run past the last address. -/
def load (machine : Machine) (image : List UInt8) (loadAddress : UInt16) :
    Except Fault Machine := do
  let memory ← machine.memory.load image loadAddress
  return { machine with memory }

end Machine

end Mos6502
