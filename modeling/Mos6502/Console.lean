/-
This file holds the console, the machine as an interactive host sees it. Its stack pointer starts at
the top of the stack, budgets and cycle counts of a run are 32-bit words, and memory is read,
written and listed in ranges that go round the end of the address space.
-/

import Mos6502.Disassembly.Decode
import Mos6502.Processor

namespace Mos6502

/-- A machine under the hands of an interactive host. -/
structure Console where
  /-- The machine. -/
  machine : Machine
deriving Inhabited

namespace Console

/-- A console with an image in memory, an entry point unless that is zero, and an empty stack. -/
def boot (image : List UInt8) (loadAddress entryPoint : UInt16) : Except Fault Console := do
  let machine ← Machine.ofEntryPoint image loadAddress entryPoint
  return ⟨machine.setSP 0xFF⟩

/-- Runs a computation on the machine. -/
@[inline] def lift {α : Type} (action : Exec α) : EStateM Fault Console α := fun ⟨machine⟩ =>
  match action machine with
  | .ok value machine => .ok value ⟨machine⟩
  | .error fault machine => .error fault ⟨machine⟩

/-- Loads the program counter from the reset vector. -/
def reset (console : Console) : Console :=
  ⟨console.machine.reset⟩

/-- Executes one instruction and returns the cycles it took. -/
def step : EStateM Fault Console UInt8 :=
  lift Machine.step

/-- A count of cycles as a 32-bit word; a count that does not fit becomes the largest one. -/
def clip (cycles : UInt64) : UInt32 :=
  if cycles < 0x100000000 then cycles.toUInt32 else 0xFFFFFFFF

/-- Runs until a budget of cycles is spent, and returns the cycles that were taken. -/
def runForCycles (budget : UInt32) : EStateM Fault Console UInt32 :=
  clip <$> lift (Machine.runForCycles budget.toUInt64)

/-- Sets the program counter. -/
def setPC (console : Console) (address : UInt16) : Console :=
  ⟨console.machine.setPC address⟩

/-- The given number of bytes from an address on. -/
def readMemory (console : Console) (address : UInt16) (count : Nat) : List UInt8 :=
  console.machine.memory.readRange address count

/-- Stores bytes from an address on. -/
def writeMemory (console : Console) (address : UInt16) (bytes : List UInt8) : Console :=
  ⟨console.machine.mapMemory (·.writeRange address bytes)⟩

/-- The given number of disassembly entries from an address on. -/
def disassemble (console : Console) (address : UInt16) (count : Nat) : List Entry :=
  console.machine.memory.disassemble address count

end Console

end Mos6502
