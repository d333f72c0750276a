/-
This file executes one instruction: the opcode at the program counter is fetched and looked up, the
instruction is executed, and its cycles are counted. A machine that was never reset is refused
unchanged; a byte that is no opcode is refused with only the fetched byte noted, so that the program
counter stays on it.
-/

import Mos6502.Machine.Execute
import Mos6502.Opcode

namespace Mos6502.Machine

/-- The byte at the program counter. -/
@[inline] def nextOpcode (machine : Machine) : UInt8 :=
  machine.memory.read machine.pc

/-- Whether the machine would execute an instruction if it were stepped. -/
def ready (machine : Machine) : Bool :=
  machine.initialized && (Opcode.ofByte? machine.nextOpcode).isSome

/-- Notes the opcode byte at the program counter. -/
@[inline] def fetch (machine : Machine) : Machine :=
  { machine with currentOpcode := machine.nextOpcode }

/-- Forgets the penalties of the instruction before. -/
@[inline] def clearPenalties (machine : Machine) : Machine :=
  { machine with penalty := 0, pageCrossed := false }

/-- Counts the cycles of a completed instruction. -/
@[inline] def count (machine : Machine) (cost : UInt8) : Machine :=
  { machine with lastCycles := cost, cycles := machine.cycles + cost.toUInt64 }

/-- Executes the instruction at the program counter and returns the cycles it took. -/
def step : Exec UInt8 := fun machine =>
  if machine.initialized then
    let machine := machine.fetch
    match Opcode.ofByte? machine.currentOpcode with
    | none => .error (.unimplementedOpcode machine.currentOpcode machine.pc) machine
    | some opcode =>
      match execute opcode.mnemonic opcode.mode machine.clearPenalties with
      | .ok _ machine =>
        let cost := opcode.cycles + machine.penalty
        .ok cost (machine.count cost)
      | .error fault machine => .error fault machine
  else .error .notInitialized machine

end Mos6502.Machine
