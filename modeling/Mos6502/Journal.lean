/-
This file holds what is written down about a run. A level says how much: nothing, the beginning and
the end of runs, or every instruction as well. A record is written as its level and a message; for
an instruction the message is its assembly text and the register line of the moment before it.
-/

import Mos6502.Disassembly.Decode
import Mos6502.Machine.Snapshot
import Mos6502.Processor

namespace Mos6502

open Text

/-- How much is written down. -/
inductive Level where
  /-- Nothing. -/
  | off
  /-- Where programs start and why runs stop. -/
  | debug
  /-- Every instruction, too. -/
  | trace
deriving DecidableEq

/-- Something that is written down. -/
inductive Record where
  /-- The program counter was loaded from the reset vector. -/
  | reset (pc : UInt16)
  /-- An instruction is about to be executed. -/
  | executing (text : String) (snapshot : Snapshot)
  /-- A run stopped after some cycles. -/
  | stopped (cycles : UInt64) (stop : Stop)
deriving DecidableEq

namespace Record

/-- The record as a line. -/
def line : Record → String
  | reset pc => "DEBUG reset vector loaded, PC = 0x" ++ hexWord pc
  | executing text snapshot => "TRACE " ++ padRight 14 text ++ " " ++ snapshot.line
  | stopped cycles stop =>
    "DEBUG run stopped after " ++ cycles.toNat.repr ++ " cycles: " ++ stop.describe

end Record

/-- The assembly text of the instruction in the three bytes at an address, or else the first of them
as a byte to be placed. -/
def Machine.textAt (machine : Machine) (address : UInt16) : String :=
  let first := machine.memory.read address
  let second := machine.memory.read (address + 1)
  let third := machine.memory.read (address + 2)
  match Entry.decode? address [first, second, third] with
  | some entry => entry.text
  | none => ".byte $" ++ hexByte first

/-- What is written down before the machine executes its next instruction. -/
def Machine.announcement (machine : Machine) : Record :=
  .executing (machine.textAt machine.pc) machine.snapshot

end Mos6502
