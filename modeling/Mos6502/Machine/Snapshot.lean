/-
This file copies the registers of a machine and writes them, as one line of fixed layout or as JSON.
-/

import Mos6502.Json.Value
import Mos6502.Machine.Basic

namespace Mos6502

open Text

/-- The registers and counters of a machine at one moment. -/
structure Snapshot where
  /-- The program counter. -/
  pc : UInt16
  /-- The accumulator. -/
  a : UInt8
  /-- The X index register. -/
  x : UInt8
  /-- The Y index register. -/
  y : UInt8
  /-- The stack pointer. -/
  sp : UInt8
  /-- The byte of the status register. -/
  status : UInt8
  /-- The opcode byte that was fetched last. -/
  currentOpcode : UInt8
  /-- The cycles of the instruction that was completed last. -/
  lastCycles : UInt8
  /-- The cycles of all instructions so far. -/
  cycles : UInt64
deriving DecidableEq

/-- The registers and counters of the machine. -/
def Machine.snapshot (machine : Machine) : Snapshot where
  pc := machine.pc
  a := machine.a
  x := machine.x
  y := machine.y
  sp := machine.sp
  status := machine.status.bits
  currentOpcode := machine.currentOpcode
  lastCycles := machine.lastCycles
  cycles := machine.cycles

namespace Snapshot

/-- The register line: every register in hexadecimal, the letters of the register that the status
byte stands for, and the cycles. -/
def line (snapshot : Snapshot) : String :=
  "PC:" ++ hexWord snapshot.pc ++ " A:" ++ hexByte snapshot.a ++ " X:" ++ hexByte snapshot.x ++
    " Y:" ++ hexByte snapshot.y ++ " S:" ++ hexByte snapshot.sp ++
    " P:" ++ hexByte snapshot.status ++ " [" ++ (Status.ofBits snapshot.status).text ++ "]" ++
    " CYC:" ++ snapshot.cycles.toNat.repr

/-- The registers and counters as JSON. -/
def toJson (snapshot : Snapshot) : Json.Value :=
  .ofMembers [
    ("pc", .natural snapshot.pc.toNat),
    ("a", .natural snapshot.a.toNat),
    ("x", .natural snapshot.x.toNat),
    ("y", .natural snapshot.y.toNat),
    ("sp", .natural snapshot.sp.toNat),
    ("status", .natural snapshot.status.toNat),
    ("current_opcode", .natural snapshot.currentOpcode.toNat),
    ("last_cycles", .natural snapshot.lastCycles.toNat),
    ("cycles", .natural snapshot.cycles.toNat)]

end Snapshot

end Mos6502
