/-
This file takes bytes apart into entries. One instruction is decoded from the front of a list of
bytes; a byte that is no opcode, or whose operand is cut off, becomes an entry of its own. Bytes in
memory are taken apart in the same way, except that they never end.
-/

import Mos6502.Disassembly.Entry
import Mos6502.Memory
import Mos6502.Opcode

namespace Mos6502

namespace Entry

/-! ### One entry -/

/-- The instruction at the front of the bytes, if they begin with one. -/
def decode? (address : UInt16) : List UInt8 → Option Entry
  | [] => none
  | byte :: rest => do
    let opcode ← Opcode.ofByte? byte
    let operand := rest.take opcode.mode.operandBytes
    if operand.length = opcode.mode.operandBytes then
      some ⟨address, byte, .instruction opcode.mnemonic opcode.mode operand opcode.cycles⟩
    else none

/-- The entry at the front of the bytes: an instruction if they begin with one, else the first
byte. -/
def ofBytes (address : UInt16) (byte : UInt8) (rest : List UInt8) : Entry :=
  (decode? address (byte :: rest)).getD (ofByte address byte)

/-! ### Many entries -/

/-- The entries that bytes starting at an address fall into. -/
def disassemble (address : UInt16) : List UInt8 → List Entry
  | [] => []
  | byte :: rest =>
    let entry := ofBytes address byte rest
    entry :: disassemble entry.next (rest.drop entry.mode.operandBytes)
termination_by bytes => bytes.length
decreasing_by
  simp only [List.length_drop, List.length_cons]
  omega

end Entry

namespace Memory

/-- The entry at an address. -/
def entryAt (memory : Memory) (address : UInt16) : Entry :=
  Entry.ofBytes address (memory.read address) (memory.readRange (address + 1) 2)

/-- The given number of entries from an address on. -/
def disassemble (memory : Memory) (address : UInt16) : Nat → List Entry
  | 0 => []
  | count + 1 =>
    let entry := memory.entryAt address
    entry :: memory.disassemble entry.next count

end Memory

end Mos6502
