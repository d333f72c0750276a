/-
This file proves that all ways to disassemble agree. Memory never ends, so a window of three bytes
holds every entry whole: what begins at an address is an instruction exactly if the byte there is an
opcode. An entry found in that way is found again in any list of bytes that begins with its own, so
taking apart the bytes of some lines, one after the other, gives the same lines. This holds wherever
the lines go round the end of the address space, and whatever lies in memory.
-/

import Mathlib.Data.List.Chain
import Mathlib.Logic.Function.Iterate
import Mos6502.Console
import Mos6502.Journal
import Mos6502.Proofs.Partition

namespace Mos6502

/-- One place farther from an address is as far from the address after it. -/
theorem add_ofNat_succ (address : UInt16) (offset : Nat) :
    address + UInt16.ofNat (offset + 1) = address + 1 + UInt16.ofNat offset := by
  rw [Nat.add_comm, UInt16.ofNat_add, ← UInt16.add_assoc]
  rfl

namespace Memory

/-! ### Ranges of bytes -/

section

variable (memory : Memory) (address : UInt16)

@[simp] theorem length_readRange (count : Nat) :
    (memory.readRange address count).length = count := by
  rw [readRange, List.length_map, List.length_range]

theorem readRange_succ (count : Nat) : memory.readRange address (count + 1) =
    memory.read address :: memory.readRange (address + 1) count := by
  have first : address + UInt16.ofNat 0 = address := UInt16.add_zero address
  rw [readRange, List.range_succ_eq_map, List.map_cons, List.map_map, first, readRange]
  exact congrArg (memory.read address :: ·)
    (List.map_congr_left fun offset _ => congrArg memory.read (add_ofNat_succ address offset))

theorem readRange_three : memory.readRange address 3 =
    [memory.read address, memory.read (address + 1), memory.read (address + 2)] := by
  have third : address + 1 + 1 = address + 2 := UInt16.add_assoc address 1 1
  rw [readRange_succ, readRange_succ, readRange_succ, third]
  rfl

theorem take_readRange {few many : Nat} (le : few ≤ many) :
    (memory.readRange address many).take few = memory.readRange address few := by
  rw [readRange, ← List.map_take, List.take_range, Nat.min_eq_left le, readRange]

/-! ### One line -/

theorem entryAt_of_undocumented (unknown : Opcode.ofByte? (memory.read address) = none) :
    memory.entryAt address = Entry.ofByte address (memory.read address) :=
  Entry.ofBytes_of_undocumented address unknown

/-- Memory never ends, so the operand of an instruction is never cut off. -/
theorem entryAt_of_opcode {opcode : Opcode}
    (found : Opcode.ofByte? (memory.read address) = some opcode) :
    memory.entryAt address = ⟨address, memory.read address,
      .instruction opcode.mnemonic opcode.mode
        (memory.readRange (address + 1) opcode.mode.operandBytes) opcode.cycles⟩ := by
  have fits := opcode.mode.operandBytes_le_two
  rw [entryAt, Entry.ofBytes_of_whole address found (by rw [length_readRange]; exact fits),
    take_readRange _ _ fits]

/-- An entry is what a window of three bytes is decoded to, or else the first of them. -/
theorem entryAt_eq_decode? : memory.entryAt address =
    (Entry.decode? address (memory.readRange address 3)).getD
      (Entry.ofByte address (memory.read address)) := by
  rw [entryAt, Entry.ofBytes, ← readRange_succ]

theorem address_entryAt : (memory.entryAt address).address = address :=
  Entry.address_ofBytes _ _ _

theorem length_bytes_entryAt :
    (memory.entryAt address).bytes.length = (memory.entryAt address).size :=
  Entry.length_bytes_ofBytes _ _ _

theorem next_entryAt : (memory.entryAt address).next =
    address + UInt16.ofNat (memory.entryAt address).bytes.length := by
  rw [Entry.next_eq, address_entryAt, length_bytes_entryAt]

theorem bytes_entryAt_eq_cons : (memory.entryAt address).bytes = memory.read address ::
    memory.readRange (address + 1) (memory.entryAt address).mode.operandBytes := by
  have fits := (memory.entryAt address).mode.operandBytes_le_two
  rw [entryAt, Entry.bytes_ofBytes, ← entryAt, take_readRange _ _ fits]

/-- A line covers the bytes in memory from its address on. -/
theorem bytes_entryAt : (memory.entryAt address).bytes =
    memory.readRange address (memory.entryAt address).size := by
  rw [bytes_entryAt_eq_cons, Entry.size, Mode.size, readRange_succ]

/-- A line is found again in any bytes that begin with its own. -/
theorem ofBytes_entryAt (more : List UInt8) : Entry.ofBytes address (memory.read address)
    (memory.readRange (address + 1) (memory.entryAt address).mode.operandBytes ++ more) =
      memory.entryAt address := by
  cases found : Opcode.ofByte? (memory.read address) with
  | none => rw [memory.entryAt_of_undocumented _ found, Entry.ofBytes_of_undocumented address found]
  | some opcode =>
    have operand := memory.length_readRange (address + 1) opcode.mode.operandBytes
    rw [memory.entryAt_of_opcode _ found]
    show Entry.ofBytes _ _ (memory.readRange _ opcode.mode.operandBytes ++ more) = _
    rw [Entry.ofBytes_of_whole address found (by rw [List.length_append]; omega),
      List.take_left' operand]

/-- A line is found in any memory that holds its bytes. -/
theorem entryAt_of_kept {other : Memory}
    (kept : other.readRange address (memory.entryAt address).bytes.length =
      (memory.entryAt address).bytes) : other.entryAt address = memory.entryAt address := by
  have fits := (memory.entryAt address).mode.operandBytes_le_two
  rw [length_bytes_entryAt, bytes_entryAt_eq_cons, Entry.size, Mode.size, readRange_succ] at kept
  obtain ⟨first, operand⟩ := List.cons.inj kept
  rw [entryAt, ← List.take_append_drop (memory.entryAt address).mode.operandBytes
    (other.readRange (address + 1) 2), take_readRange _ _ fits, first, operand, ofBytes_entryAt]

/-- A line that is an instruction is what a window of three bytes is decoded to. -/
theorem decode?_of_instruction (instruction : (memory.entryAt address).isData = false) :
    Entry.decode? address (memory.readRange address 3) = some (memory.entryAt address) := by
  have window := memory.entryAt_eq_decode? address
  cases decoded : Entry.decode? address (memory.readRange address 3) with
  | none =>
    rw [window, decoded] at instruction
    cases instruction
  | some entry =>
    rw [window, decoded]
    rfl

/-! ### Many lines -/

/-- Where a line begins, counted from the one at an address. -/
def boundary (index : Nat) : UInt16 :=
  (fun start => (memory.entryAt start).next)^[index] address

theorem boundary_succ (index : Nat) : memory.boundary address (index + 1) =
    (memory.entryAt (memory.boundary address index)).next :=
  Function.iterate_succ_apply' _ _ _

theorem disassemble_eq_map (count : Nat) : memory.disassemble address count =
    (List.range count).map fun index => memory.entryAt (memory.boundary address index) := by
  induction count generalizing address with
  | zero => rfl
  | succ count inductionHypothesis =>
    rw [disassemble, inductionHypothesis, List.range_succ_eq_map, List.map_cons, List.map_map]
    rfl

@[simp] theorem length_disassemble (count : Nat) :
    (memory.disassemble address count).length = count := by
  rw [disassemble_eq_map, List.length_map, List.length_range]

theorem disassemble_flatMap_bytes (count : Nat) :
    Entry.disassemble address ((memory.disassemble address count).flatMap Entry.bytes) =
      memory.disassemble address count := by
  induction count generalizing address with
  | zero => rw [disassemble, List.flatMap_nil, Entry.disassemble]
  | succ count inductionHypothesis =>
    have operand := memory.length_readRange (address + 1)
      (memory.entryAt address).mode.operandBytes
    rw [disassemble, List.flatMap_cons, bytes_entryAt_eq_cons, List.cons_append,
      Entry.disassemble, ofBytes_entryAt, List.drop_left' operand, inductionHypothesis]

end

end Memory

namespace Machine

variable (machine : Machine) (address : UInt16)

/-- The text at an address is that of the instruction in the three bytes there, or else places the
first of them. -/
theorem textAt_eq : machine.textAt address =
    ((Entry.decode? address (machine.memory.readRange address 3)).map Entry.text).getD
      (".byte $" ++ Text.hexByte (machine.memory.read address)) := by
  rw [Memory.readRange_three]
  unfold textAt
  dsimp only
  split <;> rename_i decoded <;> rw [decoded] <;> rfl

/-- The text at an address is that of the line there. -/
theorem textAt_eq_text_entryAt :
    machine.textAt address = (machine.memory.entryAt address).text := by
  rw [textAt_eq, Memory.entryAt_eq_decode?]
  cases Entry.decode? address (machine.memory.readRange address 3) <;> rfl

end Machine

namespace Console

/-- The ways to disassemble agree. A console lists as many lines as it is asked for, beginning with
the given address and each going on where the one before ends; each line shows the bytes in memory
from its address on, and the text that stands there on its own, which is that of the three bytes
there. And the bytes of all lines, taken apart as a list, fall into the same lines. -/
theorem listings_agree (console : Console) (start : UInt16) (count : Nat) :
    let lines := console.disassemble start count
    lines.length = count ∧
    (∀ first ∈ lines.head?, first.address = start) ∧
    lines.IsChain (fun line next =>
      next.address = line.address + UInt16.ofNat line.bytes.length) ∧
    (∀ line ∈ lines,
      line.bytes = console.readMemory line.address line.bytes.length ∧
      1 ≤ line.bytes.length ∧ line.bytes.length ≤ 3 ∧
      line.text = console.machine.textAt line.address ∧
      line.text = ((Entry.decode? line.address (console.readMemory line.address 3)).map
        Entry.text).getD (".byte $" ++ Text.hexByte (console.machine.memory.read line.address))) ∧
    Entry.disassemble start (lines.flatMap Entry.bytes) = lines := by
  intro lines
  have mapped : lines = _ := console.machine.memory.disassemble_eq_map start count
  refine ⟨console.machine.memory.length_disassemble start count, ?_, ?_, ?_,
    console.machine.memory.disassemble_flatMap_bytes start count⟩
  · intro first member
    cases count with
    | zero => cases member
    | succ count =>
      cases member
      exact Memory.address_entryAt _ _
  · rw [mapped, List.isChain_iff_getElem]
    intro index inside
    rw [List.getElem_map, List.getElem_map, List.getElem_range, List.getElem_range,
      Memory.address_entryAt, Memory.boundary_succ, Memory.next_entryAt, Memory.address_entryAt]
  · intro line member
    rw [mapped] at member
    obtain ⟨index, _, rfl⟩ := List.mem_map.mp member
    generalize console.machine.memory.boundary start index = address
    have text := (console.machine.textAt_eq_text_entryAt address).symm
    rw [Memory.address_entryAt, Memory.length_bytes_entryAt]
    exact ⟨console.machine.memory.bytes_entryAt address, Mode.size_pos _, Mode.size_le_three _,
      text, text.trans (console.machine.textAt_eq address)⟩

/-- Two lines across the end of the address space: an instruction whose operand byte is at address
zero, and after it a byte that is no opcode. -/
theorem listings_agree_wrapped :
    let memory := ((Memory.empty.write 0xFFFF 0xA9).write 0 0x05).write 1 0x02
    let console : Console := ⟨{ memory }⟩
    let load : Entry := ⟨0xFFFF, 0xA9, .instruction .lda .immediate [0x05] 2⟩
    console.disassemble 0xFFFF 2 = [load, .ofByte 1 0x02] ∧
      load.text = console.machine.textAt 0xFFFF ∧
      Entry.disassemble 0xFFFF [0xA9, 0x05, 0x02] = [load, .ofByte 1 0x02] := by
  intro memory console load
  have first : memory.read 0xFFFF = 0xA9 := by simp [memory, Memory.read_write]
  have second : memory.readRange 0 1 = [0x05] := by
    simp [memory, Memory.readRange, Memory.read_write]
  have third : memory.read 1 = 0x02 := Memory.read_write_self _ _ _
  have lda : memory.entryAt 0xFFFF = load := by
    have found : Opcode.ofByte? (memory.read 0xFFFF) = some ⟨.lda, .immediate, 2⟩ :=
      congrArg Opcode.ofByte? first
    rw [memory.entryAt_of_opcode _ found, first]
    exact congrArg (fun operand => Entry.mk _ _ (.instruction _ _ operand _)) second
  have data : memory.entryAt 1 = .ofByte 1 0x02 := by
    rw [memory.entryAt_of_undocumented _ (congrArg Opcode.ofByte? third), third]
  have lines : console.disassemble 0xFFFF 2 = [load, .ofByte 1 0x02] := by
    show [memory.entryAt 0xFFFF, memory.entryAt (memory.entryAt 0xFFFF).next] = _
    have goesRound : load.next = 1 := by decide
    rw [lda, goesRound, data]
  obtain ⟨_, _, _, each, sameLines⟩ := console.listings_agree 0xFFFF 2
  rw [lines] at each sameLines
  exact ⟨lines, (each load List.mem_cons_self).2.2.2.1, sameLines⟩

end Console

end Mos6502
