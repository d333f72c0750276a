/-
This file gives the next program counter of every instruction, in numbers that are read off the
machine before it. Most instructions lead past their own bytes. A branch that is taken adds its
offset to that, jumps and calls read their target from the bytes after the opcode, returns from the
stack and interrupts from the last two addresses. Calls and interrupts store bytes on their way, but
the target is what it was before: an operand is found before anything is pushed, and the stack never
reaches the last page.
-/

import Mos6502.Proofs.Addressing
import Mos6502.Proofs.Course

namespace Mos6502

/-- The word at a number of places above the stack pointer. -/
theorem Memory.toNat_stackWord (memory : Memory) (sp above : UInt8) :
    (memory.stackWord (sp + above)).toNat = memory.wordInPage 1 (sp.toNat + above.toNat) := by
  have low : (sp + above).toNat = (sp.toNat + above.toNat) % 256 := UInt8.toNat_add sp above
  have high : (sp + above + 1).toNat = (sp.toNat + above.toNat + 1) % 256 := by
    rw [UInt8.toNat_add, low]
    exact Nat.mod_add_mod _ 256 1
  rw [stackWord, toNat_wordOf, toNat_read, toNat_read, toNat_stackAddress, toNat_stackAddress,
    low, high, wordInPage, Nat.add_comm]

namespace Machine

/-- Where the instruction at the program counter leads, calculated with numbers; the sum may lie
outside the address space, and goes round its end. -/
def successor (machine : Machine) (opcode : Opcode) : Int :=
  let here := machine.pc.toNat
  let memory := machine.memory
  match opcode.mnemonic.condition? with
  | some (flag, wanted) =>
    if machine.status.get flag = wanted then here + 2 + (memory.byteAt (here + 1) : Int).bmod 256
    else here + 2
  | none =>
    match opcode.mnemonic with
    | .jmp =>
      if opcode.mode = .indirect then memory.wordAt (memory.wordAt (here + 1))
      else memory.wordAt (here + 1)
    | .jsr => memory.wordAt (here + 1)
    | .rts => memory.wordInPage 1 (machine.sp.toNat + 1) + 1
    | .rti => memory.wordInPage 1 (machine.sp.toNat + 2)
    | .brk => memory.wordAt 0xFFFE
    | _ => here + opcode.mode.size

theorem toNat_add_stride (address : UInt16) (mode : Mode) :
    ((address + mode.stride).toNat : Int) = (address.toNat + mode.size) % 0x10000 := by
  rw [UInt16.toNat_add, mode.toNat_stride]
  rfl

section

variable {machine : Machine} {opcode : Opcode}
  (found : Opcode.ofByte? machine.nextOpcode = some opcode)

include found

/-- A branch leads to its target if it is taken, and else past its own two bytes. -/
theorem toNat_pc_of_branch {flag : Flag} {wanted : Bool}
    (branches : opcode.mnemonic.operation = .branch flag wanted) :
    ((machine.stepped opcode).pc.toNat : Int) = machine.successor opcode % 0x10000 := by
  obtain ⟨mode, operand⟩ := operand_of_branch found branches
  have next := toNat_add_stride machine.pc .relative
  have target := toNat_add_signExtend (machine.pc + Mode.relative.stride) machine.operandByte
  rw [machine.toNat_operandByte] at target
  rw [pc_stepped, destination?, branches, operand, mode, successor,
    Mnemonic.condition?_of_branch branches]
  dsimp only [Operation.destination?]
  by_cases taken : machine.status.get flag = wanted
  · rw [if_pos taken, if_pos taken, Option.getD_some, target, next, Int.emod_add_emod]
    rfl
  · rw [if_neg taken, if_neg taken, Option.getD_none, next]
    rfl

/-- What is no branch leads to a word in memory, or past its own bytes. -/
theorem toNat_pc_of_not_branch
    (other : ∀ flag wanted, opcode.mnemonic.operation ≠ .branch flag wanted) :
    ((machine.stepped opcode).pc.toNat : Int) = machine.successor opcode % 0x10000 := by
  have accepted := Opcode.accepts_of_ofByte? found
  have past := toNat_add_stride machine.pc opcode.mode
  rw [pc_stepped, destination?, successor, Mnemonic.condition?_of_not_branch other]
  obtain ⟨mnemonic, mode, cycles⟩ := opcode
  dsimp only at accepted past ⊢
  cases mnemonic with
  | bcc | bcs | beq | bne | bmi | bpl | bvc | bvs => exact absurd rfl (other _ _)
  | jmp =>
    cases mode with
    | absolute => exact toNat_eq_emod machine.toNat_operandWord
    | indirect =>
      refine toNat_eq_emod ?_
      show (machine.memory.readWord machine.operandWord).toNat = _
      rw [Memory.toNat_readWord, toNat_operandWord]
    | _ => cases accepted
  | jsr =>
    cases mode <;> cases accepted
    exact toNat_eq_emod machine.toNat_operandWord
  | rts =>
    cases mode <;> cases accepted
    show ((machine.memory.stackWord (machine.sp + 1) + 1).toNat : Int) = _
    rw [UInt16.toNat_add, Memory.toNat_stackWord]
    rfl
  | rti =>
    cases mode <;> cases accepted
    exact toNat_eq_emod (machine.memory.toNat_stackWord machine.sp 2)
  | brk =>
    cases mode <;> cases accepted
    exact toNat_eq_emod (machine.memory.toNat_readWord Memory.interruptVector)
  | _ => cases machine.operand mode <;> exact past

end

/-- The next program counter of every instruction: a step succeeds and leads to the calculated
address, going round the end of the address space where the sum is too large or negative. -/
theorem step_leads_to_successor {machine : Machine} {opcode : Opcode}
    (on : machine.initialized = true)
    (found : Opcode.ofByte? machine.nextOpcode = some opcode) :
    ∃ cost after, machine.step = .ok cost after ∧
      (after.pc.toNat : Int) = machine.successor opcode % 0x10000 := by
  refine ⟨_, _, step_of_opcode on found, ?_⟩
  cases kind : opcode.mnemonic.operation with
  | branch flag wanted => exact toNat_pc_of_branch found kind
  | _ => exact toNat_pc_of_not_branch found (kind ▸ nofun)

/-- A JSR that pushes its return address over its own operand bytes still goes where they said, and
a branch backward at the last address has its offset byte at the first. -/
theorem step_leads_to_successor_wrapped :
    let call : Machine :=
      { pc := 0x01FD, sp := 0xFF, initialized := true,
        memory := Memory.empty.writeRange 0x01FD [0x20, 0x34, 0x12] }
    let branch : Machine :=
      { pc := 0xFFFF, initialized := true,
        memory := Memory.empty.writeRange 0xFFFF [0xD0, 0x80] }
    (∃ cost after, call.step = .ok cost after ∧ after.pc = 0x1234) ∧
      ∃ cost after, branch.step = .ok cost after ∧ after.pc = 0xFF81 := by
  intro call branch
  have jsr : Opcode.ofByte? call.nextOpcode = some ⟨.jsr, .absolute, 6⟩ := by
    have first : call.nextOpcode = 0x20 := by
      simp [call, nextOpcode, Memory.writeRange, Memory.read_write]
    rw [first]
    rfl
  have bne : Opcode.ofByte? branch.nextOpcode = some ⟨.bne, .relative, 2⟩ := by
    have first : branch.nextOpcode = 0xD0 := by
      simp [branch, nextOpcode, Memory.writeRange, Memory.read_write]
    rw [first]
    rfl
  have target : call.memory.wordAt 0x01FE = 0x1234 := by
    simp [call, Memory.wordAt, Memory.byteAt, Memory.writeRange, Memory.read_write]
  have offset : branch.memory.byteAt (branch.pc.toNat + 1) = 0x80 := by
    simp [branch, Memory.byteAt, Memory.writeRange]
  have forward : call.successor ⟨.jsr, .absolute, 6⟩ = 0x1234 := congrArg Nat.cast target
  have backward : branch.successor ⟨.bne, .relative, 2⟩ = 0xFF81 := by
    have taken : branch.status.get .zero = false := by decide
    rw [successor]
    dsimp only [Mnemonic.condition?]
    rw [if_pos taken, offset]
    decide
  obtain ⟨callCost, called, calling, calledAt⟩ :=
    step_leads_to_successor (show call.initialized = true from rfl) jsr
  obtain ⟨branchCost, branched, branching, branchedAt⟩ :=
    step_leads_to_successor (show branch.initialized = true from rfl) bne
  refine ⟨⟨callCost, called, calling, ?_⟩, branchCost, branched, branching, ?_⟩
  · rw [forward] at calledAt
    exact UInt16.toNat_inj.mp (Int.ofNat_inj.mp calledAt)
  · rw [backward] at branchedAt
    exact UInt16.toNat_inj.mp (Int.ofNat_inj.mp branchedAt)

end Machine

end Mos6502
