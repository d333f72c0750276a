/-
This file says where every instruction goes. An instruction goes on to the next one, past its own
bytes, unless its operation has a destination: that of a branch that is taken, a jump or a call is
its operand, that of a return lies on the stack, and that of an interrupt in the interrupt vector.
A destination can be read off the machine before the instruction, since what is pushed on the way
never reaches the vector. The next instruction is never at the same address, wherever the bytes go
round the end of the address space.
-/

import Mos6502.Proofs.Frame

namespace Mos6502

/-- The word whose low byte is at a place on the stack and whose high byte is above it. -/
def Memory.stackWord (memory : Memory) (sp : UInt8) : UInt16 :=
  wordOf (memory.read (stackAddress sp)) (memory.read (stackAddress (sp + 1)))

/-! ### Destinations -/

/-- Where an action goes, if not to the next instruction. -/
def Action.destination? (action : Action) (machine : Machine) : Option UInt16 :=
  match action with
  | .interrupt => some (machine.memory.readWord Memory.interruptVector)
  | .returnFromSubroutine => some (machine.memory.stackWord (machine.sp + 1) + 1)
  | .returnFromInterrupt => some (machine.memory.stackWord (machine.sp + 2))
  | _ => none

/-- Where an operation goes, if not to the next instruction. -/
def Operation.destination? (operation : Operation) (operand : Operand) (machine : Machine) :
    Option UInt16 :=
  match operation, operand with
  | .branch flag wanted, .address target =>
    if machine.status.get flag = wanted then some target else none
  | .jump, .address target => some target
  | .call, .address target => some target
  | .implied action, .none => action.destination? machine
  | _, _ => none

/-- What has a destination is a branch that is taken or a jump, both to their operand, or it is a
call, a return or an interrupt. -/
theorem Operation.of_destination? {operation : Operation} {operand : Operand} {machine : Machine}
    {target : UInt16} (goes : operation.destination? operand machine = some target) :
    (∃ flag wanted, operation = .branch flag wanted ∧ machine.status.get flag = wanted ∧
      operand = .address target) ∨
    (operation = .jump ∧ operand = .address target) ∨
    operation ∈ [.call, .implied .returnFromSubroutine, .implied .returnFromInterrupt,
      .implied .interrupt] := by
  cases operation with
  | branch flag wanted =>
    cases operand with
    | address there =>
      by_cases taken : machine.status.get flag = wanted
      · rw [destination?, if_pos taken] at goes
        cases goes
        exact Or.inl ⟨flag, wanted, rfl, taken, rfl⟩
      · rw [destination?, if_neg taken] at goes
        cases goes
    | _ => cases goes
  | jump =>
    cases operand <;> cases goes
    exact Or.inr (Or.inl ⟨rfl, rfl⟩)
  | call => exact Or.inr (Or.inr List.mem_cons_self)
  | implied action =>
    cases operand <;> cases action <;> cases goes <;> exact Or.inr (Or.inr (by decide))
  | _ => cases operand <;> cases goes

section

variable (machine : Machine)

/-- An interrupt goes where the interrupt vector says: the pushes stay on the stack. -/
theorem Machine.pc_interrupt :
    machine.interrupt.pc = machine.memory.readWord Memory.interruptVector := by
  have offStack (sp : UInt8) (address : UInt16) (above : 0x200 ≤ address.toNat) :
      address ≠ stackAddress sp := by
    intro same
    have bound := sp.toNat_lt
    rw [same, toNat_stackAddress] at above
    omega
  show (((machine.memory.write (stackAddress _) _).write (stackAddress _) _).write
    (stackAddress _) _).readWord Memory.interruptVector = _
  have low := fun sp => offStack sp Memory.interruptVector (by decide)
  have high := fun sp => offStack sp (Memory.interruptVector + 1) (by decide)
  rw [Memory.readWord, Memory.read_write_other _ _ (low _), Memory.read_write_other _ _ (low _),
    Memory.read_write_other _ _ (low _), Memory.read_write_other _ _ (high _),
    Memory.read_write_other _ _ (high _), Memory.read_write_other _ _ (high _), Memory.readWord]

theorem Machine.pc_loadRegister (register : Register) (value : UInt8) :
    (machine.loadRegister register value).pc = machine.pc := by
  cases register <;> rfl

theorem Machine.pc_act (action : Action) :
    (machine.act action).pc = (action.destination? machine).getD machine.pc := by
  cases action with
  | transfer source target => exact machine.pc_loadRegister _ _
  | adjust register delta => exact machine.pc_loadRegister _ _
  | interrupt => exact machine.pc_interrupt
  | returnFromInterrupt =>
    show machine.memory.stackWord (machine.sp + 1 + 1) = machine.memory.stackWord (machine.sp + 2)
    exact congrArg machine.memory.stackWord (UInt8.add_assoc machine.sp 1 1)
  | _ => rfl

theorem Reading.pc_effect (reading : Reading) (value : UInt8) :
    (reading.effect value machine).pc = machine.pc := by
  cases reading with
  | load register => exact machine.pc_loadRegister _ _
  | _ => rfl

/-- An operation goes to its destination; without one it leaves the program counter alone. -/
theorem Operation.pc_effect (operation : Operation) (operand : Operand) :
    (operation.effect operand machine).pc =
      (operation.destination? operand machine).getD machine.pc := by
  cases operation with
  | read reading =>
    cases operand with
    | address address =>
      obtain ⟨_, same⟩ := machine.exists_chargeCrossing_eq
      rw [effect, reading.pc_effect, same]
      rfl
    | _ => rfl
  | branch flag wanted =>
    cases operand with
    | address target =>
      rw [effect, Machine.branchIf, destination?]
      split <;> rfl
    | _ => rfl
  | implied action =>
    cases operand with
    | none => exact machine.pc_act action
    | _ => rfl
  | _ => cases operand <;> rfl

end

/-! ### Instructions -/

namespace Machine

/-- Where the instruction at the program counter goes, if not to the next one. -/
def destination? (machine : Machine) (opcode : Opcode) : Option UInt16 :=
  opcode.mnemonic.operation.destination? (machine.operand opcode.mode) machine

/-- Every instruction goes to its destination, or past its own bytes. -/
theorem pc_stepped (machine : Machine) (opcode : Opcode) : (machine.stepped opcode).pc =
    (machine.destination? opcode).getD (machine.pc + opcode.mode.stride) :=
  Operation.pc_effect _ _ _

/-- The instruction at the program counter is a branch that is taken. -/
def Branches (machine : Machine) (opcode : Opcode) : Prop :=
  ∃ flag wanted, opcode.mnemonic.operation = .branch flag wanted ∧
    machine.status.get flag = wanted

/-- What has a destination is a branch that is taken or a JMP, both to their operand, or it is a
call, a return or an interrupt. -/
theorem of_destination? {machine : Machine} {opcode : Opcode} {target : UInt16}
    (goes : machine.destination? opcode = some target) :
    (machine.Branches opcode ∧ machine.operand opcode.mode = .address target) ∨
    (opcode.mnemonic = .jmp ∧ machine.operand opcode.mode = .address target) ∨
    opcode.mnemonic ∈ [.jsr, .rts, .rti, .brk] := by
  have jumps : ∀ mnemonic ∈ Mnemonic.all, mnemonic.operation = .jump → mnemonic = .jmp := by
    decide
  have pushesOrPulls : ∀ mnemonic ∈ Mnemonic.all,
      mnemonic.operation ∈ [.call, .implied .returnFromSubroutine, .implied .returnFromInterrupt,
        .implied .interrupt] → mnemonic ∈ [.jsr, .rts, .rti, .brk] := by
    decide
  rcases Operation.of_destination? goes with ⟨flag, wanted, branch, taken, toOperand⟩ |
    ⟨jump, toOperand⟩ | other
  · exact Or.inl ⟨⟨flag, wanted, branch, taken⟩, toOperand⟩
  · exact Or.inr (Or.inl ⟨jumps _ opcode.mnemonic.mem_all jump, toOperand⟩)
  · exact Or.inr (Or.inr (pushesOrPulls _ opcode.mnemonic.mem_all other))

end Machine

/-! ### Addresses that differ -/

theorem Mode.add_stride_ne (mode : Mode) (address : UInt16) : address + mode.stride ≠ address := by
  rw [Ne, UInt16.add_eq_left]
  cases mode <;> decide

/-- A branch goes to itself if its operand byte takes back the two bytes of the branch. -/
theorem branchTarget_eq_self_iff (address : UInt16) (offset : UInt8) :
    address + Mode.relative.stride + signExtend offset = address ↔ offset = 0xFE := by
  have each : ∀ offset : UInt8, Mode.relative.stride + signExtend offset = 0 ↔ offset = 0xFE :=
    forall_byte (by decide +kernel)
  rw [UInt16.add_assoc, UInt16.add_eq_left]
  exact each offset

end Mos6502
