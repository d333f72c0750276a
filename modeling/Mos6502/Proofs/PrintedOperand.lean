/-
This file proves that the printed text of an instruction tells the truth about what it does. The
text is made from the operand bytes alone, with sums of its own; the step finds its operand with the
index registers and with pointers in memory. The number in the text is where a branch goes if it is
taken, and where a jump or a call goes; it is the address of the data, or what an index is still to
be added to, or what is still to be looked up. It is so wherever operand bytes lie beyond the end of
the address space, and whatever the step pushes over them.
-/

import Mos6502.Proofs.AssemblyText
import Mos6502.Proofs.MemoryListing
import Mos6502.Proofs.ReadFrame

namespace Mos6502

open Text

/-! ### Numbers in texts -/

/-- The number that the text of an entry shows, if there is one. -/
def Entry.shown? (entry : Entry) : Option Nat :=
  (Fields.ofChars entry.text.toList).number?

theorem Entry.shown?_eq {entry : Entry} (proper : entry.Proper) :
    entry.shown? = entry.fields.number? := by
  rw [shown?, toList_text proper, Fields.ofChars_toChars (separable_fields proper)]

namespace Machine

/-- The number to be shown for the instruction at the program counter in each mode: the operand
bytes, or the target of a branch. -/
def operandNumber? (machine : Machine) : Mode → Option Nat
  | .implied | .accumulator => none
  | .relative =>
    some (machine.pc + Mode.relative.stride + signExtend machine.operandByte).toNat
  | .absolute | .absoluteX | .absoluteY | .indirect => some machine.operandWord.toNat
  | _ => some machine.operandByte.toNat

section

variable (machine : Machine)

theorem readRange_operand_one :
    machine.memory.readRange (machine.pc + 1) 1 = [machine.operandByte] := by
  rw [Memory.readRange_succ]
  rfl

theorem readRange_operand_two : machine.memory.readRange (machine.pc + 1) 2 =
    [machine.operandByte, machine.memory.read (machine.operandAddress + 1)] := by
  rw [Memory.readRange_succ, Memory.readRange_succ]
  rfl

theorem operandNumber?_eq_none_iff (mode : Mode) :
    machine.operandNumber? mode = none ↔ mode ∈ [.implied, .accumulator] := by
  cases mode <;> simp [operandNumber?]

variable {machine} {opcode : Opcode}
  (found : Opcode.ofByte? machine.nextOpcode = some opcode)

include found

/-- The text at the program counter shows the number of the operand. -/
theorem shown?_entryAt :
    (machine.memory.entryAt machine.pc).shown? = machine.operandNumber? opcode.mode := by
  have byte := machine.readRange_operand_one
  have word := machine.readRange_operand_two
  have proper : (machine.memory.entryAt machine.pc).Proper := Entry.proper_ofBytes _ _ _
  rw [Entry.shown?_eq proper, machine.memory.entryAt_of_opcode _ found]
  unfold Entry.fields Fields.number? operandNumber?
  dsimp only
  cases opcode.mode with
  | implied | accumulator => rfl
  | absolute | absoluteX | absoluteY | indirect =>
    rw [Mode.operandBytes, word]
    exact (if_neg (wordDigits_ne_nil _)).trans (congrArg some (hexNumber_wordDigits _))
  | relative =>
    rw [Mode.operandBytes, byte]
    exact (if_neg (wordDigits_ne_nil _)).trans (congrArg some (hexNumber_wordDigits _))
  | _ =>
    rw [Mode.operandBytes, byte]
    exact (if_neg (byteDigits_ne_nil _)).trans (congrArg some (hexNumber_byteDigits _))

end

/-! ### Data -/

/-- The data of a completed instruction is the byte at an address. -/
structure WorksAt (machine : Machine) (opcode : Opcode) (after : Machine) (address : Nat) :
    Prop where
  /-- The address lies in the address space. -/
  inside : address < 0x10000
  /-- What is read or written as data is there, and nowhere else. -/
  places : ∀ place, place ∈ machine.dataPlaces opcode ++ machine.written opcode ↔
    place.toNat = address
  /-- All other bytes are kept. -/
  kept : ∀ place, place.toNat ≠ address → after.memory.read place = machine.memory.read place
  /-- The operation has worked on the byte there. -/
  worked : after = (opcode.mnemonic.operation.effect (.address (.ofNat address))
    (machine.fetch.clearPenalties.advance opcode.mode)).count (machine.cost opcode)

section

variable {machine : Machine} {opcode : Opcode} {target : UInt16}
  (found : Opcode.ofByte? machine.nextOpcode = some opcode)
  (toTarget : machine.operand opcode.mode = .address target)
  (notRelative : opcode.mode ≠ .relative) (stays : opcode.mnemonic ∉ [.jmp, .jsr])

include found toTarget notRelative stays

/-- What has an operand in memory and does not go there reads or writes it. -/
theorem mem_places_iff (place : UInt16) :
    place ∈ machine.dataPlaces opcode ++ machine.written opcode ↔ place = target := by
  have goes : ∀ mnemonic ∈ Mnemonic.all, mnemonic.operation ∈ [.jump, .call] →
      mnemonic ∈ [.jmp, .jsr] := by
    decide
  have keepsCourse := mt (goes _ opcode.mnemonic.mem_all) stays
  rw [← reads_eq_dataPlaces found, ← map_address_writes found, writes, toTarget]
  cases kind : opcode.mnemonic.operation with
  | read | store | adjust | shift => simp [Operation.reads, Operation.writes]
  | branch => exact absurd (operand_of_branch found kind).1 notRelative
  | jump | call => exact absurd (by rw [kind]; decide) keepsCourse
  | implied =>
    rw [(executed_of_action found kind).1] at toTarget
    cases toTarget

/-- What has an operand in memory and does not go there works on the byte there. -/
theorem worksAt_operand {address : Nat} (same : target.toNat = address) :
    machine.WorksAt opcode (machine.stepped opcode) address := by
  have places := mem_places_iff found toTarget notRelative stays
  have back : UInt16.ofNat address = target := same ▸ UInt16.ofNat_toNat
  refine ⟨same ▸ target.toNat_lt, fun place => ?_, fun place elsewhere => ?_, ?_⟩
  · rw [places, ← same, UInt16.toNat_inj]
  · rw [memory_stepped]
    refine Memory.read_writeEach_other _ fun written => elsewhere ?_
    rw [map_address_writes found] at written
    rw [(places place).mp (List.mem_append_right _ written), same]
  · rw [back, ← toTarget]
    rfl

end

/-! ### Numbers that tell the truth -/

/-- A number tells where a completed instruction went or what its data was. -/
def Tells (machine : Machine) (opcode : Opcode) (after : Machine) (number : Nat) : Prop :=
  let here := machine.pc.toNat
  let x := machine.x.toNat
  let y := machine.y.toNat
  let memory := machine.memory
  let worksAt := machine.WorksAt opcode after
  match opcode.mode with
  | .implied | .accumulator => False
  | .relative =>
    opcode.mnemonic.isBranch = true ∧ (machine.Branches opcode → after.pc.toNat = number)
  | .indirect => opcode.mnemonic = .jmp ∧ after.pc.toNat = memory.wordAt number
  | .absolute =>
    if opcode.mnemonic ∈ [.jmp, .jsr] then after.pc.toNat = number else worksAt number
  | .immediate => memory.byteAt (here + 1) = number ∧ worksAt ((here + 1) % 0x10000)
  | .zeroPage => worksAt number
  | .zeroPageX => worksAt ((number + x) % 0x100)
  | .zeroPageY => worksAt ((number + y) % 0x100)
  | .absoluteX => worksAt ((number + x) % 0x10000)
  | .absoluteY => worksAt ((number + y) % 0x10000)
  | .indirectX =>
    memory.byteAt (here + 1) = number ∧ worksAt (memory.wordInPage 0 ((number + x) % 0x100))
  | .indirectY =>
    memory.byteAt (here + 1) = number ∧ worksAt ((memory.wordInPage 0 number + y) % 0x10000)

section

variable {machine : Machine} {opcode : Opcode} {number : Nat}
  (found : Opcode.ofByte? machine.nextOpcode = some opcode)
  (shown : machine.operandNumber? opcode.mode = some number)

include found shown

/-- The number of a branch tells where it goes if it is taken. -/
theorem tells_of_relative (relative : opcode.mode = .relative) :
    machine.Tells opcode (machine.stepped opcode) number := by
  have branches := Opcode.relative_eq_isBranch found
  rw [relative] at shown branches
  unfold Tells
  rw [relative]
  refine ⟨branches.symm, ?_⟩
  rintro ⟨flag, wanted, kind, taken⟩
  rw [pc_stepped, destination?, kind, (operand_of_branch found kind).2, Operation.destination?,
    if_pos taken]
  exact Option.some.inj shown

/-- The number of a jump or a call tells where it goes, or where it finds that. -/
theorem tells_of_jump (goes : opcode.mnemonic ∈ [.jmp, .jsr]) :
    machine.Tells opcode (machine.stepped opcode) number := by
  have accepted := Opcode.accepts_of_ofByte? found
  obtain ⟨mnemonic, mode, cycles⟩ := opcode
  simp only [List.mem_cons, List.not_mem_nil, or_false] at goes
  rcases goes with rfl | rfl <;> cases mode <;> cases accepted <;> cases shown
  · rfl
  · exact ⟨rfl, machine.memory.toNat_readWord machine.operandWord⟩
  · rfl

/-- The number shown for an instruction with data tells where that is. -/
theorem tells_of_data (stays : opcode.mnemonic ∉ [.jmp, .jsr]) :
    machine.Tells opcode (machine.stepped opcode) number := by
  have jumps : opcode.mode = .indirect → opcode.mnemonic ∈ [.jmp, .jsr] := by
    refine Opcode.of_matrix (P := fun opcode => opcode.mode = .indirect →
      opcode.mnemonic ∈ [.jmp, .jsr]) ?_ found
    decide +kernel
  have byte := machine.toNat_operandByte
  obtain ⟨mnemonic, mode, cycles⟩ := opcode
  cases mode with
  | implied | accumulator => cases shown
  | relative => exact tells_of_relative found shown rfl
  | indirect => exact absurd (jumps rfl) stays
  | immediate =>
    cases shown
    exact ⟨byte.symm, worksAt_operand found rfl nofun stays (UInt16.toNat_add machine.pc 1)⟩
  | zeroPage =>
    cases shown
    exact worksAt_operand found rfl nofun stays (UInt8.toNat_toUInt16 _)
  | zeroPageX | zeroPageY =>
    cases shown
    refine worksAt_operand found rfl nofun stays ?_
    rw [UInt8.toNat_toUInt16, UInt8.toNat_add]
  | absolute =>
    cases shown
    refine (if_neg stays).mpr ?_
    exact worksAt_operand found rfl nofun stays rfl
  | absoluteX | absoluteY =>
    cases shown
    refine worksAt_operand found rfl nofun stays ?_
    rw [UInt16.toNat_add, UInt8.toNat_toUInt16]
  | indirectX =>
    cases shown
    refine ⟨byte.symm, worksAt_operand found rfl nofun stays ?_⟩
    rw [Memory.toNat_readZeroPageWord, UInt8.toNat_add]
  | indirectY =>
    cases shown
    refine ⟨byte.symm, worksAt_operand found rfl nofun stays ?_⟩
    rw [UInt16.toNat_add, UInt8.toNat_toUInt16, indirectBase, Memory.toNat_readZeroPageWord]

end

/-- The text of an instruction tells the truth about the next step. The three bytes at the program
counter are decoded to the instruction that the step executes, with its mode, its length and the
cycles of its opcode, and their text is the one that is shown there. Unless the mode needs none, the
text has a number, which tells where the step goes or where its data is. -/
theorem text_tells_step {machine : Machine} {opcode : Opcode} (on : machine.initialized = true)
    (found : Opcode.ofByte? machine.nextOpcode = some opcode) :
    let entry : Entry := ⟨machine.pc, machine.nextOpcode, .instruction opcode.mnemonic opcode.mode
      (machine.memory.readRange (machine.pc + 1) opcode.mode.operandBytes) opcode.cycles⟩
    Entry.decode? machine.pc (machine.memory.readRange machine.pc 3) = some entry ∧
    entry.size = opcode.size ∧ machine.textAt machine.pc = entry.text ∧
    (entry.shown? = none ↔ opcode.mode ∈ [.implied, .accumulator]) ∧
    ∃ executed after,
      execute opcode.mnemonic opcode.mode machine.fetch.clearPenalties = .ok () executed ∧
      machine.step = .ok (opcode.cycles + executed.penalty) after ∧
      after = executed.count (opcode.cycles + executed.penalty) ∧
      after.pc = (machine.destination? opcode).getD entry.next ∧
      ∀ number, entry.shown? = some number → machine.Tells opcode after number := by
  intro entry
  have same : machine.memory.entryAt machine.pc = entry :=
    machine.memory.entryAt_of_opcode machine.pc found
  have decoded := machine.memory.decode?_of_instruction machine.pc (by rw [same]; rfl)
  have shown := shown?_entryAt found
  rw [same] at decoded shown
  have text : machine.textAt machine.pc = entry.text :=
    (machine.textAt_eq_text_entryAt machine.pc).trans (congrArg Entry.text same)
  refine ⟨decoded, rfl, text, ?_, machine.executed opcode, machine.stepped opcode,
    execute_of_accepts (Opcode.accepts_of_ofByte? found) _, step_of_opcode on found, rfl,
    machine.pc_stepped opcode, ?_⟩
  · rw [shown, operandNumber?_eq_none_iff]
  · intro number isShown
    rw [shown] at isShown
    by_cases goes : opcode.mnemonic ∈ [.jmp, .jsr]
    · exact tells_of_jump found isShown goes
    · exact tells_of_data found isShown goes

/-- A branch backward at the last address has its offset byte at the first, and a store has its
operand bytes at both ends of the address space and its index lead from the last address. -/
theorem text_tells_step_wrapped :
    let branch : Machine :=
      { pc := 0xFFFF, initialized := true,
        memory := Memory.empty.writeRange 0xFFFF [0xD0, 0x80] }
    let store : Machine :=
      { pc := 0xFFFE, a := 7, x := 2, initialized := true,
        memory := Memory.empty.writeRange 0xFFFE [0x9D, 0xFF, 0xFF] }
    (branch.textAt 0xFFFF = "BNE $FF81" ∧
      ∃ cost after, branch.step = .ok cost after ∧ after.pc = 0xFF81) ∧
    store.textAt 0xFFFE = "STA $FFFF,X" ∧
      ∃ cost after, store.step = .ok cost after ∧ after.memory.read 0x0001 = 7 := by
  intro branch store
  have branchByte : branch.nextOpcode = 0xD0 := by
    simp [branch, nextOpcode, Memory.writeRange, Memory.read_write]
  have storeByte : store.nextOpcode = 0x9D := by
    simp [store, nextOpcode, Memory.writeRange, Memory.read_write]
  have bne : Opcode.ofByte? branch.nextOpcode = some ⟨.bne, .relative, 2⟩ := by
    rw [branchByte]
    rfl
  have sta : Opcode.ofByte? store.nextOpcode = some ⟨.sta, .absoluteX, 5⟩ := by
    rw [storeByte]
    rfl
  have offset : branch.memory.readRange (branch.pc + 1) 1 = [0x80] := by
    rw [readRange_operand_one]
    simp [branch, operandByte, operandAddress, Memory.writeRange]
  have base : store.memory.readRange (store.pc + 1) 2 = [0xFF, 0xFF] := by
    rw [readRange_operand_two]
    simp [store, operandByte, operandAddress, Memory.writeRange, Memory.read_write]
  obtain ⟨_, _, branchText, _, _, branched, _, branching, _, _, branchTells⟩ :=
    text_tells_step (show branch.initialized = true from rfl) bne
  obtain ⟨_, _, storeText, _, _, stored, _, storing, _, _, storeTells⟩ :=
    text_tells_step (show store.initialized = true from rfl) sta
  dsimp only [Mode.operandBytes] at branchText branchTells storeText storeTells
  rw [branchByte, offset] at branchText branchTells
  rw [storeByte, base] at storeText storeTells
  have branchLine :
      (Entry.mk 0xFFFF 0xD0 (.instruction .bne .relative [0x80] 2)).text = "BNE $FF81" := by
    decide +kernel
  have storeLine :
      (Entry.mk 0xFFFE 0x9D (.instruction .sta .absoluteX [0xFF, 0xFF] 5)).text =
        "STA $FFFF,X" := by
    decide +kernel
  have taken : branched.pc.toNat = 0xFF81 := by
    have clear : branch.status.get .zero = false := by decide
    refine (branchTells 0xFF81 ?_).2 ⟨_, _, rfl, clear⟩
    rw [Entry.shown?, branchLine]
    decide +kernel
  have indexed : store.WorksAt ⟨.sta, .absoluteX, 5⟩ stored ((0xFFFF + 2) % 0x10000) := by
    refine storeTells 0xFFFF ?_
    rw [Entry.shown?, storeLine]
    decide +kernel
  refine ⟨⟨branchText.trans branchLine, _, branched, branching, UInt16.toNat_inj.mp taken⟩,
    storeText.trans storeLine, _, stored, storing, ?_⟩
  rw [indexed.worked]
  exact Memory.read_write_self _ _ _

end Machine

end Mos6502
