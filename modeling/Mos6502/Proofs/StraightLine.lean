/-
This file proves that what is listed is what is executed. As long as no instruction goes elsewhere
and the lines of a listing are still in memory when execution reaches them, every step begins where
a line begins, fetches its first byte, takes its cycles or one more, and ends where the line ends.
The listing is made once, in the memory before the first step; the steps may change any byte that is
not about to be executed, also in lines that were passed.
-/

import Mos6502.Proofs.Course
import Mos6502.Proofs.MemoryListing
import Mos6502.Proofs.Run

namespace Mos6502

/-- An operation without destination takes at most one cycle beyond those of its opcode. -/
theorem Operation.penalty_le_one {operation : Operation} {operand : Operand} {machine : Machine}
    (goesOn : operation.destination? operand machine = none) :
    (operation.penalty operand machine).toNat ≤ 1 := by
  unfold penalty
  split
  · split <;> decide
  · split
    next taken =>
      rw [destination?, if_pos taken] at goesOn
      cases goesOn
    · decide
  · decide

namespace Machine

open Processor

/-! ### One line -/

/-- The instruction at the program counter goes to the next one: it is no branch that is taken, no
jump, no call, no return and no interrupt. -/
def Sequential (machine : Machine) (opcode : Opcode) : Prop :=
  ¬machine.Branches opcode ∧ opcode.mnemonic ∉ [.jmp, .jsr, .rts, .rti, .brk]

theorem destination?_of_sequential {machine : Machine} {opcode : Opcode}
    (sequential : machine.Sequential opcode) : machine.destination? opcode = none := by
  obtain ⟨notTaken, others⟩ := sequential
  rw [List.mem_cons, not_or] at others
  cases goes : machine.destination? opcode with
  | none => rfl
  | some target =>
    rcases of_destination? goes with ⟨branches, _⟩ | ⟨jumps, _⟩ | other
    · exact absurd branches notTaken
    · exact absurd jumps others.1
    · exact absurd other others.2

theorem cost_of_sequential {machine : Machine} {opcode : Opcode}
    (found : Opcode.ofByte? machine.nextOpcode = some opcode)
    (sequential : machine.Sequential opcode) :
    opcode.cycles.toNat ≤ (machine.cost opcode).toNat ∧
      (machine.cost opcode).toNat ≤ opcode.cycles.toNat + 1 := by
  have small : (machine.executed opcode).penalty.toNat ≤ 1 := by
    have goesOn : opcode.mnemonic.operation.destination? (machine.operand opcode.mode)
        (machine.fetch.clearPenalties.advance opcode.mode) = none :=
      destination?_of_sequential sequential
    rw [penalty_executed]
    exact Operation.penalty_le_one goesOn
  obtain ⟨sum, _⟩ := toNat_cost found
  omega

/-- A step executes a line of a listing. -/
structure Executes (line : Entry) (before : Machine) (cost : UInt8) (after : Machine) : Prop where
  /-- The line is an instruction. -/
  instruction : line.isData = false
  /-- The step begins where the line begins. -/
  starts : before.pc = line.address
  /-- It fetches the first byte of the line. -/
  fetches : line.bytes.head? = some after.currentOpcode
  /-- It takes at least the cycles of the line. -/
  least : line.cycles.toNat ≤ cost.toNat
  /-- It takes at most one more. -/
  most : cost.toNat ≤ line.cycles.toNat + 1
  /-- It ends where the line ends. -/
  ends : after.pc = line.address + UInt16.ofNat line.bytes.length

/-- A step that goes on to the next instruction executes the line at the program counter. -/
theorem executes_of_step {machine after : Machine} {cost : UInt8}
    (straight : ∀ opcode, Opcode.ofByte? machine.nextOpcode = some opcode →
      machine.Sequential opcode)
    (done : machine.step = .ok cost after) :
    Executes (machine.memory.entryAt machine.pc) machine cost after := by
  obtain ⟨_, opcode, found, rfl, rfl⟩ := opcode_of_step done
  have sequential := straight opcode found
  obtain ⟨least, most⟩ := cost_of_sequential found sequential
  have fetched : (machine.stepped opcode).currentOpcode = machine.nextOpcode :=
    congrArg Ledger.currentOpcode (machine.ledger_executed opcode)
  have past : (machine.stepped opcode).pc = machine.pc + opcode.mode.stride := by
    rw [pc_stepped, destination?_of_sequential sequential]
    rfl
  have ends := machine.memory.next_entryAt machine.pc
  rw [machine.memory.entryAt_of_opcode machine.pc found] at ends ⊢
  exact ⟨rfl, rfl, congrArg some fetched.symm, least, most, past.trans ends⟩

/-! ### Many lines -/

/-- The lines of a listing from the program counter on. -/
def linesAhead (machine : Machine) (count : Nat) : List Entry :=
  (Console.mk machine).disassemble machine.pc count

@[simp] theorem length_linesAhead (machine : Machine) (count : Nat) :
    (machine.linesAhead count).length = count :=
  machine.memory.length_disassemble machine.pc count

theorem getElem?_linesAhead (machine : Machine) {count index : Nat} (less : index < count) :
    (machine.linesAhead count)[index]? =
      some (machine.memory.entryAt (machine.memory.boundary machine.pc index)) := by
  rw [linesAhead, Console.disassemble, Memory.disassemble_eq_map, List.getElem?_map,
    List.getElem?_range less, Option.map_some]

/-- The steps of a run go on from line to line, and the bytes of the lines are in memory when they
are executed. -/
structure Straight (machine : Machine) (count : Nat) : Prop where
  /-- No step goes elsewhere. -/
  goesOn : ∀ index < count, ∀ state, stateAt? machine index = some state →
    ∀ opcode, Opcode.ofByte? state.nextOpcode = some opcode → state.Sequential opcode
  /-- Each line is in memory when execution reaches it. -/
  kept : ∀ index < count, ∀ state, stateAt? machine index = some state →
    ∀ line ∈ (machine.linesAhead count)[index]?,
      state.memory.readRange line.address line.bytes.length = line.bytes

section

variable {machine : Machine} {count index : Nat} (straight : machine.Straight count)

include straight

theorem Straight.executes_of_pc {before after : Machine} {cost : UInt8} (less : index < count)
    (reached : stateAt? machine index = some before)
    (starts : before.pc = machine.memory.boundary machine.pc index)
    (done : before.step = .ok cost after) :
    Executes (machine.memory.entryAt (machine.memory.boundary machine.pc index)) before cost
      after := by
  have kept := straight.kept index less before reached _ (machine.getElem?_linesAhead less)
  rw [Memory.address_entryAt] at kept
  -- The memory has changed since the listing was made, but the same line is still found in it.
  rw [← Memory.entryAt_of_kept _ _ kept, ← starts]
  exact executes_of_step (straight.goesOn index less before reached) done

/-- Every state is where a line begins. -/
theorem Straight.pc_eq_boundary {state : Machine} (le : index ≤ count)
    (reached : stateAt? machine index = some state) :
    state.pc = machine.memory.boundary machine.pc index := by
  induction index generalizing state with
  | zero =>
    cases reached
    rfl
  | succ index inductionHypothesis =>
    obtain ⟨_, done⟩ := stateAt?_eq_some_iff.mp reached
    obtain ⟨before, cost, after, there, stepped, next⟩ :=
      step_of_steps done (Nat.lt_succ_self index)
    cases reached.symm.trans next
    have starts := inductionHypothesis (Nat.le_of_succ_le le) there
    have line := straight.executes_of_pc le there starts stepped
    rw [line.ends, Memory.boundary_succ, Memory.next_entryAt, Memory.address_entryAt]

end

/-- Listing and execution agree on where instructions begin. Where as many steps as lines succeed,
go on from line to line, and find the bytes of their lines in memory, each step executes its line:
the instruction that the three bytes there are decoded to. The last one ends where the last line
ends. -/
theorem straight_line_agrees {machine last : Machine} {count : Nat} {costs : List UInt8}
    (straight : machine.Straight count) (done : steps count machine = .ok costs last) :
    (∀ index < count, ∃ line before cost after,
      (machine.linesAhead count)[index]? = some line ∧
      Entry.decode? line.address (machine.memory.readRange line.address 3) = some line ∧
      stateAt? machine index = some before ∧ before.step = .ok cost after ∧
      Executes line before cost after) ∧
    ∀ line ∈ (machine.linesAhead count).getLast?,
      last.pc = line.address + UInt16.ofNat line.bytes.length := by
  constructor
  · intro index less
    obtain ⟨before, cost, after, reached, stepped, _⟩ := step_of_steps done less
    have starts := straight.pc_eq_boundary (Nat.le_of_lt less) reached
    have line := straight.executes_of_pc less reached starts stepped
    refine ⟨_, before, cost, after, machine.getElem?_linesAhead less, ?_, reached, stepped, line⟩
    rw [Memory.address_entryAt]
    exact Memory.decode?_of_instruction _ _ line.instruction
  · intro line member
    have ends := straight.pc_eq_boundary (Nat.le_refl count)
      (stateAt?_eq_some_iff.mpr ⟨costs, done⟩)
    cases count with
    | zero => cases member
    | succ count =>
      rw [List.getLast?_eq_getElem?, length_linesAhead, Nat.add_sub_cancel,
        machine.getElem?_linesAhead (Nat.lt_succ_self count)] at member
      cases member
      rw [ends, Memory.boundary_succ, Memory.next_entryAt, Memory.address_entryAt]

/-- A store whose operand byte is at address zero, and after it an instruction that does nothing. -/
theorem straight_line_agrees_wrapped :
    let memory := ((Memory.empty.write 0xFFFF 0x85).write 0 0x10).write 1 0xEA
    let machine : Machine := { memory, pc := 0xFFFF, initialized := true }
    ∃ costs last, machine.Straight 2 ∧ steps 2 machine = .ok costs last ∧ last.pc = 2 := by
  intro memory machine
  have first : memory.read 0xFFFF = 0x85 := by simp [memory, Memory.read_write]
  have second : memory.read 0 = 0x10 := by simp [memory, Memory.read_write]
  have third : memory.read 1 = 0xEA := Memory.read_write_self _ _ _
  have store : Opcode.ofByte? machine.nextOpcode = some ⟨.sta, .zeroPage, 3⟩ :=
    congrArg Opcode.ofByte? first
  have idle : Opcode.ofByte? (memory.read 1) = some ⟨.nop, .implied, 2⟩ :=
    congrArg Opcode.ofByte? third
  let stored := machine.stepped ⟨.sta, .zeroPage, 3⟩
  have round : (0xFFFF : UInt16) + 1 = 0 ∧ (0xFFFF : UInt16) + 2 = 1 := by decide
  have left : stored.memory.read 1 = memory.read 1 := by
    show (memory.write (memory.read (0xFFFF + 1)).toUInt16 0).read 1 = _
    rw [round.1, second, Memory.read_write_other _ _ (by decide)]
  have goesRound : stored.pc = 1 := round.2
  have next : Opcode.ofByte? stored.nextOpcode = some ⟨.nop, .implied, 2⟩ := by
    rw [nextOpcode, goesRound, left, idle]
  have storing : machine.step = .ok _ stored := step_of_opcode rfl store
  have idling : stored.step = .ok _ _ := step_of_opcode (machine.initialized_stepped _) next
  have done : ∃ costs last, steps 2 machine = .ok costs last := by
    rw [steps_succ_of_step (σ := Machine) storing, steps_succ_of_step (σ := Machine) idling]
    exact ⟨_, _, rfl⟩
  have boundary : memory.boundary 0xFFFF 1 = 1 := by
    show (memory.entryAt 0xFFFF).next = 1
    rw [memory.entryAt_of_opcode _ store]
    exact round.2
  have straight : machine.Straight 2 := by
    constructor
    · intro index less state reached opcode known
      rcases Nat.lt_succ_iff_lt_or_eq.mp less with none | rfl
      · cases Nat.lt_one_iff.mp none
        cases reached
        cases known.symm.trans store
        refine ⟨?_, by decide⟩
        rintro ⟨_, _, branch, _⟩
        cases branch
      · cases (stateAt?_succ_of_step (σ := Machine) storing 0).symm.trans reached
        cases known.symm.trans next
        refine ⟨?_, by decide⟩
        rintro ⟨_, _, branch, _⟩
        cases branch
    · intro index less state reached line member
      rw [machine.getElem?_linesAhead less] at member
      cases member
      rcases Nat.lt_succ_iff_lt_or_eq.mp less with none | rfl
      · cases Nat.lt_one_iff.mp none
        cases reached
        rw [Memory.address_entryAt, Memory.length_bytes_entryAt, ← Memory.bytes_entryAt]
      · cases (stateAt?_succ_of_step (σ := Machine) storing 0).symm.trans reached
        show stored.memory.readRange (memory.entryAt (memory.boundary 0xFFFF 1)).address _ = _
        rw [boundary, memory.entryAt_of_opcode _ idle]
        exact congrArg (fun byte => [byte]) left
  have final : (machine.linesAhead 2).getLast? = some ⟨1, memory.read 1,
      .instruction .nop .implied [] 2⟩ := by
    rw [List.getLast?_eq_getElem?, length_linesAhead, machine.getElem?_linesAhead (by decide)]
    show some (memory.entryAt (memory.boundary 0xFFFF 1)) = _
    rw [boundary, memory.entryAt_of_opcode _ idle]
    rfl
  obtain ⟨costs, last, ran⟩ := done
  obtain ⟨_, ends⟩ := straight_line_agrees straight ran
  exact ⟨costs, last, straight, ran, ends _ final⟩

end Machine

end Mos6502
