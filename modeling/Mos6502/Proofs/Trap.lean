/-
This file proves that a trap is what it is reported to be. The program counter stays where it is
over a branch that is taken and takes back its own two bytes, over a JMP to itself, and over a call,
a return or an interrupt that happens to lead back; the next instruction is never at the same
address. A branch or a JMP changes nothing besides the program counter, so a program that is trapped
in one is in the same state after it, and will be after any number of further steps.
-/

import Mos6502.Proofs.Course
import Mos6502.Proofs.Lockstep

namespace Mos6502

/-- A run to a place that is trapped has just made a step that left the program counter alone. -/
theorem Processor.step_of_trapped {σ : Type} [Processor σ] {breakpoint : Option UInt16}
    {start limit : UInt64} {fuel : Nat} {state last : σ} {pc : UInt16}
    (trapped : seek breakpoint start limit fuel state = .ok (.trapped pc) last) :
    ∃ count costs before cost, steps count state = .ok costs before ∧
      step before = .ok cost last ∧ (machine before).pc = pc ∧ (machine last).pc = pc := by
  induction fuel generalizing state with
  | zero =>
    rw [seek] at trapped
    split at trapped
    · cases trapped
    · split at trapped <;> cases trapped
  | succ fuel inductionHypothesis =>
    by_cases here : breakpoint = some (machine state).pc
    · rw [seek_of_breakpoint here] at trapped
      cases trapped
    by_cases spent : limit ≤ (machine state).cycles - start
    · rw [seek_of_limit here spent] at trapped
      cases trapped
    cases stepped : step state with
    | error fault left =>
      rw [seek_of_refused here spent stepped] at trapped
      cases trapped
    | ok cost next =>
      by_cases stays : (machine next).pc = (machine state).pc
      · rw [seek_of_trap here spent stepped stays] at trapped
        cases trapped
        exact ⟨0, [], state, cost, rfl, stepped, rfl, stays⟩
      · rw [seek_of_step here spent stepped stays] at trapped
        obtain ⟨count, costs, before, final, done, trap⟩ := inductionHypothesis trapped
        refine ⟨count + 1, cost :: costs, before, final, ?_, trap⟩
        rw [steps_succ_of_step stepped, done]

namespace Machine

open Processor

/-! ### Instructions that lead back to themselves -/

/-- The instruction at the program counter leads back to itself. -/
inductive LeadsBack (machine : Machine) (opcode : Opcode) : Prop where
  /-- It is a branch that is taken, to the place two bytes before the next instruction. -/
  | branch (taken : machine.Branches opcode) (offset : machine.operandByte = 0xFE)
  /-- It is a JMP to itself. -/
  | jump (jumps : opcode.mnemonic = .jmp)
    (target : machine.operand opcode.mode = .address machine.pc)
  /-- It is a call, a return or an interrupt that happens to come back. -/
  | other (transfers : opcode.mnemonic ∈ [.jsr, .rts, .rti, .brk])
    (lands : machine.destination? opcode = some machine.pc)

/-- An instruction leaves the program counter alone exactly if it leads back to itself. -/
theorem pc_stepped_eq_iff {machine : Machine} {opcode : Opcode}
    (found : Opcode.ofByte? machine.nextOpcode = some opcode) :
    (machine.stepped opcode).pc = machine.pc ↔ machine.LeadsBack opcode := by
  rw [pc_stepped]
  constructor
  · intro stays
    cases goes : machine.destination? opcode with
    | none =>
      -- The next instruction is never at the same address.
      rw [goes] at stays
      exact absurd stays (opcode.mode.add_stride_ne machine.pc)
    | some target =>
      rw [goes] at stays
      cases (show target = machine.pc from stays)
      rcases of_destination? goes with ⟨taken, toOperand⟩ | ⟨jumps, toOperand⟩ | transfers
      · have ⟨_, _, branch, _⟩ := taken
        rw [(operand_of_branch found branch).2] at toOperand
        exact .branch taken ((branchTarget_eq_self_iff _ _).mp (Operand.address.inj toOperand))
      · exact .jump jumps toOperand
      · exact .other transfers goes
  · intro leadsBack
    have goes : machine.destination? opcode = some machine.pc := by
      cases leadsBack with
      | branch taken offset =>
        obtain ⟨flag, wanted, branch, status⟩ := taken
        have toOperand := (operand_of_branch found branch).2
        rw [(branchTarget_eq_self_iff _ _).mpr offset] at toOperand
        rw [destination?, branch, toOperand]
        exact if_pos status
      | jump jumps target =>
        rw [destination?, jumps, target]
        rfl
      | other transfers lands => exact lands
    rw [goes]
    rfl

/-! ### Steps without end -/

/-- A branch or a JMP changes nothing besides the program counter. -/
theorem exists_core_stepped_eq {machine : Machine} {opcode : Opcode}
    (goes : machine.Branches opcode ∨ opcode.mnemonic = .jmp) :
    ∃ pc, (machine.stepped opcode).core = { machine.core with pc } := by
  rcases goes with ⟨flag, wanted, branch, _⟩ | jumps
  · obtain ⟨pc, penalty, same⟩ := Operation.exists_effect_branch_eq
      (machine.fetch.clearPenalties.advance opcode.mode) flag wanted (machine.operand opcode.mode)
    refine ⟨pc, ?_⟩
    show (machine.executed opcode).core = _
    rw [executed, branch, same]
    rfl
  · show ∃ pc, (machine.executed opcode).core = _
    rw [executed, jumps]
    cases machine.operand opcode.mode <;> exact ⟨_, rfl⟩

/-- A branch or a JMP that leads back to itself changes nothing. -/
theorem core_stepped_of_leadsBack {machine : Machine} {opcode : Opcode}
    (found : Opcode.ofByte? machine.nextOpcode = some opcode)
    (leadsBack : machine.LeadsBack opcode)
    (kind : opcode.mnemonic.isBranch = true ∨ opcode.mnemonic = .jmp) :
    (machine.stepped opcode).core = machine.core := by
  have otherKinds : ∀ mnemonic ∈ [Mnemonic.jsr, .rts, .rti, .brk],
      ¬(mnemonic.isBranch = true ∨ mnemonic = .jmp) := by
    decide
  have goes : machine.Branches opcode ∨ opcode.mnemonic = .jmp := by
    cases leadsBack with
    | branch taken offset => exact Or.inl taken
    | jump jumps target => exact Or.inr jumps
    | other transfers lands => exact absurd kind (otherKinds _ transfers)
  obtain ⟨pc, same⟩ := exists_core_stepped_eq goes
  have stays : pc = machine.pc :=
    (congrArg Core.pc same).symm.trans ((pc_stepped_eq_iff found).mpr leadsBack)
  rw [same, stays]
  rfl

/-- Where a step left registers and memory alone, all further steps do so, too, and each costs the
same. -/
theorem steps_of_core_stays {machine after : Machine} {cost : UInt8}
    (done : machine.step = .ok cost after) (stays : after.core = machine.core) (count : Nat)
    {state : Machine} (paired : Paired machine.timing machine.timing machine state) :
    ∃ last, steps count state = .ok (List.replicate count cost) last ∧
      last.core = machine.core := by
  -- The counter goes on, so the states differ; but they are paired with the one before the step.
  induction count generalizing state with
  | zero => exact ⟨state, rfl, paired.core.symm⟩
  | succ count inductionHypothesis =>
    obtain ⟨otherCost, next, stepped, sameCost, sameNext⟩ :=
      (done ▸ step_alike machine state paired).of_ok
    cases sameCost.1 rfl
    obtain ⟨last, others, same⟩ := inductionHypothesis
      ⟨stays.symm.trans sameNext.core, rfl, sameNext.secondCounts⟩
    refine ⟨last, ?_, same⟩
    rw [steps_succ_of_step (σ := Machine) stepped, others, List.replicate_succ]

/-- Traps are real. An instruction leaves the program counter alone exactly if it leads back to
itself: a branch by its offset, a JMP by its target, or a call, a return or an interrupt. A run to a
place that is trapped ended with such an instruction, at the address that it reports. If that is a
branch or a JMP, it left all registers and the memory alone, and so will any number of further
steps, which all succeed and cost the same. -/
theorem trap_sound :
    (∀ (machine after : Machine) (opcode : Opcode) (cost : UInt8),
      Opcode.ofByte? machine.nextOpcode = some opcode → machine.step = .ok cost after →
        (after.pc = machine.pc ↔ machine.LeadsBack opcode)) ∧
    ∀ (machine last : Machine) (breakpoint : Option UInt16) (limit : UInt64) (pc : UInt16),
      machine.runUntil breakpoint limit = .ok (.trapped pc) last →
        ∃ count costs before cost opcode, steps count machine = .ok costs before ∧
          before.step = .ok cost last ∧ before.pc = pc ∧ last.pc = pc ∧
          Opcode.ofByte? before.nextOpcode = some opcode ∧ before.LeadsBack opcode ∧
          (opcode.mnemonic.isBranch = true ∨ opcode.mnemonic = .jmp →
            last.core = before.core ∧ ∀ more, ∃ final,
              steps more last = .ok (List.replicate more cost) final ∧
                final.core = before.core) := by
  have leadsBack_iff (machine after : Machine) (opcode : Opcode) (cost : UInt8)
      (found : Opcode.ofByte? machine.nextOpcode = some opcode)
      (done : machine.step = .ok cost after) :
      after.pc = machine.pc ↔ machine.LeadsBack opcode := by
    obtain ⟨_, known, same, _, rfl⟩ := opcode_of_step done
    cases found.symm.trans same
    exact pc_stepped_eq_iff found
  refine ⟨leadsBack_iff, ?_⟩
  intro machine last breakpoint limit pc trapped
  obtain ⟨count, costs, before, cost, reached, done, lay, stays⟩ :=
    step_of_trapped (σ := Machine) trapped
  obtain ⟨_, opcode, found, _, same⟩ := opcode_of_step done
  have leadsBack := (leadsBack_iff before last opcode cost found done).mp (stays.trans lay.symm)
  refine ⟨count, costs, before, cost, opcode, reached, done, lay, stays, found, leadsBack, ?_⟩
  intro kind
  have unchanged : last.core = before.core := by
    rw [same]
    exact core_stepped_of_leadsBack found leadsBack kind
  have counts : last.timing = before.timing := by
    rw [same]
    exact before.timing_stepped opcode
  exact ⟨unchanged, fun more =>
    steps_of_core_stays done unchanged more ⟨unchanged.symm, rfl, counts⟩⟩

/-- A branch to itself whose offset byte is at address zero. -/
theorem trap_sound_wrapped : ∃ machine last : Machine, machine.pc = 0xFFFF ∧
    machine.runUntil none 100 = .ok (.trapped 0xFFFF) last ∧
    ∀ more, ∃ costs final, steps more last = .ok costs final ∧ final.core = machine.core := by
  let memory := (Memory.empty.write 0xFFFF 0xD0).write 0 0xFE
  let machine : Machine := { memory, pc := 0xFFFF, initialized := true }
  have found : Opcode.ofByte? machine.nextOpcode = some ⟨.bne, .relative, 2⟩ := by
    have first : memory.read 0xFFFF = 0xD0 := by simp [memory, Memory.read_write]
    exact congrArg Opcode.ofByte? first
  have offset : machine.operandByte = 0xFE := by
    have round : (0xFFFF : UInt16) + 1 = 0 := rfl
    show memory.read (0xFFFF + 1) = 0xFE
    rw [round]
    exact Memory.read_write_self _ _ _
  have leadsBack : machine.LeadsBack ⟨.bne, .relative, 2⟩ :=
    .branch ⟨.zero, false, rfl, by decide⟩ offset
  have done : machine.step = .ok _ (machine.stepped _) := step_of_opcode rfl found
  obtain ⟨leadsBack_iff, sound⟩ := trap_sound
  have stays := (leadsBack_iff machine _ _ _ found done).mpr leadsBack
  have elsewhere : none ≠ some machine.pc := nofun
  have unspent : ¬(100 : UInt64) ≤ machine.cycles - machine.cycles := by decide
  have trapped : machine.runUntil none 100 = .ok (.trapped 0xFFFF) _ :=
    seek_of_trap (σ := Machine) elsewhere unspent done stays 99
  obtain ⟨count, costs, before, cost, opcode, reached, _, _, _, known, _, stuck⟩ :=
    sound machine _ none 100 _ trapped
  -- However many steps the run has made, they have led to where it began.
  obtain ⟨other, again, same⟩ := steps_of_core_stays done
    (core_stepped_of_leadsBack found leadsBack (Or.inl rfl)) count ⟨rfl, rfl, rfl⟩
  cases reached.symm.trans again
  have sameOpcode : before.nextOpcode = machine.nextOpcode :=
    congrArg (fun core => core.memory.read core.pc) same
  rw [sameOpcode] at known
  cases known.symm.trans found
  refine ⟨machine, _, rfl, trapped, ?_⟩
  intro more
  obtain ⟨final, ran, core⟩ := (stuck (Or.inl rfl)).2 more
  exact ⟨_, final, ran, core.trans same⟩

end Machine

end Mos6502
