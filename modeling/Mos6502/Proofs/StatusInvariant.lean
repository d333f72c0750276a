/-
This file proves what always holds of the two bits of the status register that are no flags. The
reserved bit is set in every state of every session. Break belongs to the bytes on the stack: it is
set in each status byte that is pushed, and dropped from each that is pulled, so no instruction sets
it in the register, and there it is clear unless the host has set it. Both facts need one step only,
since a step reloads the register from a pulled byte or leaves the two bits alone.
-/

import Mos6502.Proofs.Frame
import Mos6502.Proofs.Session

namespace Mos6502

/-! ### Pushed and pulled bytes -/

namespace Status

theorem get_brk_ofPulled (bits : UInt8) : (ofPulled bits).get .brk = false := by
  rw [get, ofPulled, UInt8.and_assoc, UInt8.not_and_self, UInt8.and_zero]
  rfl

/-- A register with the reserved bit set is the one that its own byte stands for. -/
theorem ofBits_bits {status : Status} (held : status.get .reserved = true) :
    ofBits status.bits = status := by
  obtain ⟨bits⟩ := status
  have each : ∀ bits : UInt8, (⟨bits⟩ : Status).get .reserved = true →
      ofBits bits = ⟨bits⟩ := forall_byte (by decide +kernel)
  exact each bits held

/-- A byte stands for a status register on the stack: bits 4 and 5 are set, and the other six are
those of the register. -/
def CarriedBy (status : Status) (byte : UInt8) : Prop :=
  byte &&& 0x30 = 0x30 ∧ byte &&& 0xCF = status.bits &&& 0xCF

theorem carriedBy_pushed (status : Status) : status.CarriedBy status.pushed := by
  refine ⟨or_and_self status.bits 0x30, ?_⟩
  show (status.bits ||| 0x30) &&& 0xCF = status.bits &&& 0xCF
  rw [or_and_distrib, show (0x30 : UInt8) &&& 0xCF = 0 from rfl, UInt8.or_zero]

end Status

namespace Machine

/-! ### Steps -/

/-- What a step does to Break and to the reserved bit: it reloads them from a pulled byte, or leaves
both alone. -/
theorem status_step_cases (machine : Machine) :
    (∃ bits, (finalState machine.step).status = .ofPulled bits) ∨
      ∀ flag ∈ [.brk, .reserved],
        (finalState machine.step).status.get flag = machine.status.get flag := by
  rcases machine.step_cases with ⟨_, refused⟩ | ⟨_, _, refused⟩ | ⟨_, opcode, found, done⟩
  · rw [refused]
    exact Or.inr fun _ _ => rfl
  · rw [refused]
    exact Or.inr fun _ _ => rfl
  rw [done]
  have accepted := Opcode.accepts_of_ofByte? found
  obtain ⟨mnemonic, mode, cycles⟩ := opcode
  by_cases pulls : mnemonic = .plp ∨ mnemonic = .rti
  · left
    rcases pulls with rfl | rfl <;> cases mode <;> cases accepted <;> exact ⟨_, rfl⟩
  · have table : ∀ mnemonic ∈ Mnemonic.all, ¬(mnemonic = .plp ∨ mnemonic = .rti) →
        ∀ flag ∈ [.brk, .reserved], flag ∉ mnemonic.operation.flags := by
      decide +kernel
    right
    intro flag special
    exact Operation.get_status_effect _ _ (table _ (Mnemonic.mem_all _) pulls flag special)

/-- No step sets Break. -/
theorem brk_finalState_step {machine : Machine} (unset : machine.status.get .brk = false) :
    (finalState machine.step).status.get .brk = false := by
  rcases machine.status_step_cases with ⟨bits, pulled⟩ | kept
  · rw [pulled]
    exact Status.get_brk_ofPulled bits
  · rw [kept .brk (by decide)]
    exact unset

/-- No step clears the reserved bit. -/
theorem reserved_finalState_step {machine : Machine} (held : machine.status.get .reserved = true) :
    (finalState machine.step).status.get .reserved = true := by
  rcases machine.status_step_cases with ⟨bits, pulled⟩ | kept
  · rw [pulled]
    exact Status.get_reserved_ofPulled bits
  · rw [kept .reserved (by decide)]
    exact held

/-! ### Calls -/

/-- What holds of the status register after steps, and after the host has written it, is kept by
every call: no other call writes it. -/
theorem status_apply_keeps {P : Status → Prop} {call : Call}
    (stepKeeps : ∀ machine : Machine, P machine.status → P (finalState machine.step).status)
    (setKeeps : ∀ bits, call = .setStatus bits → P (.ofBits bits))
    (flagKeeps : ∀ flag on status, call = .setFlag flag on → P status → P (status.set flag on))
    (machine : Machine) (held : P machine.status) : P (call.apply machine).status := by
  cases call with
  | step => exact stepKeeps machine held
  | runForCycles budget =>
    exact Processor.runForCycles_keeps (P := fun machine : Machine => P machine.status) stepKeeps
      budget machine held
  | runUntil breakpoint limit =>
    exact Processor.runUntil_keeps (P := fun machine : Machine => P machine.status) stepKeeps
      breakpoint limit machine held
  | setRegister register value => cases register <;> exact held
  | setStatus bits => exact setKeeps bits rfl
  | setFlag flag on => exact flagKeeps flag on _ rfl held
  | load image loadAddress =>
    dsimp only [Call.apply, load]
    cases machine.memory.load image loadAddress <;> exact held
  | _ => exact held

/-- The reserved bit is set in every state of a session. -/
theorem reserved_afterCalls {origin : Machine} (built : Built origin) (calls : List Call) :
    (origin.afterCalls calls).status.get .reserved = true := by
  refine afterCalls_keeps (P := fun machine => machine.status.get .reserved = true) ?_ ?_
  · intro call _
    refine status_apply_keeps (P := fun status => status.get .reserved = true) ?_ ?_ ?_
    · exact fun _ => reserved_finalState_step
    · exact fun bits _ => Status.get_reserved_ofBits bits
    · exact fun flag on status _ => status.get_reserved_set flag on
  · rw [status_of_built built]
    rfl

end Machine

/-- Whether a host sets Break in the status register by a call. -/
def Call.setsBreak : Call → Bool
  | .setStatus bits => bits &&& Flag.brk.mask != 0
  | .setFlag flag on => flag = .brk && on
  | _ => false

namespace Machine

/-- Break is clear as long as the host has not set it. -/
theorem brk_afterCalls {origin : Machine} (built : Built origin) {calls : List Call}
    (unset : ∀ call ∈ calls, call.setsBreak = false) :
    (origin.afterCalls calls).status.get .brk = false := by
  refine afterCalls_keeps (P := fun machine => machine.status.get .brk = false) ?_ ?_
  · intro call member
    refine status_apply_keeps (P := fun status => status.get .brk = false) ?_ ?_ ?_
    · exact fun _ => brk_finalState_step
    · rintro bits rfl
      have apart : Flag.reserved ≠ Flag.brk := by decide
      show ((bits ||| Flag.reserved.mask) &&& Flag.brk.mask != 0) = false
      rw [or_and_distrib, Flag.mask_and_mask apart, UInt8.or_zero]
      exact unset _ member
    · rintro flag on status rfl clear
      have harmless : (decide (flag = .brk) && on) = false := unset _ member
      by_cases same : flag = .brk
      · subst same
        rw [status.get_set_self on (by decide)]
        exact harmless
      · rw [status.get_set_other on (Ne.symm same)]
        exact clear
  · rw [status_of_built built]
    rfl

/-! ### Pushed status bytes -/

/-- A PHP or BRK leaves the status byte of the register before it on the stack. -/
theorem pushed_mem_writes {machine : Machine} {opcode : Opcode}
    (found : Opcode.ofByte? machine.nextOpcode = some opcode) :
    (opcode.mnemonic = .php →
      ⟨stackAddress machine.sp, machine.status.pushed⟩ ∈ machine.writes opcode) ∧
    (opcode.mnemonic = .brk →
      ⟨stackAddress (machine.sp - 2), machine.status.pushed⟩ ∈ machine.writes opcode) := by
  have accepted := Opcode.accepts_of_ofByte? found
  obtain ⟨mnemonic, mode, cycles⟩ := opcode
  constructor
  · rintro rfl
    cases mode <;> cases accepted
    exact List.mem_singleton_self _
  · rintro rfl
    cases mode <;> cases accepted
    rw [← sub_one_sub_one]
    exact List.mem_cons_of_mem _ (List.mem_cons_of_mem _ (List.mem_singleton_self _))

/-! ### The status register in sessions -/

/-- The reserved bit is always set. Break is clear unless the host has set it, for no step does; but
it is set in the bytes that PHP and BRK push, which otherwise are those of the register before the
instruction. -/
theorem reserved_and_brk :
    (∀ origin, Built origin → ∀ calls : List Call,
      (origin.afterCalls calls).status.get .reserved = true ∧
      ((∀ call ∈ calls, call.setsBreak = false) →
        (origin.afterCalls calls).status.get .brk = false)) ∧
    (∀ machine : Machine, machine.status.get .brk = false →
      (finalState machine.step).status.get .brk = false) ∧
    ∀ (machine : Machine) (opcode : Opcode), machine.initialized = true →
      Opcode.ofByte? machine.nextOpcode = some opcode →
      ∃ cost after, machine.step = .ok cost after ∧
        (opcode.mnemonic = .php →
          machine.status.CarriedBy (after.memory.read (stackAddress machine.sp))) ∧
        (opcode.mnemonic = .brk →
          machine.status.CarriedBy (after.memory.read (stackAddress (machine.sp - 2)))) := by
  refine ⟨?_, fun _ => brk_finalState_step, ?_⟩
  · exact fun origin built calls => ⟨reserved_afterCalls built calls, brk_afterCalls built⟩
  · intro machine opcode on found
    obtain ⟨php, brk⟩ := pushed_mem_writes found
    refine ⟨_, _, step_of_opcode on found, ?_, ?_⟩
    · intro pushes
      rw [read_stepped_of_mem_writes (php pushes)]
      exact machine.status.carriedBy_pushed
    · intro interrupts
      rw [read_stepped_of_mem_writes (brk interrupts)]
      exact machine.status.carriedBy_pushed

/-- A host that asks to clear the reserved bit is ignored, and a PHP pushes Break from a register in
which it is clear. -/
theorem reserved_and_brk_php : ∃ origin, ofImage [0x08] 0 = .ok origin ∧
    let machine := origin.afterCalls [.reset, .setFlag .reserved false]
    machine.status.get .reserved = true ∧ machine.status.get .brk = false ∧
      (finalState machine.step).status.get .brk = false ∧
      ∃ cost after, machine.step = .ok cost after ∧ after.memory.read 0x0100 &&& 0x30 = 0x30 := by
  refine ⟨{ memory := Memory.empty.writeRange 0 [0x08] }, rfl, ?_⟩
  intro machine
  have built : Built { memory := Memory.empty.writeRange 0 [0x08] } :=
    .ofImage (show ofImage [0x08] 0 = .ok _ from rfl)
  have found : Opcode.ofByte? machine.nextOpcode = some ⟨.php, .implied, 3⟩ := by
    have next : machine.nextOpcode = 0x08 := by
      simp [machine, afterCalls, Call.apply, reset, setFlag, mapStatus, nextOpcode,
        Memory.writeRange, Memory.readWord, Memory.read_write, Memory.resetVector, wordOf]
    rw [next]
    rfl
  obtain ⟨session, step, pushed⟩ := reserved_and_brk
  obtain ⟨reserved, brk⟩ := session _ built [.reset, .setFlag .reserved false]
  obtain ⟨cost, after, done, php, _⟩ := pushed machine _ rfl found
  have clear := brk (by decide)
  exact ⟨reserved, clear, step machine clear, cost, after, done, (php rfl).1⟩

end Machine

end Mos6502
