/-
This file says in which modes each instruction can work, and what is left of the machine where one
is refused. That is asked of every instruction in every mode, also where no opcode puts the two
together. An instruction works in exactly the modes that lead to the kind of operand it needs. In
the others nothing is stored, counted or set; only the program counter may have passed over the
instruction, where the mode has to be tried before it can be refused.
-/

import Mos6502.Proofs.Effect

namespace Mos6502

/-! ### Modes by instruction -/

/-- The modes that lead to a byte in memory which can be stored over. -/
def Mode.storable : List Mode :=
  [absolute, zeroPage, indirect, absoluteX, absoluteY, zeroPageX, zeroPageY, indirectX, indirectY]

namespace Mnemonic

/-- The modes in which an instruction can work. -/
def modes : Mnemonic → List Mode
  | lda | ldx | ldy | adc | sbc | and | ora | eor | cmp | cpx | cpy | bit =>
    .immediate :: Mode.storable
  | sta | stx | sty | inc | dec => Mode.storable
  | asl | lsr | rol | ror => .accumulator :: Mode.storable
  | bcc | bcs | beq | bne | bmi | bpl | bvc | bvs => [.relative]
  | jmp => [.absolute, .indirect]
  | jsr => [.absolute]
  | rts | rti | brk | nop | pha | php | pla | plp | clc | sec | cld | sed | cli | sei | clv
  | tax | tay | txa | tya | tsx | txs | inx | iny | dex | dey => [.implied]

/-- Whether the program counter has passed over an instruction when its mode is refused. Branches,
jumps and calls refuse a mode from its name; instructions on data in memory try the two modes that
may turn out to lead nowhere; and what has no operand tries every mode. -/
def passesRefused (mnemonic : Mnemonic) (mode : Mode) : Bool :=
  match mnemonic with
  | bcc | bcs | beq | bne | bmi | bpl | bvc | bvs | jmp | jsr => false
  | lda | ldx | ldy | adc | sbc | and | ora | eor | cmp | cpx | cpy | bit
  | sta | stx | sty | inc | dec | asl | lsr | rol | ror => mode ∈ [.implied, .accumulator]
  | _ => true

/-- The modes of an instruction are those that its operation accepts. -/
theorem accepts_iff (mnemonic : Mnemonic) (mode : Mode) :
    mnemonic.operation.accepts mode = true ↔ mode ∈ mnemonic.modes := by
  have table : ∀ mnemonic ∈ all, ∀ mode ∈ Mode.all,
      (mnemonic.operation.accepts mode = true ↔ mode ∈ mnemonic.modes) := by
    decide +kernel
  exact table _ mnemonic.mem_all _ mode.mem_all

/-- An instruction that is refused from the name of its mode is not passed over. -/
theorem refuses_eq (mnemonic : Mnemonic) {mode : Mode} (outside : mode ∉ mnemonic.modes) :
    mnemonic.operation.refuses mode = !mnemonic.passesRefused mode := by
  have table : ∀ mnemonic ∈ all, ∀ mode ∈ Mode.all, mode ∉ mnemonic.modes →
      mnemonic.operation.refuses mode = !mnemonic.passesRefused mode := by
    decide +kernel
  exact table _ mnemonic.mem_all _ mode.mem_all outside

end Mnemonic

/-! ### Refusals -/

/-- In a mode that is not accepted, the operand does not suit the operation. -/
theorem Operation.perform?_of_not_accepts {operation : Operation} {mode : Mode}
    (unaccepted : operation.accepts mode = false) (welcome : operation.refuses mode = false)
    (machine : Machine) : operation.perform? (machine.operand mode) = none := by
  cases operation <;> cases mode <;> cases unaccepted <;> cases welcome <;> rfl

namespace Machine

/-- The part of the machine that a refused instruction leaves alone. -/
structure Untouched (machine left : Machine) : Prop where
  a : left.a = machine.a
  x : left.x = machine.x
  y : left.y = machine.y
  sp : left.sp = machine.sp
  status : left.status = machine.status
  memory : left.memory = machine.memory
  cycles : left.cycles = machine.cycles
  lastCycles : left.lastCycles = machine.lastCycles
  currentOpcode : left.currentOpcode = machine.currentOpcode

/-- In a mode that is not accepted, an instruction is refused, passed over or not. -/
theorem execute_of_not_accepts {mnemonic : Mnemonic} {mode : Mode}
    (unaccepted : mnemonic.operation.accepts mode = false) (machine : Machine) :
    execute mnemonic mode machine = .error (.invalidMode mnemonic mode)
      (if mnemonic.operation.refuses mode then machine else machine.advance mode) := by
  cases welcome : mnemonic.operation.refuses mode with
  | true => simp only [execute, welcome, if_true]
  | false =>
    have unsuitable := Operation.perform?_of_not_accepts unaccepted welcome machine
    simp only [execute, welcome, unsuitable, Bool.false_eq_true, if_false]

/-- An instruction succeeds in exactly its modes, whatever the state of the machine. In another mode
the refusal names the instruction and the mode, and leaves all but the program counter alone; that
is past the instruction if the mode had to be tried, and unchanged otherwise. -/
theorem execute_in_modes (machine : Machine) (mnemonic : Mnemonic) (mode : Mode) :
    ((∃ after, execute mnemonic mode machine = .ok () after) ↔ mode ∈ mnemonic.modes) ∧
    (mode ∉ mnemonic.modes → ∃ left,
      execute mnemonic mode machine = .error (.invalidMode mnemonic mode) left ∧
      machine.Untouched left ∧
      left.pc =
        if mnemonic.passesRefused mode then machine.pc + .ofNat mode.size else machine.pc) := by
  have known := mnemonic.accepts_iff mode
  cases accepted : mnemonic.operation.accepts mode with
  | true =>
    have inside : mode ∈ mnemonic.modes := known.mp accepted
    exact ⟨⟨fun _ => inside, fun _ => ⟨_, execute_of_accepts accepted machine⟩⟩,
      fun outside => absurd inside outside⟩
  | false =>
    have outside : mode ∉ mnemonic.modes := fun inside => by
      rw [accepted] at known
      cases known.mpr inside
    have refused := execute_of_not_accepts accepted machine
    have past : machine.pc + .ofNat mode.size = (machine.advance mode).pc := by
      cases mode <;> rfl
    rw [mnemonic.refuses_eq outside] at refused
    refine ⟨⟨?_, fun inside => absurd inside outside⟩, fun _ => ⟨_, refused, ?_⟩⟩
    · rintro ⟨after, done⟩
      cases done.symm.trans refused
    · rw [past]
      cases mnemonic.passesRefused mode <;> exact ⟨by constructor <;> rfl, rfl⟩

/-- A BRK at the last address that is asked to find an operand beyond the end of the address space
pushes nothing, but is passed over; a JSR through a pointer is not. -/
theorem execute_in_modes_wrapped :
    let machine : Machine := { pc := 0xFFFF, memory := Memory.empty }
    (∃ left, execute .brk .absoluteX machine = .error (.invalidMode .brk .absoluteX) left ∧
      left.pc = 0x0002 ∧ left.sp = 0 ∧ left.memory = Memory.empty) ∧
    ∃ left, execute .jsr .indirect machine = .error (.invalidMode .jsr .indirect) left ∧
      left.pc = 0xFFFF ∧ left.sp = 0 ∧ left.memory = Memory.empty := by
  intro machine
  obtain ⟨_, interrupts⟩ := execute_in_modes machine .brk .absoluteX
  obtain ⟨_, calls⟩ := execute_in_modes machine .jsr .indirect
  obtain ⟨interrupted, refused, untouched, passed⟩ := interrupts (by decide)
  obtain ⟨called, refusedCall, untouchedCall, stayed⟩ := calls (by decide)
  exact ⟨⟨interrupted, refused, passed.trans (by decide), untouched.sp, untouched.memory⟩,
    called, refusedCall, stayed, untouchedCall.sp, untouchedCall.memory⟩

end Machine

end Mos6502
