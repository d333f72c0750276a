/-
This file proves that what an instruction pushes, its counterpart pulls, whatever is executed in
between. The one that pulls only has to find the stack pointer where the other left it, and the
pushed bytes in their places; then it brings back the stack pointer and what the bytes stand for.
Both the stack pointer and the program counter may go round in between.
-/

import Mos6502.Proofs.StatusInvariant

namespace Mos6502

/-- A status register that is pushed and pulled comes back without Break. -/
theorem Status.ofPulled_pushed {status : Status} (held : status.get .reserved = true) :
    ofPulled status.pushed = status.set .brk false := by
  have each : ∀ bits : UInt8, (bits &&& 0x20 != 0) = true →
      ((bits ||| 0x30) ||| 0x20) &&& ~~~0x10 = bits &&& ~~~0x10 :=
    forall_byte (by decide +kernel)
  exact congrArg Status.mk (each status.bits held)

/-! ### Bytes in their places -/

/-- Bytes that were pushed one after the other are where they were put. -/
def Memory.Holds (memory : Memory) (sp : UInt8) : List UInt8 → Prop
  | [] => True
  | value :: rest => memory.read (stackAddress sp) = value ∧ memory.Holds (sp - 1) rest

theorem Memory.holds_of_pushes {memory : Memory} {sp : UInt8} {values : List UInt8}
    (unchanged : ∀ write ∈ pushes sp values, memory.read write.address = write.value) :
    memory.Holds sp values := by
  induction values generalizing sp with
  | nil => trivial
  | cons value rest inductionHypothesis =>
    refine ⟨unchanged ⟨stackAddress sp, value⟩ List.mem_cons_self, ?_⟩
    exact inductionHypothesis fun write member => unchanged write (List.mem_cons_of_mem _ member)

namespace Machine

section

variable (machine : Machine) {sp : UInt8}

/-- A machine whose stack pointer lies below a byte pulls that byte. -/
theorem pull_of_holds {value : UInt8} (below : machine.sp = sp - 1)
    (held : machine.memory.Holds sp [value]) :
    machine.pull = (value, machine.drop) ∧ machine.drop.sp = sp := by
  have above : machine.sp + 1 = sp := by rw [below, UInt8.sub_add_cancel]
  refine ⟨?_, above⟩
  show (machine.memory.read (stackAddress (machine.sp + 1)), machine.drop) = _
  rw [above, held.1]

/-- A machine whose stack pointer lies below a word pulls that word. -/
theorem pullWord_of_holds {value : UInt16} (below : machine.sp = sp - 1 - 1)
    (held : machine.memory.Holds sp [highByte value, lowByte value]) :
    machine.pullWord = (value, machine.drop.drop) ∧ machine.drop.drop.sp = sp := by
  obtain ⟨high, low, _⟩ := held
  obtain ⟨first, dropped⟩ := machine.pull_of_holds below ⟨low, trivial⟩
  obtain ⟨second, bottom⟩ := machine.drop.pull_of_holds dropped ⟨high, trivial⟩
  refine ⟨?_, bottom⟩
  rw [pullWord, first]
  dsimp only
  rw [second, wordOf_lowByte_highByte]

end

/-! ### What is pushed -/

section

variable {machine : Machine} {push : Opcode}
  (found : Opcode.ofByte? machine.nextOpcode = some push)

include found

theorem writes_jsr (calls : push.mnemonic = .jsr) :
    machine.writes push =
        pushes machine.sp [highByte (machine.pc + 3 - 1), lowByte (machine.pc + 3 - 1)] ∧
      (machine.stepped push).sp = machine.sp - 1 - 1 := by
  obtain ⟨mode, effect⟩ := executed_of_call found (congrArg Mnemonic.operation calls)
  rw [writes, calls, mode]
  exact ⟨rfl, congrArg Machine.sp effect⟩

theorem writes_brk (interrupts : push.mnemonic = .brk) :
    machine.writes push = pushes machine.sp [highByte (machine.pc + 1 + 1),
        lowByte (machine.pc + 1 + 1), machine.status.pushed] ∧
      (machine.stepped push).sp = machine.sp - 1 - 1 - 1 := by
  obtain ⟨mode, effect⟩ := executed_of_action found (congrArg Mnemonic.operation interrupts)
  rw [writes, interrupts, mode]
  exact ⟨rfl, congrArg Machine.sp effect⟩

theorem writes_php (pushesStatus : push.mnemonic = .php) :
    machine.writes push = pushes machine.sp [machine.status.pushed] ∧
      (machine.stepped push).sp = machine.sp - 1 := by
  obtain ⟨mode, effect⟩ := executed_of_action found (congrArg Mnemonic.operation pushesStatus)
  rw [writes, pushesStatus, mode]
  exact ⟨rfl, congrArg Machine.sp effect⟩

theorem writes_pha (pushesAccumulator : push.mnemonic = .pha) :
    machine.writes push = pushes machine.sp [machine.a] ∧
      (machine.stepped push).sp = machine.sp - 1 := by
  obtain ⟨mode, effect⟩ := executed_of_action found (congrArg Mnemonic.operation pushesAccumulator)
  rw [writes, pushesAccumulator, mode]
  exact ⟨rfl, congrArg Machine.sp effect⟩

end

/-! ### What is pulled -/

section

variable {later : Machine} {pull : Opcode} {sp : UInt8}
  (found : Opcode.ofByte? later.nextOpcode = some pull)

include found

theorem stepped_rts {value : UInt16} (returns : pull.mnemonic = .rts)
    (height : later.sp = sp - 1 - 1)
    (held : later.memory.Holds sp [highByte value, lowByte value]) :
    (later.stepped pull).sp = sp ∧ (later.stepped pull).pc = value + 1 := by
  obtain ⟨_, effect⟩ := executed_of_action found (congrArg Mnemonic.operation returns)
  obtain ⟨word, bottom⟩ :=
    (later.fetch.clearPenalties.advance .implied).pullWord_of_holds height held
  rw [act, returnFromSubroutine, word] at effect
  exact ⟨(congrArg Machine.sp effect).trans bottom, congrArg Machine.pc effect⟩

theorem stepped_rti {value : UInt16} {bits : UInt8} (returns : pull.mnemonic = .rti)
    (height : later.sp = sp - 1 - 1 - 1)
    (held : later.memory.Holds sp [highByte value, lowByte value, bits]) :
    (later.stepped pull).sp = sp ∧ (later.stepped pull).pc = value ∧
      (later.stepped pull).status = .ofPulled bits := by
  obtain ⟨high, low, last⟩ := held
  obtain ⟨_, effect⟩ := executed_of_action found (congrArg Mnemonic.operation returns)
  obtain ⟨byte, dropped⟩ :=
    (later.fetch.clearPenalties.advance .implied).pull_of_holds height last
  obtain ⟨word, bottom⟩ := pullWord_of_holds
    ((later.fetch.clearPenalties.advance .implied).drop.mapStatus fun _ => .ofPulled bits)
    dropped ⟨high, low, trivial⟩
  rw [act, returnFromInterrupt, pullStatus, byte] at effect
  dsimp only at effect
  rw [word] at effect
  exact ⟨(congrArg Machine.sp effect).trans bottom, congrArg Machine.pc effect,
    congrArg Machine.status effect⟩

theorem stepped_plp {bits : UInt8} (pullsStatus : pull.mnemonic = .plp)
    (height : later.sp = sp - 1) (held : later.memory.Holds sp [bits]) :
    (later.stepped pull).sp = sp ∧ (later.stepped pull).status = .ofPulled bits := by
  obtain ⟨_, effect⟩ := executed_of_action found (congrArg Mnemonic.operation pullsStatus)
  obtain ⟨byte, bottom⟩ :=
    (later.fetch.clearPenalties.advance .implied).pull_of_holds height held
  rw [act, pullStatus, byte] at effect
  exact ⟨(congrArg Machine.sp effect).trans bottom, congrArg Machine.status effect⟩

theorem stepped_pla {value : UInt8} (pullsAccumulator : pull.mnemonic = .pla)
    (height : later.sp = sp - 1) (held : later.memory.Holds sp [value]) :
    (later.stepped pull).sp = sp ∧ (later.stepped pull).a = value ∧
      (later.stepped pull).status = later.status.updateZeroNegative value := by
  obtain ⟨_, effect⟩ := executed_of_action found (congrArg Mnemonic.operation pullsAccumulator)
  obtain ⟨byte, bottom⟩ :=
    (later.fetch.clearPenalties.advance .implied).pull_of_holds height held
  rw [act, byte] at effect
  exact ⟨(congrArg Machine.sp effect).trans bottom, congrArg Machine.a effect,
    congrArg Machine.status effect⟩

end

/-! ### Counterparts -/

/-- What comes back of a machine when the bytes are pulled that an instruction pushed. -/
def Restored (before after : Machine) : Mnemonic → Prop
  | .jsr => after.pc = before.pc + 3
  | .brk => after.pc = before.pc + 2 ∧ after.status = before.status.set .brk false
  | .php => after.status = before.status.set .brk false
  | .pha =>
    after.a = before.a ∧ after.status.get .zero = (before.a == 0) ∧
      after.status.get .negative = (before.a &&& 0x80 != 0)
  | _ => True

/-- What an instruction pushes in a session, its counterpart pulls, if it finds the stack pointer
and the pushed bytes as that instruction left them. The stack pointer comes back, and so does what
was pushed: a subroutine returns to the instruction after the call and an interrupt to the second
byte after the BRK, a status register comes back without Break, and the accumulator with Zero and
Negative set from it. -/
theorem step_restores {origin : Machine} (built : Built origin) (calls : List Call)
    {push pull : Opcode} (counterparts : (push.mnemonic, pull.mnemonic) ∈
      [(.jsr, .rts), (.brk, .rti), (.php, .plp), (.pha, .pla)]) :
    let machine := origin.afterCalls calls
    ∀ (cost : UInt8) (pushed later : Machine),
      Opcode.ofByte? machine.nextOpcode = some push → machine.step = .ok cost pushed →
      later.initialized = true → Opcode.ofByte? later.nextOpcode = some pull →
      later.sp = pushed.sp →
      (∀ address ∈ machine.written push,
        later.memory.read address = pushed.memory.read address) →
      ∃ cost after, later.step = .ok cost after ∧ after.sp = machine.sp ∧
        machine.Restored after push.mnemonic := by
  intro machine cost pushed later pushFound done on pullFound height unchanged
  have reserved : machine.status.get .reserved = true := reserved_afterCalls built calls
  obtain ⟨_, known, sameOpcode, rfl, rfl⟩ := opcode_of_step done
  cases sameOpcode.symm.trans pushFound
  have held {values : List UInt8} (pushes : machine.writes push = pushes machine.sp values) :
      later.memory.Holds machine.sp values := by
    refine Memory.holds_of_pushes fun write member => ?_
    rw [← pushes] at member
    rw [unchanged _ (map_address_writes pushFound ▸ List.mem_map_of_mem member)]
    exact read_stepped_of_mem_writes member
  refine ⟨_, _, step_of_opcode on pullFound, ?_⟩
  simp only [List.mem_cons, Prod.mk.injEq, List.not_mem_nil, or_false] at counterparts
  rcases counterparts with
    ⟨isPush, isPull⟩ | ⟨isPush, isPull⟩ | ⟨isPush, isPull⟩ | ⟨isPush, isPull⟩ <;> rw [isPush]
  · obtain ⟨pushes, sp⟩ := writes_jsr pushFound isPush
    obtain ⟨bottom, pc⟩ := stepped_rts pullFound isPull (height.trans sp) (held pushes)
    refine ⟨bottom, pc.trans ?_⟩
    exact UInt16.sub_add_cancel _ _
  · obtain ⟨pushes, sp⟩ := writes_brk pushFound isPush
    obtain ⟨bottom, pc, status⟩ := stepped_rti pullFound isPull (height.trans sp) (held pushes)
    refine ⟨bottom, pc.trans ?_, status.trans (Status.ofPulled_pushed reserved)⟩
    exact UInt16.add_assoc _ 1 1
  · obtain ⟨pushes, sp⟩ := writes_php pushFound isPush
    obtain ⟨bottom, status⟩ := stepped_plp pullFound isPull (height.trans sp) (held pushes)
    exact ⟨bottom, status.trans (Status.ofPulled_pushed reserved)⟩
  · obtain ⟨pushes, sp⟩ := writes_pha pushFound isPush
    obtain ⟨bottom, a, status⟩ := stepped_pla pullFound isPull (height.trans sp) (held pushes)
    refine ⟨bottom, a, ?_, ?_⟩
    · rw [status, Status.get_zero_updateZeroNegative]
    · rw [status, Status.get_negative_updateZeroNegative]

/-- A BRK at the last address with the stack pointer at zero: both go round, and an RTI at 0x0300
undoes that. -/
theorem step_restores_wrapped : ∃ origin, ofEntryPoint [] 0 0xFFFF = .ok origin ∧
    let machine := origin.afterCalls [.reset]
    machine.pc = 0xFFFF ∧ ∃ cost pushed, machine.step = .ok cost pushed ∧
      let later := { pushed with memory := pushed.memory.write 0x0300 0x40, pc := 0x0300 }
      ∃ cost after, later.step = .ok cost after ∧ after.sp = 0 ∧ after.pc = 1 ∧
        after.status = .initial := by
  have built : ofEntryPoint [] 0 0xFFFF =
      .ok { memory := Memory.empty.writeWord Memory.resetVector 0xFFFF } := rfl
  refine ⟨_, built, ?_⟩
  intro machine
  have pc : machine.pc = 0xFFFF := Memory.readWord_writeWord _ _ _
  have found : Opcode.ofByte? machine.nextOpcode = some ⟨.brk, .implied, 7⟩ := by
    have next : machine.nextOpcode = 0 := by
      show (Memory.empty.writeWord Memory.resetVector 0xFFFF).read machine.pc = 0
      rw [pc, Memory.writeWord, Memory.read_write_other _ _ (by decide),
        Memory.read_write_other _ _ (by decide), Memory.read_empty]
    rw [next]
    rfl
  have done := step_of_opcode (show machine.initialized = true from rfl) found
  refine ⟨pc, _, _, done, ?_⟩
  intro later
  have returns : Opcode.ofByte? later.nextOpcode = some ⟨.rti, .implied, 6⟩ := by
    have next : later.nextOpcode = 0x40 := Memory.read_write_self _ _ _
    rw [next]
    rfl
  have unchanged : ∀ address ∈ machine.written ⟨.brk, .implied, 7⟩,
      later.memory.read address = (machine.stepped ⟨.brk, .implied, 7⟩).memory.read address := by
    have offStack : (0x0300 : UInt16) ∉ [stackAddress 0, stackAddress 0xFF, stackAddress 0xFE] := by
      decide
    intro address member
    exact Memory.read_write_other _ _ fun same => offStack (same ▸ member)
  have on : later.initialized = true := machine.initialized_stepped ⟨.brk, .implied, 7⟩
  obtain ⟨cost, after, pulled, sp, back, status⟩ := step_restores (.ofEntryPoint built) [.reset]
    (by decide) _ _ later found done on returns rfl unchanged
  refine ⟨cost, after, pulled, sp, ?_, status⟩
  exact back.trans (congrArg (· + 2) pc)

end Machine

end Mos6502
