/-
This file says which bytes an instruction reads, and proves that no other byte has a part in what
it does. Those are its opcode, its operand bytes, the pointer to the operand, and what the operation
itself looks at: the byte that is worked on, the bytes that are pulled, or the interrupt vector. A
store does not look at the byte it replaces, and a jump does not look at where it goes. Of two
machines that differ in memory only, and not in these bytes, a step makes two that differ in memory
only, and not in the bytes that it stores.
-/

import Mos6502.Proofs.Addressing
import Mos6502.Proofs.Course
import Mos6502.Proofs.Lockstep

namespace Mos6502

/-! ### What operations read -/

/-- The addresses that an action reads. -/
def Action.reads (action : Action) (machine : Machine) : List UInt16 :=
  match action with
  | .pullAccumulator | .pullStatus => [stackAddress (machine.sp + 1)]
  | .returnFromSubroutine => [stackAddress (machine.sp + 1), stackAddress (machine.sp + 2)]
  | .returnFromInterrupt =>
    [stackAddress (machine.sp + 1), stackAddress (machine.sp + 2), stackAddress (machine.sp + 3)]
  | .interrupt => [Memory.interruptVector, Memory.interruptVector + 1]
  | _ => []

/-- The addresses that an operation reads. -/
def Operation.reads (operation : Operation) (operand : Operand) (machine : Machine) :
    List UInt16 :=
  match operation, operand with
  | .read _, .address target | .adjust _, .address target | .shift _, .address target => [target]
  | .implied action, .none => action.reads machine
  | _, _ => []

/-! ### Operations in other memory -/

/-- Two memories have the same bytes at some addresses. -/
def Memory.AgreeOn (addresses : List UInt16) (first second : Memory) : Prop :=
  ∀ address ∈ addresses, second.read address = first.read address

/-- After the same writes, memories agree where they did before, and wherever was written. -/
theorem Memory.read_writeEach_congr {first second : Memory} {writes : List Write}
    {address : UInt16}
    (same : second.read address = first.read address ∨ address ∈ writes.map (·.address)) :
    (second.writeEach writes).read address = (first.writeEach writes).read address := by
  induction writes generalizing first second with
  | nil => exact same.resolve_right List.not_mem_nil
  | cons write rest inductionHypothesis =>
    rw [writeEach_cons, writeEach_cons]
    apply inductionHypothesis
    rw [read_write, read_write]
    by_cases here : address = write.address
    · rw [if_pos here, if_pos here]
      exact Or.inl rfl
    · rw [if_neg here, if_neg here]
      exact same.imp_right fun member => (List.mem_cons.mp member).resolve_left here

section

variable (machine : Machine) {other : Memory}

theorem Machine.loadRegister_in_memory (register : Register) (value : UInt8) :
    { machine with memory := other }.loadRegister register value =
      { machine.loadRegister register value with memory := other } := by
  cases register <;> rfl

theorem Machine.chargeCrossing_in_memory : { machine with memory := other }.chargeCrossing =
    { machine.chargeCrossing with memory := other } := by
  unfold chargeCrossing
  split <;> rfl

theorem Machine.branchIf_in_memory (flag : Flag) (wanted : Bool) (target : UInt16) :
    { machine with memory := other }.branchIf flag wanted target =
      { machine.branchIf flag wanted target with memory := other } := by
  unfold branchIf
  dsimp only
  split
  · split <;> rfl
  · rfl

theorem Reading.effect_in_memory (reading : Reading) (value : UInt8) :
    reading.effect value { machine with memory := other } =
      { reading.effect value machine with memory := other } := by
  cases reading with
  | load register => exact machine.loadRegister_in_memory register value
  | compare register => cases register <;> rfl
  | _ => rfl

/-- What is noted when an instruction is passed over follows from the bytes that it reads. -/
theorem Machine.advance_in_memory {mode : Mode}
    (agree : Memory.AgreeOn (machine.operandPlaces mode ++ machine.pointerPlaces mode)
      machine.memory other) :
    { machine with memory := other }.advance mode =
      { machine.advance mode with memory := other } := by
  rw [advance, (operand_of_agreement agree).2]
  rfl

/-- Where an action goes is among the bytes that it reads. -/
theorem Action.destination?_in_memory {action : Action}
    (agree : Memory.AgreeOn (action.reads machine) machine.memory other) :
    action.destination? { machine with memory := other } = action.destination? machine := by
  have next (sp : UInt8) : sp + 1 + 1 = sp + 2 := UInt8.add_assoc sp 1 1
  have after (sp : UInt8) : sp + 2 + 1 = sp + 3 := UInt8.add_assoc sp 2 1
  cases action with
  | interrupt =>
    simp only [Memory.AgreeOn, reads, List.forall_mem_cons] at agree
    obtain ⟨low, high, _⟩ := agree
    rw [destination?, destination?, Memory.readWord, low, high, Memory.readWord]
  | returnFromSubroutine =>
    simp only [Memory.AgreeOn, reads, List.forall_mem_cons] at agree
    obtain ⟨low, high, _⟩ := agree
    rw [destination?, destination?, Memory.stackWord, next, low, high, Memory.stackWord, next]
  | returnFromInterrupt =>
    simp only [Memory.AgreeOn, reads, List.forall_mem_cons] at agree
    obtain ⟨_, low, high, _⟩ := agree
    rw [destination?, destination?, Memory.stackWord, after, low, high, Memory.stackWord, after]
  | _ => rfl

/-- What an action does follows from the bytes that it reads. -/
theorem Machine.act_in_memory {action : Action}
    (agree : Memory.AgreeOn (action.reads machine) machine.memory other) :
    { machine with memory := other }.act action =
      { machine.act action with memory := other.writeEach (action.writes machine) } := by
  -- Interrupts and returns are the actions that go somewhere.
  have course : ({ machine with memory := other }.act action).pc = (machine.act action).pc := by
    rw [pc_act, pc_act, Action.destination?_in_memory machine agree]
  let elsewhere (status : Status) (pc : UInt16) : Machine :=
    { machine.act action with
      memory := other.writeEach (action.writes machine)
      status
      pc }
  cases action with
  | transfer source target => cases source <;> exact machine.loadRegister_in_memory target _
  | adjust register delta => cases register <;> rfl
  | pullAccumulator =>
    show { machine.drop with memory := other }.loadRegister .a
      (other.read (stackAddress (machine.sp + 1))) = _
    rw [agree _ List.mem_cons_self]
    rfl
  | pullStatus =>
    show { machine.drop with memory := other }.mapStatus (fun _ =>
      .ofPulled (other.read (stackAddress (machine.sp + 1)))) = _
    rw [agree _ List.mem_cons_self]
    rfl
  | interrupt | returnFromSubroutine => exact congrArg (elsewhere _) course
  | returnFromInterrupt =>
    have status := congrArg Status.ofPulled (agree _ List.mem_cons_self)
    exact congrArg₂ elsewhere status course
  | _ => rfl

/-- What an operation does follows from the bytes that it reads. -/
theorem Operation.effect_in_memory {operation : Operation} {operand : Operand}
    (agree : Memory.AgreeOn (operation.reads operand machine) machine.memory other) :
    operation.effect operand { machine with memory := other } =
      { operation.effect operand machine with
        memory := other.writeEach (operation.writes operand machine) } := by
  cases operation with
  | read reading =>
    cases operand with
    | address target =>
      rw [effect, machine.chargeCrossing_in_memory, agree _ List.mem_cons_self,
        reading.effect_in_memory]
      rfl
    | _ => rfl
  | adjust delta =>
    cases operand with
    | address target =>
      have value : other.read target = machine.memory.read target := agree _ List.mem_cons_self
      rw [effect, Machine.adjustAt, value]
      rfl
    | _ => rfl
  | shift move =>
    cases operand with
    | address target =>
      have value : other.read target = machine.memory.read target := agree _ List.mem_cons_self
      rw [effect, Shift.effectAt, value]
      rfl
    | _ => rfl
  | branch flag wanted =>
    cases operand with
    | address target => exact machine.branchIf_in_memory flag wanted target
    | _ => rfl
  | implied action =>
    cases operand with
    | none => exact machine.act_in_memory agree
    | _ => rfl
  | _ => cases operand <;> rfl

end

/-! ### What instructions read -/

namespace Machine

/-- The addresses that the operation at the program counter reads. -/
def dataPlaces (machine : Machine) (opcode : Opcode) : List UInt16 :=
  match opcode.mnemonic with
  | .lda | .ldx | .ldy | .adc | .sbc | .and | .ora | .eor | .cmp | .cpx | .cpy | .bit
  | .inc | .dec => [(machine.operand opcode.mode).target]
  | .asl | .lsr | .rol | .ror =>
    if opcode.mode = .accumulator then [] else [(machine.operand opcode.mode).target]
  | .pla | .plp => [stackAddress (machine.sp + 1)]
  | .rts => [stackAddress (machine.sp + 1), stackAddress (machine.sp + 2)]
  | .rti =>
    [stackAddress (machine.sp + 1), stackAddress (machine.sp + 2), stackAddress (machine.sp + 3)]
  | .brk => [0xFFFE, 0xFFFF]
  | _ => []

/-- The addresses that the next step reads. -/
def readPlaces (machine : Machine) : List UInt16 :=
  machine.pc ::
    match Opcode.ofByte? machine.nextOpcode with
    | some opcode =>
      machine.operandPlaces opcode.mode ++ machine.pointerPlaces opcode.mode ++
        machine.dataPlaces opcode
    | none => []

/-- The bytes that the next step stores. -/
def stores (machine : Machine) : List Write :=
  match Opcode.ofByte? machine.nextOpcode with
  | some opcode => machine.writes opcode
  | none => []

/-- The table lists what the operations read. -/
theorem reads_eq_dataPlaces {machine : Machine} {opcode : Opcode}
    (found : Opcode.ofByte? machine.nextOpcode = some opcode) :
    opcode.mnemonic.operation.reads (machine.operand opcode.mode)
        (machine.fetch.clearPenalties.advance opcode.mode) =
      machine.dataPlaces opcode := by
  have accepted := Opcode.accepts_of_ofByte? found
  obtain ⟨mnemonic, mode, cycles⟩ := opcode
  unfold dataPlaces
  dsimp only at accepted ⊢
  cases mnemonic with
  | lda | ldx | ldy | adc | sbc | and | ora | eor | cmp | cpx | cpy | bit | inc | dec =>
    rw [machine.operand_of_accepts accepted rfl rfl]
    rfl
  | asl | lsr | rol | ror =>
    have notImplied : mode ≠ .implied := by
      rintro rfl
      cases accepted
    by_cases accumulator : mode = .accumulator
    · subst accumulator
      rfl
    · rw [machine.operand_eq_address notImplied accumulator]
      exact (if_neg accumulator).symm
  | pla | plp | rts | rti | brk =>
    cases mode <;> cases accepted
    rfl
  | _ => cases machine.operand mode <;> rfl

/-! ### Steps in other memory -/

section

variable {machine : Machine} {opcode : Opcode} {other : Memory}
  (found : Opcode.ofByte? machine.nextOpcode = some opcode)
  (agree : Memory.AgreeOn machine.readPlaces machine.memory other)

include agree

/-- The same opcode is found in both memories. -/
theorem nextOpcode_in_memory : { machine with memory := other }.nextOpcode = machine.nextOpcode :=
  agree machine.pc List.mem_cons_self

theorem fetch_in_memory : { machine with memory := other }.fetch =
    { machine.fetch with memory := other } := by
  rw [fetch, nextOpcode_in_memory agree]
  rfl

include found

/-- What an instruction does follows from the bytes that it reads. -/
theorem executed_in_memory : { machine with memory := other }.executed opcode =
    { machine.executed opcode with memory := other.writeEach (machine.writes opcode) } := by
  have places : machine.readPlaces = machine.pc :: (machine.operandPlaces opcode.mode ++
      machine.pointerPlaces opcode.mode ++ machine.dataPlaces opcode) := by
    rw [readPlaces, found]
  have each := agree
  rw [places, Memory.AgreeOn, List.forall_mem_cons, List.forall_mem_append] at each
  obtain ⟨_, operandAgrees, dataAgrees⟩ := each
  rw [← reads_eq_dataPlaces found] at dataAgrees
  have sameOperand : { machine with memory := other }.operand opcode.mode =
      machine.operand opcode.mode := (operand_of_agreement operandAgrees).1
  rw [executed, sameOperand, fetch_in_memory agree]
  show Operation.effect _ _
    ({ machine.fetch.clearPenalties with memory := other }.advance opcode.mode) = _
  rw [machine.fetch.clearPenalties.advance_in_memory operandAgrees,
    Operation.effect_in_memory _ dataAgrees]
  rfl

theorem cost_in_memory :
    { machine with memory := other }.cost opcode = machine.cost opcode := by
  rw [cost, executed_in_memory found agree, cost]

theorem stepped_in_memory : { machine with memory := other }.stepped opcode =
    { machine.stepped opcode with memory := other.writeEach (machine.writes opcode) } := by
  rw [stepped, cost_in_memory found agree, executed_in_memory found agree]
  rfl

end

/-- What the same step in two memories leaves: the same bytes are stored in both, and the machines
still differ in nothing but memory. -/
structure Alongside (machine : Machine) (other : Memory) (after otherAfter : Machine) : Prop where
  /-- The bytes are stored in the one memory. -/
  stored : after.memory = machine.memory.writeEach machine.stores
  /-- They are stored in the other one, too, and all the rest is the same. -/
  otherwise : otherAfter = { after with memory := other.writeEach machine.stores }
  /-- The memories agree where they did before, or where bytes were stored. -/
  agree : ∀ address, (other.read address = machine.memory.read address ∨
      address ∈ machine.stores.map (·.address)) →
    otherAfter.memory.read address = after.memory.read address

theorem alongside_of_stored {machine after otherAfter : Machine} {other : Memory}
    (stored : after.memory = machine.memory.writeEach machine.stores)
    (otherwise : otherAfter = { after with memory := other.writeEach machine.stores }) :
    machine.Alongside other after otherAfter := by
  refine ⟨stored, otherwise, fun address same => ?_⟩
  rw [otherwise, stored]
  exact Memory.read_writeEach_congr same

/-- A step reads only the places of its instruction: in another memory that has the same bytes there
it has the same result, costs the same, changes registers and flags in the same way, and stores the
same bytes. -/
theorem step_in_memory {machine : Machine} {other : Memory} (on : machine.initialized = true)
    (agree : ∀ address ∈ machine.readPlaces, other.read address = machine.memory.read address) :
    Alike (· = ·) (machine.Alongside other) machine.step { machine with memory := other }.step := by
  have sameOpcode := nextOpcode_in_memory agree
  rcases machine.step_cases with ⟨off, _⟩ | ⟨_, unknown, refused⟩ | ⟨_, opcode, found, done⟩
  · exact absurd (off.symm.trans on) Bool.false_ne_true
  · have nothing : machine.stores = [] := by
      rw [stores, unknown]
    have otherRefused : { machine with memory := other }.step = .error _ _ :=
      step_of_undocumented on (sameOpcode ▸ unknown)
    rw [refused, otherRefused, sameOpcode, fetch_in_memory agree]
    refine Alike.error (alongside_of_stored ?_ ?_) <;> rw [nothing] <;> rfl
  · have bytes : machine.stores = machine.writes opcode := by
      rw [stores, found]
    have otherDone : { machine with memory := other }.step = .ok _ _ :=
      step_of_opcode on (sameOpcode ▸ found)
    rw [done, otherDone, cost_in_memory found agree, stepped_in_memory found agree]
    refine Alike.ok rfl (alongside_of_stored ?_ ?_) <;> rw [bytes]
    exact machine.memory_stepped opcode

/-- A store does not look at the byte it replaces: whatever that is, it is the same afterwards, and
so are the flags. -/
theorem step_in_memory_replaced :
    let machine : Machine :=
      { a := 7, initialized := true, memory := Memory.empty.writeRange 0 [0x85, 0x80] }
    let other := machine.memory.write 0x0080 0xFF
    (∀ address ∈ machine.readPlaces, other.read address = machine.memory.read address) ∧
    ∃ cost after otherAfter, machine.step = .ok cost after ∧
      { machine with memory := other }.step = .ok cost otherAfter ∧
      otherAfter.status = after.status ∧ after.memory.read 0x0080 = 7 ∧
      otherAfter.memory.read 0x0080 = 7 := by
  intro machine other
  have sta : Opcode.ofByte? machine.nextOpcode = some ⟨.sta, .zeroPage, 3⟩ := by
    have first : machine.nextOpcode = 0x85 := by
      simp [machine, nextOpcode, Memory.writeRange, Memory.read_write]
    rw [first]
    rfl
  have byte : machine.memory.read 1 = 0x80 := by
    simp [machine, Memory.writeRange]
  have bytes : machine.stores = [⟨0x0080, 7⟩] := by
    rw [stores, sta]
    show [Write.mk (machine.memory.read 1).toUInt16 7] = _
    rw [byte]
    rfl
  have places : machine.readPlaces = [0, 1] := by
    rw [readPlaces, sta]
    rfl
  have agree : ∀ address ∈ machine.readPlaces,
      other.read address = machine.memory.read address := by
    intro address member
    rw [places] at member
    refine Memory.read_write_other _ _ ?_
    rintro rfl
    exact absurd member (by decide)
  have alike := step_in_memory (show machine.initialized = true from rfl) agree
  have done := step_of_opcode (show machine.initialized = true from rfl) sta
  rw [done] at alike
  obtain ⟨cost, otherAfter, otherDone, rfl, alongside⟩ := alike.of_ok
  have stored : (machine.stepped ⟨.sta, .zeroPage, 3⟩).memory.read 0x0080 = 7 := by
    rw [alongside.stored, bytes]
    exact Memory.read_write_self _ _ _
  refine ⟨agree, _, _, otherAfter, done, otherDone, ?_, stored, ?_⟩
  · rw [alongside.otherwise]
  · rw [alongside.agree _ (Or.inr (by rw [bytes]; decide)), stored]

end Machine

end Mos6502
