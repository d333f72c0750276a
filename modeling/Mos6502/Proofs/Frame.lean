/-
This file says what an instruction may change, and proves that it changes nothing else. Beside each
operation stand the bytes that it stores and the registers and flags that it sets, as data that is
read off the operation without executing it. What an instruction may change then follows from which
operation it is, and the tables for whole instructions are checked against that, one by one.
-/

import Mos6502.Proofs.Step

namespace Mos6502

/-! ### Writes -/

/-- A byte that goes to memory, and where it goes. -/
structure Write where
  address : UInt16
  value : UInt8
deriving DecidableEq

namespace Memory

/-- The memory after writes made one after the other. -/
def writeEach (memory : Memory) (writes : List Write) : Memory :=
  writes.foldl (fun memory write => memory.write write.address write.value) memory

theorem writeEach_cons (memory : Memory) (write : Write) (rest : List Write) :
    memory.writeEach (write :: rest) =
      (memory.write write.address write.value).writeEach rest := rfl

theorem read_writeEach_other (memory : Memory) {writes : List Write} {address : UInt16}
    (outside : address ∉ writes.map (·.address)) :
    (memory.writeEach writes).read address = memory.read address := by
  induction writes generalizing memory with
  | nil => rfl
  | cons write rest inductionHypothesis =>
    rw [List.map_cons, List.mem_cons, not_or] at outside
    rw [writeEach_cons, inductionHypothesis _ outside.2, read_write_other _ _ outside.1]

/-- Writes to different addresses are all seen afterwards. -/
theorem read_writeEach_self (memory : Memory) {writes : List Write} {write : Write}
    (apart : (writes.map (·.address)).Nodup) (member : write ∈ writes) :
    (memory.writeEach writes).read write.address = write.value := by
  induction writes generalizing memory with
  | nil => cases member
  | cons head rest inductionHypothesis =>
    rw [List.map_cons, List.nodup_cons] at apart
    rw [writeEach_cons]
    rcases List.mem_cons.mp member with rfl | inRest
    · rw [read_writeEach_other _ apart.1, read_write_self]
    · exact inductionHypothesis _ apart.2 inRest

end Memory

/-- Where bytes go that are pushed one after the other. -/
def pushes (sp : UInt8) : List UInt8 → List Write
  | [] => []
  | value :: rest => ⟨stackAddress sp, value⟩ :: pushes (sp - 1) rest

theorem sub_one_sub_one (sp : UInt8) : sp - 1 - 1 = sp - 2 := by
  revert sp
  exact forall_byte (by decide +kernel)

/-- Up to three pushes go to different places, also where they go round within the page. -/
theorem nodup_pushes (sp : UInt8) {values : List UInt8} (few : values.length ≤ 3) :
    ((pushes sp values).map (·.address)).Nodup := by
  have first : ∀ sp : UInt8, stackAddress sp ≠ stackAddress (sp - 1) :=
    forall_byte (by decide +kernel)
  have second : ∀ sp : UInt8, stackAddress sp ≠ stackAddress (sp - 1 - 1) :=
    forall_byte (by decide +kernel)
  match values, few with
  | [], _ => exact List.nodup_nil
  | [_], _ => simp [pushes]
  | [_, _], _ => simp [pushes, first]
  | [_, _, _], _ => simp [pushes, first, second]

/-! ### What penalties touch -/

theorem Machine.exists_chargeCrossing_eq (machine : Machine) :
    ∃ penalty, machine.chargeCrossing = { machine with penalty } := by
  unfold chargeCrossing
  split
  · exact ⟨_, rfl⟩
  · exact ⟨_, rfl⟩

/-- A branch, taken or not, changes nothing but the program counter and the penalty. -/
theorem Operation.exists_effect_branch_eq (machine : Machine) (flag : Flag) (wanted : Bool)
    (operand : Operand) : ∃ pc penalty, (branch flag wanted).effect operand machine =
      { machine with pc, penalty } := by
  cases operand with
  | address target =>
    rw [effect, Machine.branchIf]
    split
    · dsimp only
      split
      · exact ⟨_, _, rfl⟩
      · exact ⟨_, _, rfl⟩
    · exact ⟨_, _, rfl⟩
  | _ => exact ⟨_, _, rfl⟩

/-! ### What operations store -/

/-- The bytes that an action stores. -/
def Action.writes (action : Action) (machine : Machine) : List Write :=
  match action with
  | .pushAccumulator => pushes machine.sp [machine.a]
  | .pushStatus => pushes machine.sp [machine.status.pushed]
  | .interrupt =>
    pushes machine.sp
      [highByte (machine.pc + 1), lowByte (machine.pc + 1), machine.status.pushed]
  | _ => []

/-- The bytes that an operation stores. -/
def Operation.writes (operation : Operation) (operand : Operand) (machine : Machine) :
    List Write :=
  match operation, operand with
  | .store register, .address target => [⟨target, machine.register register⟩]
  | .adjust delta, .address target => [⟨target, machine.memory.read target + delta⟩]
  | .shift move, .address target =>
    [⟨target, move.result (machine.memory.read target) machine.status.carryBit⟩]
  | .call, .address _ =>
    pushes machine.sp [highByte (machine.pc - 1), lowByte (machine.pc - 1)]
  | .implied action, .none => action.writes machine
  | _, _ => []

section

variable (machine : Machine)

theorem Machine.memory_loadRegister (register : Register) (value : UInt8) :
    (machine.loadRegister register value).memory = machine.memory := by
  cases register <;> rfl

theorem Machine.memory_act (action : Action) :
    (machine.act action).memory = machine.memory.writeEach (action.writes machine) := by
  cases action with
  | transfer source target => exact machine.memory_loadRegister _ _
  | adjust register delta => exact machine.memory_loadRegister _ _
  | _ => rfl

theorem Reading.memory_effect (reading : Reading) (value : UInt8) :
    (reading.effect value machine).memory = machine.memory := by
  cases reading with
  | load register => exact machine.memory_loadRegister _ _
  | _ => rfl

/-- An operation changes the memory by its writes. -/
theorem Operation.memory_effect (operation : Operation) (operand : Operand) :
    (operation.effect operand machine).memory =
      machine.memory.writeEach (operation.writes operand machine) := by
  cases operation with
  | read reading =>
    cases operand with
    | address address =>
      rw [effect, reading.memory_effect, machine.chargeCrossing_memory]
      rfl
    | _ => rfl
  | branch flag wanted =>
    obtain ⟨_, _, same⟩ := exists_effect_branch_eq machine flag wanted operand
    rw [same]
    cases operand <;> rfl
  | implied action =>
    cases operand with
    | none => exact machine.memory_act action
    | _ => rfl
  | _ => cases operand <;> rfl

theorem Action.nodup_writes (action : Action) :
    ((action.writes machine).map (·.address)).Nodup := by
  cases action with
  | pushAccumulator => exact nodup_pushes _ (by simp)
  | pushStatus => exact nodup_pushes _ (by simp)
  | interrupt => exact nodup_pushes _ (by simp)
  | _ => exact List.nodup_nil

theorem Operation.nodup_writes (operation : Operation) (operand : Operand) :
    ((operation.writes operand machine).map (·.address)).Nodup := by
  cases operation with
  | call =>
    cases operand with
    | address target => exact nodup_pushes _ (by simp)
    | _ => exact List.nodup_nil
  | implied action =>
    cases operand with
    | none => exact action.nodup_writes machine
    | _ => exact List.nodup_nil
  | _ => cases operand <;> simp [writes]

end

/-! ### Registers that operations set -/

/-- The registers that a byte that is read may change. -/
def Reading.targets : Reading → List Register
  | .load register => [register]
  | .compare _ | .test => []
  | _ => [.a]

/-- The registers that an action may change. -/
def Action.targets : Action → List Register
  | .transfer _ target => [target]
  | .readStackPointer => [.x]
  | .adjust register _ => [register]
  | .pullAccumulator => [.a]
  | _ => []

/-- The registers that an operation may change. -/
def Operation.targets : Operation → Mode → List Register
  | .read reading, _ => reading.targets
  | .shift _, .accumulator => [.a]
  | .implied action, _ => action.targets
  | _, _ => []

section

variable (machine : Machine) {register : Register}

theorem Machine.register_loadRegister {target : Register} (value : UInt8)
    (other : register ≠ target) :
    (machine.loadRegister target value).register register = machine.register register := by
  revert other
  cases register <;> cases target <;> intro other <;> first | rfl | exact absurd rfl other

theorem Machine.register_act {action : Action} (outside : register ∉ action.targets) :
    (machine.act action).register register = machine.register register := by
  cases action with
  | transfer source target =>
    exact machine.register_loadRegister _ (List.ne_of_not_mem_cons outside)
  | readStackPointer => exact machine.register_loadRegister _ (List.ne_of_not_mem_cons outside)
  | adjust target delta =>
    exact machine.register_loadRegister _ (List.ne_of_not_mem_cons outside)
  | pullAccumulator =>
    exact machine.drop.register_loadRegister _ (List.ne_of_not_mem_cons outside)
  | _ => cases register <;> rfl

theorem Reading.register_effect {reading : Reading} (value : UInt8)
    (outside : register ∉ reading.targets) :
    (reading.effect value machine).register register = machine.register register := by
  cases reading with
  | compare held => cases register <;> rfl
  | test => cases register <;> rfl
  | _ => exact (Machine.register_loadRegister _ _ (List.ne_of_not_mem_cons outside)).trans rfl

/-- An operation leaves the registers alone that it does not set. -/
theorem Operation.register_effect {operation : Operation} (start : Machine) {mode : Mode}
    (outside : register ∉ operation.targets mode) :
    (operation.effect (start.operand mode) machine).register register =
      machine.register register := by
  cases operation with
  | read reading =>
    cases start.operand mode with
    | address address =>
      obtain ⟨_, same⟩ := machine.exists_chargeCrossing_eq
      rw [effect, Reading.register_effect _ _ outside, same]
      rfl
    | _ => rfl
  | shift move =>
    cases mode with
    | accumulator =>
      exact (Machine.register_loadRegister _ _ (List.ne_of_not_mem_cons outside)).trans rfl
    | _ => rfl
  | branch flag wanted =>
    obtain ⟨_, _, same⟩ := exists_effect_branch_eq machine flag wanted (start.operand mode)
    rw [same]
    rfl
  | implied action =>
    cases start.operand mode with
    | none => exact machine.register_act outside
    | _ => rfl
  | _ => cases start.operand mode <;> rfl

end

/-! ### The stack pointer -/

/-- Whether an action may change the stack pointer. -/
def Action.movesStack : Action → Bool
  | .writeStackPointer | .pushAccumulator | .pushStatus | .pullAccumulator | .pullStatus
  | .interrupt | .returnFromSubroutine | .returnFromInterrupt => true
  | _ => false

/-- Whether an operation may change the stack pointer. -/
def Operation.movesStack : Operation → Bool
  | .call => true
  | .implied action => action.movesStack
  | _ => false

section

variable (machine : Machine)

theorem Machine.sp_loadRegister (register : Register) (value : UInt8) :
    (machine.loadRegister register value).sp = machine.sp := by
  cases register <;> rfl

theorem Machine.sp_act {action : Action} (still : action.movesStack = false) :
    (machine.act action).sp = machine.sp := by
  cases action with
  | transfer source target => exact machine.sp_loadRegister _ _
  | adjust register delta => exact machine.sp_loadRegister _ _
  | readStackPointer | assign | idle => rfl
  | _ => cases still

theorem Reading.sp_effect (reading : Reading) (value : UInt8) :
    (reading.effect value machine).sp = machine.sp := by
  cases reading with
  | load register => exact machine.sp_loadRegister _ _
  | _ => rfl

theorem Operation.sp_effect {operation : Operation} (operand : Operand)
    (still : operation.movesStack = false) :
    (operation.effect operand machine).sp = machine.sp := by
  cases operation with
  | read reading =>
    cases operand with
    | address address =>
      obtain ⟨_, same⟩ := machine.exists_chargeCrossing_eq
      rw [effect, reading.sp_effect, same]
    | _ => rfl
  | branch flag wanted =>
    obtain ⟨_, _, same⟩ := exists_effect_branch_eq machine flag wanted operand
    rw [same]
  | call => cases still
  | implied action =>
    cases operand with
    | none => exact machine.sp_act still
    | _ => rfl
  | _ => cases operand <;> rfl

end

/-! ### Flags that operations set -/

/-- The flags that a byte that is read may change. -/
def Reading.flags : Reading → List Flag
  | .add | .subtract => [.carry, .overflow, .zero, .negative]
  | .compare _ => [.carry, .zero, .negative]
  | .test => [.overflow, .zero, .negative]
  | _ => [.zero, .negative]

/-- The flags that an action may change. -/
def Action.flags : Action → List Flag
  | .transfer _ _ | .readStackPointer | .adjust _ _ | .pullAccumulator => [.zero, .negative]
  | .assign flag _ => [flag]
  | .interrupt => [.interruptDisable]
  | .pullStatus | .returnFromInterrupt => Flag.all
  | _ => []

/-- The flags that an operation may change. -/
def Operation.flags : Operation → List Flag
  | .read reading => reading.flags
  | .adjust _ => [.zero, .negative]
  | .shift _ => [.carry, .zero, .negative]
  | .implied action => action.flags
  | _ => []

theorem Status.get_updateZeroNegative_other (status : Status) (result : UInt8) {flag : Flag}
    (outside : flag ∉ [.zero, .negative]) :
    (status.updateZeroNegative result).get flag = status.get flag := by
  simp only [List.mem_cons, List.not_mem_nil, or_false, not_or] at outside
  rw [updateZeroNegative, get_set_other _ _ outside.2, get_set_other _ _ outside.1]

theorem Status.get_zero_updateZeroNegative (status : Status) (result : UInt8) :
    (status.updateZeroNegative result).get .zero = (result == 0) := by
  rw [updateZeroNegative, get_set_other _ _ (by decide), get_set_self _ _ (by decide)]

theorem Status.get_negative_updateZeroNegative (status : Status) (result : UInt8) :
    (status.updateZeroNegative result).get .negative = (result &&& 0x80 != 0) := by
  rw [updateZeroNegative, get_set_self _ _ (by decide)]

section

variable (machine : Machine) {flag : Flag}

theorem Machine.get_status_loadRegister (register : Register) (value : UInt8)
    (outside : flag ∉ [.zero, .negative]) :
    (machine.loadRegister register value).status.get flag = machine.status.get flag := by
  cases register <;> exact machine.status.get_updateZeroNegative_other value outside

theorem Machine.get_status_addWithCarry (value : UInt8)
    (outside : flag ∉ [.carry, .overflow, .zero, .negative]) :
    (machine.addWithCarry value).status.get flag = machine.status.get flag := by
  have others := List.not_mem_of_not_mem_cons outside
  refine (get_status_loadRegister _ _ _ (List.not_mem_of_not_mem_cons others)).trans ?_
  exact (Status.get_set_other _ _ (List.ne_of_not_mem_cons others)).trans
    (Status.get_set_other _ _ (List.ne_of_not_mem_cons outside))

theorem Machine.get_status_act {action : Action} (outside : flag ∉ action.flags) :
    (machine.act action).status.get flag = machine.status.get flag := by
  cases action with
  | transfer source target => exact machine.get_status_loadRegister _ _ outside
  | readStackPointer => exact machine.get_status_loadRegister _ _ outside
  | adjust register delta => exact machine.get_status_loadRegister _ _ outside
  | pullAccumulator => exact machine.drop.get_status_loadRegister _ _ outside
  | assign => exact Status.get_set_other _ _ (List.ne_of_not_mem_cons outside)
  | interrupt => exact Status.get_set_other _ _ (List.ne_of_not_mem_cons outside)
  | pullStatus => exact absurd flag.mem_all outside
  | returnFromInterrupt => exact absurd flag.mem_all outside
  | _ => rfl

theorem Reading.get_status_effect {reading : Reading} (value : UInt8)
    (outside : flag ∉ reading.flags) :
    (reading.effect value machine).status.get flag = machine.status.get flag := by
  cases reading with
  | add => exact machine.get_status_addWithCarry _ outside
  | subtract => exact machine.get_status_addWithCarry _ outside
  | compare register =>
    exact (Status.get_updateZeroNegative_other _ _ (List.not_mem_of_not_mem_cons outside)).trans
      (Status.get_set_other _ _ (List.ne_of_not_mem_cons outside))
  | test =>
    simp only [flags, List.mem_cons, List.not_mem_nil, or_false, not_or] at outside
    refine (Status.get_set_other _ _ outside.1).trans ?_
    exact (Status.get_set_other _ _ outside.2.2).trans (Status.get_set_other _ _ outside.2.1)
  | _ => exact machine.get_status_loadRegister _ _ outside

/-- An operation leaves the flags alone that it does not set. -/
theorem Operation.get_status_effect {operation : Operation} (operand : Operand)
    (outside : flag ∉ operation.flags) :
    (operation.effect operand machine).status.get flag = machine.status.get flag := by
  cases operation with
  | read reading =>
    cases operand with
    | address address =>
      obtain ⟨_, same⟩ := machine.exists_chargeCrossing_eq
      rw [effect, Reading.get_status_effect _ _ outside, same]
    | _ => rfl
  | adjust delta =>
    cases operand with
    | address target => exact machine.status.get_updateZeroNegative_other _ outside
    | _ => rfl
  | shift move =>
    have notCarry := List.ne_of_not_mem_cons outside
    have others := List.not_mem_of_not_mem_cons outside
    cases operand with
    | accumulator =>
      exact (Machine.get_status_loadRegister _ _ _ others).trans (Status.get_set_other _ _ notCarry)
    | address target =>
      exact (Status.get_updateZeroNegative_other _ _ others).trans
        (Status.get_set_other _ _ notCarry)
    | none => rfl
  | branch flag wanted =>
    obtain ⟨_, _, same⟩ := exists_effect_branch_eq machine flag wanted operand
    rw [same]
  | implied action =>
    cases operand with
    | none => exact machine.get_status_act outside
    | _ => rfl
  | _ => cases operand <;> rfl

end

/-! ### Steps -/

namespace Machine

section

variable (machine : Machine) (opcode : Opcode)

/-- The bytes that the instruction at the program counter stores. -/
def writes : List Write :=
  opcode.mnemonic.operation.writes (machine.operand opcode.mode)
    (machine.fetch.clearPenalties.advance opcode.mode)

theorem memory_stepped :
    (machine.stepped opcode).memory = machine.memory.writeEach (machine.writes opcode) :=
  Operation.memory_effect _ _ _

theorem nodup_writes : ((machine.writes opcode).map (·.address)).Nodup :=
  Operation.nodup_writes _ _ _

variable {machine opcode}

/-- Every byte that the instruction stores is there afterwards. -/
theorem read_stepped_of_mem_writes {write : Write} (member : write ∈ machine.writes opcode) :
    (machine.stepped opcode).memory.read write.address = write.value := by
  rw [memory_stepped]
  exact Memory.read_writeEach_self _ (machine.nodup_writes opcode) member

theorem mem_targets_of_stepped {register : Register}
    (changed : (machine.stepped opcode).register register ≠ machine.register register) :
    register ∈ opcode.mnemonic.operation.targets opcode.mode := by
  refine Decidable.byContradiction fun outside => ?_
  refine changed ((Operation.register_effect _ machine outside).trans ?_)
  cases register <;> rfl

theorem movesStack_of_stepped (changed : (machine.stepped opcode).sp ≠ machine.sp) :
    opcode.mnemonic.operation.movesStack = true := by
  refine Decidable.byContradiction fun still => ?_
  exact changed (Operation.sp_effect _ _ (Bool.eq_false_iff.mpr still))

theorem mem_flags_of_stepped {flag : Flag}
    (changed : (machine.stepped opcode).status.get flag ≠ machine.status.get flag) :
    flag ∈ opcode.mnemonic.operation.flags := by
  refine Decidable.byContradiction fun outside => ?_
  exact changed (Operation.get_status_effect _ _ outside)

end

end Machine

/-! ### Instructions -/

/-- The address that an operand stands for; zero if it is none. -/
def Operand.target : Operand → UInt16
  | .address target => target
  | _ => 0

theorem Machine.operand_eq_address (machine : Machine) {mode : Mode} (notImplied : mode ≠ .implied)
    (notAccumulator : mode ≠ .accumulator) :
    machine.operand mode = .address (machine.operand mode).target := by
  cases mode with
  | implied => exact absurd rfl notImplied
  | accumulator => exact absurd rfl notAccumulator
  | _ => rfl

/-- What works on bytes in memory alone finds its operand there. -/
theorem Machine.operand_of_accepts (machine : Machine) {operation : Operation} {mode : Mode}
    (accepted : operation.accepts mode = true) (needsOne : operation.accepts .implied = false)
    (notHere : operation.accepts .accumulator = false) :
    machine.operand mode = .address (machine.operand mode).target := by
  refine machine.operand_eq_address ?_ ?_
  · rintro rfl
    cases accepted.symm.trans needsOne
  · rintro rfl
    cases accepted.symm.trans notHere

/-- The instructions that come to no result for Zero and Negative to describe. -/
def Mnemonic.withoutResult : List Mnemonic :=
  [sta, stx, sty, bcc, bcs, beq, bne, bmi, bpl, bvc, bvs, jmp, jsr, rts, pha, php, clc, sec, cld,
    sed, cli, sei, clv, txs, brk, nop]

namespace Machine

/-- The addresses that the instruction at the program counter writes. -/
def written (machine : Machine) (opcode : Opcode) : List UInt16 :=
  match opcode.mnemonic with
  | .sta | .stx | .sty | .inc | .dec => [(machine.operand opcode.mode).target]
  | .asl | .lsr | .rol | .ror =>
    if opcode.mode = .accumulator then [] else [(machine.operand opcode.mode).target]
  | .pha | .php => [stackAddress machine.sp]
  | .jsr => [stackAddress machine.sp, stackAddress (machine.sp - 1)]
  | .brk =>
    [stackAddress machine.sp, stackAddress (machine.sp - 1), stackAddress (machine.sp - 2)]
  | _ => []

theorem map_address_writes {machine : Machine} {opcode : Opcode}
    (found : Opcode.ofByte? machine.nextOpcode = some opcode) :
    (machine.writes opcode).map (·.address) = machine.written opcode := by
  have accepted := Opcode.accepts_of_ofByte? found
  obtain ⟨mnemonic, mode, cycles⟩ := opcode
  unfold writes written
  dsimp only at accepted ⊢
  cases mnemonic with
  | sta | stx | sty | inc | dec =>
    have inMemory : mode ≠ .implied ∧ mode ≠ .accumulator := by
      constructor <;> rintro rfl <;> cases accepted
    rw [machine.operand_eq_address inMemory.1 inMemory.2]
    rfl
  | asl | lsr | rol | ror =>
    have notImplied : mode ≠ .implied := by
      rintro rfl
      cases accepted
    by_cases accumulator : mode = .accumulator
    · subst accumulator
      rfl
    · rw [machine.operand_eq_address notImplied accumulator]
      exact (if_neg accumulator).symm
  | jsr =>
    cases mode <;> cases accepted
    rfl
  | pha | php =>
    cases mode <;> cases accepted
    rfl
  | brk =>
    cases mode <;> cases accepted
    rw [← sub_one_sub_one]
    rfl
  | _ => cases machine.operand mode <;> rfl

open Mnemonic in
/-- What an instruction may change in the machine, besides the program counter, the note of the
opcode and the counts of cycles. -/
structure Framed (machine : Machine) (opcode : Opcode) (after : Machine) : Prop where
  /-- The bytes that are stored go to the addresses of the instruction. -/
  addresses : (machine.writes opcode).map (·.address) = machine.written opcode
  /-- They are all there afterwards. -/
  stored : ∀ write ∈ machine.writes opcode, after.memory.read write.address = write.value
  /-- No other byte of the memory changes. -/
  kept : ∀ address ∉ machine.written opcode,
    after.memory.read address = machine.memory.read address
  a : after.a ≠ machine.a →
    opcode.mnemonic ∈ [lda, adc, sbc, and, ora, eor, pla, txa, tya] ∨
      opcode.mode = .accumulator ∧ opcode.mnemonic ∈ [asl, lsr, rol, ror]
  x : after.x ≠ machine.x → opcode.mnemonic ∈ [ldx, inx, dex, tax, tsx]
  y : after.y ≠ machine.y → opcode.mnemonic ∈ [ldy, iny, dey, tay]
  sp : after.sp ≠ machine.sp →
    opcode.mnemonic ∈ [txs, pha, php, pla, plp, jsr, rts, rti, brk]
  carry : after.status.get .carry ≠ machine.status.get .carry →
    opcode.mnemonic ∈ [adc, sbc, cmp, cpx, cpy, asl, lsr, rol, ror, clc, sec] ++ [plp, rti]
  overflow : after.status.get .overflow ≠ machine.status.get .overflow →
    opcode.mnemonic ∈ [adc, sbc, bit, clv] ++ [plp, rti]
  decimal : after.status.get .decimal ≠ machine.status.get .decimal →
    opcode.mnemonic ∈ [cld, sed] ++ [plp, rti]
  interruptDisable :
    after.status.get .interruptDisable ≠ machine.status.get .interruptDisable →
      opcode.mnemonic ∈ [cli, sei, brk] ++ [plp, rti]
  brk : after.status.get .brk ≠ machine.status.get .brk → opcode.mnemonic ∈ [plp, rti]
  reserved : after.status.get .reserved ≠ machine.status.get .reserved →
    opcode.mnemonic ∈ [plp, rti]
  zero : after.status.get .zero ≠ machine.status.get .zero →
    opcode.mnemonic ∉ withoutResult
  negative : after.status.get .negative ≠ machine.status.get .negative →
    opcode.mnemonic ∉ withoutResult
  timing : after.timing = machine.timing
  initialized : after.initialized = machine.initialized

/-- A defined opcode is executed to the end, and changes only what its instruction may change,
wherever its operand lies. -/
theorem step_framed {machine : Machine} {opcode : Opcode} (on : machine.initialized = true)
    (found : Opcode.ofByte? machine.nextOpcode = some opcode) :
    ∃ cost after, machine.step = .ok cost after ∧ machine.Framed opcode after := by
  refine ⟨_, _, step_of_opcode on found, ?_⟩
  have addresses := map_address_writes found
  -- Each table is checked for all instructions against what their operations may change.
  have registers (register : Register) (allowed : Mnemonic → Mode → Prop)
      (table : ∀ mnemonic ∈ Mnemonic.all, ∀ mode ∈ Mode.all,
        register ∈ mnemonic.operation.targets mode → allowed mnemonic mode)
      (changed : (machine.stepped opcode).register register ≠ machine.register register) :
      allowed opcode.mnemonic opcode.mode :=
    table _ (Mnemonic.mem_all _) _ (Mode.mem_all _) (mem_targets_of_stepped changed)
  have flags (flag : Flag) (allowed : Mnemonic → Prop)
      (table : ∀ mnemonic ∈ Mnemonic.all, flag ∈ mnemonic.operation.flags → allowed mnemonic)
      (changed : (machine.stepped opcode).status.get flag ≠ machine.status.get flag) :
      allowed opcode.mnemonic :=
    table _ (Mnemonic.mem_all _) (mem_flags_of_stepped changed)
  constructor
  case addresses => exact addresses
  case stored => exact fun write member => read_stepped_of_mem_writes member
  case kept =>
    intro address outside
    rw [← addresses] at outside
    rw [memory_stepped, Memory.read_writeEach_other _ outside]
  case a =>
    exact registers .a (fun mnemonic mode =>
      mnemonic ∈ [.lda, .adc, .sbc, .and, .ora, .eor, .pla, .txa, .tya] ∨
        mode = .accumulator ∧ mnemonic ∈ [.asl, .lsr, .rol, .ror]) (by decide +kernel)
  case x =>
    exact registers .x (fun mnemonic _ => mnemonic ∈ [.ldx, .inx, .dex, .tax, .tsx])
      (by decide +kernel)
  case y =>
    exact registers .y (fun mnemonic _ => mnemonic ∈ [.ldy, .iny, .dey, .tay])
      (by decide +kernel)
  case sp =>
    have table : ∀ mnemonic ∈ Mnemonic.all, mnemonic.operation.movesStack = true →
        mnemonic ∈ [.txs, .pha, .php, .pla, .plp, .jsr, .rts, .rti, .brk] := by
      decide +kernel
    exact fun changed => table _ (Mnemonic.mem_all _) (movesStack_of_stepped changed)
  case carry => exact flags .carry (· ∈ _) (by decide +kernel)
  case overflow => exact flags .overflow (· ∈ _) (by decide +kernel)
  case decimal => exact flags .decimal (· ∈ _) (by decide +kernel)
  case interruptDisable => exact flags .interruptDisable (· ∈ _) (by decide +kernel)
  case brk => exact flags .brk (· ∈ _) (by decide +kernel)
  case reserved => exact flags .reserved (· ∈ _) (by decide +kernel)
  case zero => exact flags .zero (· ∉ Mnemonic.withoutResult) (by decide +kernel)
  case negative => exact flags .negative (· ∉ Mnemonic.withoutResult) (by decide +kernel)
  case timing => exact machine.timing_stepped opcode
  case initialized => exact machine.initialized_stepped opcode

/-- A BRK with the stack pointer at zero goes round within the stack page and writes there only. -/
theorem step_framed_interrupt :
    let machine : Machine := { memory := Memory.empty, initialized := true }
    ∃ cost after, machine.step = .ok cost after ∧
      machine.written ⟨.brk, .implied, 7⟩ = [0x0100, 0x01FF, 0x01FE] ∧
      (∀ address ∉ [0x0100, 0x01FF, 0x01FE], after.memory.read address = 0) ∧ after.a = 0 := by
  intro machine
  obtain ⟨cost, after, done, framed⟩ :=
    step_framed (show machine.initialized = true from rfl) (ofByte?_nextOpcode_of_empty rfl)
  refine ⟨cost, after, done, by decide, ?_, ?_⟩
  · intro address outside
    rw [framed.kept address outside]
    exact Memory.read_empty address
  · refine Decidable.byContradiction fun changed => ?_
    exact absurd (framed.a changed) (by decide)

end Machine

end Mos6502
