/-
This file says everything that a step can do. The opcode matrix gives every instruction a mode that
it accepts, so a step is refused for one of two causes only, before anything has an effect. A step
that is not refused does what its operation does and takes two to seven cycles: the penalties of an
operation are small, and the matrix charges little where they can be due.
-/

import Mos6502.Machine.Step
import Mos6502.Proofs.Effect

namespace Mos6502

/-! ### What operations never touch -/

/-- Whether the machine is ready, how it counts, and what was noted about instructions before. -/
structure Ledger where
  /-- Whether the program counter was ever loaded from the reset vector. -/
  initialized : Bool
  /-- How cycles are counted. -/
  timing : Timing
  /-- The opcode byte that was fetched last. -/
  currentOpcode : UInt8
  /-- The cycles of the instruction that was completed last. -/
  lastCycles : UInt8
  /-- The cycles of all instructions so far. -/
  cycles : UInt64
  /-- Whether the operand found last lies in another page than the address it was indexed from. -/
  pageCrossed : Bool
deriving DecidableEq

namespace Machine

/-- The part of the machine that operations never touch. -/
def ledger (machine : Machine) : Ledger where
  initialized := machine.initialized
  timing := machine.timing
  currentOpcode := machine.currentOpcode
  lastCycles := machine.lastCycles
  cycles := machine.cycles
  pageCrossed := machine.pageCrossed

@[simp] theorem ledger_charge (machine : Machine) : machine.charge.ledger = machine.ledger := rfl

@[simp] theorem ledger_goTo (machine : Machine) (target : UInt16) :
    (machine.goTo target).ledger = machine.ledger := rfl

@[simp] theorem ledger_mapStatus (machine : Machine) (change : Status → Status) :
    (machine.mapStatus change).ledger = machine.ledger := rfl

@[simp] theorem ledger_push (machine : Machine) (value : UInt8) :
    (machine.push value).ledger = machine.ledger := rfl

@[simp] theorem ledger_drop (machine : Machine) : machine.drop.ledger = machine.ledger := rfl

theorem ledger_loadRegister (machine : Machine) (register : Register) (value : UInt8) :
    (machine.loadRegister register value).ledger = machine.ledger := by
  cases register <;> rfl

theorem ledger_chargeCrossing (machine : Machine) :
    machine.chargeCrossing.ledger = machine.ledger := by
  unfold chargeCrossing
  split <;> rfl

theorem ledger_branchIf (machine : Machine) (flag : Flag) (wanted : Bool) (target : UInt16) :
    (machine.branchIf flag wanted target).ledger = machine.ledger := by
  unfold branchIf
  split
  · dsimp only
    split <;> simp
  · rfl

theorem ledger_act (machine : Machine) (action : Action) :
    (machine.act action).ledger = machine.ledger := by
  cases action with
  | transfer source target => exact ledger_loadRegister _ _ _
  | adjust register delta => exact ledger_loadRegister _ _ _
  | interrupt => simp [act, interrupt, pushWord]
  | returnFromInterrupt => simp [act, returnFromInterrupt, pullStatus, pullWord, pull]
  | _ => rfl

end Machine

theorem Reading.ledger_effect (reading : Reading) (value : UInt8) (machine : Machine) :
    (reading.effect value machine).ledger = machine.ledger := by
  cases reading with
  | load register => exact Machine.ledger_loadRegister _ _ _
  | _ => rfl

theorem Operation.ledger_effect (operation : Operation) (operand : Operand) (machine : Machine) :
    (operation.effect operand machine).ledger = machine.ledger := by
  cases operation with
  | read reading =>
    cases operand with
    | address address =>
      exact (reading.ledger_effect _ _).trans machine.ledger_chargeCrossing
    | _ => rfl
  | branch flag wanted =>
    cases operand with
    | address target => exact machine.ledger_branchIf flag wanted target
    | _ => rfl
  | implied action =>
    cases operand with
    | none => exact machine.ledger_act action
    | _ => rfl
  | _ => cases operand <;> rfl

/-! ### Penalties -/

/-- The cycles that an operation takes beyond those of its opcode: one for a branch that is taken,
and in strict timing one for going to another page, be it to read or to branch. -/
def Operation.penalty (operation : Operation) (operand : Operand) (machine : Machine) : UInt8 :=
  match operation, operand with
  | .read _, .address _ => if machine.timing = .strict ∧ machine.pageCrossed then 1 else 0
  | .branch flag wanted, .address target =>
    if machine.status.get flag = wanted then
      if machine.timing = .strict ∧ crossesPage machine.pc target then 2 else 1
    else 0
  | _, _ => 0

/-- The most that the penalty of an operation comes to. -/
def Operation.maxPenalty : Operation → UInt8
  | .read _ => 1
  | .branch _ _ => 2
  | _ => 0

theorem Reading.penalty_effect (reading : Reading) (value : UInt8) (machine : Machine) :
    (reading.effect value machine).penalty = machine.penalty := by
  cases reading with
  | load register => cases register <;> rfl
  | _ => rfl

theorem Machine.penalty_act (machine : Machine) (action : Action) :
    (machine.act action).penalty = machine.penalty := by
  cases action with
  | transfer source target => cases target <;> rfl
  | adjust register delta => cases register <;> rfl
  | _ => rfl

/-- An operation adds its penalty to those that are due. -/
theorem Operation.penalty_effect (operation : Operation) (operand : Operand) (machine : Machine) :
    (operation.effect operand machine).penalty =
      machine.penalty + operation.penalty operand machine := by
  have noneAdded : machine.penalty = machine.penalty + 0 := (UInt8.add_zero _).symm
  cases operation with
  | read reading =>
    cases operand with
    | address address =>
      rw [effect, reading.penalty_effect, Machine.chargeCrossing, penalty]
      split
      · rfl
      · exact noneAdded
    | _ => exact noneAdded
  | branch flag wanted =>
    cases operand with
    | address target =>
      dsimp only [effect, Machine.branchIf, penalty]
      split
      · split
        · exact UInt8.add_assoc _ 1 1
        · rfl
      · exact noneAdded
    | _ => exact noneAdded
  | implied action =>
    cases operand with
    | none => exact (machine.penalty_act action).trans noneAdded
    | _ => exact noneAdded
  | _ => cases operand <;> exact noneAdded

theorem Operation.penalty_le (operation : Operation) (operand : Operand) (machine : Machine) :
    operation.penalty operand machine ≤ operation.maxPenalty := by
  unfold penalty
  split
  · show (if _ then 1 else 0) ≤ (1 : UInt8)
    split <;> decide
  · show (if _ then if _ then 2 else 1 else 0) ≤ (2 : UInt8)
    split
    · split <;> decide
    · decide
  · exact UInt8.zero_le

/-! ### The opcode matrix -/

namespace Opcode

/-- What holds everywhere in the matrix holds of what a byte stands for. -/
theorem of_matrix {P : Opcode → Prop}
    (checked : ∀ high low : Fin 16, ∀ opcode ∈ matrix[high][low], P opcode)
    {byte : UInt8} {opcode : Opcode} (found : ofByte? byte = some opcode) : P opcode :=
  checked ⟨byte.toNat / 16, Nat.div_lt_of_lt_mul byte.toNat_lt⟩
    ⟨byte.toNat % 16, Nat.mod_lt _ (by decide)⟩ opcode found

/-- Every instruction stands in the matrix with a mode that it accepts. -/
theorem accepts_of_ofByte? {byte : UInt8} {opcode : Opcode} (found : ofByte? byte = some opcode) :
    opcode.mnemonic.operation.accepts opcode.mode = true := by
  refine of_matrix (P := fun opcode => opcode.mnemonic.operation.accepts opcode.mode = true) ?_
    found
  decide +kernel

theorem two_le_cycles {byte : UInt8} {opcode : Opcode} (found : ofByte? byte = some opcode) :
    2 ≤ opcode.cycles.toNat := by
  refine of_matrix (P := fun opcode => 2 ≤ opcode.cycles.toNat) ?_ found
  decide +kernel

/-- No instruction takes more than seven cycles, its penalties included. -/
theorem cycles_add_maxPenalty_le {byte : UInt8} {opcode : Opcode}
    (found : ofByte? byte = some opcode) :
    opcode.cycles.toNat + opcode.mnemonic.operation.maxPenalty.toNat ≤ 7 := by
  refine of_matrix (P := fun opcode =>
    opcode.cycles.toNat + opcode.mnemonic.operation.maxPenalty.toNat ≤ 7) ?_ found
  decide +kernel

end Opcode

/-! ### Steps -/

namespace Machine

/-- The machine after the instruction at the program counter has taken effect, before its cycles are
counted. -/
def executed (machine : Machine) (opcode : Opcode) : Machine :=
  opcode.mnemonic.operation.effect (machine.operand opcode.mode)
    (machine.fetch.clearPenalties.advance opcode.mode)

/-- The cycles that the instruction at the program counter takes. -/
def cost (machine : Machine) (opcode : Opcode) : UInt8 :=
  opcode.cycles + (machine.executed opcode).penalty

/-- The machine after the instruction at the program counter is completed. -/
def stepped (machine : Machine) (opcode : Opcode) : Machine :=
  (machine.executed opcode).count (machine.cost opcode)

theorem step_of_not_initialized {machine : Machine} (off : machine.initialized = false) :
    machine.step = .error .notInitialized machine := by
  rw [step, off]
  rfl

theorem step_of_undocumented {machine : Machine} (on : machine.initialized = true)
    (unknown : Opcode.ofByte? machine.nextOpcode = none) :
    machine.step =
      .error (.unimplementedOpcode machine.nextOpcode machine.pc) machine.fetch := by
  have fetched : Opcode.ofByte? machine.fetch.currentOpcode = none := unknown
  rw [step, if_pos on]
  dsimp only
  rw [fetched]
  rfl

/-- A documented opcode is executed to the end. -/
theorem step_of_opcode {machine : Machine} {opcode : Opcode} (on : machine.initialized = true)
    (found : Opcode.ofByte? machine.nextOpcode = some opcode) :
    machine.step = .ok (machine.cost opcode) (machine.stepped opcode) := by
  have fetched : Opcode.ofByte? machine.fetch.currentOpcode = some opcode := found
  rw [step, if_pos on]
  dsimp only
  rw [fetched]
  dsimp only
  rw [execute_of_accepts (Opcode.accepts_of_ofByte? found)]
  rfl

/-- An instruction without operand does its action. -/
theorem executed_of_action {machine : Machine} {opcode : Opcode} {action : Action}
    (found : Opcode.ofByte? machine.nextOpcode = some opcode)
    (acts : opcode.mnemonic.operation = .implied action) :
    opcode.mode = .implied ∧
      machine.executed opcode = (machine.fetch.clearPenalties.advance .implied).act action := by
  have accepted := Opcode.accepts_of_ofByte? found
  rw [acts] at accepted
  have mode : opcode.mode = .implied := of_decide_eq_true accepted
  rw [executed, acts, mode]
  exact ⟨rfl, rfl⟩

/-- A call goes to the word after its opcode. -/
theorem executed_of_call {machine : Machine} {opcode : Opcode}
    (found : Opcode.ofByte? machine.nextOpcode = some opcode)
    (calls : opcode.mnemonic.operation = .call) :
    opcode.mode = .absolute ∧ machine.executed opcode =
      (machine.fetch.clearPenalties.advance .absolute).callTo machine.operandWord := by
  have accepted := Opcode.accepts_of_ofByte? found
  rw [calls] at accepted
  have mode : opcode.mode = .absolute := of_decide_eq_true accepted
  rw [executed, calls, mode]
  exact ⟨rfl, rfl⟩

/-- The operand of a branch is its target. -/
theorem operand_of_branch {machine : Machine} {opcode : Opcode} {flag : Flag} {wanted : Bool}
    (found : Opcode.ofByte? machine.nextOpcode = some opcode)
    (branches : opcode.mnemonic.operation = .branch flag wanted) :
    opcode.mode = .relative ∧ machine.operand opcode.mode =
      .address (machine.pc + Mode.relative.stride + signExtend machine.operandByte) := by
  have accepted := Opcode.accepts_of_ofByte? found
  rw [branches] at accepted
  have mode : opcode.mode = .relative := of_decide_eq_true accepted
  rw [mode]
  exact ⟨rfl, rfl⟩

/-- What a step can do: it is refused unchanged before the reset, it is refused at a byte that is no
opcode, or it executes the instruction. -/
theorem step_cases (machine : Machine) :
    (machine.initialized = false ∧ machine.step = .error .notInitialized machine) ∨
    (machine.initialized = true ∧ Opcode.ofByte? machine.nextOpcode = none ∧
      machine.step =
        .error (.unimplementedOpcode machine.nextOpcode machine.pc) machine.fetch) ∨
    (machine.initialized = true ∧ ∃ opcode, Opcode.ofByte? machine.nextOpcode = some opcode ∧
      machine.step = .ok (machine.cost opcode) (machine.stepped opcode)) := by
  cases on : machine.initialized with
  | false => exact Or.inl ⟨rfl, step_of_not_initialized on⟩
  | true =>
    cases found : Opcode.ofByte? machine.nextOpcode with
    | none => exact Or.inr (Or.inl ⟨rfl, rfl, step_of_undocumented on found⟩)
    | some opcode => exact Or.inr (Or.inr ⟨rfl, opcode, rfl, step_of_opcode on found⟩)

/-- A step succeeds at a documented opcode only, with the cost and the effect of that opcode. -/
theorem opcode_of_step {machine after : Machine} {cost : UInt8}
    (done : machine.step = .ok cost after) :
    machine.initialized = true ∧ ∃ opcode, Opcode.ofByte? machine.nextOpcode = some opcode ∧
      cost = machine.cost opcode ∧ after = machine.stepped opcode := by
  rcases machine.step_cases with ⟨_, refused⟩ | ⟨_, _, refused⟩ | ⟨on, opcode, found, succeeded⟩
  · cases done.symm.trans refused
  · cases done.symm.trans refused
  · cases done.symm.trans succeeded
    exact ⟨on, opcode, found, rfl, rfl⟩

/-- In memory full of zeros the next instruction is a BRK. -/
theorem ofByte?_nextOpcode_of_empty {machine : Machine} (blank : machine.memory = Memory.empty) :
    Opcode.ofByte? machine.nextOpcode = some ⟨.brk, .implied, 7⟩ := by
  rw [nextOpcode, blank, Memory.read_empty]
  rfl

/-! ### Refusals -/

theorem step_eq_notInitialized_iff (machine left : Machine) :
    machine.step = .error .notInitialized left ↔
      machine.initialized = false ∧ left = machine := by
  constructor
  · intro refused
    rcases machine.step_cases with ⟨off, known⟩ | ⟨_, _, known⟩ | ⟨_, _, _, known⟩
    · cases refused.symm.trans known
      exact ⟨off, rfl⟩
    · cases refused.symm.trans known
    · cases refused.symm.trans known
  · rintro ⟨off, rfl⟩
    exact step_of_not_initialized off

theorem step_eq_unimplementedOpcode_iff (machine left : Machine) (opcode : UInt8) (pc : UInt16) :
    machine.step = .error (.unimplementedOpcode opcode pc) left ↔
      machine.initialized = true ∧ Opcode.ofByte? machine.nextOpcode = none ∧
        opcode = machine.nextOpcode ∧ pc = machine.pc ∧ left = machine.fetch := by
  constructor
  · intro refused
    rcases machine.step_cases with ⟨_, known⟩ | ⟨on, unknown, known⟩ | ⟨_, _, _, known⟩
    · cases refused.symm.trans known
    · cases refused.symm.trans known
      exact ⟨on, unknown, rfl, rfl, rfl⟩
    · cases refused.symm.trans known
  · rintro ⟨on, unknown, rfl, rfl, rfl⟩
    exact step_of_undocumented on unknown

/-- A step is not refused exactly where a ready machine finds a documented opcode. -/
theorem step_succeeds_iff (machine : Machine) :
    (∃ cost after, machine.step = .ok cost after) ↔
      machine.initialized = true ∧ Opcode.ofByte? machine.nextOpcode ≠ none := by
  constructor
  · rintro ⟨cost, after, done⟩
    obtain ⟨on, opcode, found, _⟩ := opcode_of_step done
    exact ⟨on, found ▸ Option.some_ne_none opcode⟩
  · rintro ⟨on, known⟩
    obtain ⟨opcode, found⟩ := Option.ne_none_iff_exists'.mp known
    exact ⟨_, _, step_of_opcode on found⟩

/-- A refusal has one of two causes. -/
theorem fault_of_step {machine left : Machine} {fault : Fault}
    (refused : machine.step = .error fault left) :
    fault = .notInitialized ∨ ∃ opcode pc, fault = .unimplementedOpcode opcode pc := by
  rcases machine.step_cases with ⟨_, known⟩ | ⟨_, _, known⟩ | ⟨_, _, _, known⟩
  · cases refused.symm.trans known
    exact Or.inl rfl
  · cases refused.symm.trans known
    exact Or.inr ⟨_, _, rfl⟩
  · cases refused.symm.trans known

/-- What a refusal leaves is refused in the same way, and left as it is. -/
theorem step_of_refused {machine left : Machine} {fault : Fault}
    (refused : machine.step = .error fault left) : left.step = .error fault left := by
  rcases machine.step_cases with ⟨off, known⟩ | ⟨on, unknown, known⟩ | ⟨_, _, _, known⟩
  · cases refused.symm.trans known
    exact known
  · cases refused.symm.trans known
    exact step_of_undocumented (show machine.fetch.initialized = true from on) unknown
  · cases refused.symm.trans known

/-! ### Costs -/

theorem ledger_executed (machine : Machine) (opcode : Opcode) :
    (machine.executed opcode).ledger =
      (machine.fetch.clearPenalties.advance opcode.mode).ledger :=
  Operation.ledger_effect _ _ _

/-- Penalties of instructions before do not count. -/
theorem penalty_executed (machine : Machine) (opcode : Opcode) :
    (machine.executed opcode).penalty =
      opcode.mnemonic.operation.penalty (machine.operand opcode.mode)
        (machine.fetch.clearPenalties.advance opcode.mode) := by
  rw [executed, Operation.penalty_effect]
  exact UInt8.zero_add _

theorem cycles_stepped (machine : Machine) (opcode : Opcode) :
    (machine.stepped opcode).cycles = machine.cycles + (machine.cost opcode).toUInt64 := by
  have kept := congrArg Ledger.cycles (machine.ledger_executed opcode)
  exact congrArg (· + (machine.cost opcode).toUInt64) kept

theorem initialized_stepped (machine : Machine) (opcode : Opcode) :
    (machine.stepped opcode).initialized = machine.initialized :=
  congrArg Ledger.initialized (machine.ledger_executed opcode)

theorem timing_stepped (machine : Machine) (opcode : Opcode) :
    (machine.stepped opcode).timing = machine.timing :=
  congrArg Ledger.timing (machine.ledger_executed opcode)

/-- The cost of an instruction is a plain sum, and lies between two and seven. -/
theorem toNat_cost {machine : Machine} {opcode : Opcode}
    (found : Opcode.ofByte? machine.nextOpcode = some opcode) :
    (machine.cost opcode).toNat = opcode.cycles.toNat + (machine.executed opcode).penalty.toNat ∧
      2 ≤ (machine.cost opcode).toNat ∧ (machine.cost opcode).toNat ≤ 7 := by
  have least := Opcode.two_le_cycles found
  have most := Opcode.cycles_add_maxPenalty_le found
  have penalty : (machine.executed opcode).penalty.toNat ≤
      opcode.mnemonic.operation.maxPenalty.toNat := by
    rw [penalty_executed]
    exact UInt8.le_iff_toNat_le.mp (Operation.penalty_le _ _ _)
  have sum : (machine.cost opcode).toNat =
      opcode.cycles.toNat + (machine.executed opcode).penalty.toNat := by
    rw [cost, UInt8.toNat_add]
    omega
  omega

/-- A step that succeeds moves the cycle counter by two to seven cycles, unless it wraps. -/
theorem cycles_of_step {machine after : Machine} {cost : UInt8}
    (done : machine.step = .ok cost after) (roomy : machine.cycles.toNat + 7 < UInt64.size) :
    after.cycles.toNat = machine.cycles.toNat + cost.toNat ∧
      2 ≤ cost.toNat ∧ cost.toNat ≤ 7 := by
  obtain ⟨_, opcode, found, rfl, rfl⟩ := opcode_of_step done
  obtain ⟨_, least, most⟩ := toNat_cost found
  refine ⟨?_, least, most⟩
  have fits : machine.cycles.toNat + (machine.cost opcode).toNat < UInt64.size := by omega
  rw [cycles_stepped, UInt64.toNat_add, UInt8.toNat_toUInt64]
  exact Nat.mod_eq_of_lt fits

end Machine

end Mos6502
