/-
This file proves that a comparison is a subtraction that keeps no result. The two are calculated in
different ways: a comparison takes the difference of two bytes and asks which of them is larger,
while a subtraction adds the complement and the carry. With the carry set they come to the same
flags, in every mode and for all three registers, and leave the same behind apart from the
accumulator and Overflow. So the branches on Carry and Zero that follow a comparison tell how the
register and the operand are ordered as unsigned numbers.
-/

import Mos6502.Proofs.Course
import Mos6502.Proofs.ResultFlags

namespace Mos6502

/-- The register that an instruction compares with its operand. -/
def Mnemonic.comparand? : Mnemonic → Option Register
  | cmp => some .a
  | cpx => some .x
  | cpy => some .y
  | _ => none

theorem Mnemonic.operation_of_comparand? {mnemonic : Mnemonic} {register : Register}
    (compares : mnemonic.comparand? = some register) :
    mnemonic.operation = .read (.compare register) := by
  cases mnemonic <;> cases compares <;> rfl

/-- What a branch asks about the register and the operand of the comparison before it. -/
def Mnemonic.question? : Mnemonic → Option (Nat → Nat → Bool)
  | bcs => some fun held value => value ≤ held
  | bcc => some fun held value => held < value
  | beq => some fun held value => held = value
  | bne => some fun held value => held ≠ value
  | _ => none

/-! ### Flags that tell the order -/

/-- The flags tell how two bytes are ordered: Carry is set where taking away the second needs no
borrow, and Zero and Negative describe the difference. -/
structure Status.Orders (status : Status) (held value : UInt8) : Prop where
  carry : status.get .carry = true ↔ value.toNat ≤ held.toNat
  difference : status.Describes (held - value)

namespace Status.Orders

variable {status : Status} {held value : UInt8} (orders : status.Orders held value)

include orders

theorem zero : status.get .zero = true ↔ held.toNat = value.toNat := by
  rw [orders.difference.zero, UInt8.sub_eq_iff_eq_add, UInt8.zero_add, UInt8.toNat_inj]

/-- The flags are settled by the two bytes. -/
theorem unique {other : Status} (otherOrders : other.Orders held value) :
    status.get .carry = other.get .carry ∧ status.get .zero = other.get .zero ∧
      status.get .negative = other.get .negative := by
  refine ⟨?_, ?_, ?_⟩
  · rw [Bool.eq_iff_iff, orders.carry, otherOrders.carry]
  · rw [Bool.eq_iff_iff, orders.zero, otherOrders.zero]
  · rw [orders.difference.negative, otherOrders.difference.negative]

/-- A branch that asks about the order is taken for the right answer. -/
theorem answers {mnemonic : Mnemonic} {asks : Nat → Nat → Bool}
    (question : mnemonic.question? = some asks) :
    ∃ flag wanted, mnemonic.operation = .branch flag wanted ∧
      (status.get flag = wanted ↔ asks held.toNat value.toNat = true) := by
  have carry := orders.carry
  have zero := orders.zero
  cases mnemonic <;> cases question
  case bcs => exact ⟨_, _, rfl, by rw [carry, decide_eq_true_iff]⟩
  case bcc => exact ⟨_, _, rfl, by rw [← Bool.not_eq_true, carry, decide_eq_true_iff, Nat.not_le]⟩
  case beq => exact ⟨_, _, rfl, by rw [zero, decide_eq_true_iff]⟩
  case bne => exact ⟨_, _, rfl, by rw [← Bool.not_eq_true, zero, decide_eq_true_iff]⟩

end Status.Orders

namespace Machine

theorem orders_compare (machine : Machine) (register : Register) (value : UInt8) :
    (machine.compare register value).status.Orders (machine.register register) value := by
  constructor
  · show ((machine.status.set .carry (value ≤ machine.register register)).updateZeroNegative
      _).get .carry = true ↔ _
    rw [Status.get_updateZeroNegative_other _ _ (by decide), Status.get_set_self _ _ (by decide),
      decide_eq_true_iff, UInt8.le_iff_toNat_le]
  · exact Status.describes_updateZeroNegative _ _

/-- With the carry set, adding the complement orders the accumulator and the byte. -/
theorem orders_subtract {machine : Machine} (carry : machine.status.get .carry = true)
    (value : UInt8) : (machine.addWithCarry (~~~value)).status.Orders machine.a value := by
  have complement : (~~~value).toNat = 255 - value.toNat := UInt8.toNat_not value
  have bound := value.toNat_lt
  constructor
  · have total := machine.toNat_wideSum (~~~value)
    rw [carry, Bool.toNat_true] at total
    rw [carry_addWithCarry, decide_eq_true_iff]
    omega
  · have result : (machine.addWithCarry (~~~value)).a = machine.a - value := by
      have exact := machine.toNat_difference value
      rw [carry, Bool.toNat_true] at exact
      have difference := toNat_sub_emod machine.a value
      apply UInt8.toNat_inj.mp
      omega
    rw [← result]
    exact Status.describes_updateZeroNegative _ _

/-! ### Comparison and subtraction -/

/-- An instruction that reads a byte works on the byte of its operand, wherever it is executed. -/
theorem execute_of_reading {mnemonic : Mnemonic} {reading : Reading}
    (reads : mnemonic.operation = .read reading) {mode : Mode}
    (accepted : mode ∉ [.implied, .accumulator, .relative]) (machine : Machine) :
    execute mnemonic mode machine = .ok () (reading.effect
      (machine.memory.read (machine.operand mode).target)
      (machine.advance mode).chargeCrossing) := by
  have accepts : mnemonic.operation.accepts mode = true := by
    rw [reads]
    exact decide_eq_true accepted
  rw [execute_of_accepts accepts]
  rw [reads] at accepts ⊢
  rw [machine.operand_of_accepts accepts rfl rfl]
  rfl

/-- A comparison and a subtraction with the same bytes. -/
structure Matches (before compared subtracted : Machine) : Prop where
  pc : compared.pc = subtracted.pc
  x : compared.x = subtracted.x
  y : compared.y = subtracted.y
  sp : compared.sp = subtracted.sp
  memory : compared.memory = subtracted.memory
  penalty : compared.penalty = subtracted.penalty
  carry : compared.status.get .carry = subtracted.status.get .carry
  zero : compared.status.get .zero = subtracted.status.get .zero
  negative : compared.status.get .negative = subtracted.status.get .negative
  /-- The comparison keeps the accumulator. -/
  a : compared.a = before.a
  /-- The comparison keeps Overflow. -/
  overflow : compared.status.get .overflow = before.status.get .overflow

/-- The machine that subtracts what another one compares: the register is in the accumulator, and
the carry is set. -/
def subtracting (machine : Machine) (register : Register) : Machine :=
  { machine with a := machine.register register }.setFlag .carry true

theorem chargeCrossing_subtracting (machine : Machine) (register : Register) :
    (machine.subtracting register).chargeCrossing =
      machine.chargeCrossing.subtracting register := by
  show (if machine.timing = .strict ∧ machine.pageCrossed then _ else _) = _
  unfold chargeCrossing
  split <;> rfl

theorem matches_compare (machine : Machine) (register : Register) (value : UInt8) :
    machine.Matches (machine.compare register value)
      ((machine.subtracting register).addWithCarry (~~~value)) := by
  have set : (machine.subtracting register).status.get .carry = true :=
    machine.status.get_set_self true (by decide)
  obtain ⟨carry, zero, negative⟩ :=
    (machine.orders_compare register value).unique (orders_subtract set value)
  have untouched : Flag.overflow ∉ (Reading.compare register).flags := by
    rw [Reading.flags]
    decide
  have overflow : ((Reading.compare register).effect value machine).status.get .overflow =
      machine.status.get .overflow := Reading.get_status_effect machine value untouched
  exact ⟨rfl, rfl, rfl, rfl, rfl, rfl, carry, zero, negative, rfl, overflow⟩

/-- In every mode that leads to a byte, a comparison matches the subtraction. -/
theorem execute_compare {mnemonic : Mnemonic} {register : Register}
    (compares : mnemonic.comparand? = some register) {mode : Mode}
    (accepted : mode ∉ [.implied, .accumulator, .relative]) (machine : Machine) :
    ∃ compared subtracted, execute mnemonic mode machine = .ok () compared ∧
      execute .sbc mode (machine.subtracting register) = .ok () subtracted ∧
      machine.Matches compared subtracted := by
  have operation := Mnemonic.operation_of_comparand? compares
  have subtracts : Mnemonic.sbc.operation = .read .subtract := rfl
  obtain ⟨penalty, charged⟩ := (machine.advance mode).exists_chargeCrossing_eq
  refine ⟨_, _, execute_of_reading operation accepted machine,
    execute_of_reading subtracts accepted _, ?_⟩
  have passed : ((machine.subtracting register).advance mode).chargeCrossing =
      (machine.advance mode).chargeCrossing.subtracting register :=
    (machine.advance mode).chargeCrossing_subtracting register
  rw [passed, charged]
  have same := matches_compare { machine.advance mode with penalty } register
    (machine.memory.read (machine.operand mode).target)
  exact { same with a := same.a, overflow := same.overflow }

/-! ### Branches after a comparison -/

section

variable {machine : Machine} {opcode : Opcode}
  (found : Opcode.ofByte? machine.nextOpcode = some opcode)

include found

/-- A comparison leads past its own bytes, and its flags order the register and the operand. -/
theorem stepped_of_comparison {register : Register}
    (compares : opcode.mnemonic.comparand? = some register) :
    (machine.stepped opcode).pc = machine.pc + opcode.mode.stride ∧
      (machine.stepped opcode).memory = machine.memory ∧
      (machine.stepped opcode).status.Orders (machine.register register)
        (machine.byteOf (machine.operand opcode.mode)) := by
  obtain ⟨_, executed⟩ :=
    executed_of_reading found (Mnemonic.operation_of_comparand? compares)
  rw [stepped, executed]
  refine ⟨rfl, rfl, ?_⟩
  exact orders_compare _ register _

section

variable {flag : Flag} {wanted : Bool}
  (branches : opcode.mnemonic.operation = .branch flag wanted)

include branches

/-- A branch leads to its target if it is taken, and else past its own two bytes. -/
theorem pc_of_branch : (machine.stepped opcode).pc =
    if machine.status.get flag = wanted then machine.pc + 2 + signExtend machine.operandByte
    else machine.pc + 2 := by
  obtain ⟨mode, operand⟩ := operand_of_branch found branches
  rw [pc_stepped, destination?, branches, operand, mode, Operation.destination?]
  split <;> rfl

/-- A branch takes two cycles, and more exactly if it is taken. -/
theorem two_lt_cost_of_branch :
    2 < (machine.cost opcode).toNat ↔ machine.status.get flag = wanted := by
  have base : opcode.cycles.toNat = 2 := by
    have checked : ∀ high low : Fin 16, ∀ opcode ∈ Opcode.matrix[high][low],
        (opcode.mnemonic.operation matches .branch _ _) = true → opcode.cycles.toNat = 2 := by
      decide +kernel
    have isBranch : (opcode.mnemonic.operation matches .branch _ _) = true := by rw [branches]
    exact Opcode.of_matrix checked found isBranch
  obtain ⟨sum, _, _⟩ := toNat_cost found
  rw [base, toNat_penalty_of_branch found branches, surcharge,
    Mnemonic.condition?_of_branch branches] at sum
  dsimp only at sum
  by_cases taken : machine.status.get flag = wanted
  · rw [if_pos taken] at sum
    refine iff_of_true ?_ taken
    split at sum <;> omega
  · rw [if_neg taken] at sum
    refine iff_of_false ?_ taken
    omega

end

end

/-- An instruction is at the program counter of a ready machine, and another one right after it. -/
structure FollowedBy (machine : Machine) (first second : Opcode) : Prop where
  on : machine.initialized = true
  found : Opcode.ofByte? machine.nextOpcode = some first
  follows : Opcode.ofByte? (machine.memory.read (machine.pc + first.mode.stride)) = some second

/-- A branch on the order after a comparison is taken for the right answer. -/
theorem steps_of_comparison {machine : Machine} {comparison branch : Opcode}
    (followed : machine.FollowedBy comparison branch) {register : Register}
    (compares : comparison.mnemonic.comparand? = some register) {asks : Nat → Nat → Bool}
    (question : branch.mnemonic.question? = some asks) :
    let answer := asks (machine.register register).toNat
      (machine.byteOf (machine.operand comparison.mode)).toNat
    let here := machine.pc + comparison.mode.stride
    ∃ cost compared branchCost after, machine.step = .ok cost compared ∧
      compared.step = .ok branchCost after ∧
      after.pc = (if answer = true then here + 2 + signExtend (machine.memory.read (here + 1))
        else here + 2) ∧
      (2 < branchCost.toNat ↔ answer = true) := by
  intro answer here
  obtain ⟨on, found, follows⟩ := followed
  obtain ⟨pc, memory, orders⟩ := stepped_of_comparison found compares
  obtain ⟨flag, wanted, branches, answers⟩ := orders.answers question
  have next : Opcode.ofByte? (machine.stepped comparison).nextOpcode = some branch := by
    rw [nextOpcode, memory, pc, follows]
  have ready : (machine.stepped comparison).initialized = true :=
    (machine.initialized_stepped comparison).trans on
  refine ⟨_, _, _, _, step_of_opcode on found, step_of_opcode ready next, ?_, ?_⟩
  · rw [pc_of_branch next branches, operandByte, operandAddress, memory, pc]
    exact ite_congr (propext answers) (fun _ => rfl) fun _ => rfl
  · rw [two_lt_cost_of_branch next branches, answers]

/-- A comparison is a subtraction with the carry set that keeps no result: in every mode that leads
to a byte both succeed and leave the same behind, but for the accumulator and Overflow, which the
comparison keeps. So a branch right after it is taken exactly if the register and the operand are
ordered in the way that the branch asks about, as unsigned numbers; a branch that is taken leads to
its target, and takes more than two cycles. -/
theorem comparison_is_subtraction (machine : Machine) {mnemonic : Mnemonic} {register : Register}
    (compares : mnemonic.comparand? = some register) :
    (∀ mode ∉ [.implied, .accumulator, .relative], ∃ compared subtracted,
      execute mnemonic mode machine = .ok () compared ∧
      execute .sbc mode (machine.subtracting register) = .ok () subtracted ∧
      machine.Matches compared subtracted) ∧
    ∀ comparison branch asks, comparison.mnemonic = mnemonic →
      machine.FollowedBy comparison branch → branch.mnemonic.question? = some asks →
      let answer := asks (machine.register register).toNat
        (machine.byteOf (machine.operand comparison.mode)).toNat
      let here := machine.pc + comparison.mode.stride
      ∃ cost compared branchCost after, machine.step = .ok cost compared ∧
        compared.step = .ok branchCost after ∧
        after.pc = (if answer = true then here + 2 + signExtend (machine.memory.read (here + 1))
          else here + 2) ∧
        (2 < branchCost.toNat ↔ answer = true) := by
  constructor
  · exact fun mode accepted => execute_compare compares accepted machine
  · intro comparison branch asks same followed question
    subst same
    exact steps_of_comparison followed compares question

/-- A CPX at the last address and a BCS after it: as signed bytes the register would be smaller than
the operand, and no branch would be taken. The subtraction agrees that there is no borrow. -/
theorem comparison_is_subtraction_unsigned :
    let machine : Machine :=
      { x := 0x90, pc := 0xFFFF, initialized := true,
        memory := Memory.empty.writeRange 0xFFFF [0xE0, 0x10, 0xB0, 0x80] }
    Mnemonic.cpx.comparand? = some .x ∧
    (∃ compared subtracted, execute .cpx .immediate machine = .ok () compared ∧
      execute .sbc .immediate (machine.subtracting .x) = .ok () subtracted ∧
      compared.status.get .carry = subtracted.status.get .carry ∧ compared.a = 0) ∧
    ∃ cost compared branchCost after, machine.step = .ok cost compared ∧
      compared.step = .ok branchCost after ∧ after.pc = 0xFF83 ∧ 2 < branchCost.toNat := by
  intro machine
  have cpx : Opcode.ofByte? machine.nextOpcode = some ⟨.cpx, .immediate, 2⟩ := by
    have first : machine.nextOpcode = 0xE0 := by
      simp [machine, nextOpcode, Memory.writeRange, Memory.read_write]
    rw [first]
    rfl
  have here : machine.pc + Mode.immediate.stride = 1 := by
    show (0xFFFF : UInt16) + 2 = 1
    decide
  have bcs : Opcode.ofByte? (machine.memory.read (machine.pc + Mode.immediate.stride)) =
      some ⟨.bcs, .relative, 2⟩ := by
    have third : machine.memory.read 1 = 0xB0 := by
      simp [machine, Memory.writeRange, Memory.read_write]
    rw [here, third]
    rfl
  have value : machine.byteOf (machine.operand .immediate) = 0x10 := by
    show machine.memory.read (0xFFFF + 1) = 0x10
    simp [machine, Memory.writeRange, Memory.read_write]
  have offset : machine.memory.read (1 + 1) = 0x80 := by
    simp [machine, Memory.writeRange]
  obtain ⟨matching, deciding⟩ :=
    comparison_is_subtraction machine (show Mnemonic.cpx.comparand? = some .x from rfl)
  obtain ⟨compared, subtracted, comparing, subtracting, same⟩ :=
    matching .immediate (by decide)
  obtain ⟨cost, middle, branchCost, after, stepping, branching, pc, taken⟩ :=
    deciding ⟨.cpx, .immediate, 2⟩ ⟨.bcs, .relative, 2⟩ _ rfl ⟨rfl, cpx, bcs⟩ rfl
  dsimp only at pc taken
  have answer : decide (0x10 ≤ (machine.register .x).toNat) = true := by decide
  rw [value] at pc taken
  rw [here, offset] at pc
  exact ⟨rfl, ⟨compared, subtracted, comparing, subtracting, same.carry, same.a⟩,
    cost, middle, branchCost, after, stepping, branching, pc.trans (if_pos answer),
    taken.mpr answer⟩

end Machine

end Mos6502
