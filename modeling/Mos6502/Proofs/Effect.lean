/-
This file proves that an instruction never fails halfway. Some operations set flags from numbers
that have to be bits, and may be refused in the middle for that; the numbers they come up with are
always bits. So an operation is refused before it has any effect, for a mode that it does not
accept, or it succeeds, and then what it does is a plain function of the machine and the operand.
That function is what all later files reason about.
-/

import Mos6502.Machine.Execute

namespace Mos6502

/-! ### Bits as numbers -/

/-- What holds of the 256 bytes holds of every byte. -/
theorem forall_byte {P : UInt8 → Prop} (each : ∀ number : Fin 256, P (UInt8.ofFin number))
    (byte : UInt8) : P byte :=
  each byte.toFin

theorem shiftRight_seven_eq (value : UInt8) : value >>> 7 = (value &&& 0x80 != 0).toUInt8 := by
  revert value
  exact forall_byte (by decide +kernel)

theorem shiftRight_six_and_one_eq (value : UInt8) :
    (value >>> 6) &&& 1 = (value &&& 0x40 != 0).toUInt8 := by
  revert value
  exact forall_byte (by decide +kernel)

theorem and_one_eq (value : UInt8) : value &&& 1 = (value &&& 0x01 != 0).toUInt8 := by
  revert value
  exact forall_byte (by decide +kernel)

/-- A flag can be set from any truth value as a number. -/
theorem Machine.setBit_toUInt8 (machine : Machine) (flag : Flag) (on : Bool) :
    Machine.setBit flag on.toUInt8 machine = .ok () (machine.mapStatus (·.set flag on)) := by
  cases on <;> rfl

namespace Shift

/-- Whether the bit that leaves the byte is set. -/
def carries (shift : Shift) (value : UInt8) : Bool :=
  match shift with
  | left | rotateLeft => value &&& 0x80 != 0
  | right | rotateRight => value &&& 0x01 != 0

theorem carryOut_eq (shift : Shift) (value : UInt8) :
    shift.carryOut value = (shift.carries value).toUInt8 := by
  cases shift with
  | left | rotateLeft => exact shiftRight_seven_eq value
  | right | rotateRight => exact and_one_eq value

end Shift

/-! ### Effects -/

/-- What a byte that is read does to the machine. -/
def Reading.effect (reading : Reading) (value : UInt8) (machine : Machine) : Machine :=
  match reading with
  | .load register => machine.loadRegister register value
  | .add => machine.addWithCarry value
  | .subtract => machine.addWithCarry (~~~value)
  | .and => machine.loadRegister .a (machine.a &&& value)
  | .or => machine.loadRegister .a (machine.a ||| value)
  | .xor => machine.loadRegister .a (machine.a ^^^ value)
  | .compare register => machine.compare register value
  | .test => machine.mapStatus fun status =>
    ((status.set .zero (machine.a &&& value == 0)).set .negative (value &&& 0x80 != 0)).set
      .overflow (value &&& 0x40 != 0)

/-- What moving the byte at an address by one bit does to the machine. -/
def Shift.effectAt (shift : Shift) (address : UInt16) (machine : Machine) : Machine :=
  let value := machine.memory.read address
  (machine.mapStatus (·.set .carry (shift.carries value))).storeResult address
    (shift.result value machine.status.carryBit)

/-- What moving the accumulator by one bit does to the machine. -/
def Shift.effectOnAccumulator (shift : Shift) (machine : Machine) : Machine :=
  (machine.mapStatus (·.set .carry (shift.carries machine.a))).loadRegister .a
    (shift.result machine.a machine.status.carryBit)

/-- What an operation does to the machine; nothing if the operand does not suit it. -/
def Operation.effect (operation : Operation) (operand : Operand) (machine : Machine) : Machine :=
  match operation, operand with
  | .read reading, .address address =>
    reading.effect (machine.memory.read address) machine.chargeCrossing
  | .store register, .address address =>
    machine.mapMemory (·.write address (machine.register register))
  | .adjust delta, .address address => machine.adjustAt delta address
  | .shift move, .address address => move.effectAt address machine
  | .shift move, .accumulator => move.effectOnAccumulator machine
  | .branch flag wanted, .address target => machine.branchIf flag wanted target
  | .jump, .address target => machine.goTo target
  | .call, .address target => machine.callTo target
  | .implied action, .none => machine.act action
  | _, _ => machine

/-! ### Operations succeed with their effect -/

theorem Machine.testBits_eq (machine : Machine) (value : UInt8) :
    Machine.testBits value machine = .ok () (Reading.test.effect value machine) := by
  rw [Machine.testBits, shiftRight_seven_eq, shiftRight_six_and_one_eq]
  show EStateM.bind (Machine.setBit .negative _) (fun _ => Machine.setBit .overflow _)
    (machine.mapStatus _) = _
  rw [EStateM.bind, Machine.setBit_toUInt8]
  exact Machine.setBit_toUInt8 _ _ _

theorem Machine.takeIn_eq (machine : Machine) (reading : Reading) (value : UInt8) :
    Machine.takeIn reading value machine = .ok () (reading.effect value machine) := by
  cases reading with
  | test => exact Machine.testBits_eq machine value
  | _ => rfl

theorem Machine.chargeCrossing_memory (machine : Machine) :
    machine.chargeCrossing.memory = machine.memory := by
  unfold Machine.chargeCrossing
  split <;> rfl

theorem Machine.readFrom_eq (machine : Machine) (reading : Reading) (address : UInt16) :
    Machine.readFrom reading address machine =
      .ok () (reading.effect (machine.memory.read address) machine.chargeCrossing) := by
  rw [← machine.chargeCrossing_memory]
  exact Machine.takeIn_eq _ _ _

theorem Machine.shiftAt_eq (machine : Machine) (shift : Shift) (address : UInt16) :
    Machine.shiftAt shift address machine = .ok () (shift.effectAt address machine) := by
  show EStateM.bind (Machine.setBit .carry (shift.carryOut _)) _ machine = _
  rw [shift.carryOut_eq, EStateM.bind, Machine.setBit_toUInt8]
  rfl

theorem Machine.shiftAccumulator_eq (machine : Machine) (shift : Shift) :
    Machine.shiftAccumulator shift machine = .ok () (shift.effectOnAccumulator machine) := by
  show EStateM.bind (Machine.setBit .carry (shift.carryOut _)) _ machine = _
  rw [shift.carryOut_eq, EStateM.bind, Machine.setBit_toUInt8]
  rfl

/-- An operation whose operand suits it succeeds, and does what its effect says. -/
theorem Operation.perform_eq {operation : Operation} {operand : Operand} {perform : Exec Unit}
    (suits : operation.perform? operand = some perform) (machine : Machine) :
    perform machine = .ok () (operation.effect operand machine) := by
  cases operation with
  | read reading =>
    cases operand <;> cases suits
    exact machine.readFrom_eq reading _
  | shift move =>
    cases operand <;> cases suits
    · exact machine.shiftAccumulator_eq move
    · exact machine.shiftAt_eq move _
  | _ =>
    cases operand <;> cases suits
    rfl

/-! ### Accepted modes -/

/-- Whether an operation can find its operand in a mode. -/
def Operation.accepts : Operation → Mode → Bool
  | .read _, mode => mode ∉ [.implied, .accumulator, .relative]
  | .store _, mode | .adjust _, mode =>
    mode ∉ [.implied, .accumulator, .relative, .immediate]
  | .shift _, mode => mode ∉ [.implied, .relative, .immediate]
  | .branch _ _, mode => mode = .relative
  | .jump, mode => mode ∈ [.absolute, .indirect]
  | .call, mode => mode = .absolute
  | .implied _, mode => mode = .implied

/-- In an accepted mode the operand suits the operation, wherever it is found. -/
theorem Operation.perform?_of_accepts {operation : Operation} {mode : Mode}
    (accepted : operation.accepts mode = true) (machine : Machine) :
    operation.refuses mode = false ∧
      ∃ perform, operation.perform? (machine.operand mode) = some perform := by
  cases operation <;> cases mode <;> cases accepted <;> exact ⟨rfl, _, rfl⟩

/-- An instruction in a mode that its operation accepts succeeds: the program counter passes over
it, and then it does what its effect says. -/
theorem Machine.execute_of_accepts {mnemonic : Mnemonic} {mode : Mode}
    (accepted : mnemonic.operation.accepts mode = true) (machine : Machine) :
    Machine.execute mnemonic mode machine =
      .ok () (mnemonic.operation.effect (machine.operand mode) (machine.advance mode)) := by
  obtain ⟨welcome, perform, suits⟩ := Operation.perform?_of_accepts accepted machine
  simp only [Machine.execute, welcome, suits, Bool.false_eq_true, if_false]
  exact Operation.perform_eq suits _

end Mos6502
