/-
This file proves that Zero and Negative always describe the byte that an instruction came to. The
byte is given in plain numbers, calculated from the machine before the instruction, and so is its
place: a register, or the cell that the operand leads to. Many operations set the two flags, each
from a value of its own; here each of them is held against what is in the place afterwards, even if
the place is one of the bytes of the instruction. Comparisons come to a byte as well, but leave it
nowhere, and BIT shows two bits of its operand instead.
-/

import Mos6502.Proofs.Addressing
import Mos6502.Proofs.LongShift
import Mos6502.Proofs.LongSum

namespace Mos6502

/-! ### Flags that describe a byte -/

theorem highBit_eq_testBit (byte : UInt8) : (byte &&& 0x80 != 0) = byte.toNat.testBit 7 := by
  revert byte
  exact forall_byte (by decide +kernel)

theorem overflowBit_eq_testBit (byte : UInt8) : (byte &&& 0x40 != 0) = byte.toNat.testBit 6 := by
  revert byte
  exact forall_byte (by decide +kernel)

/-- The number of a byte does not go round. -/
theorem toNat_byte_eq_emod {byte : UInt8} {number : Nat} (same : byte.toNat = number) :
    (byte.toNat : Int) = number % 256 := by
  have bound := byte.toNat_lt
  omega

theorem toNat_sub_emod (first second : UInt8) :
    ((first - second).toNat : Int) = ((first.toNat : Int) - second.toNat) % 256 := by
  have bound := second.toNat_lt
  rw [UInt8.toNat_sub]
  omega

theorem toNat_add_one_emod (byte : UInt8) :
    ((byte + 1).toNat : Int) = ((byte.toNat : Int) + 1) % 256 := by
  rw [UInt8.toNat_add]
  rfl

/-- Adding the largest byte takes one away. -/
theorem toNat_add_max_emod (byte : UInt8) :
    ((byte + 0xFF).toNat : Int) = ((byte.toNat : Int) - 1) % 256 := by
  have sum : (byte + 0xFF).toNat = (byte.toNat + 255) % 256 := UInt8.toNat_add byte 0xFF
  omega

/-- To the left a byte becomes twice as large, with what comes in below. -/
theorem Shift.toNat_result_of_left {move : Shift} (left : move.rotation = .rotateLeft)
    (value : UInt8) (carry : Bool) : ((move.result value carry.toUInt8).toNat : Int) =
      (2 * value.toNat + (move.incoming carry).toNat : Nat) % 256 := by
  have exact := rotateLeft_exact value (move.incoming carry)
  rw [← left, move.result_rotation] at exact
  have bound := (move.result value carry.toUInt8).toNat_lt
  omega

/-- To the right a byte is halved, with what comes in above. -/
theorem Shift.toNat_result_of_right {move : Shift} (right : move.rotation = .rotateRight)
    (value : UInt8) (carry : Bool) : ((move.result value carry.toUInt8).toNat : Int) =
      ((value.toNat + 256 * (move.incoming carry).toNat) / 2 : Nat) % 256 := by
  have exact := rotateRight_exact value (move.incoming carry)
  rw [← right, move.result_rotation] at exact
  have lost := Bool.toNat_le (move.rotation.carries value)
  refine toNat_byte_eq_emod ?_
  omega

/-- Zero tells whether a byte is zero, and Negative is its highest bit. -/
structure Status.Describes (status : Status) (byte : UInt8) : Prop where
  zero : status.get .zero = true ↔ byte = 0
  negative : status.get .negative = byte.toNat.testBit 7

theorem Status.describes_updateZeroNegative (status : Status) (byte : UInt8) :
    (status.updateZeroNegative byte).Describes byte := by
  constructor
  · rw [get_zero_updateZeroNegative, beq_iff_eq]
  · rw [get_negative_updateZeroNegative, highBit_eq_testBit]

/-! ### Places of results -/

/-- Where an instruction leaves its result. -/
inductive Place where
  /-- In a register. -/
  | register (register : Register)
  /-- In memory. -/
  | cell (address : UInt16)

/-- The place of a byte that is changed where it is. -/
def Operand.place? : Operand → Option Place
  | .none => Option.none
  | .accumulator => some (.register .a)
  | .address target => some (.cell target)

/-- The instructions that leave a result. -/
def Mnemonic.withResult : List Mnemonic :=
  [lda, ldx, ldy, pla, tax, tay, txa, tya, tsx, inx, iny, dex, dey, and, ora, eor, adc, sbc, inc,
    dec, asl, lsr, rol, ror]

namespace Machine

/-- The byte in a place. -/
def byteIn (machine : Machine) : Place → UInt8
  | .register register => machine.register register
  | .cell address => machine.memory.read address

theorem byteIn_of_place? (machine : Machine) {operand : Operand} {place : Place}
    (same : operand.place? = some place) : machine.byteIn place = machine.byteOf operand := by
  cases operand <;> cases same <;> rfl

/-- Where the instruction at the program counter leaves its result. -/
def resultPlace? (machine : Machine) (opcode : Opcode) : Option Place :=
  match opcode.mnemonic with
  | .lda | .pla | .txa | .tya | .and | .ora | .eor | .adc | .sbc => some (.register .a)
  | .ldx | .tax | .tsx | .inx | .dex => some (.register .x)
  | .ldy | .tay | .iny | .dey => some (.register .y)
  | .inc | .dec | .asl | .lsr | .rol | .ror => (machine.operand opcode.mode).place?
  | _ => none

/-- What the instruction at the program counter comes to, calculated with numbers. The result is
this number, going round where it is too large for a byte or negative. -/
def calculatedResult (machine : Machine) (opcode : Opcode) : Int :=
  let value := (machine.byteOf (machine.operand opcode.mode)).toNat
  let carry := (machine.status.get .carry).toNat
  match opcode.mnemonic with
  | .lda | .ldx | .ldy => value
  | .pla => machine.memory.byteAt (256 + (machine.sp.toNat + 1) % 256)
  | .tax | .tay => machine.a.toNat
  | .txa => machine.x.toNat
  | .tya => machine.y.toNat
  | .tsx => machine.sp.toNat
  | .inx => machine.x.toNat + 1
  | .iny => machine.y.toNat + 1
  | .inc => value + 1
  | .dex => machine.x.toNat - 1
  | .dey => machine.y.toNat - 1
  | .dec => value - 1
  | .and => (machine.a.toNat &&& value : Nat)
  | .ora => (machine.a.toNat ||| value : Nat)
  | .eor => (machine.a.toNat ^^^ value : Nat)
  | .adc => machine.a.toNat + value + carry
  | .sbc => machine.a.toNat - value - (1 - carry)
  | .asl => 2 * value
  | .lsr => value / 2
  | .rol => 2 * value + carry
  | .ror => (value + 256 * carry) / 2
  | .cmp => machine.a.toNat - value
  | .cpx => machine.x.toNat - value
  | .cpy => machine.y.toNat - value
  | _ => 0

/-! ### Sums and differences in numbers -/

theorem toNat_sum (machine : Machine) (value : UInt8) :
    ((machine.addWithCarry value).a.toNat : Int) =
      ((machine.a.toNat : Int) + value.toNat + (machine.status.get .carry).toNat) % 256 := by
  have exact := machine.addWithCarry_exact value
  have bound := (machine.addWithCarry value).a.toNat_lt
  omega

/-- Adding the complement takes away, and one more if the carry is clear. -/
theorem toNat_difference (machine : Machine) (value : UInt8) :
    ((machine.addWithCarry (~~~value)).a.toNat : Int) =
      ((machine.a.toNat : Int) - value.toNat - (1 - (machine.status.get .carry).toNat)) % 256 := by
  have sum := machine.toNat_sum (~~~value)
  have complement : (~~~value).toNat = 255 - value.toNat := UInt8.toNat_not value
  have bound := value.toNat_lt
  omega

/-! ### Results that are left in a place -/

/-- A byte is in a place, and the flags describe it. -/
structure Leaves (place : Place) (byte : UInt8) (after : Machine) : Prop where
  held : after.byteIn place = byte
  described : after.status.Describes byte

theorem leaves_loadRegister (machine : Machine) (register : Register) (value : UInt8) :
    Leaves (.register register) value (machine.loadRegister register value) := by
  constructor
  · cases register <;> rfl
  · cases register <;> exact machine.status.describes_updateZeroNegative value

theorem leaves_storeResult (machine : Machine) (address : UInt16) (result : UInt8) :
    Leaves (.cell address) result (machine.storeResult address result) :=
  ⟨machine.memory.read_write_self address result,
    machine.status.describes_updateZeroNegative result⟩

/-- Counting its cycles changes no result. -/
theorem Leaves.count {place : Place} {byte : UInt8} {after : Machine}
    (leaves : Leaves place byte after) (cost : UInt8) :
    Leaves place byte (after.count cost) := by
  refine ⟨?_, leaves.described⟩
  rw [← leaves.held]
  cases place with
  | register register => cases register <;> rfl
  | cell address => rfl

section

variable {machine : Machine} {opcode : Opcode}
  (found : Opcode.ofByte? machine.nextOpcode = some opcode)

include found

/-- An instruction that reads a byte works on the byte of its operand. -/
theorem executed_of_reading {reading : Reading}
    (reads : opcode.mnemonic.operation = .read reading) :
    ∃ penalty, machine.executed opcode =
      reading.effect (machine.byteOf (machine.operand opcode.mode))
        { machine.fetch.clearPenalties.advance opcode.mode with penalty } := by
  have accepted := Opcode.accepts_of_ofByte? found
  rw [reads] at accepted
  obtain ⟨penalty, charged⟩ :=
    (machine.fetch.clearPenalties.advance opcode.mode).exists_chargeCrossing_eq
  rw [executed, reads, machine.operand_of_accepts accepted rfl rfl, Operation.effect, charged]
  exact ⟨penalty, rfl⟩

theorem leaves_of_load {register : Register}
    (loads : opcode.mnemonic.operation = .read (.load register)) :
    Leaves (.register register) (machine.byteOf (machine.operand opcode.mode))
      (machine.stepped opcode) := by
  obtain ⟨_, executed⟩ := executed_of_reading found loads
  rw [stepped, executed]
  exact (leaves_loadRegister _ _ _).count _

/-- Bits are combined with those of the accumulator. -/
theorem leaves_of_logic {reading : Reading} {combine : UInt8 → UInt8 → UInt8}
    (reads : opcode.mnemonic.operation = .read reading)
    (combines : ∀ value start, reading.effect value start =
      start.loadRegister .a (combine start.a value)) :
    Leaves (.register .a) (combine machine.a (machine.byteOf (machine.operand opcode.mode)))
      (machine.stepped opcode) := by
  obtain ⟨_, executed⟩ := executed_of_reading found reads
  rw [stepped, executed, combines]
  exact (leaves_loadRegister _ _ _).count _

/-- A sum or a difference is in the accumulator. -/
theorem leaves_of_sum (calculates : opcode.mnemonic ∈ [.adc, .sbc]) :
    Leaves (.register .a)
      (machine.addWithCarry
        (opcode.mnemonic.addend (machine.byteOf (machine.operand opcode.mode)))).a
      (machine.stepped opcode) := by
  obtain ⟨result, status⟩ := stepped_add found calculates
  refine ⟨result, ?_⟩
  rw [status]
  exact Status.describes_updateZeroNegative _ _

/-- An action that puts a byte into a register leaves it there. -/
theorem leaves_of_action {action : Action} {register : Register} {byte : UInt8}
    (acts : opcode.mnemonic.operation = .implied action)
    (loads : ∃ start : Machine, (machine.fetch.clearPenalties.advance .implied).act action =
      start.loadRegister register byte) :
    Leaves (.register register) byte (machine.stepped opcode) := by
  obtain ⟨start, loaded⟩ := loads
  rw [stepped, (executed_of_action found acts).2, loaded]
  exact (leaves_loadRegister _ _ _).count _

/-- A byte in memory that is counted up or down is left where it was. -/
theorem leaves_of_adjust {delta : UInt8} (adjusts : opcode.mnemonic.operation = .adjust delta) :
    ∃ place, (machine.operand opcode.mode).place? = some place ∧
      Leaves place (machine.byteOf (machine.operand opcode.mode) + delta)
        (machine.stepped opcode) := by
  have accepted := Opcode.accepts_of_ofByte? found
  rw [adjusts] at accepted
  rw [stepped, executed, adjusts, machine.operand_of_accepts accepted rfl rfl]
  exact ⟨_, rfl, (leaves_storeResult _ _ _).count _⟩

/-- A byte that is moved by one bit is left where it was. -/
theorem leaves_of_shift {move : Shift} (on : machine.initialized = true)
    (shifts : opcode.mnemonic.operation = .shift move) :
    ∃ place, (machine.operand opcode.mode).place? = some place ∧
      Leaves place (move.result (machine.byteOf (machine.operand opcode.mode))
        (machine.status.get .carry).toUInt8) (machine.stepped opcode) := by
  have performs : Performs opcode.mnemonic (machine.operand opcode.mode) machine
      (machine.stepped opcode) := ⟨⟨on, opcode, found, rfl, rfl⟩, _, step_of_opcode on found⟩
  have moves := performs.moves shifts
  obtain ⟨place, same⟩ : ∃ place, (machine.operand opcode.mode).place? = some place := by
    have accepted := Opcode.accepts_of_ofByte? found
    rw [shifts] at accepted
    cases mode : opcode.mode <;> rw [mode] at accepted <;> cases accepted <;> exact ⟨_, rfl⟩
  refine ⟨place, same, ?_, ?_⟩
  · rw [byteIn_of_place? _ same, moves.byte]
  · rw [moves.status, moves.byte]
    exact Status.describes_updateZeroNegative _ _

/-- What an instruction leaves in its place is the calculated result. -/
theorem leaves_calculated (on : machine.initialized = true)
    (results : opcode.mnemonic ∈ Mnemonic.withResult) :
    ∃ place byte, machine.resultPlace? opcode = some place ∧
      Leaves place byte (machine.stepped opcode) ∧
      (byte.toNat : Int) = machine.calculatedResult opcode % 256 := by
  obtain ⟨mnemonic, mode, cycles⟩ := opcode
  dsimp only at results
  let value := machine.byteOf (machine.operand mode)
  let carry := machine.status.get .carry
  cases mnemonic with
  | lda | ldx | ldy => exact ⟨_, _, rfl, leaves_of_load found rfl, toNat_byte_eq_emod rfl⟩
  | pla =>
    refine ⟨_, machine.top, rfl, leaves_of_action found rfl ⟨_, rfl⟩, toNat_byte_eq_emod ?_⟩
    rw [top, Memory.toNat_read, toNat_stackAddress, UInt8.toNat_add]
    rfl
  | tax | tay =>
    exact ⟨_, machine.a, rfl, leaves_of_action found rfl ⟨_, rfl⟩, toNat_byte_eq_emod rfl⟩
  | txa => exact ⟨_, machine.x, rfl, leaves_of_action found rfl ⟨_, rfl⟩, toNat_byte_eq_emod rfl⟩
  | tya => exact ⟨_, machine.y, rfl, leaves_of_action found rfl ⟨_, rfl⟩, toNat_byte_eq_emod rfl⟩
  | tsx => exact ⟨_, machine.sp, rfl, leaves_of_action found rfl ⟨_, rfl⟩, toNat_byte_eq_emod rfl⟩
  | inx => exact ⟨_, _, rfl, leaves_of_action found rfl ⟨_, rfl⟩, toNat_add_one_emod machine.x⟩
  | iny => exact ⟨_, _, rfl, leaves_of_action found rfl ⟨_, rfl⟩, toNat_add_one_emod machine.y⟩
  | dex => exact ⟨_, _, rfl, leaves_of_action found rfl ⟨_, rfl⟩, toNat_add_max_emod machine.x⟩
  | dey => exact ⟨_, _, rfl, leaves_of_action found rfl ⟨_, rfl⟩, toNat_add_max_emod machine.y⟩
  | and =>
    exact ⟨_, _, rfl, leaves_of_logic found rfl fun _ _ => rfl,
      toNat_byte_eq_emod (UInt8.toNat_and machine.a value)⟩
  | ora =>
    exact ⟨_, _, rfl, leaves_of_logic found rfl fun _ _ => rfl,
      toNat_byte_eq_emod (UInt8.toNat_or machine.a value)⟩
  | eor =>
    exact ⟨_, _, rfl, leaves_of_logic found rfl fun _ _ => rfl,
      toNat_byte_eq_emod (UInt8.toNat_xor machine.a value)⟩
  | adc =>
    exact ⟨_, _, rfl, leaves_of_sum found List.mem_cons_self, machine.toNat_sum value⟩
  | sbc =>
    exact ⟨_, _, rfl, leaves_of_sum found (List.mem_cons_of_mem _ List.mem_cons_self),
      machine.toNat_difference value⟩
  | inc =>
    obtain ⟨place, same, leaves⟩ := leaves_of_adjust found rfl
    exact ⟨place, _, same, leaves, toNat_add_one_emod value⟩
  | dec =>
    obtain ⟨place, same, leaves⟩ := leaves_of_adjust found rfl
    exact ⟨place, _, same, leaves, toNat_add_max_emod value⟩
  | asl | rol =>
    obtain ⟨place, same, leaves⟩ := leaves_of_shift found on rfl
    exact ⟨place, _, same, leaves, Shift.toNat_result_of_left rfl value carry⟩
  | lsr | ror =>
    obtain ⟨place, same, leaves⟩ := leaves_of_shift found on rfl
    exact ⟨place, _, same, leaves, Shift.toNat_result_of_right rfl value carry⟩
  | _ => exact absurd results (by decide)

/-! ### Results that are left nowhere -/

/-- A comparison leaves everything in its place, and the flags describe the difference. -/
theorem describes_of_comparison {register : Register}
    (compares : opcode.mnemonic.operation = .read (.compare register)) :
    (machine.stepped opcode).status.Describes
        (machine.register register - machine.byteOf (machine.operand opcode.mode)) ∧
      (machine.stepped opcode).sp = machine.sp ∧
      ∀ place, (machine.stepped opcode).byteIn place = machine.byteIn place := by
  obtain ⟨_, executed⟩ := executed_of_reading found compares
  rw [stepped, executed]
  refine ⟨?_, rfl, fun place => ?_⟩
  · cases register <;> exact Status.describes_updateZeroNegative _ _
  · cases place with
    | register held => cases held <;> rfl
    | cell address => rfl

/-- What a comparison comes to is the calculated result. -/
theorem exists_difference (compares : opcode.mnemonic ∈ [.cmp, .cpx, .cpy]) :
    ∃ difference : UInt8, (difference.toNat : Int) = machine.calculatedResult opcode % 256 ∧
      (machine.stepped opcode).status.Describes difference ∧
      (machine.stepped opcode).sp = machine.sp ∧
      ∀ place, (machine.stepped opcode).byteIn place = machine.byteIn place := by
  obtain ⟨mnemonic, mode, cycles⟩ := opcode
  simp only [List.mem_cons, List.not_mem_nil, or_false] at compares
  rcases compares with rfl | rfl | rfl
  · exact ⟨_, toNat_sub_emod machine.a _, describes_of_comparison found rfl⟩
  · exact ⟨_, toNat_sub_emod machine.x _, describes_of_comparison found rfl⟩
  · exact ⟨_, toNat_sub_emod machine.y _, describes_of_comparison found rfl⟩

/-- BIT shows two bits of its operand, and whether the accumulator has a bit in common with it. -/
theorem shows_of_test (tests : opcode.mnemonic.operation = .read .test) :
    let value := machine.byteOf (machine.operand opcode.mode)
    let status := (machine.stepped opcode).status
    (status.get .zero = true ↔ machine.a &&& value = 0) ∧
      status.get .negative = value.toNat.testBit 7 ∧
      status.get .overflow = value.toNat.testBit 6 := by
  intro value status
  obtain ⟨_, executed⟩ := executed_of_reading found tests
  have shown : status = ((machine.status.set .zero (machine.a &&& value == 0)).set .negative
      (value &&& 0x80 != 0)).set .overflow (value &&& 0x40 != 0) := by
    show (machine.executed opcode).status = _
    rw [executed]
    rfl
  rw [shown]
  refine ⟨?_, ?_, ?_⟩
  · rw [Status.get_set_other _ _ (by decide), Status.get_set_other _ _ (by decide),
      Status.get_set_self _ _ (by decide), beq_iff_eq]
  · rw [Status.get_set_other _ _ (by decide), Status.get_set_self _ _ (by decide),
      highBit_eq_testBit]
  · rw [Status.get_set_self _ _ (by decide), overflowBit_eq_testBit]

end

/-! ### Steps -/

/-- After every instruction with a result, Zero and Negative describe the byte that is in its place
then, and that byte is the calculated one. A comparison is described in the same way, but leaves
every byte as it was. BIT sets Zero if its operand has no bit in common with the accumulator, and
shows the two highest bits of the operand. -/
theorem step_describes_result {machine : Machine} {opcode : Opcode}
    (on : machine.initialized = true)
    (found : Opcode.ofByte? machine.nextOpcode = some opcode) :
    ∃ cost after, machine.step = .ok cost after ∧
      (opcode.mnemonic ∈ Mnemonic.withResult →
        ∃ place, machine.resultPlace? opcode = some place ∧
          ((after.byteIn place).toNat : Int) = machine.calculatedResult opcode % 256 ∧
          after.status.Describes (after.byteIn place)) ∧
      (opcode.mnemonic ∈ [.cmp, .cpx, .cpy] → ∃ difference : UInt8,
        (difference.toNat : Int) = machine.calculatedResult opcode % 256 ∧
          after.status.Describes difference ∧ after.sp = machine.sp ∧
          ∀ place, after.byteIn place = machine.byteIn place) ∧
      (opcode.mnemonic = .bit →
        let value := machine.byteOf (machine.operand opcode.mode)
        (after.status.get .zero = true ↔ machine.a &&& value = 0) ∧
          after.status.get .negative = value.toNat.testBit 7 ∧
          after.status.get .overflow = value.toNat.testBit 6) := by
  refine ⟨_, _, step_of_opcode on found, fun results => ?_, exists_difference found, fun bit => ?_⟩
  · obtain ⟨place, byte, same, leaves, calculated⟩ := leaves_calculated found on results
    refine ⟨place, same, ?_, ?_⟩
    · rw [leaves.held, calculated]
    · rw [leaves.held]
      exact leaves.described
  · exact shows_of_test found (congrArg Mnemonic.operation bit)

/-- A DEC counts its own operand byte down to zero, and a CMP with a larger byte finds a negative
difference. -/
theorem step_describes_result_aliased :
    let countdown : Machine :=
      { initialized := true, memory := Memory.empty.writeRange 0 [0xC6, 0x01] }
    let comparison : Machine :=
      { a := 0x10, initialized := true, memory := Memory.empty.writeRange 0 [0xC9, 0x90] }
    (∃ cost after, countdown.step = .ok cost after ∧ after.memory.read 1 = 0 ∧
      after.status.get .zero = true) ∧
    ∃ cost after, comparison.step = .ok cost after ∧ after.a = 0x10 ∧
      after.status.get .negative = true := by
  intro countdown comparison
  have dec : Opcode.ofByte? countdown.nextOpcode = some ⟨.dec, .zeroPage, 5⟩ := by
    have first : countdown.nextOpcode = 0xC6 := by
      simp [countdown, nextOpcode, Memory.writeRange, Memory.read_write]
    rw [first]
    rfl
  have cmp : Opcode.ofByte? comparison.nextOpcode = some ⟨.cmp, .immediate, 2⟩ := by
    have first : comparison.nextOpcode = 0xC9 := by
      simp [comparison, nextOpcode, Memory.writeRange, Memory.read_write]
    rw [first]
    rfl
  have one : countdown.memory.read 1 = 1 := by
    simp [countdown, Memory.writeRange]
  have value : comparison.memory.read 1 = 0x90 := by
    simp [comparison, Memory.writeRange]
  have target : countdown.operand .zeroPage = .address 1 := by
    show Operand.address (countdown.memory.read 1).toUInt16 = _
    rw [one]
    rfl
  have counts : countdown.calculatedResult ⟨.dec, .zeroPage, 5⟩ = 0 := by
    show ((countdown.byteOf (countdown.operand .zeroPage)).toNat : Int) - 1 = 0
    rw [target]
    show ((countdown.memory.read 1).toNat : Int) - 1 = 0
    rw [one]
    rfl
  have differs : comparison.calculatedResult ⟨.cmp, .immediate, 2⟩ = -0x80 := by
    show 0x10 - ((comparison.memory.read 1).toNat : Int) = -0x80
    rw [value]
    rfl
  obtain ⟨cost, counted, counting, results, _⟩ :=
    step_describes_result (show countdown.initialized = true from rfl) dec
  obtain ⟨place, same, byte, described⟩ := results (by decide)
  obtain ⟨otherCost, compared, comparing, _, compares, _⟩ :=
    step_describes_result (show comparison.initialized = true from rfl) cmp
  obtain ⟨difference, calculated, describedDifference, _, kept⟩ := compares (by decide)
  cases (congrArg Operand.place? target).symm.trans same
  rw [counts] at byte
  rw [differs] at calculated
  have zero : counted.memory.read 1 = 0 := UInt8.toNat_inj.mp (Int.ofNat_inj.mp byte)
  have half : difference.toNat = 0x80 := Int.ofNat_inj.mp calculated
  refine ⟨⟨cost, counted, counting, zero, described.zero.mpr zero⟩,
    otherCost, compared, comparing, kept (.register .a), ?_⟩
  rw [describedDifference.negative, half]
  rfl

end Machine

end Mos6502
