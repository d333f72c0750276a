/-
This file proves that ADC and SBC calculate with numbers of any length. A program goes through the
columns of a long sum from the lowest on, with one byte in the accumulator and one as the operand,
and the carry goes from column to column. In each of them the result and the carry out of it make up
the exact sum of the two bytes and the carry into it; so all the results and the last carry make up
the exact sum of the numbers. Overflow is settled in the highest column alone. A difference is the
sum with the complement, where the carry stands for what is not borrowed. The decimal flag has no
part in it.
-/

import Mos6502.Proofs.Frame
import Mos6502.Proofs.Multibyte

namespace Mos6502

/-! ### One sum -/

theorem highBit_eq_msb (byte : UInt8) : (byte &&& 0x80 != 0) = byte.toBitVec.msb := by
  revert byte
  exact forall_byte (by decide +kernel)

theorem highBit_eq_decide (byte : UInt8) : (byte &&& 0x80 != 0) = decide (128 ≤ byte.toNat) :=
  (highBit_eq_msb byte).trans (BitVec.msb_eq_decide _)

/-- Overflow is set for summands that agree in the highest bit, where the result does not. -/
theorem overflows_iff (first second result : UInt8) :
    (~~~(first ^^^ second) &&& (first ^^^ result) &&& 0x80 != 0) = true ↔
      (128 ≤ first.toNat ↔ 128 ≤ second.toNat) ∧ ¬(128 ≤ first.toNat ↔ 128 ≤ result.toNat) := by
  have high (byte : UInt8) : byte.toBitVec.msb = decide (128 ≤ byte.toNat) :=
    BitVec.msb_eq_decide _
  rw [highBit_eq_msb, UInt8.toBitVec_and, UInt8.toBitVec_not, UInt8.toBitVec_xor,
    UInt8.toBitVec_xor, BitVec.msb_and, BitVec.msb_not, BitVec.msb_xor, BitVec.msb_xor, high, high,
    high]
  by_cases firstHigh : 128 ≤ first.toNat <;> by_cases secondHigh : 128 ≤ second.toNat <;>
    by_cases resultHigh : 128 ≤ result.toNat <;> simp [firstHigh, secondHigh, resultHigh]

/-- A byte with its highest bit set stands for a negative number. -/
theorem signedNumber_singleton (byte : UInt8) :
    signedNumber [byte] = if 128 ≤ byte.toNat then (byte.toNat : Int) - 256 else byte.toNat := by
  rw [signedNumber_eq (List.cons_ne_nil byte []), number_singleton, List.length_singleton]
  split <;> split <;> omega

namespace Machine

section

variable (machine : Machine) (value : UInt8)

/-- The sum that the flags and the result are taken from. -/
def wideSum : UInt16 :=
  machine.a.toUInt16 + value.toUInt16 + machine.status.carryBit.toUInt16

theorem toNat_wideSum : (machine.wideSum value).toNat =
    machine.a.toNat + value.toNat + (machine.status.get .carry).toNat := by
  have accumulatorBound := machine.a.toNat_lt
  have valueBound := value.toNat_lt
  have carry : machine.status.carryBit.toUInt16.toNat = (machine.status.get .carry).toNat := by
    rw [machine.status.carryBit_eq]
    cases machine.status.get .carry <;> rfl
  have bit := Bool.toNat_le (machine.status.get .carry)
  rw [wideSum, UInt16.toNat_add, UInt16.toNat_add, carry, UInt8.toNat_toUInt16,
    UInt8.toNat_toUInt16]
  omega

theorem a_addWithCarry :
    (machine.addWithCarry value).a.toNat = (machine.wideSum value).toNat % 256 :=
  UInt16.toNat_toUInt8 _

theorem carry_addWithCarry : (machine.addWithCarry value).status.get .carry =
    decide (256 ≤ (machine.wideSum value).toNat) := by
  have carries : (machine.addWithCarry value).status.get .carry =
      decide (0xFF < machine.wideSum value) := by
    refine (Status.get_updateZeroNegative_other _ _ (by decide)).trans ?_
    exact (Status.get_set_other _ _ (by decide)).trans (Status.get_set_self _ _ (by decide))
  rw [carries, decide_eq_decide, UInt16.lt_iff_toNat_lt]
  exact Nat.succ_le_iff.symm

/-- The exact sum of the accumulator, a byte and the carry is the result and the carry after it. -/
theorem addWithCarry_exact :
    (machine.addWithCarry value).a.toNat +
        256 * ((machine.addWithCarry value).status.get .carry).toNat =
      machine.a.toNat + value.toNat + (machine.status.get .carry).toNat := by
  have accumulatorBound := machine.a.toNat_lt
  have valueBound := value.toNat_lt
  have bit := Bool.toNat_le (machine.status.get .carry)
  rw [a_addWithCarry, carry_addWithCarry, ← toNat_wideSum]
  have total := machine.toNat_wideSum value
  by_cases carries : 256 ≤ (machine.wideSum value).toNat
  · rw [decide_eq_true carries, Bool.toNat_true]
    omega
  · rw [decide_eq_false carries, Bool.toNat_false]
    omega

/-- Overflow tells whether the exact sum of the signed bytes and the carry is no signed byte. -/
theorem overflow_addWithCarry :
    (machine.addWithCarry value).status.get .overflow = true ↔
      ¬SignedFits 1 (signedNumber [machine.a] + signedNumber [value] +
        (machine.status.get .carry).toNat) := by
  have exact := machine.addWithCarry_exact value
  have differs : (machine.addWithCarry value).status.get .overflow =
      (~~~(machine.a ^^^ value) &&& (machine.a ^^^ (machine.addWithCarry value).a) &&& 0x80
        != 0) := by
    refine (Status.get_updateZeroNegative_other _ _ (by decide)).trans ?_
    exact Status.get_set_self _ _ (by decide)
  have carryIn := Bool.toNat_le (machine.status.get .carry)
  have carryOut := Bool.toNat_le ((machine.addWithCarry value).status.get .carry)
  have accumulatorBound := machine.a.toNat_lt
  have valueBound := value.toNat_lt
  have resultBound := (machine.addWithCarry value).a.toNat_lt
  rw [differs, overflows_iff, signedNumber_singleton, signedNumber_singleton, SignedFits]
  split <;> split <;> omega

theorem negative_addWithCarry : (machine.addWithCarry value).status.get .negative =
    ((machine.addWithCarry value).a &&& 0x80 != 0) :=
  Status.get_negative_updateZeroNegative _ _

theorem zero_addWithCarry : (machine.addWithCarry value).status.get .zero =
    ((machine.addWithCarry value).a == 0) :=
  Status.get_zero_updateZeroNegative _ _

end

end Machine

/-! ### Columns -/

/-- A column of a long sum or difference. -/
structure Column where
  /-- The byte that is in the accumulator before the instruction. -/
  upper : UInt8
  /-- The operand byte. -/
  lower : UInt8
  /-- The byte that is in the accumulator after it. -/
  result : UInt8

/-- What an instruction adds to the accumulator, given its operand byte. -/
def Mnemonic.addend (mnemonic : Mnemonic) (value : UInt8) : UInt8 :=
  if mnemonic = .sbc then ~~~value else value

namespace Machine

/-- A step executes an instruction on a column. -/
structure Computes (mnemonic : Mnemonic) (column : Column) (before after : Machine) : Prop where
  /-- The operand byte is the lower byte. -/
  performs : ∃ operand, Performs mnemonic operand before after ∧
    before.byteOf operand = column.lower
  /-- The upper byte is in the accumulator. -/
  upper : before.a = column.upper
  /-- The result is there afterwards. -/
  result : after.a = column.result

/-- The carry goes on to the next column. -/
def KeepsCarry (first before : Machine) : Prop :=
  before.status.get .carry = first.status.get .carry

/-- An addition sets the accumulator and the flags to those of a sum. -/
theorem stepped_add {machine : Machine} {opcode : Opcode}
    (found : Opcode.ofByte? machine.nextOpcode = some opcode)
    (calculates : opcode.mnemonic ∈ [.adc, .sbc]) :
    let sum := machine.addWithCarry
      (opcode.mnemonic.addend (machine.byteOf (machine.operand opcode.mode)))
    (machine.stepped opcode).a = sum.a ∧ (machine.stepped opcode).status = sum.status := by
  have accepted := Opcode.accepts_of_ofByte? found
  obtain ⟨_, uncharged⟩ :=
    (machine.fetch.clearPenalties.advance opcode.mode).exists_chargeCrossing_eq
  simp only [List.mem_cons, List.not_mem_nil, or_false] at calculates
  obtain ⟨mnemonic, mode, cycles⟩ := opcode
  dsimp only at accepted uncharged calculates ⊢
  have inMemory : mode ≠ .implied ∧ mode ≠ .accumulator := by
    rcases calculates with rfl | rfl <;> constructor <;> rintro rfl <;> cases accepted
  rw [stepped, executed, machine.operand_eq_address inMemory.1 inMemory.2]
  rcases calculates with rfl | rfl <;>
    simp only [Mnemonic.operation, Operation.effect, uncharged] <;>
    exact ⟨rfl, rfl⟩

section

variable {mnemonic : Mnemonic} {column : Column} {before after : Machine}
  (computes : Computes mnemonic column before after) (calculates : mnemonic ∈ [.adc, .sbc])

include computes calculates

/-- After a column the result and the flags are those of its sum. -/
theorem Computes.eq_sum :
    let sum := before.addWithCarry (mnemonic.addend column.lower)
    column.result = sum.a ∧ after.status = sum.status := by
  obtain ⟨operand, performs, lower⟩ := computes.performs
  obtain ⟨opcode, found, rfl, leads, stepped⟩ := performs.opcode
  have sum := stepped_add found calculates
  rw [leads, lower, ← stepped, computes.result] at sum
  exact sum

/-- The exact sum of a column is its result and the carry out of it. -/
theorem Computes.exact : column.result.toNat + 256 * (after.status.get .carry).toNat =
    column.upper.toNat + (mnemonic.addend column.lower).toNat +
      (before.status.get .carry).toNat := by
  obtain ⟨result, status⟩ := computes.eq_sum calculates
  rw [result, status, ← computes.upper]
  exact before.addWithCarry_exact _

theorem Computes.overflow : after.status.get .overflow = true ↔
    ¬SignedFits 1 (signedNumber [column.upper] + signedNumber [mnemonic.addend column.lower] +
      (before.status.get .carry).toNat) := by
  rw [(computes.eq_sum calculates).2, ← computes.upper]
  exact before.overflow_addWithCarry _

theorem Computes.negative : after.status.get .negative =
    (number [column.result]).testBit (8 * [column.result].length - 1) := by
  obtain ⟨result, status⟩ := computes.eq_sum calculates
  rw [testBit_number (List.cons_ne_nil _ []), number_singleton, status, result,
    negative_addWithCarry, highBit_eq_decide, decide_eq_decide]
  exact (Nat.mul_le_mul_left_iff (by decide : 0 < 2)).symm

theorem Computes.zero : after.status.get .zero = true ↔ number [column.result] = 0 := by
  obtain ⟨result, status⟩ := computes.eq_sum calculates
  rw [status, zero_addWithCarry, ← result, number_singleton, beq_iff_eq]
  exact UInt8.toNat_inj.symm

end

/-! ### Whole sums -/

section

variable {mnemonic : Mnemonic} {first last : Machine} {columns : List Column}
  (chain : Interleaved KeepsCarry (Computes mnemonic) first columns last)
  (calculates : mnemonic ∈ [.adc, .sbc])

include chain calculates

/-- The exact sum of two numbers and the carry is the number of the results and the last carry. -/
theorem exact_of_chain :
    number (columns.map Column.result) +
        256 ^ columns.length * (last.status.get .carry).toNat =
      number (columns.map Column.upper) +
        number (columns.map fun column => mnemonic.addend column.lower) +
        (first.status.get .carry).toNat := by
  induction chain with
  | nil machine => simp
  | @cons first before after last column rest kept done others inductionHypothesis =>
    have lowest := done.exact calculates
    rw [kept] at lowest
    have results := number_cons_add column.result (rest.map Column.result)
      (last.status.get .carry).toNat
    rw [List.length_cons, List.length_map, inductionHypothesis] at results
    rw [List.map_cons, List.map_cons, List.map_cons, List.length_cons, results,
      number_cons column.upper, number_cons (mnemonic.addend column.lower)]
    omega

/-- Overflow is settled in the highest column: the others move both the signed sum and its bounds by
one place. -/
theorem overflow_of_chain (some : columns ≠ []) : last.status.get .overflow = true ↔
    ¬SignedFits columns.length (signedNumber (columns.map Column.upper) +
      signedNumber (columns.map fun column => mnemonic.addend column.lower) +
      (first.status.get .carry).toNat) := by
  induction chain with
  | nil machine => exact absurd rfl some
  | @cons first before after last column rest kept done others inductionHypothesis =>
    have lowest := done.exact calculates
    rw [← kept]
    by_cases alone : rest = []
    · subst alone
      cases others
      exact done.overflow calculates
    · have uppers : rest.map Column.upper ≠ [] := fun none => alone (List.map_eq_nil_iff.mp none)
      have addends : (rest.map fun column => mnemonic.addend column.lower) ≠ [] :=
        fun none => alone (List.map_eq_nil_iff.mp none)
      -- The sum of the whole columns is the sum of the rest with the lowest result below it.
      have upper := signedNumber_cons column.upper uppers
      have addend := signedNumber_cons (mnemonic.addend column.lower) addends
      rw [inductionHypothesis alone, not_iff_not,
        ← signedFits_cons (List.length_pos_of_ne_nil alone) column.result, List.map_cons,
        List.map_cons, upper, addend, List.length_cons]
      refine iff_of_eq (congrArg _ ?_)
      omega

theorem negative_of_chain (some : columns ≠ []) : last.status.get .negative =
    (number (columns.map Column.result)).testBit (8 * columns.length - 1) := by
  induction chain with
  | nil machine => exact absurd rfl some
  | @cons first before after last column rest kept done others inductionHypothesis =>
    by_cases alone : rest = []
    · subst alone
      cases others
      exact done.negative calculates
    · have results : rest.map Column.result ≠ [] := fun none => alone (List.map_eq_nil_iff.mp none)
      have higher := testBit_number_cons column.result results
      rw [List.length_cons, List.length_map] at higher
      rw [inductionHypothesis alone]
      exact higher.symm

theorem zero_of_chain (single : columns.length = 1) :
    last.status.get .zero = true ↔ number (columns.map Column.result) = 0 := by
  obtain ⟨column, rfl⟩ := List.length_eq_one_iff.mp single
  cases chain with
  | cons kept done others =>
    cases others
    exact done.zero calculates

end

/-- The flags and the bytes of a result describe a total, unsigned and signed. -/
structure Describes (machine : Machine) (results : List UInt8) (total signedTotal : Int)
    (carry : Prop) : Prop where
  /-- The result is the total, going round where it is too large or negative. -/
  result : (number results : Int) = total % (256 ^ results.length : Nat)
  /-- Carry is set under its condition. -/
  carry : machine.status.get .carry = true ↔ carry
  /-- Overflow tells whether the signed total has no place in the result. -/
  overflow : machine.status.get .overflow = true ↔ ¬SignedFits results.length signedTotal
  /-- Negative is the highest bit of the result. -/
  negative : machine.status.get .negative = (number results).testBit (8 * results.length - 1)
  /-- Zero tells whether a result of one byte is zero. -/
  zero : results.length = 1 → (machine.status.get .zero = true ↔ number results = 0)

theorem describes_sum {first last : Machine} {columns : List Column} (some : columns ≠ [])
    (chain : Interleaved KeepsCarry (Computes .adc) first columns last) :
    let carry := (first.status.get .carry).toNat
    let upper := columns.map Column.upper
    let lower := columns.map Column.lower
    last.Describes (columns.map Column.result) (number upper + number lower + carry)
      (signedNumber upper + signedNumber lower + carry)
      (256 ^ columns.length ≤ number upper + number lower + carry) := by
  intro carry upper lower
  let results := columns.map Column.result
  have length : columns.length = results.length := (List.length_map Column.result).symm
  have exact : number results + 256 ^ columns.length * (last.status.get .carry).toNat =
      number upper + number lower + carry :=
    exact_of_chain chain (by decide)
  have overflow := overflow_of_chain chain (by decide) some
  have negative := negative_of_chain chain (by decide) some
  have zero := zero_of_chain chain (by decide)
  have round := number_eq_emod results (last.status.get .carry).toNat
  rw [length] at exact overflow negative zero ⊢
  refine { result := ?_, carry := ?_, overflow, negative, zero }
  · rw [round]
    exact congrArg (· % _) (mod_cast exact)
  · rw [← exact]
    exact carry_iff_le (number_lt results) _

/-- A difference is the sum with the complement, which is one round more. -/
theorem describes_difference {first last : Machine} {columns : List Column} (some : columns ≠ [])
    (chain : Interleaved KeepsCarry (Computes .sbc) first columns last) :
    let borrow := 1 - (first.status.get .carry).toNat
    let upper := columns.map Column.upper
    let lower := columns.map Column.lower
    last.Describes (columns.map Column.result) (number upper - number lower - borrow)
      (signedNumber upper - signedNumber lower - borrow)
      (number lower + borrow ≤ number upper) := by
  intro borrow upper lower
  let results := columns.map Column.result
  have length : columns.length = results.length := (List.length_map Column.result).symm
  have lowers : lower ≠ [] := fun none => some (List.map_eq_nil_iff.mp none)
  have addends : (columns.map fun column => Mnemonic.sbc.addend column.lower) =
      lower.map (~~~·) := by
    rw [List.map_map]
    rfl
  -- So the exact sum is the difference and one round more, which a carry out of it takes away.
  have complement := number_map_not lower
  have signedComplement := signedNumber_map_not lowers
  have exact : number results + 256 ^ columns.length * (last.status.get .carry).toNat =
      number upper + number (lower.map (~~~·)) + (first.status.get .carry).toNat := by
    rw [← addends]
    exact exact_of_chain chain (by decide)
  have overflow : last.status.get .overflow = true ↔ ¬SignedFits columns.length
      (signedNumber upper + signedNumber (lower.map (~~~·)) +
        (first.status.get .carry).toNat) := by
    rw [← addends]
    exact overflow_of_chain chain (by decide) some
  have negative := negative_of_chain chain (by decide) some
  have zero := zero_of_chain chain (by decide)
  have round := number_eq_emod results ((last.status.get .carry).toNat - 1)
  have carryIn := Bool.toNat_le (first.status.get .carry)
  rw [List.length_map, length] at complement
  rw [length] at exact overflow negative zero
  refine { result := ?_, carry := ?_, overflow := ?_, negative, zero }
  · rw [round, Int.mul_sub]
    refine congrArg (· % _) ?_
    omega
  · rw [carry_iff_le (number_lt results)]
    omega
  · rw [overflow, signedComplement]
    refine not_congr (iff_of_eq (congrArg _ ?_))
    omega

/-- Whatever the carry and the bytes of a column are, it can be the next. -/
theorem exists_computes {mnemonic : Mnemonic} (calculates : mnemonic ∈ [.adc, .sbc])
    (first : Machine) (upper lower : UInt8) : ∃ result before after, KeepsCarry first before ∧
      Computes mnemonic { upper, lower, result } before after := by
  have opcode : ∃ byte cycles, Opcode.ofByte? byte = some ⟨mnemonic, .immediate, cycles⟩ := by
    simp only [List.mem_cons, List.not_mem_nil, or_false] at calculates
    rcases calculates with rfl | rfl
    · exact ⟨0x69, 2, rfl⟩
    · exact ⟨0xE9, 2, rfl⟩
  obtain ⟨byte, cycles, found⟩ := opcode
  let memory := (first.memory.write 1 lower).write 0 byte
  let before := { first with a := upper, pc := 0, initialized := true, memory }
  have next : before.nextOpcode = byte := Memory.read_write_self _ _ _
  have operand : before.byteOf (.address 1) = lower := by
    show memory.read 1 = lower
    rw [Memory.read_write_other _ _ (by decide), Memory.read_write_self]
  have aboutTo : before.AboutTo mnemonic (.address 1) := ⟨rfl, _, next ▸ found, rfl, rfl⟩
  obtain ⟨after, performs⟩ := aboutTo.performs
  exact ⟨after.a, before, after, rfl, ⟨_, performs, operand⟩, rfl, rfl⟩

/-- Any two numbers of the same length can be added or subtracted, with any carry. -/
theorem exists_chain {mnemonic : Mnemonic} (calculates : mnemonic ∈ [.adc, .sbc])
    (first : Machine) {upper lower : List UInt8} (alike : upper.length = lower.length) :
    ∃ columns last, Interleaved KeepsCarry (Computes mnemonic) first columns last ∧
      columns.map Column.upper = upper ∧ columns.map Column.lower = lower := by
  induction upper generalizing first lower with
  | nil =>
    cases List.length_eq_zero_iff.mp alike.symm
    exact ⟨[], first, .nil first, rfl, rfl⟩
  | cons top rest inductionHypothesis =>
    obtain ⟨bottom, others, rfl⟩ := List.exists_cons_of_length_eq_add_one alike.symm
    obtain ⟨result, before, after, kept, done⟩ := exists_computes calculates first top bottom
    obtain ⟨columns, last, chain, rfl, rfl⟩ := inductionHypothesis after (Nat.succ.inj alike)
    exact ⟨_ :: columns, last, .cons kept done chain, rfl, rfl⟩

/-- Columns added or subtracted one after the other make up the exact sum or difference of numbers
of any length: the bytes of the result, and the flags after the highest column, are those of the
total. No instruction on the way is refused. -/
theorem sums_and_differences_exact :
    (∀ {machine : Machine} {mnemonic : Mnemonic} {operand : Operand},
      machine.AboutTo mnemonic operand → ∃ after, Performs mnemonic operand machine after) ∧
    ∀ {first last : Machine} {columns : List Column}, columns ≠ [] →
      let carry := (first.status.get .carry).toNat
      let borrow := 1 - carry
      let upper := columns.map Column.upper
      let lower := columns.map Column.lower
      let results := columns.map Column.result
      (Interleaved KeepsCarry (Computes .adc) first columns last →
        last.Describes results (number upper + number lower + carry)
          (signedNumber upper + signedNumber lower + carry)
          (256 ^ columns.length ≤ number upper + number lower + carry)) ∧
      (Interleaved KeepsCarry (Computes .sbc) first columns last →
        last.Describes results (number upper - number lower - borrow)
          (signedNumber upper - signedNumber lower - borrow)
          (number lower + borrow ≤ number upper)) :=
  ⟨AboutTo.performs, fun some => ⟨describes_sum some, describes_difference some⟩⟩

/-- In decimal mode, two bytes go from the largest signed number to the smallest and back. -/
theorem sums_and_differences_exact_signed :
    let first : Machine := { memory := .empty, status := Status.initial.set .decimal true }
    let second : Machine := { first with status := first.status.set .carry true }
    (∃ columns last, Interleaved KeepsCarry (Computes .adc) first columns last ∧
      columns.map Column.upper = [0xFF, 0x7F] ∧ columns.map Column.lower = [1, 0] ∧
      number (columns.map Column.result) = 0x8000 ∧ last.status.get .carry = false ∧
      last.status.get .overflow = true ∧ last.status.get .negative = true) ∧
    ∃ columns last, Interleaved KeepsCarry (Computes .sbc) second columns last ∧
      columns.map Column.upper = [0, 0x80] ∧ columns.map Column.lower = [1, 0] ∧
      number (columns.map Column.result) = 0x7FFF ∧ last.status.get .carry = true ∧
      last.status.get .overflow = true ∧ last.status.get .negative = false := by
  intro first second
  have adds : Mnemonic.adc ∈ [.adc, .sbc] := by decide
  have subtracts : Mnemonic.sbc ∈ [.adc, .sbc] := by decide
  have two {columns : List Column} {low high : UInt8}
      (bytes : columns.map Column.upper = [low, high]) :
      columns ≠ [] ∧ (columns.map Column.result).length = 2 := by
    have length := congrArg List.length bytes
    rw [List.length_map] at length ⊢
    exact ⟨List.ne_nil_of_length_eq_add_one length, length⟩
  constructor
  · obtain ⟨columns, last, chain, upper, lower⟩ :=
      exists_chain adds first (show [0xFF, 0x7F].length = [1, 0].length from rfl)
    obtain ⟨some, length⟩ := two upper
    have sum := (sums_and_differences_exact.2 some).1 chain
    rw [upper, lower] at sum
    obtain ⟨result, carry, overflow, negative, _⟩ := sum
    rw [length] at result overflow negative
    rw [← List.length_map Column.result, length] at carry
    have total : number (columns.map Column.result) = 0x8000 :=
      Int.ofNat_inj.mp (result.trans (by decide))
    rw [total] at negative
    refine ⟨columns, last, chain, upper, lower, total, ?_, overflow.mpr ?_, negative⟩
    · exact Bool.eq_false_iff.mpr fun set => absurd (carry.mp set) (by decide)
    · decide
  · obtain ⟨columns, last, chain, upper, lower⟩ :=
      exists_chain subtracts second (show [0, 0x80].length = [1, 0].length from rfl)
    obtain ⟨some, length⟩ := two upper
    have difference := (sums_and_differences_exact.2 some).2 chain
    rw [upper, lower] at difference
    obtain ⟨result, carry, overflow, negative, _⟩ := difference
    rw [length] at result overflow negative
    have total : number (columns.map Column.result) = 0x7FFF :=
      Int.ofNat_inj.mp (result.trans (by decide))
    rw [total] at negative
    refine ⟨columns, last, chain, upper, lower, total, carry.mpr ?_, overflow.mpr ?_, negative⟩
    · decide
    · decide

end Machine

end Mos6502
