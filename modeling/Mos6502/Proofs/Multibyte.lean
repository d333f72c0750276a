/-
This file is about numbers of more than one byte, and about programs that work on them byte by byte.
Bytes stand for a number with the lowest first, and for a signed one in two's complement; a byte
more at the lower end moves both by one place. A program works on them with one instruction for each
byte, and passes a bit on from one to the next in the carry. What it does in between is its own
business, as long as it leaves the carry alone, and what else the instructions rely on.
-/

import Mathlib.Data.Nat.Digits.Lemmas
import Mos6502.Proofs.Step

namespace Mos6502

/-! ### Numbers -/

/-- The number that bytes stand for, the lowest of them first. -/
def number (bytes : List UInt8) : Nat :=
  Nat.ofDigits 256 (bytes.map UInt8.toNat)

/-- The signed number that bytes stand for in two's complement. -/
def signedNumber (bytes : List UInt8) : Int :=
  (number bytes : Int).bmod (256 ^ bytes.length)

/-- A signed number can be written with a number of bytes. -/
def SignedFits (count : Nat) (total : Int) : Prop :=
  -(256 ^ count / 2 : Nat) ≤ total ∧ total < (256 ^ count / 2 : Nat)

instance (count : Nat) (total : Int) : Decidable (SignedFits count total) :=
  inferInstanceAs (Decidable (_ ∧ _))

@[simp] theorem number_nil : number [] = 0 := rfl

theorem number_cons (low : UInt8) (rest : List UInt8) :
    number (low :: rest) = low.toNat + 256 * number rest :=
  Nat.ofDigits_cons

theorem number_singleton (byte : UInt8) : number [byte] = byte.toNat :=
  Nat.ofDigits_singleton

/-- What comes above a number comes above all its bytes but the lowest, too. -/
theorem number_cons_add (low : UInt8) (rest : List UInt8) (above : Nat) :
    number (low :: rest) + 256 ^ (low :: rest).length * above =
      low.toNat + 256 * (number rest + 256 ^ rest.length * above) := by
  rw [number_cons, List.length_cons, Nat.pow_succ', Nat.mul_assoc, Nat.mul_add, Nat.add_assoc]

theorem number_append (low high : List UInt8) :
    number (low ++ high) = number low + 256 ^ low.length * number high := by
  rw [number, List.map_append, Nat.ofDigits_append, List.length_map, number, number]

theorem lt_of_mem_digits (bytes : List UInt8) : ∀ digit ∈ bytes.map UInt8.toNat, digit < 256 := by
  intro digit member
  obtain ⟨byte, _, rfl⟩ := List.mem_map.mp member
  exact byte.toNat_lt

theorem number_lt (bytes : List UInt8) : number bytes < 256 ^ bytes.length := by
  have bound := Nat.ofDigits_lt_base_pow_length (by decide) (lt_of_mem_digits bytes)
  rwa [List.length_map] at bound

/-- What differs from a number by whole rounds goes round to it. -/
theorem number_eq_emod (bytes : List UInt8) (rounds : Int) : (number bytes : Int) =
    (number bytes + (256 ^ bytes.length : Nat) * rounds) % (256 ^ bytes.length : Nat) := by
  rw [Int.add_mul_emod_self_left]
  exact (Int.emod_eq_of_lt (Int.natCast_nonneg _) (Int.ofNat_lt.mpr (number_lt bytes))).symm

/-- Bytes are known from how many they are and their number. -/
theorem number_inj {first second : List UInt8} (alike : first.length = second.length) :
    number first = number second ↔ first = second := by
  constructor
  · intro same
    have digits := Nat.ofDigits_inj_of_len_eq (by decide)
      (by rw [List.length_map, List.length_map, alike]) (lt_of_mem_digits first)
      (lt_of_mem_digits second) same
    exact (List.map_inj_right fun _ _ => UInt8.toNat_inj.mp).mp digits
  · intro same
    rw [same]

/-- A carry is set exactly if the sum that it is part of is too large. -/
theorem carry_iff_le {result bound : Nat} (inside : result < bound) (carry : Bool) :
    carry = true ↔ bound ≤ result + bound * carry.toNat := by
  cases carry with
  | false => simpa using inside
  | true => simp

/-- A number of bytes has a middle, at the value of its highest bit. -/
theorem pow_eq_double {bytes : List UInt8} (some : bytes ≠ []) :
    256 ^ bytes.length = 2 * 2 ^ (8 * bytes.length - 1) := by
  have positive := List.length_pos_of_ne_nil some
  have split : 8 * bytes.length = 8 * bytes.length - 1 + 1 := by omega
  rw [show 256 = 2 ^ 8 from rfl, ← Nat.pow_mul, split, Nat.pow_succ, Nat.mul_comm]
  rfl

/-- The highest bit tells whether a number lies above the middle. -/
theorem testBit_number {bytes : List UInt8} (some : bytes ≠ []) :
    (number bytes).testBit (8 * bytes.length - 1) =
      decide (256 ^ bytes.length ≤ 2 * number bytes) := by
  have bound := number_lt bytes
  rw [pow_eq_double some] at bound ⊢
  rw [Nat.testBit_eq_decide_div_mod_eq, decide_eq_decide]
  by_cases below : number bytes < 2 ^ (8 * bytes.length - 1)
  · rw [Nat.div_eq_of_lt below]
    omega
  · have once : number bytes / 2 ^ (8 * bytes.length - 1) = 1 :=
      Nat.div_eq_of_lt_le (by omega) (by omega)
    rw [once]
    omega

theorem testBit_number_cons (low : UInt8) {rest : List UInt8} (some : rest ≠ []) :
    (number (low :: rest)).testBit (8 * (low :: rest).length - 1) =
      (number rest).testBit (8 * rest.length - 1) := by
  have lowBound := low.toNat_lt
  have middle := pow_eq_double some
  rw [testBit_number (List.cons_ne_nil low rest), testBit_number some, number_cons,
    List.length_cons, Nat.pow_succ, decide_eq_decide]
  omega

/-- Bytes with their highest bit set stand for a negative number. -/
theorem signedNumber_eq {bytes : List UInt8} (some : bytes ≠ []) : signedNumber bytes =
    if 2 * number bytes < 256 ^ bytes.length then (number bytes : Int)
    else number bytes - (256 ^ bytes.length : Nat) := by
  have bound := number_lt bytes
  have middle := pow_eq_double some
  have inside : (number bytes : Int) % (256 ^ bytes.length : Nat) = number bytes :=
    Int.emod_eq_of_lt (Int.natCast_nonneg _) (Int.ofNat_lt.mpr bound)
  rw [signedNumber, Int.bmod_def, inside]
  refine ite_congr (propext ?_) (fun _ => rfl) fun _ => rfl
  omega

/-- A byte more at the lower end moves a signed number by one place. -/
theorem signedNumber_cons (low : UInt8) {rest : List UInt8} (some : rest ≠ []) :
    signedNumber (low :: rest) = low.toNat + 256 * signedNumber rest := by
  have lowBound := low.toNat_lt
  have middle := pow_eq_double some
  rw [signedNumber_eq (List.cons_ne_nil low rest), signedNumber_eq some, number_cons,
    List.length_cons, Nat.pow_succ]
  split <;> split <;> omega

theorem signedFits_cons {count : Nat} (some : 0 < count) (low : UInt8) (total : Int) :
    SignedFits (count + 1) (low.toNat + 256 * total) ↔ SignedFits count total := by
  have lowBound := low.toNat_lt
  obtain ⟨fewer, rfl⟩ := Nat.exists_eq_succ_of_ne_zero (Nat.ne_of_gt some)
  rw [SignedFits, SignedFits, Nat.pow_succ, Nat.pow_succ]
  omega

/-- The complement is what is missing to the largest number of as many bytes. -/
theorem number_map_not (bytes : List UInt8) :
    number (bytes.map (~~~·)) + number bytes + 1 = 256 ^ bytes.length := by
  induction bytes with
  | nil => rfl
  | cons low rest inductionHypothesis =>
    have bound := low.toNat_lt
    have complement : (~~~low).toNat = 255 - low.toNat := UInt8.toNat_not low
    rw [List.map_cons, number_cons, number_cons, complement, List.length_cons, Nat.pow_succ]
    omega

theorem signedNumber_map_not {bytes : List UInt8} (some : bytes ≠ []) :
    signedNumber (bytes.map (~~~·)) = -1 - signedNumber bytes := by
  have complement := number_map_not bytes
  have middle := pow_eq_double some
  have others : bytes.map (~~~·) ≠ [] := fun none => some (List.map_eq_nil_iff.mp none)
  rw [signedNumber_eq others, signedNumber_eq some, List.length_map]
  split <;> split <;> omega

/-! ### Instructions and what comes in between -/

theorem Status.carryBit_eq (status : Status) : status.carryBit = (status.get .carry).toUInt8 :=
  and_one_eq status.bits

namespace Machine

/-- The byte that an operand stands for. -/
def byteOf (machine : Machine) : Operand → UInt8
  | .none => 0
  | .accumulator => machine.a
  | .address target => machine.memory.read target

/-- The machine is about to execute an instruction on an operand. -/
structure AboutTo (machine : Machine) (mnemonic : Mnemonic) (operand : Operand) : Prop where
  /-- The machine is ready to run. -/
  on : machine.initialized = true
  /-- The instruction is at the program counter, in a mode that leads to the operand. -/
  next : ∃ opcode, Opcode.ofByte? machine.nextOpcode = some opcode ∧
    opcode.mnemonic = mnemonic ∧ machine.operand opcode.mode = operand

/-- A step executes an instruction on an operand. -/
structure Performs (mnemonic : Mnemonic) (operand : Operand) (before after : Machine) : Prop where
  /-- The instruction is the next before the step. -/
  aboutTo : before.AboutTo mnemonic operand
  /-- The step succeeds. -/
  done : ∃ cost, before.step = .ok cost after

section

variable {mnemonic : Mnemonic} {operand : Operand}

/-- What the machine is about to do it does. -/
theorem AboutTo.performs {machine : Machine} (aboutTo : machine.AboutTo mnemonic operand) :
    ∃ after, Performs mnemonic operand machine after := by
  obtain ⟨opcode, found, _⟩ := aboutTo.next
  exact ⟨_, aboutTo, _, step_of_opcode aboutTo.on found⟩

theorem Performs.opcode {before after : Machine}
    (performs : Performs mnemonic operand before after) :
    ∃ opcode, Opcode.ofByte? before.nextOpcode = some opcode ∧ opcode.mnemonic = mnemonic ∧
      before.operand opcode.mode = operand ∧ after = before.stepped opcode := by
  obtain ⟨opcode, found, same, leads⟩ := performs.aboutTo.next
  obtain ⟨cost, done⟩ := performs.done
  obtain ⟨_, known, sameOpcode, _, stepped⟩ := opcode_of_step done
  cases found.symm.trans sameOpcode
  exact ⟨opcode, found, same, leads, stepped⟩

end

/-- Tasks that are done one after the other. Before each of them anything may happen, as long as it
keeps what has to be kept. -/
inductive Interleaved {Task : Type} (Keeps : Machine → Machine → Prop)
    (Does : Task → Machine → Machine → Prop) : Machine → List Task → Machine → Prop where
  /-- There is nothing to do. -/
  | nil (machine : Machine) : Interleaved Keeps Does machine [] machine
  /-- The first task is done, and then the others. -/
  | cons {first before after last : Machine} {task : Task} {rest : List Task}
    (kept : Keeps first before) (done : Does task before after)
    (others : Interleaved Keeps Does after rest last) :
    Interleaved Keeps Does first (task :: rest) last

/-- Tasks in two groups are those of the first, and then those of the second. -/
theorem Interleaved.of_append {Task : Type} {Keeps : Machine → Machine → Prop}
    {Does : Task → Machine → Machine → Prop} {first last : Machine} {early late : List Task}
    (all : Interleaved Keeps Does first (early ++ late) last) :
    ∃ middle, Interleaved Keeps Does first early middle ∧
      Interleaved Keeps Does middle late last := by
  induction early generalizing first with
  | nil => exact ⟨first, .nil first, all⟩
  | cons task rest inductionHypothesis =>
    cases all with
    | cons kept done others =>
      obtain ⟨middle, start, finish⟩ := inductionHypothesis others
      exact ⟨middle, .cons kept done start, finish⟩

end Machine

end Mos6502
