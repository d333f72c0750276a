/-
This file gives the exact cost of every instruction, read off the machine before it. The cycles of
the opcode are only a part of it: a branch that is taken takes one more, and in strict timing one
more is due where a page is left, by a branch from the next instruction or by an index from the
address it is added to. Stores, instructions that change a byte in place, and indexes that stay in
the zero page never pay for that. What was noted about the instruction before has no part in it.
-/

import Mos6502.Proofs.Frame

namespace Mos6502

/-! ### Conditions of branches -/

namespace Mnemonic

/-- The flag that a branch tests, and the value for which it is taken. -/
def condition? : Mnemonic → Option (Flag × Bool)
  | bcc => some (.carry, false)
  | bcs => some (.carry, true)
  | bne => some (.zero, false)
  | beq => some (.zero, true)
  | bpl => some (.negative, false)
  | bmi => some (.negative, true)
  | bvc => some (.overflow, false)
  | bvs => some (.overflow, true)
  | _ => none

theorem condition?_of_branch {mnemonic : Mnemonic} {flag : Flag} {wanted : Bool}
    (branches : mnemonic.operation = .branch flag wanted) :
    mnemonic.condition? = some (flag, wanted) := by
  cases mnemonic <;> cases branches <;> rfl

theorem condition?_of_not_branch {mnemonic : Mnemonic}
    (other : ∀ flag wanted, mnemonic.operation ≠ .branch flag wanted) :
    mnemonic.condition? = none := by
  cases mnemonic <;> first | rfl | exact absurd rfl (other _ _)

/-- The instructions that pay for reading from another page. -/
def indexedReads : List Mnemonic :=
  [lda, ldx, ldy, adc, sbc, and, ora, eor, cmp]

end Mnemonic

/-! ### Indexes -/

/-- An index leads to another page exactly if adding it to the low byte carries, also where the sum
goes round the end of the address space. -/
theorem crossesPage_add_iff (base : UInt16) (index : UInt8) :
    crossesPage base (base + index.toUInt16) = true ↔
      256 ≤ (lowByte base).toNat + index.toNat := by
  have baseBound := base.toNat_lt
  have indexBound := index.toNat_lt
  rw [crossesPage, bne_iff_ne, Ne, ← UInt8.toNat_inj, toNat_highByte, toNat_highByte,
    toNat_lowByte, UInt16.toNat_add, UInt8.toNat_toUInt16]
  omega

namespace Machine

/-- The full address that a mode adds an index to, and the index. -/
def indexing? (machine : Machine) : Mode → Option (UInt16 × UInt8)
  | .absoluteX => some (machine.operandWord, machine.x)
  | .absoluteY => some (machine.operandWord, machine.y)
  | .indirectY => some (machine.indirectBase, machine.y)
  | _ => none

/-- Whether adding the index to the low byte of the address carries. -/
def indexCarries (machine : Machine) (mode : Mode) : Bool :=
  match machine.indexing? mode with
  | some (base, index) => 256 ≤ (lowByte base).toNat + index.toNat
  | none => false

/-- What the instruction at the program counter takes beyond the cycles of its opcode. -/
def surcharge (machine : Machine) (opcode : Opcode) : Nat :=
  match opcode.mnemonic.condition? with
  | some (flag, wanted) =>
    if machine.status.get flag = wanted then
      let next := machine.pc + 2
      let target := next + signExtend machine.operandByte
      if machine.timing = .strict ∧ highByte next ≠ highByte target then 2 else 1
    else 0
  | none =>
    if machine.timing = .strict ∧ opcode.mnemonic ∈ Mnemonic.indexedReads ∧
      machine.indexCarries opcode.mode then 1 else 0

end Machine

namespace Machine

section

variable {machine : Machine} {opcode : Opcode}
  (found : Opcode.ofByte? machine.nextOpcode = some opcode)

include found

theorem toNat_penalty_of_branch {flag : Flag} {wanted : Bool}
    (branches : opcode.mnemonic.operation = .branch flag wanted) :
    (machine.executed opcode).penalty.toNat = machine.surcharge opcode := by
  obtain ⟨mode, _⟩ := operand_of_branch found branches
  rw [penalty_executed, surcharge, Mnemonic.condition?_of_branch branches, branches, mode]
  show UInt8.toNat (if machine.status.get flag = wanted then
    if machine.timing = .strict ∧ crossesPage (machine.pc + 2)
      (machine.pc + 2 + signExtend machine.operandByte) then 2 else 1 else 0) = _
  simp only [apply_ite UInt8.toNat, crossesPage, bne_iff_ne]
  rfl

end

/-! ### Steps -/

end Machine

end Mos6502
