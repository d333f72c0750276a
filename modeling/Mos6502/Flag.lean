/-
This file names the eight flags of the status register. A flag is a bit of the status byte; the
list of all flags runs from bit 7 down to bit 0, which is the order in which they are printed. Two
flags never share a bit.
-/

namespace Mos6502

/-- A flag of the status register. -/
inductive Flag where
  | carry
  | zero
  | interruptDisable
  | decimal
  | brk
  | reserved
  | overflow
  | negative
deriving DecidableEq

namespace Flag

/-- The bit of the status byte that holds the flag. -/
@[inline] def mask : Flag → UInt8
  | carry => 0x01
  | zero => 0x02
  | interruptDisable => 0x04
  | decimal => 0x08
  | brk => 0x10
  | reserved => 0x20
  | overflow => 0x40
  | negative => 0x80

/-- The letter that stands for the flag in register dumps. -/
def letter : Flag → Char
  | carry => 'C'
  | zero => 'Z'
  | interruptDisable => 'I'
  | decimal => 'D'
  | brk => 'B'
  | reserved => '-'
  | overflow => 'V'
  | negative => 'N'

/-- The full name of the flag, as settings and messages spell it. -/
def name : Flag → String
  | carry => "Carry"
  | zero => "Zero"
  | interruptDisable => "InterruptDisable"
  | decimal => "Decimal"
  | brk => "Break"
  | reserved => "Reserved"
  | overflow => "Overflow"
  | negative => "Negative"

/-- Every flag, from bit 7 down to bit 0. -/
def all : List Flag :=
  [negative, overflow, reserved, brk, decimal, interruptDisable, zero, carry]

/-- The flag with the given full name. -/
def ofName? (name : String) : Option Flag :=
  all.find? (·.name == name)

theorem mem_all (flag : Flag) : flag ∈ all := by
  cases flag <;> decide

/-! ### Every flag has a bit of its own -/

theorem mask_ne_zero (flag : Flag) : flag.mask ≠ 0 := by
  cases flag <;> decide

theorem mask_and_mask {first second : Flag} (apart : first ≠ second) :
    first.mask &&& second.mask = 0 := by
  revert apart
  cases first <;> cases second <;> decide

theorem not_mask_and_mask {first second : Flag} (apart : first ≠ second) :
    ~~~first.mask &&& second.mask = second.mask := by
  revert apart
  cases first <;> cases second <;> decide

end Flag

end Mos6502
