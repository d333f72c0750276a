/-
This file holds the stack. It lies in the page after the zero page; the stack pointer names the free
place below the top, and both pushing and pulling go round within the page. A word is pushed high
byte first, so that it lies in memory like any other word.
-/

import Mos6502.Machine.Basic

namespace Mos6502

/-- The address of a place on the stack. -/
@[inline] def stackAddress (sp : UInt8) : UInt16 :=
  0x0100 + sp.toUInt16

/-- The stack lies in the page after the zero page. -/
theorem toNat_stackAddress (sp : UInt8) : (stackAddress sp).toNat = 256 + sp.toNat := by
  have bound := sp.toNat_lt
  simp [stackAddress]
  omega

/-- Different stack pointers name different places. -/
theorem stackAddress_inj {first second : UInt8} :
    stackAddress first = stackAddress second ↔ first = second := by
  constructor
  · intro equal
    have numbers := congrArg UInt16.toNat equal
    rw [toNat_stackAddress, toNat_stackAddress] at numbers
    exact UInt8.toNat_inj.mp (by omega)
  · intro equal
    rw [equal]

namespace Machine

/-! ### Pushing and pulling -/

/-- Pushes a byte. -/
@[inline] def push (machine : Machine) (value : UInt8) : Machine :=
  { machine with
    sp := machine.sp - 1
    memory := machine.memory.write (stackAddress machine.sp) value }

/-- The byte that is pulled next. -/
@[inline] def top (machine : Machine) : UInt8 :=
  machine.memory.read (stackAddress (machine.sp + 1))

/-- Takes the top byte off the stack; memory keeps it. -/
@[inline] def drop (machine : Machine) : Machine :=
  { machine with sp := machine.sp + 1 }

/-- Pulls a byte. -/
@[inline] def pull (machine : Machine) : UInt8 × Machine :=
  (machine.top, machine.drop)

/-- Pushes a word. -/
def pushWord (machine : Machine) (value : UInt16) : Machine :=
  (machine.push (highByte value)).push (lowByte value)

/-- Pulls a word. -/
def pullWord (machine : Machine) : UInt16 × Machine :=
  let (low, machine) := machine.pull
  let (high, machine) := machine.pull
  (wordOf low high, machine)

end Machine

end Mos6502
