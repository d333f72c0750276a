/-
This file holds the status register: one byte that packs eight flags. Every function here that
makes a register sets the reserved bit, and none clears it, so a register obtained from them always
has that bit. Break exists only in the copies that are pushed on the stack: it is set in a pushed
byte and dropped when a byte is pulled.
-/

import Mos6502.Fault

namespace Mos6502

/-- The status register. -/
structure Status where
  /-- The packed flags. -/
  bits : UInt8
deriving DecidableEq

namespace Status

/-! ### Registers and bytes -/

/-- The register with the flags of a byte; the reserved bit is set whatever the byte says. -/
@[inline] def ofBits (bits : UInt8) : Status :=
  ⟨bits ||| Flag.reserved.mask⟩

/-- The register at power-on, with only the reserved bit set. -/
def initial : Status :=
  ofBits 0

instance : Inhabited Status :=
  ⟨initial⟩

/-- The register that a byte pulled off the stack restores: Break is dropped. -/
@[inline] def ofPulled (bits : UInt8) : Status :=
  ⟨(bits ||| Flag.reserved.mask) &&& ~~~Flag.brk.mask⟩

/-- The byte that is pushed for the register: Break and the reserved bit are set. -/
@[inline] def pushed (status : Status) : UInt8 :=
  status.bits ||| (Flag.brk.mask ||| Flag.reserved.mask)

/-! ### Single flags -/

/-- Whether a flag is set. -/
@[inline] def get (status : Status) (flag : Flag) : Bool :=
  status.bits &&& flag.mask != 0

/-- Sets or clears a flag; the reserved bit cannot be cleared. -/
@[inline] def set (status : Status) (flag : Flag) (on : Bool) : Status :=
  if on then ⟨status.bits ||| flag.mask⟩
  else if flag = .reserved then status
  else ⟨status.bits &&& ~~~flag.mask⟩

/-- Sets a flag from a number that has to be 0 or 1. -/
def setBit (status : Status) (flag : Flag) (value : UInt8) : Except Fault Status :=
  if value = 0 then .ok (status.set flag false)
  else if value = 1 then .ok (status.set flag true)
  else .error (.flagValueOutOfRange flag value)

/-- Zero tells whether a result is zero, and Negative is its bit 7. -/
@[inline] def updateZeroNegative (status : Status) (result : UInt8) : Status :=
  (status.set .zero (result == 0)).set .negative (result &&& 0x80 != 0)

/-- Carry as a number to calculate with. -/
@[inline] def carryBit (status : Status) : UInt8 :=
  status.bits &&& Flag.carry.mask

/-! ### What a change leaves alone -/

/-- A flag has the value that it was given, the reserved one apart. -/
theorem get_set_self (status : Status) {flag : Flag} (on : Bool) (changes : flag ≠ .reserved) :
    (status.set flag on).get flag = on := by
  cases on with
  | true =>
    show ((status.bits ||| flag.mask) &&& flag.mask != 0) = true
    rw [or_and_self]
    exact bne_iff_ne.mpr flag.mask_ne_zero
  | false =>
    rw [set, if_neg Bool.false_ne_true, if_neg changes]
    show ((status.bits &&& ~~~flag.mask) &&& flag.mask != 0) = false
    rw [UInt8.and_assoc, UInt8.not_and_self, UInt8.and_zero]
    rfl

/-- A change of one flag leaves the others alone. -/
theorem get_set_other (status : Status) {flag other : Flag} (on : Bool) (apart : other ≠ flag) :
    (status.set flag on).get other = status.get other := by
  unfold set
  split
  · rw [get, or_and_distrib, Flag.mask_and_mask apart.symm, UInt8.or_zero, get]
  · split
    · rfl
    · rw [get, UInt8.and_assoc, Flag.not_mask_and_mask apart.symm, get]

theorem get_reserved_ofBits (bits : UInt8) : (ofBits bits).get .reserved = true := by
  show ((bits ||| Flag.reserved.mask) &&& Flag.reserved.mask != 0) = true
  rw [or_and_self]
  rfl

theorem get_reserved_ofPulled (bits : UInt8) : (ofPulled bits).get .reserved = true := by
  have apart : Flag.brk ≠ Flag.reserved := by decide
  rw [get, ofPulled, UInt8.and_assoc, Flag.not_mask_and_mask apart, or_and_self]
  rfl

/-- No change of a flag clears the reserved bit. -/
theorem get_reserved_set (status : Status) (flag : Flag) (on : Bool)
    (held : status.get .reserved = true) : (status.set flag on).get .reserved = true := by
  by_cases same : flag = .reserved
  · subst same
    cases on with
    | true =>
      show ((status.bits ||| Flag.reserved.mask) &&& Flag.reserved.mask != 0) = true
      rw [or_and_self]
      rfl
    | false => exact held
  · rw [get_set_other status on (Ne.symm same)]
    exact held

/-! ### Written forms -/

/-- The letters of the set flags, bit 7 first, with a point for each clear one. -/
def letters (status : Status) : List Char :=
  Flag.all.map fun flag => if status.get flag then flag.letter else '.'

/-- The letters as text. -/
def text (status : Status) : String :=
  String.ofList status.letters

/-- The byte and the letters. -/
def describe (status : Status) : String :=
  "Status(0x" ++ Text.hexByte status.bits ++ " " ++ status.text ++ ")"

end Status

end Mos6502
