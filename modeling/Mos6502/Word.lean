/-
This file holds the arithmetic that joins bytes and addresses. An address is a word of two bytes,
its low byte stored first; taking a word apart and joining it again are inverse to each other. The
two other operations are the ones that addressing needs: a byte read as a signed offset, and the
test whether two addresses lie in different pages. At the end stand two facts about bits that are
set and then looked at through a mask.
-/

namespace Mos6502

/-! ### Words are pairs of bytes -/

/-- The word with the given low and high byte. -/
@[inline] def wordOf (low high : UInt8) : UInt16 :=
  high.toUInt16 * 0x100 + low.toUInt16

/-- The byte of a word that is stored first. -/
@[inline] def lowByte (word : UInt16) : UInt8 :=
  word.toUInt8

/-- The byte of a word that is stored second; it numbers the page of an address. -/
@[inline] def highByte (word : UInt16) : UInt8 :=
  (word / 0x100).toUInt8

theorem toNat_wordOf (low high : UInt8) :
    (wordOf low high).toNat = 256 * high.toNat + low.toNat := by
  have lowBound := low.toNat_lt
  have highBound := high.toNat_lt
  simp [wordOf]
  omega

theorem toNat_lowByte (word : UInt16) : (lowByte word).toNat = word.toNat % 256 := by
  simp [lowByte]

theorem toNat_highByte (word : UInt16) : (highByte word).toNat = word.toNat / 256 := by
  have bound := word.toNat_lt
  simp [highByte]
  omega

@[simp] theorem lowByte_wordOf (low high : UInt8) : lowByte (wordOf low high) = low := by
  have bound := low.toNat_lt
  apply UInt8.toNat_inj.mp
  rw [toNat_lowByte, toNat_wordOf]
  omega

@[simp] theorem highByte_wordOf (low high : UInt8) : highByte (wordOf low high) = high := by
  have bound := low.toNat_lt
  apply UInt8.toNat_inj.mp
  rw [toNat_highByte, toNat_wordOf]
  omega

@[simp] theorem wordOf_lowByte_highByte (word : UInt16) :
    wordOf (lowByte word) (highByte word) = word := by
  apply UInt16.toNat_inj.mp
  rw [toNat_wordOf, toNat_lowByte, toNat_highByte]
  omega

/-- The two bytes of a word in memory have different places, also where the second is the first
place of all. -/
theorem ne_add_one (address : UInt16) : address ≠ address + 1 := by
  intro equal
  have numbers := congrArg UInt16.toNat equal
  have bound := address.toNat_lt
  simp only [UInt16.toNat_add, UInt16.reduceToNat] at numbers
  omega

/-! ### Offsets and pages -/

/-- The word that a byte stands for as a two's-complement number from -128 to 127. -/
@[inline] def signExtend (offset : UInt8) : UInt16 :=
  if offset < 0x80 then offset.toUInt16 else offset.toUInt16 + 0xFF00

/-- Whether two addresses lie in different pages of 256 bytes. -/
@[inline] def crossesPage (base target : UInt16) : Bool :=
  highByte base != highByte target

/-! ### Bits behind a mask -/

theorem or_and_distrib (first second mask : UInt8) :
    (first ||| second) &&& mask = first &&& mask ||| second &&& mask := by
  apply UInt8.toBitVec_inj.mp
  ext index bound
  simp [Bool.and_or_distrib_right]

/-- Bits that were set are seen, whatever else is set. -/
theorem or_and_self (bits mask : UInt8) : (bits ||| mask) &&& mask = mask := by
  apply UInt8.toBitVec_inj.mp
  ext index bound
  simp only [UInt8.toBitVec_and, UInt8.toBitVec_or, BitVec.getElem_and, BitVec.getElem_or]
  cases bits.toBitVec[index] <;> cases mask.toBitVec[index] <;> rfl

end Mos6502
