/-
This file reads numbers back from the digits in which they are written. A byte or a word in
hexadecimal has a fixed number of digits; a number in decimal has as many as it needs, and begins
with a zero only if it is zero. A run of digits ends where something else follows, so a number is
found again in a longer text, too.
-/

import Mathlib.Data.List.Basic
import Mos6502.Text.Basic

namespace Mos6502.Text

/-! ### Runs of characters -/

/-- Characters that keep a rule are cut from those that begin by breaking it. -/
theorem span_append {keeps : Char → Bool} {before after : List Char}
    (kept : ∀ char ∈ before, keeps char = true)
    (broken : ∀ char ∈ after.head?, keeps char = false) :
    (before ++ after).takeWhile keeps = before ∧ (before ++ after).dropWhile keeps = after := by
  rw [List.takeWhile_append_of_pos kept, List.dropWhile_append_of_pos kept]
  cases after with
  | nil => exact ⟨List.append_nil before, rfl⟩
  | cons char rest =>
    have stops : ¬keeps char = true := Bool.eq_false_iff.mp (broken char rfl)
    rw [List.takeWhile_cons_of_neg stops, List.append_nil, List.dropWhile_cons_of_neg stops]
    exact ⟨rfl, rfl⟩

/-! ### Numbers in hexadecimal -/

/-- Whether a character is a hexadecimal digit. -/
def isHexDigit (char : Char) : Bool :=
  (digitValue? 16 char).isSome

/-- The number that hexadecimal digits stand for. -/
def hexNumber (digits : List Char) : Nat :=
  digits.foldl (fun number char => 16 * number + (digitValue? 16 char).getD 0) 0

theorem highDigit_lt (byte : UInt8) : byte.toNat / 16 < 16 :=
  Nat.div_lt_of_lt_mul byte.toNat_lt

theorem lowDigit_lt (byte : UInt8) : byte.toNat % 16 < 16 :=
  Nat.mod_lt _ (by decide)

theorem byteDigits_ne_nil (byte : UInt8) : byteDigits byte ≠ [] :=
  List.cons_ne_nil _ _

theorem wordDigits_ne_nil (word : UInt16) : wordDigits word ≠ [] :=
  List.append_ne_nil_of_left_ne_nil (byteDigits_ne_nil _) _

theorem isHexDigit_of_mem_byteDigits {byte : UInt8} {char : Char}
    (member : char ∈ byteDigits byte) : isHexDigit char = true := by
  have each : ∀ value < 16, isHexDigit (digitChar value) = true := by decide
  simp only [byteDigits, List.mem_cons, List.not_mem_nil, or_false] at member
  rcases member with rfl | rfl
  · exact each _ (highDigit_lt byte)
  · exact each _ (lowDigit_lt byte)

theorem isHexDigit_of_mem_wordDigits {word : UInt16} {char : Char}
    (member : char ∈ wordDigits word) : isHexDigit char = true := by
  rcases List.mem_append.mp member with high | low
  · exact isHexDigit_of_mem_byteDigits high
  · exact isHexDigit_of_mem_byteDigits low

/-- Two more digits put a byte behind a number. -/
theorem hexNumber_append_byteDigits (digits : List Char) (byte : UInt8) :
    hexNumber (digits ++ byteDigits byte) = 256 * hexNumber digits + byte.toNat := by
  have high := highDigit_lt byte
  have low := lowDigit_lt byte
  rw [hexNumber, List.foldl_append, ← hexNumber, byteDigits, List.foldl_cons, List.foldl_cons,
    List.foldl_nil, digitValue?_digitChar high high, digitValue?_digitChar low low,
    Option.getD_some, Option.getD_some]
  omega

theorem hexNumber_byteDigits (byte : UInt8) : hexNumber (byteDigits byte) = byte.toNat :=
  (hexNumber_append_byteDigits [] byte).trans (Nat.zero_add _)

theorem hexNumber_wordDigits (word : UInt16) : hexNumber (wordDigits word) = word.toNat := by
  rw [wordDigits, hexNumber_append_byteDigits, hexNumber_byteDigits, ← toNat_wordOf,
    wordOf_lowByte_highByte]

/-! ### Numbers in decimal -/

/-- The first digit of a number is zero only for zero. -/
theorem head?_toDigits_ne {number : Nat} (positive : 0 < number) :
    (Nat.toDigits 10 number).head? ≠ some '0' := by
  induction number using Nat.strongRecOn with
  | ind number inductionHypothesis =>
    by_cases small : number < 10
    · have first : ∀ digit < 10, 0 < digit → Nat.digitChar digit ≠ '0' := by decide
      rw [Nat.toDigits_of_lt_base small, List.head?_cons]
      exact fun same => first number small positive (Option.some.inj same)
    · have large : 10 ≤ number := Nat.le_of_not_lt small
      rw [Nat.toDigits_of_base_le (by decide) large,
        List.head?_append_of_ne_nil _ Nat.toDigits_ne_nil]
      exact inductionHypothesis _ (Nat.div_lt_self positive (by decide))
        (Nat.div_pos large (by decide))

/-- A number begins with a zero only if it has no other digit. -/
theorem length_toDigits_of_head? {number : Nat}
    (zero : (Nat.toDigits 10 number).head? = some '0') : (Nat.toDigits 10 number).length = 1 := by
  rcases Nat.eq_zero_or_pos number with rfl | positive
  · rfl
  · exact absurd zero (head?_toDigits_ne positive)

theorem isDigit_of_mem_toDigits (number : Nat) :
    ∀ char ∈ Nat.toDigits 10 number, char.isDigit = true :=
  fun _ => Nat.isDigit_of_mem_toDigits (by decide) (Nat.le_refl 10)

end Mos6502.Text
