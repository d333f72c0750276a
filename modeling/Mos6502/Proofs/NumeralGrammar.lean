/-
This file proves that the numbers of the command line are read by their value. A text stands for a
number if it is a run of digits, with a plus sign in front of it or none, and with a mark in front
of that if the digits are hexadecimal. Every such text is read, unless the number needs too many
bits, and nothing else is. The number is compared with the bound after each digit; since digits only
make it larger, that refuses no number which fits, and zeros in front do not count. So an address
that the program prints can be given back to it as it stands.
-/

import Mathlib.Data.Nat.Digits.Defs
import Mos6502.CommandLine.Program
import Mos6502.Proofs.Digits

namespace Mos6502.CommandLine

/-! ### Texts that stand for numbers -/

/-- The digits in the order of their values, letters in upper case. -/
def upperDigits : List Char :=
  ['0', '1', '2', '3', '4', '5', '6', '7', '8', '9', 'A', 'B', 'C', 'D', 'E', 'F']

/-- The digits in the order of their values, letters in lower case. -/
def lowerDigits : List Char :=
  ['0', '1', '2', '3', '4', '5', '6', '7', '8', '9', 'a', 'b', 'c', 'd', 'e', 'f']

/-- A character is the digit of a radix for a value, in either case. -/
def IsDigit (radix : Nat) (char : Char) (value : Nat) : Prop :=
  value < radix ∧ (upperDigits[value]? = some char ∨ lowerDigits[value]? = some char)

instance (radix : Nat) (char : Char) (value : Nat) : Decidable (IsDigit radix char value) :=
  inferInstanceAs (Decidable (_ ∧ _))

/-- A run of digits, at least one, denotes a number by the places of the digits. -/
def Denotes (radix : Nat) (digits : List Char) (number : Nat) : Prop :=
  digits ≠ [] ∧ ∃ values, List.Forall₂ (IsDigit radix) digits values ∧
    Nat.ofDigits radix values.reverse = number

/-- A run of digits, with a plus sign in front of it or none, denotes a number. -/
inductive Signed (radix : Nat) : List Char → Nat → Prop where
  /-- There is no sign. -/
  | plain {digits : List Char} {number : Nat} (run : Denotes radix digits number) :
    Signed radix digits number
  /-- There is a plus sign. -/
  | plus {digits : List Char} {number : Nat} (run : Denotes radix digits number) :
    Signed radix ('+' :: digits) number

/-- What announces hexadecimal digits. -/
def marks : List (List Char) :=
  [['0', 'x'], ['0', 'X'], ['$']]

/-- A text stands for a number, hexadecimal behind a mark and decimal without one. -/
inductive Numeral : List Char → Nat → Prop where
  /-- The digits are hexadecimal. -/
  | hexadecimal {mark text : List Char} {number : Nat} (announced : mark ∈ marks)
    (signed : Signed 16 text number) : Numeral (mark ++ text) number
  /-- The digits are decimal. -/
  | decimal {text : List Char} {number : Nat} (plain : ∀ mark ∈ marks, ¬mark <+: text)
    (signed : Signed 10 text number) : Numeral text number

/-! ### Digits -/

theorem toNat_lt_of_alphanumericValue? {char : Char} {value : Nat}
    (found : Text.alphanumericValue? char = some value) : char.toNat < 128 := by
  have bounded {last : Char} (ascii : last.toNat < 128) (below : char ≤ last) :
      char.toNat < 128 := Nat.lt_of_le_of_lt below ascii
  unfold Text.alphanumericValue? at found
  split at found
  next range => exact bounded (by decide) range.2
  next =>
    split at found
    next range => exact bounded (by decide) range.2
    next =>
      split at found
      next range => exact bounded (by decide) range.2
      next => cases found

/-- The digits have the values of their places in the two lists. -/
theorem alphanumericValue?_eq_some_iff {char : Char} {value : Nat} (small : value < 16) :
    Text.alphanumericValue? char = some value ↔
      upperDigits[value]? = some char ∨ lowerDigits[value]? = some char := by
  constructor
  · intro found
    have each : ∀ code < 128, ∀ value < 16,
        Text.alphanumericValue? (Char.ofNat code) = some value →
          upperDigits[value]? = some (Char.ofNat code) ∨
            lowerDigits[value]? = some (Char.ofNat code) := by
      decide +kernel
    have place := each char.toNat (toNat_lt_of_alphanumericValue? found) value small
    rw [Char.ofNat_toNat] at place
    exact place found
  · have each : ∀ value < 16, upperDigits[value]?.bind Text.alphanumericValue? = some value ∧
        lowerDigits[value]?.bind Text.alphanumericValue? = some value := by
      decide
    obtain ⟨ofUpper, ofLower⟩ := each value small
    rintro (upper | lower)
    · rw [upper] at ofUpper
      exact ofUpper
    · rw [lower] at ofLower
      exact ofLower

theorem digitValue?_eq_some_iff {radix value : Nat} {char : Char} (most : radix ≤ 16) :
    Text.digitValue? radix char = some value ↔ IsDigit radix char value := by
  rw [Text.digitValue?, Option.filter_eq_some_iff, decide_eq_true_iff, IsDigit, and_comm]
  refine and_congr_right fun below => ?_
  exact alphanumericValue?_eq_some_iff (Nat.lt_of_lt_of_le below most)

/-! ### Runs of digits -/

/-- The number that digits denote behind a number, which is as good as a digit in front of them. -/
def numberBehind (radix start : Nat) (values : List Nat) : Nat :=
  Nat.ofDigits radix (values.reverse ++ [start])

theorem numberBehind_nil (radix start : Nat) : numberBehind radix start [] = start :=
  Nat.ofDigits_singleton

theorem numberBehind_cons (radix start value : Nat) (values : List Nat) :
    numberBehind radix start (value :: values) =
      numberBehind radix (start * radix + value) values := by
  have pair : Nat.ofDigits radix [value, start] = Nat.ofDigits radix [start * radix + value] := by
    rw [Nat.ofDigits_cons, Nat.ofDigits_singleton, Nat.ofDigits_singleton, Nat.mul_comm,
      Nat.add_comm]
  rw [numberBehind, List.reverse_cons, List.append_assoc, Nat.ofDigits_append,
    List.singleton_append, pair, ← Nat.ofDigits_append]
  rfl

theorem numberBehind_zero (radix : Nat) (values : List Nat) :
    numberBehind radix 0 values = Nat.ofDigits radix values.reverse :=
  Nat.ofDigits_append_zero _

/-- Digits behind a number only make it larger. -/
theorem le_numberBehind {radix : Nat} (positive : 0 < radix) (start : Nat) (values : List Nat) :
    start ≤ numberBehind radix start values := by
  rw [numberBehind, Nat.ofDigits_append, Nat.ofDigits_singleton]
  exact Nat.le_add_left_of_le (Nat.le_mul_of_pos_left start (Nat.pow_pos positive))

section

variable {radix : Nat} (most : radix ≤ 16) (bound : Nat)

include most

/-- Digits are read for the number that they denote behind the one that was read so far. -/
theorem readDigits_of_digits {start : Nat} {digits : List Char} {values : List Nat}
    (proper : List.Forall₂ (IsDigit radix) digits values) (room : start < bound) :
    readDigits radix bound start digits =
      if numberBehind radix start values < bound then .ok (numberBehind radix start values)
      else .error .tooLarge := by
  induction proper generalizing start with
  | nil => rw [readDigits, numberBehind_nil, if_pos room]
  | @cons char value digits values isDigit _ inductionHypothesis =>
    rw [readDigits, (digitValue?_eq_some_iff most).mpr isDigit, numberBehind_cons]
    dsimp only
    by_cases fits : start * radix + value < bound
    · rw [if_pos fits]
      exact inductionHypothesis fits
    · -- The digits that are not looked at cannot make the number small again.
      have positive : 0 < radix := Nat.zero_lt_of_lt isDigit.1
      have larger := le_numberBehind positive (start * radix + value) values
      rw [if_neg fits, if_neg fun less => fits (Nat.lt_of_le_of_lt larger less)]

theorem readDigits_of_stray {start : Nat} {digits : List Char}
    (stray : ∀ values, ¬List.Forall₂ (IsDigit radix) digits values) :
    ∃ fault, readDigits radix bound start digits = .error fault := by
  induction digits generalizing start with
  | nil => exact absurd .nil (stray [])
  | cons char rest inductionHypothesis =>
    rw [readDigits]
    cases found : Text.digitValue? radix char with
    | none => exact ⟨_, rfl⟩
    | some value =>
      have isDigit := (digitValue?_eq_some_iff most).mp found
      dsimp only
      split
      · exact inductionHypothesis fun values proper => stray _ (.cons isDigit proper)
      · exact ⟨_, rfl⟩

end

/-! ### Signed runs -/

section

variable {radix : Nat} (most : radix ≤ 16) {bound : Nat}

include most

theorem not_isDigit_plus (value : Nat) : ¬IsDigit radix '+' value := by
  rw [← digitValue?_eq_some_iff most]
  exact nofun

/-- What is read when the rest of a text is a run of digits. -/
theorem readDigits_of_denotes {digits : List Char} {number : Nat}
    (run : Denotes radix digits number) (room : 0 < bound) :
    readDigits radix bound 0 digits =
      if number < bound then .ok number else .error .tooLarge := by
  obtain ⟨_, values, proper, rfl⟩ := run
  rw [readDigits_of_digits most bound proper room, numberBehind_zero]

theorem readNumeral_of_signed {text : List Char} {number : Nat} (signed : Signed radix text number)
    (room : 0 < bound) :
    readNumeral radix bound text = if number < bound then .ok number else .error .tooLarge := by
  cases signed with
  | plain run =>
    rw [← readDigits_of_denotes most run room]
    obtain ⟨some, values, proper, _⟩ := run
    cases proper with
    | nil => exact absurd rfl some
    | cons isDigit _ =>
      unfold readNumeral
      split
      next empty => cases empty
      next plus =>
        cases plus
        exact absurd isDigit (not_isDigit_plus most _)
      next plus =>
        cases plus
        exact absurd isDigit (not_isDigit_plus most _)
      next => rfl
  | plus run =>
    rw [← readDigits_of_denotes most run room]
    obtain ⟨char, rest, rfl⟩ := List.exists_cons_of_ne_nil run.1
    rfl

theorem readNumeral_of_not_signed {text : List Char} (other : ∀ number, ¬Signed radix text number) :
    ∃ fault, readNumeral radix bound text = .error fault := by
  have stray {digits : List Char} (some : digits ≠ [])
      (signed : ∀ number, Denotes radix digits number → Signed radix text number) :
      ∃ fault, readDigits radix bound 0 digits = .error fault :=
    readDigits_of_stray most bound fun values proper =>
      other _ (signed _ ⟨some, values, proper, rfl⟩)
  unfold readNumeral
  split
  next => exact ⟨_, rfl⟩
  next => exact ⟨_, rfl⟩
  next digits lonely =>
    refine stray ?_ fun _ => .plus
    rintro rfl
    exact lonely rfl
  next empty _ _ => exact stray empty fun _ => .plain

end

/-! ### Marks -/

theorem splitRadix_of_mark {mark : List Char} (announced : mark ∈ marks) (text : List Char) :
    splitRadix (mark ++ text) = (16, text) := by
  simp only [marks, List.mem_cons, List.not_mem_nil, or_false] at announced
  rcases announced with rfl | rfl | rfl <;> rfl

theorem splitRadix_of_plain {text : List Char} (plain : ∀ mark ∈ marks, ¬mark <+: text) :
    splitRadix text = (10, text) := by
  have begins {mark rest : List Char} (announced : mark ∈ marks) : text ≠ mark ++ rest := by
    rintro rfl
    exact plain mark announced (List.prefix_append mark rest)
  unfold splitRadix
  split
  next rest => exact absurd rfl (begins (show ['0', 'x'] ∈ marks by decide))
  next rest => exact absurd rfl (begins (show ['0', 'X'] ∈ marks by decide))
  next rest => exact absurd rfl (begins (show ['$'] ∈ marks by decide))
  next => rfl

/-- A text is a number exactly if what follows its mark is one in the radix that it announces. -/
theorem numeral_iff (text : List Char) (number : Nat) :
    Numeral text number ↔ Signed (splitRadix text).1 (splitRadix text).2 number := by
  constructor
  · intro numeral
    cases numeral with
    | hexadecimal announced signed =>
      rw [splitRadix_of_mark announced]
      exact signed
    | decimal plain signed =>
      rw [splitRadix_of_plain plain]
      exact signed
  · by_cases plain : ∀ mark ∈ marks, ¬mark <+: text
    · rw [splitRadix_of_plain plain]
      exact .decimal plain
    · simp only [not_forall, not_not] at plain
      obtain ⟨mark, announced, rest, rfl⟩ := plain
      rw [splitRadix_of_mark announced]
      exact .hexadecimal announced

theorem splitRadix_le (text : List Char) : (splitRadix text).1 ≤ 16 := by
  unfold splitRadix
  split <;> simp

/-! ### Bounded numbers -/

section

variable {text : String} {number : Nat}

theorem readNumber_of_numeral (numeral : Numeral text.toList number) :
    readNumber text =
      if number < 0x100000000 then .ok number else .error (.malformed text .tooLarge) := by
  have signed := (numeral_iff _ _).mp numeral
  rw [readNumber]
  dsimp only
  rw [readNumeral_of_signed (splitRadix_le _) signed (by decide)]
  split <;> rfl

theorem readNumber_of_not_numeral (other : ∀ number, ¬Numeral text.toList number) :
    ∃ fault, readNumber text = .error (.malformed text fault) := by
  obtain ⟨fault, refused⟩ : ∃ fault, readNumeral (splitRadix text.toList).1 0x100000000
      (splitRadix text.toList).2 = .error fault :=
    readNumeral_of_not_signed (splitRadix_le _) fun number signed =>
      other number ((numeral_iff _ _).mpr signed)
  refine ⟨fault, ?_⟩
  rw [readNumber]
  dsimp only
  rw [refused]
  rfl

/-- A number is read if it fits; for what it is refused depends on whether it fits 32 bits. -/
theorem readBits_of_numeral (bits : Nat) (numeral : Numeral text.toList number) :
    readBits bits text =
      if number < 0x100000000 then
        if number < 2 ^ bits then .ok number else .error (.tooWide text bits)
      else .error (.malformed text .tooLarge) := by
  rw [readBits, readNumber_of_numeral numeral]
  split <;> rfl

theorem readBits_of_not_numeral (bits : Nat) (other : ∀ number, ¬Numeral text.toList number) :
    ∃ fault, readBits bits text = .error (.malformed text fault) := by
  obtain ⟨fault, refused⟩ := readNumber_of_not_numeral other
  exact ⟨fault, by rw [readBits, refused]; rfl⟩

theorem readBits_of_too_large {bits : Nat} (numeral : Numeral text.toList number)
    (large : 2 ^ bits ≤ number) :
    readBits bits text =
      .error (if number < 0x100000000 then .tooWide text bits else .malformed text .tooLarge) := by
  rw [readBits_of_numeral bits numeral, if_neg (Nat.not_lt_of_le large)]
  split <;> rfl

theorem readBits_eq_ok_iff {bits : Nat} (few : bits ≤ 32) :
    readBits bits text = .ok number ↔ Numeral text.toList number ∧ number < 2 ^ bits := by
  constructor
  · intro read
    by_cases other : ∀ number, ¬Numeral text.toList number
    · obtain ⟨fault, refused⟩ := readBits_of_not_numeral bits other
      cases refused.symm.trans read
    · simp only [not_forall, not_not] at other
      obtain ⟨denoted, numeral⟩ := other
      by_cases fits : denoted < 2 ^ bits
      · rw [readBits_of_numeral bits numeral, if_pos fits] at read
        split at read <;> cases read
        exact ⟨numeral, fits⟩
      · cases (readBits_of_too_large numeral (Nat.le_of_not_lt fits)).symm.trans read
  · rintro ⟨numeral, fits⟩
    have small : number < 0x100000000 :=
      Nat.lt_of_lt_of_le fits (Nat.pow_le_pow_right (by decide) few)
    rw [readBits_of_numeral bits numeral, if_pos small, if_pos fits]

end

theorem map_eq_ok_iff {ε α β : Type} {change : α → β} {result : Except ε α} {value : β} :
    change <$> result = .ok value ↔ ∃ before, result = .ok before ∧ change before = value := by
  cases result with
  | error fault => simp
  | ok before => simp

theorem readWord_eq_ok_iff {text : String} {word : UInt16} :
    readWord text = .ok word ↔ Numeral text.toList word.toNat := by
  rw [readWord, map_eq_ok_iff]
  constructor
  · rintro ⟨number, read, rfl⟩
    obtain ⟨numeral, fits⟩ := (readBits_eq_ok_iff (by decide)).mp read
    rw [UInt16.toNat_ofNat', Nat.mod_eq_of_lt fits]
    exact numeral
  · intro numeral
    exact ⟨word.toNat, (readBits_eq_ok_iff (by decide)).mpr ⟨numeral, word.toNat_lt⟩,
      UInt16.ofNat_toNat⟩

theorem readByte_eq_ok_iff {text : String} {byte : UInt8} :
    readByte text = .ok byte ↔ Numeral text.toList byte.toNat := by
  rw [readByte, map_eq_ok_iff]
  constructor
  · rintro ⟨number, read, rfl⟩
    obtain ⟨numeral, fits⟩ := (readBits_eq_ok_iff (by decide)).mp read
    rw [UInt8.toNat_ofNat', Nat.mod_eq_of_lt fits]
    exact numeral
  · intro numeral
    exact ⟨byte.toNat, (readBits_eq_ok_iff (by decide)).mpr ⟨numeral, byte.toNat_lt⟩,
      UInt8.ofNat_toNat⟩

/-! ### Zeros in front, and printed addresses -/

/-- Zeros in front of digits do not change the number. -/
theorem Denotes.zeros {radix : Nat} {digits : List Char} {number : Nat}
    (run : Denotes radix digits number) (count : Nat) :
    Denotes radix (List.replicate count '0' ++ digits) number := by
  obtain ⟨some, values, proper, sum⟩ := run
  have positive : 0 < radix := by
    cases proper with
    | nil => exact absurd rfl some
    | cons isDigit _ => exact Nat.zero_lt_of_lt isDigit.1
  induction count with
  | zero => exact ⟨some, values, proper, sum⟩
  | succ count inductionHypothesis =>
    obtain ⟨_, values, proper, sum⟩ := inductionHypothesis
    refine ⟨List.cons_ne_nil _ _, 0 :: values, .cons ⟨positive, Or.inl rfl⟩ proper, ?_⟩
    rw [Nat.ofDigits_reverse_zero_cons, sum]

theorem digitValue?_of_mem {radix : Nat} (most : radix ≤ 16) {digits : List Char} {number : Nat}
    (run : Denotes radix digits number) : ∀ char ∈ digits, Text.digitValue? radix char ≠ none := by
  obtain ⟨-, values, proper, -⟩ := run
  induction proper with
  | nil => exact nofun
  | cons isDigit _ inductionHypothesis =>
    intro char member
    rcases List.mem_cons.mp member with rfl | later
    · rw [(digitValue?_eq_some_iff most).mpr isDigit]
      exact Option.some_ne_none _
    · exact inductionHypothesis char later

/-- A decimal number begins with no mark, for each mark has a character that is no digit. -/
theorem plain_of_signed {text : List Char} {number : Nat} (signed : Signed 10 text number) :
    ∀ mark ∈ marks, ¬mark <+: text := by
  have stray : ∀ mark ∈ marks, ∃ char ∈ mark, char ≠ '+' ∧ Text.digitValue? 10 char = none := by
    simp only [marks, List.forall_mem_cons]
    exact ⟨⟨'x', by decide⟩, ⟨'X', by decide⟩, ⟨'$', by decide⟩, nofun⟩
  intro mark announced begins
  obtain ⟨char, member, noSign, noDigit⟩ := stray mark announced
  have inText : char ∈ text := begins.subset member
  cases signed with
  | plain run => exact digitValue?_of_mem (by decide) run char inText noDigit
  | plus run =>
    rcases List.mem_cons.mp inText with same | later
    · exact noSign same
    · exact digitValue?_of_mem (by decide) run char later noDigit

theorem denotes_wordDigits (word : UInt16) : Denotes 16 (Text.wordDigits word) word.toNat := by
  have digit : ∀ value < 16, upperDigits[value]? = some (Text.digitChar value) := by decide
  have isDigit {value : Nat} (small : value < 16) : IsDigit 16 (Text.digitChar value) value :=
    ⟨small, Or.inl (digit value small)⟩
  have high (byte : UInt8) := isDigit (Text.highDigit_lt byte)
  have low (byte : UInt8) := isDigit (Text.lowDigit_lt byte)
  refine ⟨List.cons_ne_nil _ _, _, .cons (high (highByte word)) (.cons (low (highByte word))
    (.cons (high (lowByte word)) (.cons (low (lowByte word)) .nil))), ?_⟩
  simp only [List.reverse_cons, List.reverse_nil, List.nil_append, List.cons_append,
    Nat.ofDigits_cons, Nat.ofDigits_nil, toNat_lowByte, toNat_highByte]
  omega

theorem numeral_of_parts {mark sign digits : List Char} {number : Nat}
    (announced : mark ∈ [] :: marks) (signed : sign ∈ [[], ['+']])
    (run : Denotes (if mark = [] then 10 else 16) digits number) :
    Numeral (mark ++ sign ++ digits) number := by
  have withSign {radix : Nat} (run : Denotes radix digits number) :
      Signed radix (sign ++ digits) number := by
    simp only [List.mem_cons, List.not_mem_nil, or_false] at signed
    rcases signed with rfl | rfl
    · exact .plain run
    · exact .plus run
  rw [List.append_assoc]
  rcases List.mem_cons.mp announced with rfl | announced
  · exact .decimal (plain_of_signed (withSign run)) (withSign run)
  · have some : mark ≠ [] := by
      rintro rfl
      exact absurd announced (by decide)
    rw [if_neg some] at run
    exact .hexadecimal announced (withSign run)

/-- An address is read back from its hexadecimal digits behind a mark. -/
theorem readWord_of_mark {mark : List Char} (announced : mark ∈ marks) (word : UInt16) :
    readWord (String.ofList mark ++ Text.hexWord word) = .ok word := by
  have some : mark ≠ [] := by
    rintro rfl
    exact absurd announced (by decide)
  rw [readWord_eq_ok_iff, String.toList_append, String.toList_ofList, Text.toList_hexWord,
    ← List.append_nil mark]
  refine numeral_of_parts (List.mem_cons_of_mem _ announced) List.mem_cons_self ?_
  rw [if_neg some]
  exact denotes_wordDigits word

/-! ### Reading by value -/

/-- The numbers of the command line are read by their value. A word or a byte is read from exactly
the texts that stand for it. A number that needs too many bits is refused, also one that needs more
than 32, and so is everything that stands for no number. Zeros in front do not count, and an address
that the program prints is read back as it stands. -/
theorem numbers_read_by_value :
    (∀ (text : String) (word : UInt16),
      readWord text = .ok word ↔ Numeral text.toList word.toNat) ∧
    (∀ (text : String) (byte : UInt8),
      readByte text = .ok byte ↔ Numeral text.toList byte.toNat) ∧
    (∀ (text : String) (number : Nat), Numeral text.toList number →
      (65535 < number → readWord text =
        .error (if number < 0x100000000 then .tooWide text 16 else .malformed text .tooLarge)) ∧
      (255 < number → readByte text =
        .error (if number < 0x100000000 then .tooWide text 8 else .malformed text .tooLarge))) ∧
    (∀ text : String, (∀ number, ¬Numeral text.toList number) → ∃ fault,
      readWord text = .error (.malformed text fault) ∧
      readByte text = .error (.malformed text fault)) ∧
    (∀ mark ∈ [] :: marks, ∀ sign ∈ [[], ['+']], ∀ (digits : List Char) (zeros : Nat),
      let text := String.ofList (mark ++ sign ++ (List.replicate zeros '0' ++ digits))
      let radix := if mark = [] then 10 else 16
      (∀ word : UInt16, Denotes radix digits word.toNat → readWord text = .ok word) ∧
      (∀ byte : UInt8, Denotes radix digits byte.toNat → readByte text = .ok byte)) ∧
    ∀ pc : UInt16,
      (∃ shown, (∀ limit, outcomeLine limit (.breakpoint pc) = "Breakpoint at " ++ shown ∧
          outcomeLine limit (.trapped pc) = "Trapped at " ++ shown) ∧
        readWord shown = .ok pc) ∧
      ∃ shown, (∀ opcode length, (Fault.unimplementedOpcode opcode pc).message =
            "opcode 0x" ++ Text.hexByte opcode ++ " at " ++ shown ++ " is not implemented" ∧
          (Fault.imageTooLarge length pc).message =
            length.repr ++ "-byte image does not fit at " ++ shown) ∧
        readWord shown = .ok pc := by
  refine ⟨fun _ _ => readWord_eq_ok_iff, fun _ _ => readByte_eq_ok_iff, ?_, ?_, ?_, ?_⟩
  · intro text number numeral
    constructor
    · intro large
      rw [readWord, readBits_of_too_large numeral large, Except.map_error]
    · intro large
      rw [readByte, readBits_of_too_large numeral large, Except.map_error]
  · intro text other
    obtain ⟨fault, refused⟩ := readNumber_of_not_numeral other
    refine ⟨fault, ?_, ?_⟩
    · rw [readWord, readBits, refused]
      rfl
    · rw [readByte, readBits, refused]
      rfl
  · intro mark announced sign signed digits zeros text radix
    have stands {number : Nat} (run : Denotes radix digits number) :
        Numeral text.toList number := by
      rw [String.toList_ofList]
      exact numeral_of_parts announced signed (run.zeros zeros)
    exact ⟨fun _ run => readWord_eq_ok_iff.mpr (stands run),
      fun _ run => readByte_eq_ok_iff.mpr (stands run)⟩
  · intro pc
    refine ⟨⟨"$" ++ Text.hexWord pc, fun limit => ⟨?_, ?_⟩, readWord_of_mark (by decide) pc⟩,
      ⟨"0x" ++ Text.hexWord pc, fun opcode length => ⟨?_, ?_⟩, readWord_of_mark (by decide) pc⟩⟩
    · rw [← String.append_assoc]
      rfl
    · rw [← String.append_assoc]
      rfl
    · rw [Fault.message, show " at 0x" = " at " ++ "0x" from rfl]
      simp only [String.append_assoc]
    · rw [Fault.message, show "-byte image does not fit at 0x" =
        "-byte image does not fit at " ++ "0x" from rfl]
      simp only [String.append_assoc]

/-- Digits of both cases behind zeros and a sign, and the first numbers that are too large for a
word and for 32 bits. -/
theorem numbers_read_by_value_at_bounds :
    Denotes 16 ['f', 'F', '0', '0'] 0xFF00 ∧ readWord "0X+0000000fF00" = .ok 0xFF00 ∧
    Numeral "0x10000".toList 0x10000 ∧ readWord "0x10000" = .error (.tooWide "0x10000" 16) ∧
    Numeral "4294967296".toList 0x100000000 ∧
      readWord "4294967296" = .error (.malformed "4294967296" .tooLarge) := by
  have mixed : Denotes 16 ['f', 'F', '0', '0'] 0xFF00 :=
    ⟨by decide, [15, 15, 0, 0], by decide, rfl⟩
  have wide : Numeral "0x10000".toList 0x10000 :=
    .hexadecimal (show ['0', 'x'] ∈ marks by decide)
      (.plain ⟨by decide, [1, 0, 0, 0, 0], by decide, rfl⟩)
  have large : Numeral "4294967296".toList 0x100000000 :=
    .decimal (by decide) (.plain ⟨by decide, [4, 2, 9, 4, 9, 6, 7, 2, 9, 6], by decide, rfl⟩)
  obtain ⟨_, _, tooLarge, _, zeros, _⟩ := numbers_read_by_value
  refine ⟨mixed, ?_, wide, ?_, large, ?_⟩
  · exact (zeros ['0', 'X'] (by decide) ['+'] (by decide) _ 7).1 0xFF00 mixed
  · exact (tooLarge _ _ wide).1 (by decide)
  · exact (tooLarge _ _ large).1 (by decide)

end Mos6502.CommandLine
