/-
This file reads assembly text back. A line has four fields: a name, the marks in front of a number,
the digits of the number, and the marks behind it. A blank ends the name, a dollar sign announces
the number, and no mark behind the digits looks like a digit, so a line falls into its fields in one
way only. The marks and the number of digits tell the mode, except that a branch shows its target
like a full address; that is settled by the name. Since no two opcodes have name and mode in common,
an entry is found again from its text and the address where it stands, and two entries at one
address never have the same text.
-/

import Mathlib.Data.List.Basic
import Mos6502.Proofs.Digits
import Mos6502.Proofs.Partition
import Mos6502.Proofs.Step

namespace Mos6502

open Text

/-! ### Fields of a line -/

/-- The fields of a line of assembly text. -/
structure Fields where
  /-- The name of the instruction or the directive. -/
  name : List Char
  /-- What stands between the name and the number. -/
  opening : List Char := []
  /-- The digits of the number, if there is one. -/
  digits : List Char := []
  /-- What stands behind the number. -/
  closing : List Char := []
deriving DecidableEq

namespace Fields

/-- Takes a line apart. -/
def ofChars (line : List Char) : Fields :=
  let front := line.takeWhile (· != '$')
  let back := (line.dropWhile (· != '$')).tail
  { name := front.takeWhile (· != ' ')
    opening := (front.dropWhile (· != ' ')).tail
    digits := back.takeWhile isHexDigit
    closing := back.dropWhile isHexDigit }

/-- The number in the line, if there is one. -/
def number? (fields : Fields) : Option Nat :=
  if fields.digits = [] then none else some (hexNumber fields.digits)

/-- What stands in front of the number, the name included. -/
def front (fields : Fields) : List Char :=
  if fields.opening = [] ∧ fields.digits = [] then fields.name
  else fields.name ++ ' ' :: fields.opening

/-- What follows the dollar sign, which stands only in front of a number. -/
def back (fields : Fields) : List Char :=
  if fields.digits = [] then [] else '$' :: (fields.digits ++ fields.closing)

/-- The fields written as a line. -/
def toChars (fields : Fields) : List Char :=
  fields.front ++ fields.back

theorem toChars_of_digits {fields : Fields} (shown : fields.digits ≠ []) :
    fields.toChars =
      fields.name ++ ' ' :: (fields.opening ++ '$' :: (fields.digits ++ fields.closing)) := by
  rw [toChars, front, back, if_neg fun nothing => shown nothing.2, if_neg shown,
    List.append_assoc, List.cons_append]

/-- Fields that can be told apart in a line. -/
structure Separable (fields : Fields) : Prop where
  no_blank : ' ' ∉ fields.name
  no_dollar : '$' ∉ fields.name ++ fields.opening
  all_digits : ∀ char ∈ fields.digits, isHexDigit char = true
  ends : ∀ char ∈ fields.closing.head?, isHexDigit char = false
  closing_eq_nil : fields.digits = [] → fields.closing = []

theorem ne_of_not_mem {chars : List Char} {mark : Char} (absent : mark ∉ chars) :
    ∀ char ∈ chars, (char != mark) = true := by
  rintro char member
  exact bne_iff_ne.mpr fun same => absent (same ▸ member)

/-- The name ends at the first blank. -/
theorem span_front {fields : Fields} (separable : fields.Separable) :
    fields.front.takeWhile (· != ' ') = fields.name ∧
      (fields.front.dropWhile (· != ' ')).tail = fields.opening := by
  have name := ne_of_not_mem separable.no_blank
  unfold front
  split
  next bare =>
    have nothing : ∀ char ∈ ([] : List Char).head?, (char != ' ') = false := nofun
    have ⟨front, back⟩ := span_append name nothing
    rw [List.append_nil] at front back
    rw [front, back, bare.1]
    exact ⟨rfl, rfl⟩
  next =>
    have blank : ∀ char ∈ (' ' :: fields.opening).head?, (char != ' ') = false := by simp
    have ⟨front, back⟩ := span_append name blank
    rw [front, back]
    exact ⟨rfl, rfl⟩

/-- The number begins at the first dollar sign. -/
theorem span_toChars {fields : Fields} (separable : fields.Separable) :
    fields.toChars.takeWhile (· != '$') = fields.front ∧
      (fields.toChars.dropWhile (· != '$')).tail = fields.digits ++ fields.closing := by
  have absent : '$' ∉ fields.front := by
    have marks := separable.no_dollar
    rw [List.mem_append, not_or] at marks
    unfold front
    split <;> simp [marks]
  have announced : ∀ char ∈ fields.back.head?, (char != '$') = false := by
    unfold back
    split <;> simp
  have ⟨front, back⟩ := span_append (ne_of_not_mem absent) announced
  rw [toChars, front, back, Fields.back]
  split
  next none => exact ⟨rfl, by rw [none, separable.closing_eq_nil none]; rfl⟩
  next => exact ⟨rfl, rfl⟩

/-- A line falls into the fields that it was written from. -/
theorem ofChars_toChars {fields : Fields} (separable : fields.Separable) :
    ofChars fields.toChars = fields := by
  have ⟨front, back⟩ := span_toChars separable
  have ⟨name, opening⟩ := span_front separable
  have ⟨digits, closing⟩ := span_append separable.all_digits separable.ends
  unfold ofChars
  rw [front, back]
  dsimp only
  rw [name, opening, digits, closing]

end Fields

/-! ### Operands in fields -/

namespace Mode

/-- The marks in front of the number; where no number is shown, the whole operand text. -/
def opening : Mode → List Char
  | accumulator => ['A']
  | immediate => ['#']
  | indirect | indirectX | indirectY => ['(']
  | _ => []

/-- The marks behind the number. -/
def closing : Mode → List Char
  | zeroPageX | absoluteX => [',', 'X']
  | zeroPageY | absoluteY => [',', 'Y']
  | indirect => [')']
  | indirectX => [',', 'X', ')']
  | indirectY => [')', ',', 'Y']
  | _ => []

/-- The digits of the number that is shown for operand bytes. -/
def digits (mode : Mode) (address : UInt16) (operand : List UInt8) : List Char :=
  match mode, operand with
  | relative, [offset] => wordDigits (address + relative.stride + signExtend offset)
  | _, [byte] => byteDigits byte
  | _, [low, high] => wordDigits (wordOf low high)
  | _, _ => []

/-- How many digits the number has. -/
def digitCount : Mode → Nat
  | relative => 4
  | mode => 2 * mode.operandBytes

/-- The mode that marks and digits show, for a branch or for another instruction. -/
def ofMarks? (branches : Bool) (opening : List Char) (digitCount : Nat) (closing : List Char) :
    Option Mode :=
  all.find? fun mode => (mode == relative) == branches && mode.opening == opening &&
    mode.digitCount == digitCount && mode.closing == closing

/-- The operand bytes for which a number is shown. -/
def operandOf (mode : Mode) (address : UInt16) (number : Nat) : List UInt8 :=
  let word := UInt16.ofNat number
  match mode, mode.operandBytes with
  | relative, _ => [lowByte (word - (address + relative.stride))]
  | _, 0 => []
  | _, 1 => [lowByte word]
  | _, _ => [lowByte word, highByte word]

theorem ofMarks?_self (mode : Mode) : ofMarks? (mode == relative) mode.opening mode.digitCount
    mode.closing = some mode := by
  cases mode <;> rfl

theorem isHexDigit_of_mem_digits {mode : Mode} {address : UInt16} {operand : List UInt8} :
    ∀ char ∈ mode.digits address operand, isHexDigit char = true := by
  unfold digits
  split
  · exact fun _ => isHexDigit_of_mem_wordDigits
  · exact fun _ => isHexDigit_of_mem_byteDigits
  · exact fun _ => isHexDigit_of_mem_wordDigits
  · exact nofun

section

variable {mode : Mode} (address : UInt16) {operand : List UInt8}
  (fits : operand.length = mode.operandBytes)

include fits

theorem length_digits : (mode.digits address operand).length = mode.digitCount := by
  cases mode with
  | implied | accumulator =>
    obtain rfl := List.length_eq_zero_iff.mp fits
    rfl
  | absolute | absoluteX | absoluteY | indirect =>
    obtain ⟨low, high, rfl⟩ := List.length_eq_two.mp fits
    rfl
  | _ =>
    obtain ⟨byte, rfl⟩ := List.length_eq_one_iff.mp fits
    rfl

/-- The operand text shows the number between the marks of the mode. -/
theorem exists_operandText (number : mode.operandBytes ≠ 0) :
    mode.digits address operand ≠ [] ∧ ∃ shown, mode.operandText? address operand = some shown ∧
      shown.toList = mode.opening ++ '$' :: (mode.digits address operand ++ mode.closing) := by
  cases mode with
  | implied | accumulator => exact absurd rfl number
  | absolute | absoluteX | absoluteY | indirect =>
    obtain ⟨low, high, rfl⟩ := List.length_eq_two.mp fits
    exact ⟨wordDigits_ne_nil _, _, rfl, by simp [operandWordText, opening, digits, closing]⟩
  | relative =>
    obtain ⟨offset, rfl⟩ := List.length_eq_one_iff.mp fits
    exact ⟨wordDigits_ne_nil _, _, rfl, by simp [branchTargetText, opening, digits, closing]⟩
  | _ =>
    obtain ⟨byte, rfl⟩ := List.length_eq_one_iff.mp fits
    exact ⟨byteDigits_ne_nil _, _, rfl, by simp [operandByteText, opening, digits, closing]⟩

/-- The operand bytes are found again from their number. -/
theorem operandOf_digits :
    mode.operandOf address (hexNumber (mode.digits address operand)) = operand := by
  cases mode with
  | implied | accumulator =>
    obtain rfl := List.length_eq_zero_iff.mp fits
    rfl
  | absolute | absoluteX | absoluteY | indirect =>
    obtain ⟨low, high, rfl⟩ := List.length_eq_two.mp fits
    simp [operandOf, operandBytes, digits, hexNumber_wordDigits]
  | relative =>
    obtain ⟨offset, rfl⟩ := List.length_eq_one_iff.mp fits
    have back : ∀ offset : UInt8, lowByte (signExtend offset) = offset :=
      forall_byte (by decide +kernel)
    have target : address + relative.stride + signExtend offset - (address + relative.stride) =
        signExtend offset := by
      rw [UInt16.add_comm, UInt16.add_sub_cancel]
    rw [digits, hexNumber_wordDigits, operandOf, UInt16.ofNat_toNat, target, back]
  | _ =>
    obtain ⟨byte, rfl⟩ := List.length_eq_one_iff.mp fits
    simp [operandOf, operandBytes, digits, hexNumber_byteDigits, lowByte]

end

end Mode

/-! ### Entries in fields -/

namespace Entry

/-- An entry that bytes can be taken apart into. -/
inductive Proper : Entry → Prop where
  /-- A documented instruction with all its operand bytes. -/
  | instruction {address : UInt16} {byte : UInt8} {opcode : Opcode} {operand : List UInt8}
    (found : Opcode.ofByte? byte = some opcode)
    (fits : operand.length = opcode.mode.operandBytes) :
    Proper ⟨address, byte, .instruction opcode.mnemonic opcode.mode operand opcode.cycles⟩
  /-- Any byte on its own. -/
  | data (address : UInt16) (byte : UInt8) : Proper (ofByte address byte)

theorem proper_ofBytes (address : UInt16) (byte : UInt8) (rest : List UInt8) :
    (ofBytes address byte rest).Proper := by
  rcases ofBytes_cases address byte rest with ⟨opcode, found, whole, entry⟩ | ⟨_, entry⟩
  · rw [entry]
    exact .instruction found (List.length_take_of_le whole)
  · rw [entry]
    exact .data address byte

theorem proper_of_mem_disassemble {start : UInt16} {bytes : List UInt8} {entry : Entry}
    (member : entry ∈ disassemble start bytes) : entry.Proper := by
  obtain ⟨before, after, split⟩ := List.mem_iff_append.mp member
  obtain ⟨byte, rest, _, rfl, _⟩ := first_of_disassemble (disassemble_drop_extent split).symm
  exact proper_ofBytes _ byte rest

/-- The name in front of a byte that is no instruction. -/
def directive : List Char :=
  ['.', 'b', 'y', 't', 'e']

/-- The fields in which an entry is written. -/
def fields (entry : Entry) : Fields :=
  match entry.content with
  | .instruction mnemonic mode operand _ =>
    { name := mnemonic.name.toList
      opening := mode.opening
      digits := mode.digits entry.address operand
      closing := mode.closing }
  | .data => { name := directive, digits := byteDigits entry.opcode }

theorem separable_fields {entry : Entry} (proper : entry.Proper) : entry.fields.Separable := by
  cases proper with
  | @instruction address byte opcode operand found fits =>
    have letters : ∀ mnemonic ∈ Mnemonic.all,
        ' ' ∉ mnemonic.name.toList ∧ '$' ∉ mnemonic.name.toList := by decide
    have marks : ∀ mode ∈ Mode.all, '$' ∉ mode.opening ∧
        mode.closing.any isHexDigit = false ∧ (mode.digitCount = 0 → mode.closing = []) := by
      decide
    obtain ⟨noBlank, noDollar⟩ := letters _ opcode.mnemonic.mem_all
    obtain ⟨opening, noDigit, bare⟩ := marks _ opcode.mode.mem_all
    refine ⟨noBlank, ?_, Mode.isHexDigit_of_mem_digits, fun char first => ?_, fun none => bare ?_⟩
    · rw [List.mem_append, not_or]
      exact ⟨noDollar, opening⟩
    · exact Bool.eq_false_iff.mpr
        (List.any_eq_false.mp noDigit char (List.mem_of_mem_head? first))
    · rw [← Mode.length_digits address fits]
      exact List.length_eq_zero_iff.mpr none
  | data address byte =>
    have plain : ' ' ∉ directive ∧ '$' ∉ directive ++ [] := by decide
    exact ⟨plain.1, plain.2, fun _ => isHexDigit_of_mem_byteDigits, nofun, fun _ => rfl⟩

/-- The text of an entry is made of its fields. -/
theorem toList_text {entry : Entry} (proper : entry.Proper) :
    entry.text.toList = entry.fields.toChars := by
  cases proper with
  | @instruction address byte opcode operand found fits =>
    by_cases number : opcode.mode.operandBytes = 0
    · obtain ⟨mnemonic, mode, cycles⟩ := opcode
      rw [number] at fits
      obtain rfl := List.length_eq_zero_iff.mp fits
      cases mode with
      | implied | accumulator =>
        simp [text, Mode.operandText?, fields, Fields.toChars, Fields.front, Fields.back,
          Mode.opening, Mode.digits]
      | _ => cases number
    · obtain ⟨digits, shown, operandText, chars⟩ := Mode.exists_operandText address fits number
      rw [Fields.toChars_of_digits digits, text]
      dsimp only
      rw [operandText, String.toList_append, String.toList_append, chars]
      simp [fields]
  | data address byte =>
    rw [Fields.toChars_of_digits (byteDigits_ne_nil byte)]
    simp [text, ofByte, fields, directive]

end Entry

/-! ### Opcodes by name and mode -/

/-- The opcode byte of an instruction in a mode, if there is one. -/
def Opcode.byteOf? (mnemonic : Mnemonic) (mode : Mode) : Option UInt8 :=
  ((List.range 256).map UInt8.ofNat).find? fun byte =>
    (ofByte? byte).any fun opcode => opcode.mode == mode && opcode.mnemonic == mnemonic

/-- No two opcodes have name and mode in common. -/
theorem Opcode.byteOf?_of_ofByte? {byte : UInt8} {opcode : Opcode}
    (found : ofByte? byte = some opcode) : byteOf? opcode.mnemonic opcode.mode = some byte := by
  have each : ∀ byte : UInt8, ∀ opcode ∈ ofByte? byte,
      byteOf? opcode.mnemonic opcode.mode = some byte := forall_byte (by decide +kernel)
  exact each byte opcode found

/-- Branches are the instructions with a relative operand. -/
theorem Opcode.relative_eq_isBranch {byte : UInt8} {opcode : Opcode}
    (found : ofByte? byte = some opcode) :
    (opcode.mode == .relative) = opcode.mnemonic.isBranch := by
  refine of_matrix (P := fun opcode => (opcode.mode == .relative) = opcode.mnemonic.isBranch) ?_
    found
  decide +kernel

theorem Mnemonic.ofName?_name (mnemonic : Mnemonic) : ofName? mnemonic.name = some mnemonic := by
  have each : ∀ mnemonic ∈ all, ofName? mnemonic.name = some mnemonic := by decide
  exact each mnemonic mnemonic.mem_all

/-! ### Text read back -/

namespace Entry

/-- The entry at an address that is written in some fields. -/
def ofFields? (address : UInt16) (fields : Fields) : Option Entry :=
  let number := hexNumber fields.digits
  if fields.name = directive then some (ofByte address (UInt8.ofNat number))
  else do
    let mnemonic ← Mnemonic.ofName? (String.ofList fields.name)
    let mode ← Mode.ofMarks? mnemonic.isBranch fields.opening fields.digits.length fields.closing
    let byte ← Opcode.byteOf? mnemonic mode
    let opcode ← Opcode.ofByte? byte
    return ⟨address, byte,
      .instruction mnemonic mode (mode.operandOf address number) opcode.cycles⟩

/-- The entry at an address that a text stands for. -/
def assemble? (address : UInt16) (text : String) : Option Entry :=
  ofFields? address (Fields.ofChars text.toList)

theorem ofFields?_fields {entry : Entry} (proper : entry.Proper) :
    ofFields? entry.address entry.fields = some entry := by
  cases proper with
  | @instruction address byte opcode operand found fits =>
    have named : ∀ mnemonic ∈ Mnemonic.all, mnemonic.name.toList ≠ directive := by decide
    have mode := opcode.mode.ofMarks?_self
    rw [Opcode.relative_eq_isBranch found, ← Mode.length_digits address fits] at mode
    simp only [ofFields?, fields, if_neg (named _ opcode.mnemonic.mem_all), String.ofList_toList,
      Mnemonic.ofName?_name, Option.bind_eq_bind, Option.bind_some, mode,
      Opcode.byteOf?_of_ofByte? found, found, Mode.operandOf_digits address fits]
    rfl
  | data address byte =>
    simp only [ofFields?, fields, ofByte, if_pos, hexNumber_byteDigits, UInt8.ofNat_toNat]

/-- An entry is found again from its text and its address. -/
theorem assemble?_text {entry : Entry} (proper : entry.Proper) :
    assemble? entry.address entry.text = some entry := by
  rw [assemble?, toList_text proper, Fields.ofChars_toChars (separable_fields proper),
    ofFields?_fields proper]

/-- A text stands for one entry at an address: every entry that can be listed is found again from
its text, so two of them with one text have the same bytes. -/
theorem text_unambiguous :
    (∀ (start : UInt16) (bytes : List UInt8), ∀ entry ∈ disassemble start bytes, entry.Proper) ∧
    (∀ entry : Entry, entry.Proper → assemble? entry.address entry.text = some entry) ∧
    ∀ first second : Entry, first.Proper → second.Proper → first.address = second.address →
      first.text = second.text →
      first.opcode = second.opcode ∧ first.operand = second.operand := by
  refine ⟨fun _ _ _ => proper_of_mem_disassemble, fun _ => assemble?_text, ?_⟩
  intro first second firstProper secondProper sameAddress sameText
  have read := assemble?_text firstProper
  rw [sameAddress, sameText, assemble?_text secondProper, Option.some.injEq] at read
  rw [read]
  exact ⟨rfl, rfl⟩

/-- A branch back whose operand lies behind the end of the address range. -/
theorem text_unambiguous_branch :
    let branch : Entry := ⟨0xFFFF, 0xD0, .instruction .bne .relative [0x80] 2⟩
    branch ∈ disassemble 0xFFFF [0xD0, 0x80] ∧ branch.Proper ∧ branch.text = "BNE $FF81" ∧
      assemble? 0xFFFF "BNE $FF81" = some branch ∧
      branch.opcode = 0xD0 ∧ branch.operand = [0x80] := by
  intro branch
  have member : branch ∈ disassemble 0xFFFF [0xD0, 0x80] := by
    have listing : disassemble 0xFFFF [0xD0, 0x80] = [branch] := by decide +kernel
    rw [listing]
    exact List.mem_singleton_self branch
  have text : branch.text = "BNE $FF81" := by decide +kernel
  obtain ⟨listed, found, same⟩ := text_unambiguous
  have proper := listed _ _ branch member
  have read := found branch proper
  rw [text] at read
  exact ⟨member, proper, text, read, same branch branch proper proper rfl rfl⟩

end Entry

end Mos6502
