/-
This file proves that a disassembly loses nothing. The entries that bytes fall into cover the bytes
one after the other, without gaps and without overlaps, and each of them stands at the address where
its first byte is. This rests on one fact about the scan: what follows some of the entries is the
disassembly of the bytes that those entries leave over. So every entry is the first one of a
disassembly, and there it is an instruction unless its byte is no opcode or the bytes end too early.
The hexadecimal column of the listing spells the same bytes.
-/

import Mathlib.Algebra.GroupWithZero.Nat
import Mos6502.Disassembly.Decode

namespace Mos6502

theorem Mode.stride_eq_ofNat (mode : Mode) : mode.stride = UInt16.ofNat mode.size := by
  cases mode <;> rfl

theorem Mode.operandBytes_le_two (mode : Mode) : mode.operandBytes ≤ 2 :=
  Nat.le_of_succ_le_succ mode.size_le_three

namespace Entry

/-! ### The first entry -/

section

variable (address : UInt16) {byte : UInt8} {rest : List UInt8} {opcode : Opcode}

theorem ofBytes_of_undocumented (unknown : Opcode.ofByte? byte = none) :
    ofBytes address byte rest = ofByte address byte := by
  rw [ofBytes, decode?, unknown]
  rfl

variable (found : Opcode.ofByte? byte = some opcode)

include found

theorem decode?_of_opcode : decode? address (byte :: rest) =
    if (rest.take opcode.mode.operandBytes).length = opcode.mode.operandBytes then
      some ⟨address, byte, .instruction opcode.mnemonic opcode.mode
        (rest.take opcode.mode.operandBytes) opcode.cycles⟩
    else none := by
  rw [decode?, found]
  rfl

theorem ofBytes_of_whole (whole : opcode.mode.operandBytes ≤ rest.length) :
    ofBytes address byte rest = ⟨address, byte, .instruction opcode.mnemonic opcode.mode
      (rest.take opcode.mode.operandBytes) opcode.cycles⟩ := by
  rw [ofBytes, decode?_of_opcode address found, if_pos (List.length_take_of_le whole)]
  rfl

theorem ofBytes_of_cut (short : rest.length < opcode.mode.operandBytes) :
    ofBytes address byte rest = ofByte address byte := by
  have less : (rest.take opcode.mode.operandBytes).length ≠ opcode.mode.operandBytes := by
    rw [List.length_take]
    omega
  rw [ofBytes, decode?_of_opcode address found, if_neg less]
  rfl

end

section

variable (address : UInt16) (byte : UInt8) (rest : List UInt8)

/-- Bytes begin with an instruction whose operand bytes are all there, or with a byte that is no
opcode or whose operand is cut off. -/
theorem ofBytes_cases :
    (∃ opcode, Opcode.ofByte? byte = some opcode ∧ opcode.mode.operandBytes ≤ rest.length ∧
      ofBytes address byte rest = ⟨address, byte, .instruction opcode.mnemonic opcode.mode
        (rest.take opcode.mode.operandBytes) opcode.cycles⟩) ∨
    ((∀ opcode, Opcode.ofByte? byte = some opcode → rest.length < opcode.mode.operandBytes) ∧
      ofBytes address byte rest = ofByte address byte) := by
  cases found : Opcode.ofByte? byte with
  | none =>
    refine Or.inr ⟨?_, ofBytes_of_undocumented address found⟩
    intro opcode known
    cases known
  | some opcode =>
    by_cases whole : opcode.mode.operandBytes ≤ rest.length
    · exact Or.inl ⟨opcode, rfl, whole, ofBytes_of_whole address found whole⟩
    · have short := Nat.lt_of_not_le whole
      refine Or.inr ⟨?_, ofBytes_of_cut address found short⟩
      intro known same
      cases same
      exact short

@[simp] theorem address_ofBytes : (ofBytes address byte rest).address = address := by
  rcases ofBytes_cases address byte rest with ⟨_, _, _, entry⟩ | ⟨_, entry⟩ <;> rw [entry]
  rfl

@[simp] theorem opcode_ofBytes : (ofBytes address byte rest).opcode = byte := by
  rcases ofBytes_cases address byte rest with ⟨_, _, _, entry⟩ | ⟨_, entry⟩ <;> rw [entry]
  rfl

theorem operandBytes_ofBytes_le : (ofBytes address byte rest).mode.operandBytes ≤ rest.length := by
  rcases ofBytes_cases address byte rest with ⟨_, _, whole, entry⟩ | ⟨_, entry⟩ <;> rw [entry]
  · exact whole
  · exact Nat.zero_le _

/-- The first entry covers the first byte and its operand bytes. -/
theorem bytes_ofBytes : (ofBytes address byte rest).bytes =
    byte :: rest.take (ofBytes address byte rest).mode.operandBytes := by
  rcases ofBytes_cases address byte rest with ⟨_, _, _, entry⟩ | ⟨_, entry⟩ <;> rw [entry] <;> rfl

theorem length_bytes_ofBytes :
    (ofBytes address byte rest).bytes.length = (ofBytes address byte rest).size := by
  rw [bytes_ofBytes, List.length_cons, List.length_take,
    Nat.min_eq_left (operandBytes_ofBytes_le address byte rest)]
  rfl

/-- The first entry is a mere byte exactly if that byte is no opcode or its operand is cut off. -/
theorem isData_ofBytes_iff : (ofBytes address byte rest).isData = true ↔
    Opcode.ofByte? byte = none ∨
      ∃ opcode, Opcode.ofByte? byte = some opcode ∧ rest.length < opcode.mode.operandBytes := by
  rcases ofBytes_cases address byte rest with ⟨opcode, found, whole, entry⟩ | ⟨short, entry⟩
  · rw [entry, found]
    constructor
    · intro data
      cases data
    · rintro (unknown | ⟨_, same, short⟩)
      · cases unknown
      · cases same
        exact absurd whole (Nat.not_le_of_lt short)
  · rw [entry]
    refine iff_of_true rfl ?_
    cases found : Opcode.ofByte? byte with
    | none => exact Or.inl rfl
    | some opcode => exact Or.inr ⟨opcode, rfl, short opcode found⟩

/-- An entry that is no mere byte is the instruction that its first byte stands for. -/
theorem content_ofBytes (instruction : (ofBytes address byte rest).isData = false) :
    ∃ opcode, Opcode.ofByte? byte = some opcode ∧
      (ofBytes address byte rest).content = .instruction opcode.mnemonic opcode.mode
        (ofBytes address byte rest).bytes.tail opcode.cycles := by
  rcases ofBytes_cases address byte rest with ⟨opcode, found, _, entry⟩ | ⟨_, entry⟩
  · rw [entry]
    exact ⟨opcode, found, rfl⟩
  · rw [entry] at instruction
    cases instruction

end

/-! ### What follows some of the entries -/

/-- How many bytes entries cover. -/
def extent (entries : List Entry) : Nat :=
  (entries.map size).sum

theorem extent_cons (entry : Entry) (rest : List Entry) :
    extent (entry :: rest) = entry.size + extent rest := by
  rw [extent, List.map_cons, List.sum_cons, extent]

theorem next_eq (entry : Entry) : entry.next = entry.address + UInt16.ofNat entry.size := by
  rw [next, Mode.stride_eq_ofNat]
  rfl

theorem flatMap_bytes_disassemble (address : UInt16) (bytes : List UInt8) :
    (disassemble address bytes).flatMap Entry.bytes = bytes := by
  induction address, bytes using disassemble.induct with
  | case1 address =>
    rw [disassemble]
    rfl
  | case2 address byte rest entry inductionHypothesis =>
    rw [disassemble, List.flatMap_cons, inductionHypothesis, bytes_ofBytes, List.cons_append,
      List.take_append_drop]

theorem first_of_disassemble {address : UInt16} {bytes : List UInt8} {entry : Entry}
    {after : List Entry} (split : disassemble address bytes = entry :: after) :
    ∃ byte rest, bytes = byte :: rest ∧ entry = ofBytes address byte rest ∧
      after = disassemble entry.next (rest.drop entry.mode.operandBytes) := by
  cases bytes with
  | nil =>
    rw [disassemble] at split
    cases split
  | cons byte rest =>
    rw [disassemble] at split
    cases split
    exact ⟨byte, rest, rfl, rfl, rfl⟩

/-- What follows some entries of a disassembly is the disassembly of the bytes left over. -/
theorem disassemble_drop_extent {address : UInt16} {bytes : List UInt8} {before after : List Entry}
    (split : disassemble address bytes = before ++ after) :
    after = disassemble (address + UInt16.ofNat (extent before)) (bytes.drop (extent before)) := by
  induction before generalizing address bytes with
  | nil =>
    rw [extent, List.map_nil, List.sum_nil, List.drop_zero, show UInt16.ofNat 0 = 0 from rfl,
      UInt16.add_zero, split, List.nil_append]
  | cons entry before inductionHypothesis =>
    obtain ⟨byte, rest, rfl, rfl, others⟩ := first_of_disassemble split
    have past (count : Nat) : (byte :: rest).drop ((ofBytes address byte rest).size + count) =
        (rest.drop (ofBytes address byte rest).mode.operandBytes).drop count := by
      rw [List.drop_drop, size, Mode.size, Nat.add_right_comm, List.drop_succ_cons]
    rw [inductionHypothesis others.symm, extent_cons, past, next_eq, address_ofBytes,
      UInt16.add_assoc, UInt16.ofNat_add]

/-! ### The hexadecimal column -/

/-- The bytes that a text spells with two hexadecimal digits each, with or without blanks between
them. -/
def spelledBytes? : List Char → Option (List UInt8)
  | [] => some []
  | ' ' :: rest => spelledBytes? rest
  | high :: low :: rest => do
    let high ← Text.digitValue? 16 high
    let low ← Text.digitValue? 16 low
    let others ← spelledBytes? rest
    return UInt8.ofNat (16 * high + low) :: others
  | [_] => none

/-- The column of a listing line between its address and its assembly text. -/
def hexField (line : String) : List Char :=
  (line.toList.drop 6).take 8

theorem spelledBytes?_blanks (count : Nat) (rest : List Char) :
    spelledBytes? (List.replicate count ' ' ++ rest) = spelledBytes? rest := by
  induction count with
  | zero => rfl
  | succ count inductionHypothesis =>
    rw [List.replicate_succ, List.cons_append, spelledBytes?, inductionHypothesis]

theorem spelledBytes?_byteDigits (byte : UInt8) (rest : List Char) :
    spelledBytes? (Text.byteDigits byte ++ rest) = (spelledBytes? rest).map (byte :: ·) := by
  have high : byte.toNat / 16 < 16 := Nat.div_lt_of_lt_mul byte.toNat_lt
  have low : byte.toNat % 16 < 16 := Nat.mod_lt _ (by decide)
  have noBlank : ∀ value < 16, Text.digitChar value ≠ ' ' := by decide
  have joined : UInt8.ofNat (16 * (byte.toNat / 16) + byte.toNat % 16) = byte := by
    rw [Nat.div_add_mod, UInt8.ofNat_toNat]
  show spelledBytes? (Text.digitChar (byte.toNat / 16) :: Text.digitChar (byte.toNat % 16) ::
    rest) = _
  rw [spelledBytes?, Text.digitValue?_digitChar high high, Text.digitValue?_digitChar low low]
  · cases spelledBytes? rest with
    | none => rfl
    | some others => exact congrArg (fun first => some (first :: others)) joined
  · exact noBlank _ high

/-- Bytes written with blanks between them are spelled as they are. -/
theorem spelledBytes?_intercalate (bytes : List UInt8) (rest : List Char) :
    spelledBytes? ((" ".intercalate (bytes.map Text.hexByte)).toList ++ rest) =
      (spelledBytes? rest).map (bytes ++ ·) := by
  induction bytes with
  | nil =>
    show spelledBytes? rest = (spelledBytes? rest).map id
    rw [Option.map_id_fun, id]
  | cons byte others inductionHypothesis =>
    cases others with
    | nil =>
      rw [List.map_singleton, String.intercalate_singleton, Text.toList_hexByte,
        spelledBytes?_byteDigits]
      rfl
    | cons next others =>
      rw [List.map_cons, String.intercalate_cons_of_ne_nil (by simp), String.toList_append,
        String.toList_append, List.append_assoc, List.append_assoc, Text.toList_hexByte,
        spelledBytes?_byteDigits]
      show (spelledBytes? (List.replicate 1 ' ' ++ _)).map (byte :: ·) = _
      rw [spelledBytes?_blanks, inductionHypothesis, Option.map_map]
      rfl

theorem length_intercalate_le (bytes : List UInt8) :
    (" ".intercalate (bytes.map Text.hexByte)).toList.length ≤ 3 * bytes.length - 1 := by
  induction bytes with
  | nil => exact Nat.le_refl _
  | cons byte others inductionHypothesis =>
    cases others with
    | nil => simp
    | cons next others =>
      rw [List.map_cons, String.intercalate_cons_of_ne_nil (by simp), String.toList_append,
        String.toList_append, List.length_append, List.length_append, Text.toList_hexByte]
      simp only [List.length_cons, Text.length_byteDigits] at inductionHypothesis ⊢
      have blank : " ".toList.length = 1 := rfl
      omega

/-- The column is as wide as three bytes take, so nothing of the assembly text is in it. -/
theorem hexField_listingLine {entry : Entry} (few : entry.bytes.length ≤ 3) :
    ∃ blanks, hexField entry.listingLine = entry.hexColumn.toList ++ List.replicate blanks ' ' := by
  have narrow : entry.hexColumn.toList.length ≤ 8 := by
    have bound := length_intercalate_le entry.bytes
    rw [hexColumn]
    omega
  refine ⟨8 - entry.hexColumn.toList.length, ?_⟩
  have width : (Text.padRight 8 entry.hexColumn).toList.length = 8 := by
    rw [Text.toList_padRight, List.length_append, List.length_replicate]
    omega
  have margin : (Text.hexWord entry.address ++ "  ").toList.length = 6 := by
    rw [String.toList_append, Text.toList_hexWord]
    rfl
  rw [hexField, listingLine, String.append_assoc, String.append_assoc, String.toList_append,
    List.drop_left' margin, String.toList_append, List.take_left' width,
    Text.toList_padRight]

theorem spelledBytes?_listingLine {entry : Entry} (few : entry.bytes.length ≤ 3)
    (rest : List Char) : spelledBytes? (hexField entry.listingLine ++ rest) =
      (spelledBytes? rest).map (entry.bytes ++ ·) := by
  obtain ⟨blanks, column⟩ := hexField_listingLine few
  rw [column, List.append_assoc, hexColumn, spelledBytes?_intercalate, spelledBytes?_blanks]

/-- The hexadecimal columns of listing lines spell the bytes of their entries. -/
theorem spelledBytes?_listing {entries : List Entry}
    (few : ∀ entry ∈ entries, entry.bytes.length ≤ 3) :
    spelledBytes? (entries.flatMap fun entry => hexField entry.listingLine) =
      some (entries.flatMap Entry.bytes) := by
  induction entries with
  | nil => rfl
  | cons entry others inductionHypothesis =>
    rw [List.flatMap_cons, spelledBytes?_listingLine (few entry List.mem_cons_self),
      inductionHypothesis fun later member => few later (List.mem_cons_of_mem _ member)]
    rfl

/-! ### The partition -/

/-- How an entry stands to the bytes that were taken apart and to the entries before it. -/
structure Placed (start : UInt16) (bytes : List UInt8) (before : List Entry) (entry : Entry) :
    Prop where
  /-- It covers as many bytes as it says. -/
  covers : entry.bytes.length = entry.size
  one_le_size : 1 ≤ entry.size
  size_le_three : entry.size ≤ 3
  /-- Its address counts the bytes before it, going round the end of the address space. -/
  address : entry.address = start + UInt16.ofNat (extent before)
  /-- It is a mere byte exactly if that is no opcode or its operand runs past the end. -/
  isData_iff : entry.isData = true ↔ Opcode.ofByte? entry.opcode = none ∨
    ∃ opcode, Opcode.ofByte? entry.opcode = some opcode ∧
      bytes.length < extent before + opcode.size
  /-- An opcode is a mere byte only as one of the last two bytes. -/
  cut : entry.isData = true → Opcode.ofByte? entry.opcode ≠ none →
    extent before < bytes.length ∧ bytes.length ≤ extent before + 2
  /-- Otherwise it is the instruction that its opcode stands for. -/
  decoded : entry.isData = false → ∃ opcode, Opcode.ofByte? entry.opcode = some opcode ∧
    entry.content =
      .instruction opcode.mnemonic opcode.mode entry.bytes.tail opcode.cycles

theorem placed_of_split {start : UInt16} {bytes : List UInt8} {before after : List Entry}
    {entry : Entry} (split : disassemble start bytes = before ++ entry :: after) :
    Placed start bytes before entry := by
  obtain ⟨byte, rest, left, rfl, _⟩ := first_of_disassemble (disassemble_drop_extent split).symm
  have total : bytes.length = extent before + rest.length + 1 := by
    have lengths := congrArg List.length left
    rw [List.length_drop, List.length_cons] at lengths
    omega
  have runsPast (opcode : Opcode) : bytes.length < extent before + opcode.size ↔
      rest.length < opcode.mode.operandBytes := by
    rw [Opcode.size, Mode.size]
    omega
  have data := isData_ofBytes_iff (start + UInt16.ofNat (extent before)) byte rest
  constructor
  case covers => exact length_bytes_ofBytes _ _ _
  case one_le_size => exact Mode.size_pos _
  case size_le_three => exact Mode.size_le_three _
  case address => exact address_ofBytes _ _ _
  case isData_iff =>
    rw [data, opcode_ofBytes]
    simp only [runsPast]
  case cut =>
    rw [data, opcode_ofBytes]
    rintro (unknown | ⟨opcode, _, short⟩) known
    · exact absurd unknown known
    · have few := opcode.mode.operandBytes_le_two
      omega
  case decoded =>
    intro instruction
    rw [opcode_ofBytes]
    exact content_ofBytes _ _ _ instruction

/-- A disassembly is a partition of its bytes that loses nothing: the bytes of its entries, one
after the other, are the bytes that were taken apart, and the hexadecimal columns of their listing
lines spell the same. Each entry stands in its place, and it is a mere byte only where that cannot
be avoided. -/
theorem disassemble_partitions (start : UInt16) (bytes : List UInt8) :
    let entries := disassemble start bytes
    entries.flatMap Entry.bytes = bytes ∧
    spelledBytes? (entries.flatMap fun entry => hexField entry.listingLine) = some bytes ∧
    ∀ before entry after, entries = before ++ entry :: after → Placed start bytes before entry := by
  intro entries
  have whole : entries.flatMap Entry.bytes = bytes := flatMap_bytes_disassemble start bytes
  have placed (before : List Entry) (entry : Entry) (after : List Entry)
      (split : entries = before ++ entry :: after) : Placed start bytes before entry :=
    placed_of_split split
  refine ⟨whole, ?_, placed⟩
  rw [spelledBytes?_listing, whole]
  intro entry member
  obtain ⟨before, after, split⟩ := List.mem_iff_append.mp member
  have here := placed before entry after split
  exact here.covers ▸ here.size_le_three

/-- A call of which the operand is cut off at the last address: its byte is a mere byte, and the
disassembly goes on at address zero. -/
theorem disassemble_partitions_cut :
    let call := ofByte 0xFFFF 0x20
    let interrupt : Entry := ⟨0, 0x00, .instruction .brk .implied [] 7⟩
    disassemble 0xFFFF [0x20, 0x00] = [call, interrupt] ∧
      Placed 0xFFFF [0x20, 0x00] [] call ∧ Placed 0xFFFF [0x20, 0x00] [call] interrupt ∧
      spelledBytes? (hexField call.listingLine ++ hexField interrupt.listingLine) =
        some [0x20, 0x00] := by
  intro call interrupt
  have jsr : Opcode.ofByte? 0x20 = some ⟨.jsr, .absolute, 6⟩ := rfl
  have brk : Opcode.ofByte? 0x00 = some ⟨.brk, .implied, 7⟩ := rfl
  have first : ofBytes 0xFFFF 0x20 [0x00] = call := ofBytes_of_cut 0xFFFF jsr (by decide)
  have second : ofBytes 0 0x00 [] = interrupt := ofBytes_of_whole 0 brk (by decide)
  have goesRound : call.next = 0 := by decide
  have ends : interrupt.next = 1 := by decide
  have entries : disassemble 0xFFFF [0x20, 0x00] = [call, interrupt] := by
    rw [disassemble, first, goesRound]
    show call :: disassemble 0 [0x00] = _
    rw [disassemble, second, ends]
    show call :: interrupt :: disassemble 1 [] = _
    rw [disassemble]
  obtain ⟨_, spelled, placed⟩ := disassemble_partitions 0xFFFF [0x20, 0x00]
  rw [entries] at spelled placed
  rw [List.flatMap_cons, List.flatMap_singleton] at spelled
  exact ⟨entries, placed [] call [interrupt] rfl, placed [call] interrupt [] rfl, spelled⟩

end Entry

end Mos6502
