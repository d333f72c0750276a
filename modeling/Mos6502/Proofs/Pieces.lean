/-
This file says what becomes of a disassembly when its bytes are cut in two. An entry is found from
its own bytes alone: those behind it have no part in it, and an operand that is cut off already is
not made whole by another cut. So all entries that end before the cut are found again, and a cut
between two entries changes nothing. A cut inside an instruction takes it apart; what comes after it
may then be different all the way, since the second part begins in the middle of that instruction.
-/

import Mos6502.Proofs.Partition

namespace Mos6502.Entry

/-! ### Entries before a cut -/

/-- Bytes behind the first entry have no part in it. -/
theorem ofBytes_take (address : UInt16) (byte : UInt8) {rest : List UInt8} {count : Nat}
    (kept : (ofBytes address byte rest).mode.operandBytes ≤ count) :
    ofBytes address byte (rest.take count) = ofBytes address byte rest := by
  rcases ofBytes_cases address byte rest with ⟨opcode, found, whole, entry⟩ | ⟨short, entry⟩
  · rw [entry] at kept ⊢
    change opcode.mode.operandBytes ≤ count at kept
    have enough : opcode.mode.operandBytes ≤ (rest.take count).length := by
      rw [List.length_take]
      exact Nat.le_min.mpr ⟨kept, whole⟩
    rw [ofBytes_of_whole address found enough, List.take_take, Nat.min_eq_left kept]
  · rw [entry]
    cases found : Opcode.ofByte? byte with
    | none => exact ofBytes_of_undocumented address found
    | some opcode =>
      have fewer : (rest.take count).length ≤ rest.length := List.length_take_le' _ _
      exact ofBytes_of_cut address found (Nat.lt_of_le_of_lt fewer (short opcode found))

/-- The entries that end at or before a cut are the first ones of the bytes before the cut. -/
theorem prefix_disassemble_take {start : UInt16} {bytes : List UInt8} {before after : List Entry}
    {cut : Nat} (split : disassemble start bytes = before ++ after)
    (ends : extent before ≤ cut) : before <+: disassemble start (bytes.take cut) := by
  induction before generalizing start bytes cut with
  | nil => exact List.nil_prefix
  | cons entry before inductionHypothesis =>
    obtain ⟨byte, rest, rfl, rfl, others⟩ := first_of_disassemble split
    rw [extent_cons, size, Mode.size] at ends
    obtain ⟨left, rfl⟩ := Nat.exists_eq_add_of_le
      (show (ofBytes start byte rest).mode.operandBytes + 1 ≤ cut by omega)
    have first : ofBytes start byte
        (rest.take ((ofBytes start byte rest).mode.operandBytes + left)) =
          ofBytes start byte rest := ofBytes_take start byte (Nat.le_add_right _ _)
    rw [Nat.add_right_comm, List.take_succ_cons, disassemble, first, List.drop_take,
      Nat.add_sub_cancel_left]
    exact List.prefix_cons_inj _ |>.mpr (inductionHypothesis others.symm (by omega))

/-- A cut between two entries leaves those before it as they are. -/
theorem disassemble_take_extent {start : UInt16} {bytes : List UInt8} {before after : List Entry}
    (split : disassemble start bytes = before ++ after) :
    disassemble start (bytes.take (extent before)) = before := by
  obtain ⟨more, whole⟩ := prefix_disassemble_take split (Nat.le_refl _)
  have nothing : (bytes.take (extent before)).drop (extent before) = [] :=
    List.drop_eq_nil_of_le (List.length_take_le _ _)
  rw [disassemble_drop_extent whole.symm, nothing, disassemble, List.append_nil] at whole
  exact whole.symm

/-! ### Counting entries -/

theorem extent_append (first second : List Entry) :
    extent (first ++ second) = extent first + extent second := by
  rw [extent, List.map_append, List.sum_append_nat, extent, extent]

/-- More entries cover at least as many bytes. -/
theorem extent_take_le (entries : List Entry) {few many : Nat} (le : few ≤ many) :
    extent (entries.take few) ≤ extent (entries.take many) := by
  obtain ⟨more, rfl⟩ := Nat.exists_eq_add_of_le le
  rw [List.take_add, extent_append]
  exact Nat.le_add_right _ _

theorem extent_take_succ {entries : List Entry} {index : Nat} {entry : Entry}
    (here : entries[index]? = some entry) :
    extent (entries.take (index + 1)) = extent (entries.take index) + entry.size := by
  rw [List.take_add_one, here, extent_append]
  rfl

/-- An entry that ends at or before a cut is found at the same place before the cut. -/
theorem getElem?_disassemble_take {start : UInt16} {bytes : List UInt8} {cut index : Nat}
    {entry : Entry} (here : (disassemble start bytes)[index]? = some entry)
    (ends : extent ((disassemble start bytes).take (index + 1)) ≤ cut) :
    (disassemble start (bytes.take cut))[index]? = some entry := by
  obtain ⟨inside, rfl⟩ := List.getElem?_eq_some_iff.mp here
  have begins := prefix_disassemble_take (List.take_append_drop (index + 1) _).symm ends
  have counted : index < ((disassemble start bytes).take (index + 1)).length := by
    rw [List.length_take]
    exact Nat.lt_min.mpr ⟨Nat.lt_succ_self index, inside⟩
  rw [List.prefix_iff_getElem?.mp begins index counted, List.getElem_take]

/-! ### Both parts -/

/-- The entries of bytes that are cut in two, where each part is taken apart on its own. -/
def disassemblePieces (start : UInt16) (bytes : List UInt8) (cut : Nat) : List Entry :=
  disassemble start (bytes.take cut) ++
    disassemble (start + UInt16.ofNat cut) (bytes.drop cut)

/-- A disassembly composes where one entry ends and the next begins: the entries of the whole are
those of the part before, followed by those of the part behind, which begins at its own address. At
any other cut, too, the entries that end before it are found in the part before, at the same place;
so the pieces can differ from the whole only from the last entry on that begins before the cut. -/
theorem disassemble_composes (start : UInt16) (bytes : List UInt8) :
    let entries := disassemble start bytes
    (∀ count, entries = disassemblePieces start bytes (extent (entries.take count))) ∧
    (∀ cut index entry, entries[index]? = some entry →
      extent (entries.take index) + entry.size ≤ cut →
        (disassemble start (bytes.take cut))[index]? = some entry) ∧
    ∀ cut index, (disassemblePieces start bytes cut)[index]? ≠ entries[index]? →
      ∀ later, index < later → later < entries.length → cut ≤ extent (entries.take later) := by
  intro entries
  refine ⟨?_, ?_, ?_⟩
  · intro count
    have split : disassemble start bytes = entries.take count ++ entries.drop count :=
      (List.take_append_drop count entries).symm
    rw [disassemblePieces, disassemble_take_extent split, ← disassemble_drop_extent split,
      List.take_append_drop]
  · intro cut index entry here ends
    exact getElem?_disassemble_take here (extent_take_succ here ▸ ends)
  · intro cut index differs later beyond inside
    refine Nat.le_of_not_lt fun early => differs ?_
    have here : entries[index]? = some entries[index] := List.getElem?_eq_getElem _
    have found := getElem?_disassemble_take here
      (Nat.le_trans (extent_take_le entries beyond) (Nat.le_of_lt early))
    have counted := (List.getElem?_eq_some_iff.mp found).1
    rw [disassemblePieces, List.getElem?_append_left counted, found, here]

/-- A cut inside a load at the last address. The NOP before it stays, and the load is a mere byte,
since its operand is cut off; the part behind begins with that operand, which is taken for opcodes.
A cut in front of the load changes nothing. -/
theorem disassemble_composes_inside :
    let bytes : List UInt8 := [0xEA, 0xAD, 0x60, 0x00, 0xEA]
    let nop : Entry := ⟨0xFFFE, 0xEA, .instruction .nop .implied [] 2⟩
    let load : Entry := ⟨0xFFFF, 0xAD, .instruction .lda .absolute [0x60, 0x00] 4⟩
    (disassemble 0xFFFE bytes)[1]? = some load ∧
      disassemble 0xFFFE bytes = disassemblePieces 0xFFFE bytes 1 ∧
      (disassemble 0xFFFE (bytes.take 2))[0]? = some nop ∧
      (disassemblePieces 0xFFFE bytes 2)[1]? = some (ofByte 0xFFFF 0xAD) ∧
      2 ≤ extent ((disassemble 0xFFFE bytes).take 2) := by
  intro bytes nop load
  let last : Entry := ⟨0x0002, 0xEA, .instruction .nop .implied [] 2⟩
  have whole : disassemble 0xFFFE bytes = [nop, load, last] := by decide +kernel
  have cutOff : (disassemblePieces 0xFFFE bytes 2)[1]? = some (ofByte 0xFFFF 0xAD) := by
    decide +kernel
  obtain ⟨atBoundary, stays, differs⟩ := disassemble_composes 0xFFFE bytes
  rw [whole] at atBoundary stays differs ⊢
  refine ⟨rfl, atBoundary 1, stays 2 0 nop rfl (by decide), cutOff, ?_⟩
  refine differs 2 1 ?_ 2 (by decide) (by decide)
  rw [cutOff]
  decide

end Mos6502.Entry
