/-
This file proves that the register line hides nothing of what it shows. The line is cut into columns
of fixed width, and the cycles fill what is left; every register is read back from its own column,
so lines that are equal show equal registers. The letters in brackets are those of the status byte
with the reserved bit set. They agree with the hexadecimal field because that bit is set in every
state of a session.
-/

import Mos6502.Machine.Snapshot
import Mos6502.Proofs.Digits
import Mos6502.Proofs.StatusInvariant

namespace Mos6502

open Text

/-! ### Columns -/

/-- Cuts a text into columns of given widths, and what is left. -/
def cut : List Nat → List Char → List (List Char)
  | [], text => [text]
  | width :: widths, text => text.take width :: cut widths (text.drop width)

/-- Blocks that stand one behind the other are cut apart by their widths. -/
theorem cut_flatten (blocks : List (List Char)) (rest : List Char) :
    cut (blocks.map List.length) (blocks.flatten ++ rest) = blocks ++ [rest] := by
  induction blocks with
  | nil => rfl
  | cons block blocks inductionHypothesis =>
    rw [List.map_cons, List.flatten_cons, List.append_assoc, cut, List.take_left, List.drop_left,
      inductionHypothesis, List.cons_append]

/-- What eight letters show of a byte, bit 7 first: a letter for a set bit, a point for a clear
one. -/
def maskLetters (byte : Nat) : List Char :=
  List.zipWith (fun letter bit => if byte.testBit bit then letter else '.')
    ['N', 'V', '-', 'B', 'D', 'I', 'Z', 'C'] [7, 6, 5, 4, 3, 2, 1, 0]

theorem Status.letters_eq_maskLetters (status : Status) :
    status.letters = maskLetters status.bits.toNat := by
  obtain ⟨bits⟩ := status
  have each : ∀ bits : UInt8, (⟨bits⟩ : Status).letters = maskLetters bits.toNat :=
    forall_byte (by decide +kernel)
  exact each bits

/-! ### The register line -/

/-- What a register line shows. -/
structure Shown where
  /-- The program counter. -/
  pc : Nat
  /-- The accumulator. -/
  a : Nat
  /-- The X index register. -/
  x : Nat
  /-- The Y index register. -/
  y : Nat
  /-- The stack pointer. -/
  sp : Nat
  /-- The byte of the status register. -/
  status : Nat
  /-- The letters of the status register. -/
  letters : List Char
  /-- The cycles of all instructions so far. -/
  cycles : Nat

/-- The widths of the labels and fields, up to the cycles. -/
def columnWidths : List Nat :=
  [3, 4, 3, 2, 3, 2, 3, 2, 3, 2, 3, 2, 2, 8, 1, 5]

/-- What a line shows, if its labels are those of a register line. -/
def Shown.ofLine? (line : String) : Option Shown :=
  match cut columnWidths line.toList with
  | [pcLabel, pc, aLabel, a, xLabel, x, yLabel, y, spLabel, sp, statusLabel, status, opening,
      letters, closing, cyclesLabel, cycles] =>
    if [pcLabel, aLabel, xLabel, yLabel, spLabel, statusLabel, opening, closing, cyclesLabel] =
        ["PC:".toList, " A:".toList, " X:".toList, " Y:".toList, " S:".toList, " P:".toList,
          " [".toList, "]".toList, " CYC:".toList] then
      some {
        pc := hexNumber pc
        a := hexNumber a
        x := hexNumber x
        y := hexNumber y
        sp := hexNumber sp
        status := hexNumber status
        letters
        cycles := Nat.ofDigitChars 10 cycles 0 }
    else none
  | _ => none

namespace Snapshot

/-- The labels and fields of the line, up to the cycles. -/
def blocks (snapshot : Snapshot) : List (List Char) :=
  ["PC:".toList, wordDigits snapshot.pc, " A:".toList, byteDigits snapshot.a, " X:".toList,
    byteDigits snapshot.x, " Y:".toList, byteDigits snapshot.y, " S:".toList,
    byteDigits snapshot.sp, " P:".toList, byteDigits snapshot.status, " [".toList,
    (Status.ofBits snapshot.status).letters, "]".toList, " CYC:".toList]

theorem toList_line (snapshot : Snapshot) :
    snapshot.line.toList = snapshot.blocks.flatten ++ Nat.toDigits 10 snapshot.cycles.toNat := by
  unfold line blocks
  simp only [String.toList_append, toList_hexWord, toList_hexByte, Status.text,
    String.toList_ofList, Nat.toList_repr, List.flatten_cons, List.flatten_nil, List.append_nil,
    List.append_assoc]

/-- Every label and field has its width, whatever the registers hold. -/
theorem map_length_blocks (snapshot : Snapshot) :
    snapshot.blocks.map List.length = columnWidths :=
  rfl

/-- Every register is read back from the line. -/
theorem ofLine?_line (snapshot : Snapshot) :
    Shown.ofLine? snapshot.line = some {
      pc := snapshot.pc.toNat
      a := snapshot.a.toNat
      x := snapshot.x.toNat
      y := snapshot.y.toNat
      sp := snapshot.sp.toNat
      status := snapshot.status.toNat
      letters := (Status.ofBits snapshot.status).letters
      cycles := snapshot.cycles.toNat } := by
  have pieces := cut_flatten snapshot.blocks (Nat.toDigits 10 snapshot.cycles.toNat)
  rw [map_length_blocks, ← toList_line] at pieces
  simp only [Shown.ofLine?, pieces, blocks, List.cons_append, List.nil_append, if_true,
    hexNumber_wordDigits, hexNumber_byteDigits, Nat.ofDigitChars_ten_toDigits]

end Snapshot

/-! ### Lines of machines -/

namespace Machine

/-- Equal lines come from equal registers and cycles. -/
theorem registers_of_line {first second : Machine}
    (same : first.snapshot.line = second.snapshot.line) :
    first.pc = second.pc ∧ first.a = second.a ∧ first.x = second.x ∧ first.y = second.y ∧
      first.sp = second.sp ∧ first.status = second.status ∧ first.cycles = second.cycles := by
  have shown := congrArg Shown.ofLine? same
  rw [Snapshot.ofLine?_line, Snapshot.ofLine?_line] at shown
  obtain ⟨pc, a, x, y, sp, status, -, cycles⟩ := Shown.mk.inj (Option.some.inj shown)
  exact ⟨UInt16.toNat_inj.mp pc, UInt8.toNat_inj.mp a, UInt8.toNat_inj.mp x, UInt8.toNat_inj.mp y,
    UInt8.toNat_inj.mp sp, congrArg Status.mk (UInt8.toNat_inj.mp status),
    UInt64.toNat_inj.mp cycles⟩

/-- A register line shows the registers themselves, so equal lines come from equal registers and
cycles. In a session the letters agree with the hexadecimal status byte bit by bit, and bit 5 shows
as set. -/
theorem register_line_faithful :
    (∀ machine : Machine, ∃ letters, Shown.ofLine? machine.snapshot.line = some {
      pc := machine.pc.toNat
      a := machine.a.toNat
      x := machine.x.toNat
      y := machine.y.toNat
      sp := machine.sp.toNat
      status := machine.status.bits.toNat
      letters
      cycles := machine.cycles.toNat }) ∧
    (∀ first second : Machine, first.snapshot.line = second.snapshot.line →
      first.pc = second.pc ∧ first.a = second.a ∧ first.x = second.x ∧ first.y = second.y ∧
      first.sp = second.sp ∧ first.status = second.status ∧ first.cycles = second.cycles) ∧
    ∀ origin, Built origin → ∀ calls : List Call, ∃ shown,
      Shown.ofLine? (origin.afterCalls calls).snapshot.line = some shown ∧
      shown.letters = maskLetters shown.status ∧ shown.letters[2]? = some '-' := by
  refine ⟨fun machine => ⟨_, machine.snapshot.ofLine?_line⟩, fun _ _ => registers_of_line, ?_⟩
  intro origin built calls
  have held := reserved_afterCalls built calls
  refine ⟨_, Snapshot.ofLine?_line _, ?_, ?_⟩
  · show (Status.ofBits (origin.afterCalls calls).status.bits).letters = _
    rw [Status.ofBits_bits held]
    exact Status.letters_eq_maskLetters _
  · show some (if (Status.ofBits (origin.afterCalls calls).status.bits).get .reserved then '-'
      else '.') = some '-'
    rw [Status.get_reserved_ofBits, if_pos rfl]

/-- Machines that differ in memory alone show the same line, and a host that tries to clear the
reserved bit leaves its letter in the line. -/
theorem register_line_faithful_of_images : ∃ empty filled, ofImage [] 0 = .ok empty ∧
    ofImage [0x08] 0 = .ok filled ∧ empty.snapshot.line = filled.snapshot.line ∧
    empty.status = filled.status ∧ empty.cycles = filled.cycles ∧
    ∃ shown, Shown.ofLine? (filled.afterCalls [.setStatus 0xC3]).snapshot.line = some shown ∧
      shown.letters = maskLetters shown.status ∧ shown.letters[2]? = some '-' := by
  obtain ⟨_, distinct, session⟩ := register_line_faithful
  have same : Machine.snapshot { memory := Memory.empty.writeRange 0 [] } =
      Machine.snapshot { memory := Memory.empty.writeRange 0 [0x08] } := rfl
  have line := congrArg Snapshot.line same
  obtain ⟨_, _, _, _, _, status, cycles⟩ := distinct _ _ line
  have built : Built { memory := Memory.empty.writeRange 0 [0x08] } :=
    .ofImage (show ofImage [0x08] 0 = .ok _ from rfl)
  exact ⟨_, _, rfl, rfl, line, status, cycles, session _ built [.setStatus 0xC3]⟩

end Machine

end Mos6502
