/-
This file says where operands lie, in plain numbers. The machine calculates with words of fixed
size, which go round by themselves. Here the same addresses come from sums of numbers, and every
place where something goes round is written out: a full address does so at the end of the address
space, an address in the zero page at the end of that page, and so does the second byte of a pointer
there. The two calculations agree in every mode, wherever the instruction and its pointer lie. The
machine looks at no other bytes than the operand bytes and the two bytes of the pointer.
-/

import Mos6502.Proofs.Cost

namespace Mos6502

/-- The number of a word does not go round. -/
theorem toNat_eq_emod {word : UInt16} {number : Nat} (same : word.toNat = number) :
    (word.toNat : Int) = number % 0x10000 := by
  have bound := word.toNat_lt
  omega

/-! ### Numbers in memory -/

namespace Memory

/-- The byte at an address, both as numbers; the last address is followed by the first. -/
def byteAt (memory : Memory) (address : Nat) : Nat :=
  (memory.read (UInt16.ofNat address)).toNat

/-- The number at an address, its low byte first. -/
def wordAt (memory : Memory) (address : Nat) : Nat :=
  memory.byteAt address + 256 * memory.byteAt (address + 1)

/-- The number at a place in a page of 256 bytes, its low byte first; the last place of the page is
followed by its first. -/
def wordInPage (memory : Memory) (page place : Nat) : Nat :=
  memory.byteAt (256 * page + place % 256) + 256 * memory.byteAt (256 * page + (place + 1) % 256)

section

variable (memory : Memory)

theorem byteAt_mod (address : Nat) :
    memory.byteAt (address % 0x10000) = memory.byteAt address := by
  have same : UInt16.ofNat (address % 0x10000) = UInt16.ofNat address := by
    apply UInt16.toNat_inj.mp
    rw [UInt16.toNat_ofNat', UInt16.toNat_ofNat', Nat.mod_mod]
  rw [byteAt, same, byteAt]

theorem wordAt_mod (address : Nat) :
    memory.wordAt (address % 0x10000) = memory.wordAt address := by
  rw [wordAt, wordAt, byteAt_mod, ← byteAt_mod _ (address % 0x10000 + 1), Nat.mod_add_mod,
    byteAt_mod]

theorem toNat_read (address : UInt16) :
    (memory.read address).toNat = memory.byteAt address.toNat := by
  rw [byteAt, UInt16.ofNat_toNat]

theorem toNat_readWord (address : UInt16) :
    (memory.readWord address).toNat = memory.wordAt address.toNat := by
  have next : memory.byteAt (address + 1).toNat = memory.byteAt (address.toNat + 1) :=
    memory.byteAt_mod (address.toNat + 1)
  rw [readWord, toNat_wordOf, toNat_read, toNat_read, next, wordAt, Nat.add_comm]

theorem toNat_readZeroPageWord (place : UInt8) :
    (memory.readZeroPageWord place).toNat = memory.wordInPage 0 place.toNat := by
  have next : (place + 1).toNat = (place.toNat + 1) % 256 := UInt8.toNat_add place 1
  rw [readZeroPageWord, toNat_wordOf, toNat_read, toNat_read, UInt8.toNat_toUInt16,
    UInt8.toNat_toUInt16, next, wordInPage, Nat.mod_eq_of_lt place.toNat_lt, Nat.mul_zero,
    Nat.zero_add, Nat.zero_add, Nat.add_comm]

end

end Memory

/-! ### Operands in numbers -/

/-- The operand at an address that is given as a number and goes round the end of the address
space. -/
def Operand.at (number : Int) : Operand :=
  .address (.ofInt number)

theorem Operand.address_eq_at {address : UInt16} {number : Int}
    (same : (address.toNat : Int) = number % 0x10000) : Operand.address address = .at number := by
  have back : UInt16.ofNat (number % 0x10000).toNat = address := by
    rw [← same, Int.toNat_natCast, UInt16.ofNat_toNat]
  exact congrArg Operand.address back.symm

namespace Machine

section

variable (machine : Machine)

/-- The operand of the instruction at the program counter in each mode, calculated with numbers. -/
def calculatedOperand (mode : Mode) : Operand :=
  let here := machine.pc.toNat
  let byte := machine.memory.byteAt (here + 1)
  let word := machine.memory.wordAt (here + 1)
  match mode with
  | .implied => .none
  | .accumulator => .accumulator
  | .immediate => .at (here + 1)
  | .zeroPage => .at byte
  | .zeroPageX => .at ((byte + machine.x.toNat) % 256)
  | .zeroPageY => .at ((byte + machine.y.toNat) % 256)
  | .absolute => .at word
  | .absoluteX => .at (word + machine.x.toNat)
  | .absoluteY => .at (word + machine.y.toNat)
  | .indirect => .at (machine.memory.wordAt word)
  | .indirectX => .at (machine.memory.wordInPage 0 ((byte + machine.x.toNat) % 256))
  | .indirectY => .at (machine.memory.wordInPage 0 byte + machine.y.toNat)
  | .relative => .at (here + 2 + (byte : Int).bmod 256)

/-- What is noted about pages when the instruction is passed over, calculated with numbers. -/
def calculatedCrossing (mode : Mode) : Bool :=
  let byte := machine.memory.byteAt (machine.pc.toNat + 1)
  let word := machine.memory.wordAt (machine.pc.toNat + 1)
  match mode with
  | .absoluteX => 256 ≤ word % 256 + machine.x.toNat
  | .absoluteY => 256 ≤ word % 256 + machine.y.toNat
  | .indirectY => 256 ≤ machine.memory.wordInPage 0 byte % 256 + machine.y.toNat
  | _ => machine.pageCrossed

theorem toNat_operandByte :
    machine.operandByte.toNat = machine.memory.byteAt (machine.pc.toNat + 1) := by
  rw [operandByte, Memory.toNat_read]
  exact machine.memory.byteAt_mod _

theorem toNat_operandWord :
    machine.operandWord.toNat = machine.memory.wordAt (machine.pc.toNat + 1) := by
  rw [operandWord, Memory.toNat_readWord]
  exact machine.memory.wordAt_mod _

theorem toNat_indirectBase : machine.indirectBase.toNat =
    machine.memory.wordInPage 0 (machine.memory.byteAt (machine.pc.toNat + 1)) := by
  rw [indirectBase, Memory.toNat_readZeroPageWord, toNat_operandByte]

/-- An offset is the number of its byte, taken between -128 and 127. -/
theorem toNat_add_signExtend (address : UInt16) (offset : UInt8) :
    ((address + signExtend offset).toNat : Int) =
      (address.toNat + (offset.toNat : Int).bmod 256) % 0x10000 := by
  have each : ∀ offset : UInt8,
      ((signExtend offset).toNat : Int) = (offset.toNat : Int).bmod 256 % 0x10000 :=
    forall_byte (by decide +kernel)
  have sum := UInt16.toNat_add address (signExtend offset)
  have part := each offset
  omega

/-- The operand is the calculated one. -/
theorem operand_eq_calculated (mode : Mode) :
    machine.operand mode = machine.calculatedOperand mode := by
  have byte := machine.toNat_operandByte
  have word := machine.toNat_operandWord
  have base := machine.toNat_indirectBase
  cases mode with
  | implied | accumulator => rfl
  | immediate =>
    refine Operand.address_eq_at ?_
    rw [operandAddress, UInt16.toNat_add]
    rfl
  | zeroPage =>
    refine Operand.address_eq_at ?_
    have inPage := machine.operandByte.toNat_lt
    rw [UInt8.toNat_toUInt16]
    omega
  | zeroPageX | zeroPageY =>
    refine Operand.address_eq_at ?_
    rw [UInt8.toNat_toUInt16, UInt8.toNat_add]
    omega
  | absolute => exact Operand.address_eq_at (toNat_eq_emod word)
  | absoluteX | absoluteY =>
    refine Operand.address_eq_at ?_
    rw [UInt16.toNat_add, UInt8.toNat_toUInt16]
    omega
  | indirect =>
    refine Operand.address_eq_at (toNat_eq_emod ?_)
    rw [Memory.toNat_readWord, word]
  | indirectX =>
    refine Operand.address_eq_at (toNat_eq_emod ?_)
    rw [Memory.toNat_readZeroPageWord, UInt8.toNat_add, byte]
  | indirectY =>
    refine Operand.address_eq_at ?_
    rw [UInt16.toNat_add, UInt8.toNat_toUInt16]
    omega
  | relative =>
    refine Operand.address_eq_at ?_
    have next : (machine.pc + Mode.relative.stride).toNat = (machine.pc.toNat + 2) % 0x10000 :=
      UInt16.toNat_add _ _
    rw [toNat_add_signExtend, next, byte]
    omega

end

/-! ### Places that are looked at -/

section

variable (machine : Machine)

/-- The addresses of the operand bytes of an instruction. -/
def operandPlaces (mode : Mode) : List UInt16 :=
  (List.range mode.operandBytes).map fun offset => machine.operandAddress + UInt16.ofNat offset

/-- The addresses of the pointer to the operand, in the modes that have one. -/
def pointerPlaces : Mode → List UInt16
  | .indirect => [machine.operandWord, machine.operandWord + 1]
  | .indirectX =>
    [(machine.operandByte + machine.x).toUInt16, (machine.operandByte + machine.x + 1).toUInt16]
  | .indirectY => [machine.operandByte.toUInt16, (machine.operandByte + 1).toUInt16]
  | _ => []

variable {machine} {mode : Mode} {other : Memory}

/-- No byte at another place has a part in the operand. -/
theorem operand_of_agreement
    (agree : ∀ address ∈ machine.operandPlaces mode ++ machine.pointerPlaces mode,
      other.read address = machine.memory.read address) :
    { machine with memory := other }.operand mode = machine.operand mode ∧
      { machine with memory := other }.crossing mode = machine.crossing mode := by
  have operandAgrees : ∀ address ∈ machine.operandPlaces mode,
      other.read address = machine.memory.read address :=
    fun address member => agree address (List.mem_append_left _ member)
  have pointerAgrees : ∀ address ∈ machine.pointerPlaces mode,
      other.read address = machine.memory.read address :=
    fun address member => agree address (List.mem_append_right _ member)
  let changed : Machine := { machine with memory := other }
  have byte (some : 1 ≤ mode.operandBytes) : changed.operandByte = machine.operandByte := by
    have first := operandAgrees (machine.operandAddress + 0)
      (List.mem_map.mpr ⟨0, List.mem_range.mpr some, rfl⟩)
    rwa [UInt16.add_zero] at first
  have word (two : 2 ≤ mode.operandBytes) : changed.operandWord = machine.operandWord := by
    have second := operandAgrees (machine.operandAddress + 1)
      (List.mem_map.mpr ⟨1, List.mem_range.mpr two, rfl⟩)
    show wordOf changed.operandByte (other.read (machine.operandAddress + 1)) = _
    rw [byte (Nat.le_of_succ_le two)]
    exact congrArg (wordOf machine.operandByte) second
  have pointer (low high : UInt16) (places : machine.pointerPlaces mode = [low, high]) :
      wordOf (other.read low) (other.read high) =
        wordOf (machine.memory.read low) (machine.memory.read high) := by
    rw [places] at pointerAgrees
    rw [pointerAgrees low List.mem_cons_self,
      pointerAgrees high (List.mem_cons_of_mem _ List.mem_cons_self)]
  show changed.operand mode = machine.operand mode ∧ changed.crossing mode = machine.crossing mode
  cases mode with
  | implied | accumulator | immediate => exact ⟨rfl, rfl⟩
  | zeroPage | zeroPageX | zeroPageY | relative =>
    rw [operand, byte (by decide)]
    exact ⟨rfl, rfl⟩
  | absolute =>
    rw [operand, word (by decide)]
    exact ⟨rfl, rfl⟩
  | absoluteX | absoluteY =>
    rw [operand, crossing, word (by decide)]
    exact ⟨rfl, rfl⟩
  | indirect =>
    rw [operand, word (by decide)]
    exact ⟨congrArg Operand.address (pointer _ _ rfl), rfl⟩
  | indirectX =>
    rw [operand, byte (by decide)]
    exact ⟨congrArg Operand.address (pointer _ _ rfl), rfl⟩
  | indirectY =>
    have base : changed.indirectBase = machine.indirectBase := by
      rw [indirectBase, byte (by decide)]
      exact pointer _ _ rfl
    rw [operand, crossing, base]
    exact ⟨rfl, rfl⟩

end

/-! ### Resolving an operand -/

/-- What is noted about pages is the calculated note. -/
theorem crossing_eq_calculated (machine : Machine) (mode : Mode) :
    machine.crossing mode = machine.calculatedCrossing mode := by
  have carries (base : UInt16) (index : UInt8) : crossesPage base (base + index.toUInt16) =
      decide (256 ≤ base.toNat % 256 + index.toNat) := by
    rw [Bool.eq_iff_iff, crossesPage_add_iff, toNat_lowByte, decide_eq_true_iff]
  cases mode with
  | absoluteX | absoluteY =>
    rw [crossing, carries, toNat_operandWord]
    rfl
  | indirectY =>
    rw [crossing, carries, toNat_indirectBase]
    rfl
  | _ => rfl

/-- Finding an operand meets its calculation with numbers, in every mode and every state. Passing
over the instruction moves the program counter past it and notes whether an index carries, and
changes nothing else. An operand in the zero page stays there, and so does a pointer; bytes at other
places than those of the operand bytes and the pointer have no part in the operand. -/
theorem operand_calculated (machine : Machine) (mode : Mode) :
    machine.operand mode = machine.calculatedOperand mode ∧
    machine.advance mode =
      { machine with
        pc := .ofNat (machine.pc.toNat + mode.size)
        pageCrossed := machine.calculatedCrossing mode } ∧
    (mode ∈ [.zeroPage, .zeroPageX, .zeroPageY] →
      ∃ place : UInt8, machine.operand mode = .address place.toUInt16) ∧
    (mode ∈ [.indirectX, .indirectY] →
      ∀ address ∈ machine.pointerPlaces mode, address ≤ 0x00FF) ∧
    ∀ other : Memory,
      (∀ address ∈ machine.operandPlaces mode ++ machine.pointerPlaces mode,
        other.read address = machine.memory.read address) →
      { machine with memory := other }.operand mode = machine.operand mode ∧
        { machine with memory := other }.crossing mode = machine.crossing mode := by
  have inZeroPage (place : UInt8) : place.toUInt16 ≤ 0x00FF := by
    have bound := place.toNat_lt
    rw [UInt16.le_iff_toNat_le, UInt8.toNat_toUInt16]
    exact Nat.le_of_lt_succ bound
  refine ⟨machine.operand_eq_calculated mode, ?_, ?_, ?_, fun _ => operand_of_agreement⟩
  · rw [advance, crossing_eq_calculated, ← mode.toNat_stride, UInt16.ofNat_add,
      UInt16.ofNat_toNat, UInt16.ofNat_toNat]
  · intro zeroPage
    simp only [List.mem_cons, List.not_mem_nil, or_false] at zeroPage
    rcases zeroPage with rfl | rfl | rfl <;> exact ⟨_, rfl⟩
  · intro throughZeroPage address member
    simp only [List.mem_cons, List.not_mem_nil, or_false] at throughZeroPage
    rcases throughZeroPage with rfl | rfl <;>
      simp only [pointerPlaces, List.mem_cons, List.not_mem_nil, or_false] at member <;>
      rcases member with rfl | rfl <;>
      exact inZeroPage _

/-- An instruction at the last address, whose operand byte names the last place in the zero page:
the operand byte is also the high byte of the pointer there, and the index leads past the last
address. The byte after the zero page has no part in that. -/
theorem operand_calculated_wrapped :
    let memory := (Memory.empty.write 0x0000 0xFF).write 0x00FF 0x80
    let machine : Machine := { memory, pc := 0xFFFF, x := 2, y := 0x90 }
    machine.operand .indirectY = .address 0x0010 ∧
      (machine.advance .indirectY).pc = 1 ∧ (machine.advance .indirectY).pageCrossed = true ∧
      { machine with memory := memory.write 0x0100 0x12 }.operand .indirectY =
        .address 0x0010 ∧
      machine.operand .zeroPageX = .address 0x0001 ∧
      ∃ place : UInt8, machine.operand .zeroPageX = .address place.toUInt16 := by
  intro memory machine
  have byte : memory.byteAt 0x10000 = 0xFF := by
    simp [memory, Memory.byteAt, Memory.read_write]
  have pointer : memory.wordInPage 0 0xFF = 0xFF80 := by
    simp [memory, Memory.wordInPage, Memory.byteAt, Memory.read_write]
  obtain ⟨found, passed, _, throughZeroPage, agreed⟩ := operand_calculated machine .indirectY
  obtain ⟨indexed, _, inZeroPage, _, _⟩ := operand_calculated machine .zeroPageX
  have target : machine.operand .indirectY = .address 0x0010 := by
    rw [found]
    show Operand.at (memory.wordInPage 0 (memory.byteAt 0x10000) + (0x90 : UInt8).toNat) = _
    rw [byte, pointer]
    rfl
  have place : machine.operand .zeroPageX = .address 0x0001 := by
    rw [indexed]
    show Operand.at ((memory.byteAt 0x10000 + (2 : UInt8).toNat) % 256) = _
    rw [byte]
    rfl
  have carries : machine.calculatedCrossing .indirectY = true := by
    show decide (256 ≤ memory.wordInPage 0 (memory.byteAt 0x10000) % 256 +
      (0x90 : UInt8).toNat) = true
    rw [byte, pointer]
    rfl
  have apart : (0x0100 : UInt16) ∉
      machine.operandPlaces .indirectY ++ machine.pointerPlaces .indirectY := by
    rw [List.mem_append, not_or]
    refine ⟨by decide, fun member => ?_⟩
    exact absurd (throughZeroPage (by decide) _ member) (by decide)
  refine ⟨target, ?_, ?_, ?_, place, inZeroPage (by decide)⟩
  · rw [passed]
    show UInt16.ofNat 0x10001 = 1
    rfl
  · rw [passed]
    dsimp only
    rw [carries]
  · have same := agreed (memory.write 0x0100 0x12) fun address member =>
      Memory.read_write_other _ _ fun equal => apart (equal ▸ member)
    exact same.1.trans target

end Machine

end Mos6502
