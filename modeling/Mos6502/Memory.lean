/-
This file holds the memory: 65536 bytes, every address plain storage. Reads and writes cannot
fail, since an address is a 16-bit word. Words are stored low byte first and wrap from the last
address to the first; zero-page words stay in the zero page. Only loading an image can be refused,
and then nothing is written.
-/

import Mos6502.Fault

namespace Mos6502

/-- The whole address space. -/
structure Memory where
  /-- The stored bytes, by address. -/
  bytes : ByteArray
  /-- There is a byte at every address. -/
  size_bytes : bytes.size = 0x10000

namespace Memory

/-! ### Bytes -/

/-- The number of addresses. -/
def size : Nat :=
  0x10000

/-- Memory with zero everywhere. -/
def empty : Memory where
  bytes := ⟨Array.replicate 0x10000 0⟩
  size_bytes := Array.size_replicate

instance : Inhabited Memory :=
  ⟨empty⟩

theorem toNat_lt_size (memory : Memory) (address : UInt16) :
    address.toNat < memory.bytes.size := by
  rw [memory.size_bytes]
  exact address.toNat_lt

/-- The byte at an address. -/
@[inline] def read (memory : Memory) (address : UInt16) : UInt8 :=
  memory.bytes.get address.toNat (memory.toNat_lt_size address)

/-- Stores a byte at an address. -/
@[inline] def write (memory : Memory) (address : UInt16) (value : UInt8) : Memory where
  bytes := memory.bytes.set address.toNat value (memory.toNat_lt_size address)
  size_bytes := (Array.size_set (memory.toNat_lt_size address)).trans memory.size_bytes

@[simp] theorem read_empty (address : UInt16) : empty.read address = 0 :=
  Array.getElem_replicate _

/-- A write is seen at its own address and nowhere else. -/
theorem read_write (memory : Memory) (target address : UInt16) (value : UInt8) :
    (memory.write target value).read address =
      if address = target then value else memory.read address := by
  have inside : address.toNat <
      (memory.bytes.data.set target.toNat value (memory.toNat_lt_size target)).size := by
    rw [Array.size_set]
    exact memory.toNat_lt_size address
  have stored := Array.getElem_set (memory.toNat_lt_size target) inside
  by_cases same : address = target
  · subst same
    rw [if_pos rfl] at stored ⊢
    exact stored
  · have apart : target.toNat ≠ address.toNat := fun equal =>
      same (UInt16.toNat_inj.mp equal.symm)
    rw [if_neg apart] at stored
    rw [if_neg same]
    exact stored

@[simp] theorem read_write_self (memory : Memory) (address : UInt16) (value : UInt8) :
    (memory.write address value).read address = value := by
  rw [read_write, if_pos rfl]

theorem read_write_other (memory : Memory) {target address : UInt16} (value : UInt8)
    (other : address ≠ target) :
    (memory.write target value).read address = memory.read address := by
  rw [read_write, if_neg other]

/-- Memories with the same byte at every address are equal. -/
theorem ext_read {first second : Memory}
    (same : ∀ address, first.read address = second.read address) : first = second := by
  obtain ⟨⟨firstBytes⟩, firstSize⟩ := first
  obtain ⟨⟨secondBytes⟩, secondSize⟩ := second
  have equal : firstBytes = secondBytes := by
    apply Array.ext
    · exact firstSize.trans secondSize.symm
    · intro index firstBound secondBound
      have small : index < 2 ^ 16 := Nat.lt_of_lt_of_eq firstBound firstSize
      have place : ∃ address : UInt16, address.toNat = index :=
        ⟨UInt16.ofNat index, UInt16.toNat_ofNat_of_lt small⟩
      obtain ⟨address, rfl⟩ := place
      exact same address
  subst equal
  rfl

/-- Of two writes to one address only the last is seen. -/
theorem write_write (memory : Memory) (address : UInt16) (first last : UInt8) :
    (memory.write address first).write address last = memory.write address last := by
  refine ext_read fun place => ?_
  rw [read_write, read_write, read_write]
  split <;> rfl

/-! ### Words -/

/-- The word whose low byte is at an address and whose high byte is at the next one, the last
address being followed by the first. -/
@[inline] def readWord (memory : Memory) (address : UInt16) : UInt16 :=
  wordOf (memory.read address) (memory.read (address + 1))

/-- The word at a zero-page address; the high byte of a word at the last one is at the first. -/
@[inline] def readZeroPageWord (memory : Memory) (address : UInt8) : UInt16 :=
  wordOf (memory.read address.toUInt16) (memory.read (address + 1).toUInt16)

/-- Stores a word, its low byte first. -/
@[inline] def writeWord (memory : Memory) (address value : UInt16) : Memory :=
  (memory.write address (lowByte value)).write (address + 1) (highByte value)

/-- A word is read back where it was written, also from the last address. -/
theorem readWord_writeWord (memory : Memory) (address value : UInt16) :
    (memory.writeWord address value).readWord address = value := by
  rw [readWord, writeWord, read_write_self, read_write_other _ _ (ne_add_one address),
    read_write_self, wordOf_lowByte_highByte]

/-! ### Ranges -/

/-- Stores bytes one after the other, going on at the first address after the last. -/
def writeRange (memory : Memory) (address : UInt16) : List UInt8 → Memory
  | [] => memory
  | byte :: rest => (memory.write address byte).writeRange (address + 1) rest

/-- The given number of bytes from an address on, going on at the first address after the last. -/
def readRange (memory : Memory) (address : UInt16) (count : Nat) : List UInt8 :=
  (List.range count).map fun offset => memory.read (address + UInt16.ofNat offset)

/-- Stores an image from an address on, unless it would run past the last address. -/
def load (memory : Memory) (image : List UInt8) (loadAddress : UInt16) : Except Fault Memory :=
  if loadAddress.toNat + image.length ≤ size then .ok (memory.writeRange loadAddress image)
  else .error (.imageTooLarge image.length loadAddress)

/-! ### Fixed places -/

/-- Where the address of the first instruction is kept. -/
def resetVector : UInt16 :=
  0xFFFC

/-- Where the address of the interrupt handler is kept. -/
def interruptVector : UInt16 :=
  0xFFFE

/-- Size and reset vector as a record. -/
def describe (memory : Memory) : String :=
  Text.record "Memory" [("size", size.repr),
    ("reset_vector", "0x" ++ Text.hexWord (memory.readWord resetVector))]

end Memory

end Mos6502
