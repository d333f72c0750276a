/-
This file proves that memory keeps what was stored last. A host stores bytes, words, images and
ranges in any order; an image that would run past the last address is refused and changes nothing,
while words and ranges go round the end of the address space, so that a long range writes over its
own beginning. A byte that is read is the one that the last of them to cover its address put there,
and a byte that none of them covers is as it was at first.
-/

import Mathlib.Data.Nat.Find
import Mos6502.Proofs.MemoryListing
import Mos6502.Proofs.Session

namespace Mos6502

/-! ### Bytes in a range -/

theorem toNat_add_ofNat (base : UInt16) (offset : Nat) :
    (base + UInt16.ofNat offset).toNat = (base.toNat + offset) % 0x10000 := by
  rw [UInt16.toNat_add, UInt16.toNat_ofNat', Nat.add_mod_mod]

/-- Places less than the whole address space apart are different. -/
theorem add_ofNat_ne {base : UInt16} {first second : Nat} (less : first < second)
    (near : second < 0x10000) : base + UInt16.ofNat second ≠ base + UInt16.ofNat first := by
  intro same
  have numbers := congrArg UInt16.toNat same
  rw [toNat_add_ofNat, toNat_add_ofNat] at numbers
  omega

/-- A byte is the last of those that go to an address, when bytes are stored one after the other
from a base on. -/
def LastAt (base : UInt16) (bytes : List UInt8) (address : UInt16) (value : UInt8) : Prop :=
  ∃ index, bytes[index]? = some value ∧ base + UInt16.ofNat index = address ∧
    ∀ later, index < later → later < bytes.length → base + UInt16.ofNat later ≠ address

/-- Where one byte goes, there is a last one. -/
theorem exists_lastAt {base address : UInt16} {bytes : List UInt8} {index : Nat}
    (inside : index < bytes.length) (there : base + UInt16.ofNat index = address) :
    ∃ value, LastAt base bytes address value := by
  let last := Nat.findGreatest (fun place => base + UInt16.ofNat place = address)
    (bytes.length - 1)
  have found : base + UInt16.ofNat last = address :=
    Nat.findGreatest_spec (P := fun place => base + UInt16.ofNat place = address)
      (Nat.le_sub_one_of_lt inside) there
  have bound : last ≤ bytes.length - 1 := Nat.findGreatest_le _
  have small : last < bytes.length := by omega
  refine ⟨bytes[last], last, List.getElem?_eq_getElem small, found, ?_⟩
  intro later more less
  exact Nat.findGreatest_is_greatest more (Nat.le_sub_one_of_lt less)

namespace Memory

theorem read_writeRange_other {memory : Memory} {base address : UInt16} {bytes : List UInt8}
    (outside : ∀ index < bytes.length, base + UInt16.ofNat index ≠ address) :
    (memory.writeRange base bytes).read address = memory.read address := by
  induction bytes generalizing memory base with
  | nil => rfl
  | cons byte rest inductionHypothesis =>
    have elsewhere : address ≠ base := by
      rintro rfl
      exact outside 0 (Nat.succ_pos _) (UInt16.add_zero _)
    rw [writeRange, inductionHypothesis, read_write_other _ _ elsewhere]
    intro index less
    rw [← add_ofNat_succ]
    exact outside (index + 1) (Nat.succ_lt_succ less)

/-- In a range the last byte that goes to an address is there afterwards. -/
theorem read_writeRange_of_lastAt {memory : Memory} {base address : UInt16} {bytes : List UInt8}
    {value : UInt8} (last : LastAt base bytes address value) :
    (memory.writeRange base bytes).read address = value := by
  obtain ⟨index, here, there, farther⟩ := last
  induction bytes generalizing memory base index with
  | nil => cases here
  | cons byte rest inductionHypothesis =>
    have later (place : Nat) (more : index < place + 1) (less : place < rest.length) :
        base + 1 + UInt16.ofNat place ≠ address := by
      rw [← add_ofNat_succ]
      exact farther (place + 1) more (Nat.succ_lt_succ less)
    rw [writeRange]
    cases index with
    | zero =>
      cases here
      rw [read_writeRange_other fun place less => later place (Nat.succ_pos _) less, ← there]
      exact (congrArg _ (UInt16.add_zero base)).trans (read_write_self _ _ _)
    | succ index =>
      rw [add_ofNat_succ] at there
      exact inductionHypothesis index here there fun place more less =>
        later place (Nat.succ_lt_succ more) less

/-- A range that does not go round onto itself is read back as it was stored. -/
theorem readRange_writeRange {memory : Memory} {base : UInt16} {bytes : List UInt8}
    (fits : bytes.length ≤ 0x10000) :
    (memory.writeRange base bytes).readRange base bytes.length = bytes := by
  refine List.ext_getElem (length_readRange _ _ _) fun index _ inside => ?_
  simp only [readRange, List.getElem_map, List.getElem_range]
  refine read_writeRange_of_lastAt ⟨index, List.getElem?_eq_getElem inside, rfl, ?_⟩
  intro later more less
  exact add_ofNat_ne more (Nat.lt_of_lt_of_le less fits)

end Memory

/-! ### Deposits -/

/-- A way to store something in memory. -/
inductive Deposit where
  /-- One byte. -/
  | byte (address : UInt16) (value : UInt8)
  /-- A word, its low byte first. -/
  | word (address value : UInt16)
  /-- An image, unless it would run past the last address. -/
  | image (contents : List UInt8) (loadAddress : UInt16)
  /-- Bytes one after the other, going on at the first address after the last. -/
  | range (address : UInt16) (bytes : List UInt8)
deriving DecidableEq

/-- A byte is the one that a deposit leaves at an address. -/
def Deposit.Puts (deposit : Deposit) (address : UInt16) (value : UInt8) : Prop :=
  match deposit with
  | .byte target stored => address = target ∧ value = stored
  | .word target stored =>
    address = target ∧ value = lowByte stored ∨ address = target + 1 ∧ value = highByte stored
  | .image contents loadAddress =>
    loadAddress.toNat + contents.length ≤ 0x10000 ∧ loadAddress.toNat ≤ address.toNat ∧
      contents[address.toNat - loadAddress.toNat]? = some value
  | .range base bytes => LastAt base bytes address value

/-- In an image that fits, the byte for an address is the only one that goes there. -/
theorem lastAt_of_image {base address : UInt16} {image : List UInt8} {value : UInt8}
    (fits : base.toNat + image.length ≤ 0x10000) (after : base.toNat ≤ address.toNat)
    (here : image[address.toNat - base.toNat]? = some value) :
    LastAt base image address value := by
  have bound := address.toNat_lt
  refine ⟨address.toNat - base.toNat, here, ?_, ?_⟩
  · apply UInt16.toNat_inj.mp
    rw [toNat_add_ofNat]
    omega
  · rintro later more less rfl
    rw [toNat_add_ofNat] at more
    omega

/-- An image that fits has a byte for every address that one of its bytes goes to. -/
theorem puts_image {base address : UInt16} {image : List UInt8} {index : Nat}
    (fits : base.toNat + image.length ≤ 0x10000) (inside : index < image.length)
    (there : base + UInt16.ofNat index = address) :
    (Deposit.image image base).Puts address image[index] := by
  subst there
  have place : (base + UInt16.ofNat index).toNat = base.toNat + index := by
    rw [toNat_add_ofNat]
    omega
  refine ⟨fits, place ▸ Nat.le_add_right _ _, ?_⟩
  rw [place, Nat.add_sub_cancel_left]
  exact List.getElem?_eq_getElem inside

namespace Console

/-- Makes a deposit. -/
def perform (deposit : Deposit) : EStateM Fault Console Unit := fun console =>
  match deposit with
  | .byte address value => .ok () ⟨console.machine.write address value⟩
  | .word address value => .ok () ⟨console.machine.writeWord address value⟩
  | .image image loadAddress =>
    match console.machine.load image loadAddress with
    | .ok machine => .ok () ⟨machine⟩
    | .error fault => .error fault console
  | .range address bytes => .ok () (console.writeMemory address bytes)

/-- The console after deposits made one after the other, refused ones included. -/
def afterDeposits (console : Console) (deposits : List Deposit) : Console :=
  deposits.foldl (fun console deposit => finalState (perform deposit console)) console

section

variable (console : Console)

/-- An image that would run past the last address is refused, and no other. -/
theorem perform_image (image : List UInt8) (loadAddress : UInt16) :
    perform (.image image loadAddress) console =
      if loadAddress.toNat + image.length ≤ 0x10000 then
        .ok () ⟨console.machine.mapMemory (·.writeRange loadAddress image)⟩
      else .error (.imageTooLarge image.length loadAddress) console := by
  by_cases fits : loadAddress.toNat + image.length ≤ Memory.size
  · rw [perform, Machine.load, Memory.load, if_pos fits]
    exact (if_pos fits).symm
  · rw [perform, Machine.load, Memory.load, if_neg fits]
    exact (if_neg fits).symm

variable {console} {deposit : Deposit} {address : UInt16} {value : UInt8}

/-- After a deposit the bytes it puts down are there. -/
theorem read_perform_of_puts (puts : deposit.Puts address value) :
    (finalState (perform deposit console)).machine.memory.read address = value := by
  cases deposit with
  | byte target stored =>
    obtain ⟨rfl, rfl⟩ := puts
    exact Memory.read_write_self _ _ _
  | word target stored =>
    rcases puts with ⟨rfl, rfl⟩ | ⟨rfl, rfl⟩
    · exact (Memory.read_write_other _ _ (ne_add_one address)).trans
        (Memory.read_write_self _ _ _)
    · exact Memory.read_write_self _ _ _
  | image image base =>
    obtain ⟨fits, after, here⟩ := puts
    rw [perform_image, if_pos fits]
    exact Memory.read_writeRange_of_lastAt (lastAt_of_image fits after here)
  | range base bytes => exact Memory.read_writeRange_of_lastAt puts

/-- Where a deposit puts no byte, memory stays as it is. -/
theorem read_perform_of_not_puts (nothing : ∀ value, ¬deposit.Puts address value) :
    (finalState (perform deposit console)).machine.memory.read address =
      console.machine.memory.read address := by
  cases deposit with
  | byte target stored =>
    exact Memory.read_write_other _ _ fun here => nothing stored ⟨here, rfl⟩
  | word target stored =>
    have first : address ≠ target := fun here => nothing _ (Or.inl ⟨here, rfl⟩)
    have second : address ≠ target + 1 := fun here => nothing _ (Or.inr ⟨here, rfl⟩)
    exact (Memory.read_write_other _ _ second).trans (Memory.read_write_other _ _ first)
  | image image base =>
    rw [perform_image]
    split
    next fits =>
      exact Memory.read_writeRange_other fun index inside there =>
        nothing _ (puts_image fits inside there)
    next => rfl
  | range base bytes =>
    refine Memory.read_writeRange_other fun index inside there => ?_
    obtain ⟨value, last⟩ := exists_lastAt inside there
    exact nothing value last

/-- Where no deposit puts a byte, memory stays as it is. -/
theorem read_afterDeposits_of_not_puts {deposits : List Deposit}
    (nothing : ∀ deposit ∈ deposits, ∀ value, ¬deposit.Puts address value) :
    (console.afterDeposits deposits).machine.memory.read address =
      console.machine.memory.read address := by
  induction deposits generalizing console with
  | nil => rfl
  | cons deposit rest inductionHypothesis =>
    have first : (finalState (perform deposit console)).machine.memory.read address = _ :=
      read_perform_of_not_puts (nothing deposit List.mem_cons_self)
    exact (inductionHypothesis fun other member =>
      nothing other (List.mem_cons_of_mem _ member)).trans first

end

/-- What was stored last is there. A byte that is read after any deposits is the one that the last
of them to cover its address put there, and the byte from before if none of them covers it. An image
is refused exactly if it would run past the last address, and then nothing changes. So a word is
read back where it was stored, also at the last address, and so is a range that does not go round
onto itself. -/
theorem last_deposit_wins (console : Console) :
    (∀ earlier deposit later address value, deposit.Puts address value →
      (∀ other ∈ later, ∀ otherValue, ¬other.Puts address otherValue) →
        (console.afterDeposits (earlier ++ deposit :: later)).machine.memory.read address =
          value) ∧
    (∀ deposits address, (∀ deposit ∈ deposits, ∀ value, ¬deposit.Puts address value) →
      (console.afterDeposits deposits).machine.memory.read address =
        console.machine.memory.read address) ∧
    (∀ image loadAddress fault left,
      perform (.image image loadAddress) console = .error fault left ↔
        0x10000 < loadAddress.toNat + image.length ∧
          fault = .imageTooLarge image.length loadAddress ∧ left = console) ∧
    (∀ address value,
      (console.afterDeposits [.word address value]).machine.memory.readWord address = value) ∧
    (∀ address bytes, bytes.length ≤ 0x10000 →
      (console.writeMemory address bytes).readMemory address bytes.length = bytes) := by
  refine ⟨?_, ?_, ?_, ?_, ?_⟩
  · intro earlier deposit later address value puts nothing
    rw [afterDeposits, List.foldl_append, List.foldl_cons, ← afterDeposits, ← afterDeposits,
      read_afterDeposits_of_not_puts nothing]
    exact read_perform_of_puts puts
  · intro deposits address nothing
    exact read_afterDeposits_of_not_puts nothing
  · intro image loadAddress fault left
    rw [perform_image]
    split
    next fits => exact ⟨nofun, fun ⟨tooLarge, _⟩ => absurd fits (Nat.not_le_of_lt tooLarge)⟩
    next unfit =>
      constructor
      · intro refused
        cases refused
        exact ⟨Nat.lt_of_not_le unfit, rfl, rfl⟩
      · rintro ⟨_, rfl, rfl⟩
        rfl
  · intro address value
    exact Memory.readWord_writeWord _ _ _
  · intro address bytes fits
    exact Memory.readRange_writeRange fits

/-- A range one byte longer than memory writes its last byte over its first. -/
theorem last_deposit_wins_overlapping :
    let console : Console := ⟨{ memory := Memory.empty }⟩
    let bytes := List.replicate 0x10000 0x11 ++ [0x22]
    (console.writeMemory 0xFFFF bytes).machine.memory.read 0xFFFF = 0x22 ∧
      (console.writeMemory 0xFFFF bytes).machine.memory.read 0xFFFE = 0x11 := by
  intro console bytes
  have first : (List.replicate 0x10000 (0x11 : UInt8)).length = 0x10000 := List.length_replicate
  have length : bytes.length = 0x10001 := by
    rw [List.length_append, first]
    rfl
  obtain ⟨wins, _⟩ := console.last_deposit_wins
  constructor
  · refine wins [] (.range 0xFFFF bytes) [] 0xFFFF 0x22 ⟨0x10000, ?_, rfl, ?_⟩ nofun
    · rw [List.getElem?_append_right (Nat.le_of_eq first), first]
      rfl
    · intro later more less
      omega
  · refine wins [] (.range 0xFFFF bytes) [] 0xFFFE 0x11 ⟨0xFFFF, ?_, rfl, ?_⟩ nofun
    · rw [List.getElem?_append_left (Nat.lt_of_lt_of_eq (Nat.lt_add_one 0xFFFF) first.symm)]
      exact List.getElem?_replicate_of_lt (Nat.lt_add_one 0xFFFF)
    · intro later more less
      have final : later = 0x10000 := by omega
      subst final
      decide

end Console

end Mos6502
