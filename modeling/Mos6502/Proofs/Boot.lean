/-
This file says with what a machine starts. A machine is built from an image and some settings unless
the image would run past the last address. Its memory is the image with zeros around it, and the
entry point is written over the reset vector afterwards, be it that the image covers the vector, one
byte of it or none; an entry point of zero is no entry point. All registers are at zero but for the
stack pointer, which may be set, and the reserved bit of the status. Only a reset makes the machine
ready, and it starts at the entry point or where the image says.
-/

import Mos6502.Proofs.LastWrite

namespace Mos6502

/-! ### What a machine should start with -/

/-- The byte that an image has for an address, and zero where it has none. -/
def imageByte (image : List UInt8) (loadAddress address : UInt16) : UInt8 :=
  if loadAddress.toNat ≤ address.toNat then
    (image[address.toNat - loadAddress.toNat]?).getD 0
  else 0

/-- The byte that a new machine has at an address. -/
def bootByte (image : List UInt8) (loadAddress : UInt16) (entryPoint : Option UInt16)
    (address : UInt16) : UInt8 :=
  match entryPoint with
  | none => imageByte image loadAddress address
  | some entry =>
    if entry = 0 then imageByte image loadAddress address
    else if address = 0xFFFC then lowByte entry
    else if address = 0xFFFD then highByte entry
    else imageByte image loadAddress address

/-- Where a new machine starts after its first reset. -/
def startAddress (image : List UInt8) (loadAddress : UInt16) (entryPoint : Option UInt16) :
    UInt16 :=
  let vector := wordOf (imageByte image loadAddress 0xFFFC) (imageByte image loadAddress 0xFFFD)
  match entryPoint with
  | none => vector
  | some entry => if entry = 0 then vector else entry

/-! ### Memory -/

namespace Memory

/-- The memory of a new machine, for an entry point where zero stands for none. -/
def boot (image : List UInt8) (loadAddress entry : UInt16) : Memory :=
  let memory := empty.writeRange loadAddress image
  if entry = 0 then memory else memory.writeWord resetVector entry

/-- An image that fits lies in memory with zeros around it. -/
theorem read_writeRange_image {image : List UInt8} {loadAddress : UInt16}
    (fits : loadAddress.toNat + image.length ≤ 0x10000) (address : UInt16) :
    (empty.writeRange loadAddress image).read address = imageByte image loadAddress address := by
  by_cases after : loadAddress.toNat ≤ address.toNat
  · rw [imageByte, if_pos after]
    cases here : image[address.toNat - loadAddress.toNat]? with
    | some value => exact read_writeRange_of_lastAt (lastAt_of_image fits after here)
    | none =>
      have beyond := List.getElem?_eq_none_iff.mp here
      refine (read_writeRange_other ?_).trans (read_empty address)
      rintro index inside rfl
      rw [toNat_add_ofNat] at after beyond
      omega
  · rw [imageByte, if_neg after]
    refine (read_writeRange_other ?_).trans (read_empty address)
    rintro index inside rfl
    rw [toNat_add_ofNat] at after
    omega

section

variable {image : List UInt8} {loadAddress : UInt16}
  (fits : loadAddress.toNat + image.length ≤ 0x10000)

include fits

theorem read_boot (entryPoint : Option UInt16) (address : UInt16) :
    (boot image loadAddress (entryPoint.getD 0)).read address =
      bootByte image loadAddress entryPoint address := by
  have covered := read_writeRange_image fits address
  cases entryPoint with
  | none => exact covered
  | some entry =>
    have first : resetVector = 0xFFFC := rfl
    have second : (0xFFFC : UInt16) + 1 = 0xFFFD := rfl
    rw [Option.getD_some, boot, bootByte]
    split
    · exact covered
    · dsimp only [writeWord]
      rw [read_write, read_write, covered, first, second]
      by_cases low : address = 0xFFFC
      · subst low
        rfl
      · rw [if_neg low, if_neg low]

/-- The reset vector of a new machine says where it starts. -/
theorem readWord_boot (entryPoint : Option UInt16) :
    (boot image loadAddress (entryPoint.getD 0)).readWord resetVector =
      startAddress image loadAddress entryPoint := by
  have low := read_boot fits entryPoint resetVector
  have high := read_boot fits entryPoint (resetVector + 1)
  rw [readWord, low, high]
  cases entryPoint with
  | none => rfl
  | some entry =>
    unfold bootByte startAddress
    dsimp only
    split
    · rfl
    · exact wordOf_lowByte_highByte entry

end

end Memory

/-! ### Machines -/

/-- An entry point of zero is none. -/
theorem Config.effectiveEntryPoint_getD (config : Config) :
    config.effectiveEntryPoint.getD 0 = config.entryPoint.getD 0 := by
  unfold effectiveEntryPoint
  cases config.entryPoint with
  | none => rfl
  | some entry => by_cases zero : entry = 0 <;> simp [Option.filter, zero]

namespace Machine

section

variable {image : List UInt8}

theorem ofEntryPoint_of_fits {loadAddress : UInt16} (entry : UInt16)
    (fits : loadAddress.toNat + image.length ≤ 0x10000) :
    ofEntryPoint image loadAddress entry = .ok { memory := .boot image loadAddress entry } := by
  have loaded : Memory.empty.load image loadAddress =
      .ok (Memory.empty.writeRange loadAddress image) := if_pos fits
  rw [ofEntryPoint, ofImage, loaded, Memory.boot]
  show (if entry = 0 then _ else _) = _
  split <;> rfl

theorem ofEntryPoint_of_too_large {loadAddress : UInt16} (entry : UInt16)
    (tooLarge : 0x10000 < loadAddress.toNat + image.length) :
    ofEntryPoint image loadAddress entry = .error (.imageTooLarge image.length loadAddress) := by
  have refused : Memory.empty.load image loadAddress =
      .error (.imageTooLarge image.length loadAddress) := if_neg (Nat.not_le_of_lt tooLarge)
  rw [ofEntryPoint, ofImage, refused]
  rfl

variable {config : Config}

theorem ofConfig_of_fits (fits : config.loadAddress.toNat + image.length ≤ 0x10000) :
    ofConfig image config = .ok
      { memory := .boot image config.loadAddress (config.entryPoint.getD 0)
        sp := config.stackPointer.getD 0
        timing := config.timing } := by
  rw [ofConfig, config.effectiveEntryPoint_getD, ofEntryPoint_of_fits _ fits]
  rfl

theorem ofConfig_of_too_large
    (tooLarge : 0x10000 < config.loadAddress.toNat + image.length) :
    ofConfig image config = .error (.imageTooLarge image.length config.loadAddress) := by
  rw [ofConfig, ofEntryPoint_of_too_large _ tooLarge]
  rfl

end

/-- To give an entry point is to give it in the settings. -/
theorem ofEntryPoint_eq_ofConfig (image : List UInt8) (loadAddress entry : UInt16) :
    ofEntryPoint image loadAddress entry =
      ofConfig image { loadAddress, entryPoint := some entry } := by
  let config : Config := { loadAddress, entryPoint := some entry }
  show _ = ofConfig image config
  rcases Nat.lt_or_ge 0x10000 (config.loadAddress.toNat + image.length) with tooLarge | fits
  · rw [ofConfig_of_too_large tooLarge]
    exact ofEntryPoint_of_too_large entry tooLarge
  · rw [ofConfig_of_fits fits]
    exact ofEntryPoint_of_fits entry fits

/-- What a machine is like that was built from an image and some settings. -/
structure Booted (image : List UInt8) (config : Config) (machine : Machine) : Prop where
  /-- The image and the entry point are in memory. -/
  bytes : ∀ address, machine.memory.read address =
    bootByte image config.loadAddress config.entryPoint address
  registers : machine.a = 0 ∧ machine.x = 0 ∧ machine.y = 0
  cycles : machine.cycles = 0
  status : machine.status.bits = 0x20
  sp : machine.sp = config.stackPointer.getD 0
  timing : machine.timing = config.timing
  /-- Before a reset every step is refused, whatever else the host does. -/
  waits : ∀ calls, Call.reset ∉ calls → (machine.afterCalls calls).step =
    .error .notInitialized (machine.afterCalls calls)
  /-- A reset goes to the start, makes the machine ready and changes nothing else. -/
  starts : machine.reset =
    { machine with
      pc := startAddress image config.loadAddress config.entryPoint
      initialized := true }

theorem booted_of_fits {image : List UInt8} {config : Config}
    (fits : config.loadAddress.toNat + image.length ≤ 0x10000) :
    ∃ machine, ofConfig image config = .ok machine ∧ machine.Booted image config := by
  have built := ofConfig_of_fits fits
  refine ⟨_, built, Memory.read_boot fits _, ⟨rfl, rfl, rfl⟩, rfl, rfl, rfl, rfl, ?_, ?_⟩
  · intro calls noReset
    refine step_of_not_initialized ?_
    rw [initialized_afterCalls, initialized_of_built (.ofConfig built), Bool.false_or]
    exact decide_eq_false noReset
  · rw [reset, Memory.readWord_boot fits]

/-- With what a machine starts. Building it fails exactly if the image would run past the last
address, and says so; otherwise its memory, its registers and its first instruction are those of the
image and the settings. To give an entry point is to give it in the settings. -/
theorem ofConfig_boots (image : List UInt8) (config : Config) :
    (∀ fault, ofConfig image config = .error fault ↔
      0x10000 < config.loadAddress.toNat + image.length ∧
        fault = .imageTooLarge image.length config.loadAddress) ∧
    (config.loadAddress.toNat + image.length ≤ 0x10000 →
      ∃ machine, ofConfig image config = .ok machine ∧ machine.Booted image config) ∧
    ∀ loadAddress entry, ofEntryPoint image loadAddress entry =
      ofConfig image { loadAddress, entryPoint := some entry } := by
  refine ⟨fun fault => ?_, booted_of_fits, ofEntryPoint_eq_ofConfig image⟩
  rcases Nat.lt_or_ge 0x10000 (config.loadAddress.toNat + image.length) with tooLarge | fits
  · rw [ofConfig_of_too_large tooLarge, Except.error.injEq]
    exact ⟨fun same => ⟨tooLarge, same.symm⟩, fun same => same.2.symm⟩
  · rw [ofConfig_of_fits fits]
    exact ⟨nofun, fun ⟨tooLarge, _⟩ => absurd fits (Nat.not_le_of_lt tooLarge)⟩

/-- An image that begins with the high byte of the reset vector: it says where to start together
with a zero in front of it, unless there is an entry point, which replaces that byte, too. -/
theorem ofConfig_boots_overlapping :
    let image : List UInt8 := [0x80, 0xEA]
    let plain : Config := { loadAddress := 0xFFFD, entryPoint := some 0 }
    let settings : Config :=
      { loadAddress := 0xFFFD, entryPoint := some 0x1234, stackPointer := some 0xFD }
    (∃ machine, ofConfig image plain = .ok machine ∧ machine.reset.pc = 0x8000) ∧
    (∃ machine, ofConfig image settings = .ok machine ∧ machine.memory.read 0xFFFC = 0x34 ∧
      machine.memory.read 0xFFFD = 0x12 ∧ machine.memory.read 0xFFFE = 0xEA ∧
      machine.sp = 0xFD ∧ machine.reset.pc = 0x1234) ∧
    ofConfig (image ++ image) settings = .error (.imageTooLarge 4 0xFFFD) := by
  intro image plain settings
  obtain ⟨_, plainFits, _⟩ := ofConfig_boots image plain
  obtain ⟨_, fits, _⟩ := ofConfig_boots image settings
  obtain ⟨refused, _, _⟩ := ofConfig_boots (image ++ image) settings
  obtain ⟨plainMachine, plainBuilt, plainBooted⟩ := plainFits (by decide)
  obtain ⟨machine, built, booted⟩ := fits (by decide)
  have plainStart : startAddress image plain.loadAddress plain.entryPoint = 0x8000 := by decide
  have start : startAddress image settings.loadAddress settings.entryPoint = 0x1234 := by decide
  refine ⟨⟨plainMachine, plainBuilt, ?_⟩, ⟨machine, built, ?_, ?_, ?_, booted.sp, ?_⟩,
    (refused _).mpr ⟨by decide, rfl⟩⟩
  · rw [plainBooted.starts]
    exact plainStart
  · exact (booted.bytes _).trans (by decide)
  · exact (booted.bytes _).trans (by decide)
  · exact (booted.bytes _).trans (by decide)
  · rw [booted.starts]
    exact start

end Machine

end Mos6502
