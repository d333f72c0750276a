/-
This file proves that shifts and rotations move numbers of any length by one bit. A program goes
through the bytes of a number one after the other, to the left from the lowest on and to the right
from the highest on, and the bit that leaves a byte comes into the next through the carry. Only the
first instruction may be a shift, which lets zero in. What becomes of the bytes follows from them
and the carry alone, so the bits are counted without the machine. The number and the carry together
lose nothing, and so moving in one direction undoes moving in the other.
-/

import Mos6502.Proofs.Frame
import Mos6502.Proofs.Multibyte

namespace Mos6502

/-! ### One byte -/

namespace Shift

/-- The bit that comes into the byte, given the carry. -/
def incoming (shift : Shift) (carry : Bool) : Bool :=
  match shift with
  | left | right => false
  | rotateLeft | rotateRight => carry

/-- The rotation in the same direction. -/
def rotation : Shift → Shift
  | left | rotateLeft => rotateLeft
  | right | rotateRight => rotateRight

theorem rotation_rotation (shift : Shift) : shift.rotation.rotation = shift.rotation := by
  cases shift <;> rfl

theorem incoming_rotation (shift : Shift) (carry : Bool) :
    shift.rotation.incoming carry = carry := by
  cases shift <;> rfl

/-- A shift is the rotation in the same direction, but for the bit that comes in. -/
theorem result_rotation (shift : Shift) (value : UInt8) (carry : Bool) :
    shift.rotation.result value (shift.incoming carry).toUInt8 =
      shift.result value carry.toUInt8 := by
  cases shift with
  | left => exact UInt8.or_zero
  | right => exact UInt8.or_zero
  | rotateLeft | rotateRight => rfl

theorem carries_rotation (shift : Shift) (value : UInt8) :
    shift.rotation.carries value = shift.carries value := by
  cases shift <;> rfl

/-- The byte and the carry together are twice the byte and what comes in. -/
theorem rotateLeft_exact (value : UInt8) (carry : Bool) :
    (rotateLeft.result value carry.toUInt8).toNat + 256 * (rotateLeft.carries value).toNat =
      2 * value.toNat + carry.toNat := by
  revert value
  cases carry <;> exact forall_byte (by decide +kernel)

/-- Twice the byte and the carry is the byte and what comes in above it. -/
theorem rotateRight_exact (value : UInt8) (carry : Bool) :
    2 * (rotateRight.result value carry.toUInt8).toNat + (rotateRight.carries value).toNat =
      value.toNat + 256 * carry.toNat := by
  revert value
  cases carry <;> exact forall_byte (by decide +kernel)

/-! ### Many bytes -/

/-- What bytes become that are moved one after the other, given the carry before the first. -/
def results (move : Shift) (carry : Bool) : List UInt8 → List UInt8
  | [] => []
  | value :: rest => move.result value carry.toUInt8 :: move.results (move.carries value) rest

/-- The carry after the last of them. -/
def carryAfter (move : Shift) (carry : Bool) : List UInt8 → Bool
  | [] => carry
  | value :: rest => move.carryAfter (move.carries value) rest

theorem length_results (move : Shift) (carry : Bool) (values : List UInt8) :
    (move.results carry values).length = values.length := by
  induction values generalizing carry with
  | nil => rfl
  | cons value rest inductionHypothesis => exact congrArg (· + 1) (inductionHypothesis _)

theorem results_left_exact (carry : Bool) (values : List UInt8) :
    number (rotateLeft.results carry values) +
        256 ^ values.length * (rotateLeft.carryAfter carry values).toNat =
      2 * number values + carry.toNat := by
  induction values generalizing carry with
  | nil => simp [results, carryAfter]
  | cons value rest inductionHypothesis =>
    have lowest := rotateLeft_exact value carry
    have others := inductionHypothesis (rotateLeft.carries value)
    rw [← length_results rotateLeft] at others ⊢
    rw [results, carryAfter, number_cons_add, others, number_cons]
    omega

/-- To the right the highest byte comes first. -/
theorem results_right_exact (carry : Bool) (values : List UInt8) :
    2 * number (rotateRight.results carry values).reverse +
        (rotateRight.carryAfter carry values).toNat =
      number values.reverse + 256 ^ values.length * carry.toNat := by
  induction values generalizing carry with
  | nil => simp [results, carryAfter]
  | cons value rest inductionHypothesis =>
    have highest := rotateRight_exact value carry
    have others := inductionHypothesis (rotateRight.carries value)
    have length := length_results rotateRight (rotateRight.carries value) rest
    rw [results, carryAfter, List.reverse_cons, List.reverse_cons, number_append, number_append,
      number_singleton, number_singleton, List.length_reverse, List.length_reverse, length,
      List.length_cons]
    calc 2 * (number (rotateRight.results (rotateRight.carries value) rest).reverse +
            256 ^ rest.length * (rotateRight.result value carry.toUInt8).toNat) +
          (rotateRight.carryAfter (rotateRight.carries value) rest).toNat
        = number rest.reverse + 256 ^ rest.length *
            (2 * (rotateRight.result value carry.toUInt8).toNat +
              (rotateRight.carries value).toNat) := by
          rw [Nat.mul_add, Nat.mul_add]
          linarith only [others]
      _ = number rest.reverse + 256 ^ rest.length * (value.toNat + 256 * carry.toNat) := by
          rw [highest]
      _ = _ := by ring

end Shift

section

variable {bytes moved : List UInt8} {incoming carry : Bool}

/-- What does not fit any more after a move to the right is the lowest bit. -/
theorem number_of_right_exact (some : bytes ≠ [])
    (exact : 2 * number moved + carry.toNat =
      number bytes + 256 ^ bytes.length * incoming.toNat) :
    number moved = (incoming.toNat * 256 ^ bytes.length + number bytes) / 2 ∧
      carry = (number bytes).testBit 0 := by
  have middle := pow_eq_double some
  have bit := Bool.toNat_le carry
  constructor
  · rw [Nat.mul_comm, Nat.add_comm, ← exact]
    omega
  · have parity : carry.toNat = number bytes % 2 := by
      rw [middle, Nat.mul_assoc] at exact
      omega
    rw [Nat.testBit_zero, ← parity]
    cases carry <;> rfl

variable (alike : moved.length = bytes.length)

include alike

/-- What does not fit any more after a move to the left is the highest bit. -/
theorem number_of_left_exact (some : bytes ≠ [])
    (exact : number moved + 256 ^ bytes.length * carry.toNat =
      2 * number bytes + incoming.toNat) :
    number moved = (2 * number bytes + incoming.toNat) % 256 ^ bytes.length ∧
      carry = (number bytes).testBit (8 * bytes.length - 1) := by
  have bound := number_lt moved
  have middle := pow_eq_double some
  have bit := Bool.toNat_le incoming
  rw [alike] at bound
  constructor
  · rw [← exact, Nat.add_mul_mod_self_left, Nat.mod_eq_of_lt bound]
  · rw [testBit_number some, Bool.eq_iff_iff, decide_eq_true_iff, carry_iff_le bound, exact]
    omega

/-- Moving to the right undoes moving to the left. -/
theorem eq_of_left_right_exact
    (exact : 2 * number moved + carry.toNat = 2 * number bytes + incoming.toNat) :
    moved = bytes ∧ carry = incoming := by
  have bit := Bool.toNat_le carry
  have bitBefore := Bool.toNat_le incoming
  have same : carry = incoming := by
    rw [Bool.eq_iff_iff, ← Bool.toNat_eq_one, ← Bool.toNat_eq_one]
    omega
  rw [same] at exact
  exact ⟨(number_inj alike).mp (by omega), same⟩

/-- Moving to the left undoes moving to the right. -/
theorem eq_of_right_left_exact
    (exact : number moved + 256 ^ bytes.length * carry.toNat =
      number bytes + 256 ^ bytes.length * incoming.toNat) :
    moved = bytes ∧ carry = incoming := by
  have bound := number_lt moved
  rw [alike] at bound
  have same : carry = incoming := by
    rw [Bool.eq_iff_iff, carry_iff_le bound, exact, ← carry_iff_le (number_lt bytes)]
  rw [same] at exact
  exact ⟨(number_inj alike).mp (Nat.add_right_cancel exact), same⟩

end

/-- The bit that an instruction lets into a byte, given the carry. -/
def Mnemonic.incoming (mnemonic : Mnemonic) (carry : Bool) : Bool :=
  match mnemonic with
  | rol | ror => carry
  | _ => false

namespace Machine

/-! ### One instruction -/

theorem status_effectAt (machine : Machine) (move : Shift) (target : UInt16) :
    (move.effectAt target machine).status =
      (machine.status.set .carry (move.carries (machine.memory.read target))).updateZeroNegative
        (move.result (machine.memory.read target) machine.status.carryBit) := rfl

theorem status_effectOnAccumulator (machine : Machine) (move : Shift) :
    (move.effectOnAccumulator machine).status =
      (machine.status.set .carry (move.carries machine.a)).updateZeroNegative
        (move.result machine.a machine.status.carryBit) := rfl

/-- A byte is moved in its place. -/
structure Moves (move : Shift) (place : Operand) (before after : Machine) : Prop where
  /-- The carry may come into the byte. -/
  byte : after.byteOf place =
    move.result (before.byteOf place) (before.status.get .carry).toUInt8
  /-- What leaves the byte goes to the carry, and Zero and Negative describe the new byte. -/
  status : after.status =
    (before.status.set .carry (move.carries (before.byteOf place))).updateZeroNegative
      (after.byteOf place)
  /-- The other places keep their bytes. -/
  others : ∀ other, other ≠ place → after.byteOf other = before.byteOf other

section

variable {mnemonic : Mnemonic} {move : Shift} {place : Operand} {before after : Machine}

theorem Moves.carry (moves : Moves move place before after) :
    after.status.get .carry = move.carries (before.byteOf place) := by
  rw [moves.status, Status.get_updateZeroNegative_other _ _ (by decide),
    Status.get_set_self _ _ (by decide)]

theorem Moves.zero (moves : Moves move place before after) :
    after.status.get .zero = (after.byteOf place == 0) := by
  rw [moves.status, Status.get_zero_updateZeroNegative]

theorem Moves.negative (moves : Moves move place before after) :
    after.status.get .negative = (after.byteOf place &&& 0x80 != 0) := by
  rw [moves.status, Status.get_negative_updateZeroNegative]

theorem moves_accumulator {mode : Mode} {cost : UInt8} (stepped : after =
    (move.effectOnAccumulator (before.fetch.clearPenalties.advance mode)).count cost) :
    Moves move .accumulator before after := by
  -- Taken apart into its fields, the machine before the step is never compared as a whole.
  have result : after.a = move.result before.a before.status.carryBit := by
    rw [stepped]
    cases before
    rfl
  have memory : after.memory = before.memory := by
    rw [stepped]
    cases before
    rfl
  refine { byte := ?_, status := ?_, others := ?_ }
  · rw [← before.status.carryBit_eq]
    exact result
  · show _ = Status.updateZeroNegative _ after.a
    rw [result, stepped]
    exact status_effectOnAccumulator _ move
  · intro other apart
    cases other with
    | none => rfl
    | accumulator => exact absurd rfl apart
    | address place => exact congrArg (·.read place) memory

theorem moves_address {target : UInt16} {mode : Mode} {cost : UInt8} (stepped : after =
    (move.effectAt target (before.fetch.clearPenalties.advance mode)).count cost) :
    Moves move (.address target) before after := by
  have accumulator : after.a = before.a := by
    rw [stepped]
    cases before
    rfl
  have memory : after.memory = before.memory.write target
      (move.result (before.memory.read target) before.status.carryBit) := by
    rw [stepped]
    cases before
    rfl
  have result : after.memory.read target =
      move.result (before.memory.read target) before.status.carryBit := by
    rw [memory, Memory.read_write_self]
  refine { byte := ?_, status := ?_, others := ?_ }
  · rw [← before.status.carryBit_eq]
    exact result
  · show _ = Status.updateZeroNegative _ (after.memory.read target)
    rw [result, stepped]
    exact status_effectAt _ move target
  · intro other apart
    cases other with
    | none => rfl
    | accumulator => exact accumulator
    | address place =>
      show after.memory.read place = before.memory.read place
      rw [memory, Memory.read_write_other _ _ fun same => apart (congrArg _ same)]

/-- A shift or rotation moves the byte of its operand. -/
theorem Performs.moves (performs : Performs mnemonic place before after)
    (shifts : mnemonic.operation = .shift move) : Moves move place before after := by
  obtain ⟨opcode, found, rfl, leads, stepped⟩ := performs.opcode
  rw [Machine.stepped, executed, shifts, leads] at stepped
  cases place with
  | none =>
    have accepted := Opcode.accepts_of_ofByte? found
    rw [shifts] at accepted
    obtain ⟨_, _, suits⟩ := Operation.perform?_of_accepts accepted before
    rw [leads] at suits
    cases suits
  | accumulator => exact moves_accumulator stepped
  | address target => exact moves_address stepped

end

/-! ### One instruction after the other -/

/-- A step does a task if it executes the instruction on the place. -/
def Does (task : Mnemonic × Operand) (before after : Machine) : Prop :=
  Performs task.1 task.2 before after

/-- One instruction for the first of places, and another for those after it. -/
def tasks (start others : Mnemonic) : List Operand → List (Mnemonic × Operand)
  | [] => []
  | place :: rest => (start, place) :: rest.map (others, ·)

/-- The carry goes on to the next instruction, and places keep their bytes. -/
structure KeepsPlaces (places : List Operand) (first before : Machine) : Prop where
  carry : before.status.get .carry = first.status.get .carry
  bytes : ∀ place ∈ places, before.byteOf place = first.byteOf place

/-- The bytes in places were moved one after the other, with a bit coming into the first of them. -/
structure Rippled (move : Shift) (incoming : Bool) (all places : List Operand)
    (first last : Machine) : Prop where
  bytes : places.map last.byteOf = move.results incoming (places.map first.byteOf)
  carry : last.status.get .carry = move.carryAfter incoming (places.map first.byteOf)
  /-- Places whose turn has not come yet, or is over, keep their bytes. -/
  others : ∀ place ∈ all, place ∉ places → last.byteOf place = first.byteOf place

section

variable {all : List Operand}

theorem Rippled.cons {start : Shift} {place : Operand} {rest : List Operand}
    {first before after last : Machine} (kept : KeepsPlaces all first before)
    (moves : Moves start place before after)
    (rippled : Rippled start.rotation (after.status.get .carry) all rest after last)
    (apart : place ∉ rest) (inside : place :: rest ⊆ all) :
    Rippled start.rotation (start.incoming (first.status.get .carry)) all (place :: rest) first
      last := by
  obtain ⟨placeInside, restInside⟩ := List.cons_subset.mp inside
  -- The rest starts from bytes that nothing has touched, and leaves the first of them alone.
  have carry : after.status.get .carry = start.rotation.carries (first.byteOf place) := by
    rw [moves.carry, kept.bytes place placeInside, Shift.carries_rotation]
  have byte : after.byteOf place = start.rotation.result (first.byteOf place)
      (start.incoming (first.status.get .carry)).toUInt8 := by
    rw [moves.byte, kept.bytes place placeInside, kept.carry, Shift.result_rotation]
  have untouched : ∀ other ∈ all, other ≠ place → after.byteOf other = first.byteOf other :=
    fun other member different =>
      (moves.others other different).trans (kept.bytes other member)
  have restUntouched : rest.map after.byteOf = rest.map first.byteOf :=
    List.map_congr_left fun other member =>
      untouched other (restInside member) fun same => apart (same ▸ member)
  rw [carry] at rippled
  refine { bytes := ?_, carry := ?_, others := ?_ }
  · rw [List.map_cons, List.map_cons, Shift.results, rippled.bytes, restUntouched,
      rippled.others place placeInside apart, byte]
  · rw [rippled.carry, restUntouched]
    rfl
  · intro other member outside
    rw [List.mem_cons, not_or] at outside
    rw [rippled.others other member outside.2, untouched other member outside.1]

/-- Rotations in one direction take the carry all the way. -/
theorem rippled_of_rotations {mnemonic : Mnemonic} {move : Shift}
    (rotates : mnemonic.operation = .shift move.rotation) {places : List Operand}
    (apart : places.Nodup) (inside : places ⊆ all) {first last : Machine}
    (run : Interleaved (KeepsPlaces all) Does first (places.map (mnemonic, ·)) last) :
    Rippled move.rotation (first.status.get .carry) all places first last := by
  induction places generalizing first with
  | nil =>
    cases run
    exact { bytes := rfl, carry := rfl, others := fun _ _ _ => rfl }
  | cons place rest inductionHypothesis =>
    obtain ⟨placeApart, restApart⟩ := List.nodup_cons.mp apart
    obtain ⟨_, restInside⟩ := List.cons_subset.mp inside
    cases run with
    | cons kept done others =>
      have later := inductionHypothesis restApart restInside others
      rw [← move.rotation_rotation] at later
      have rippled := Rippled.cons kept (done.moves rotates) later placeApart inside
      rwa [Shift.rotation_rotation, Shift.incoming_rotation] at rippled

/-- Only the first instruction may be a shift. -/
theorem rippled_of_tasks {start others : Mnemonic} {move : Shift}
    (starts : start.operation = .shift move) (rotates : others.operation = .shift move.rotation)
    {places : List Operand} (some : places ≠ []) (apart : places.Nodup) (inside : places ⊆ all)
    {first last : Machine}
    (run : Interleaved (KeepsPlaces all) Does first (tasks start others places) last) :
    Rippled move.rotation (move.incoming (first.status.get .carry)) all places first last := by
  cases places with
  | nil => exact absurd rfl some
  | cons place rest =>
    obtain ⟨placeApart, restApart⟩ := List.nodup_cons.mp apart
    obtain ⟨_, restInside⟩ := List.cons_subset.mp inside
    cases run with
    | cons kept done run =>
      exact Rippled.cons kept (done.moves starts)
        (rippled_of_rotations rotates restApart restInside run) placeApart inside

end

/-! ### Numbers in places -/

/-- The number whose bytes are in places, the lowest first. -/
def numberIn (machine : Machine) (places : List Operand) : Nat :=
  number (places.map machine.byteOf)

section

variable {start : Mnemonic} {places : List Operand} {first last : Machine}
  (some : places ≠ []) (apart : places.Nodup)

include some apart

/-- To the left, the number and the carry above it become twice as large. -/
theorem left_exact (starts : start ∈ [.rol, .asl])
    (run : Interleaved (KeepsPlaces places) Does first (tasks start .rol places) last) :
    last.numberIn places + 256 ^ places.length * (last.status.get .carry).toNat =
      2 * first.numberIn places + (start.incoming (first.status.get .carry)).toNat := by
  obtain ⟨move, shifts, direction, incoming⟩ : ∃ move, start.operation = .shift move ∧
      move.rotation = .rotateLeft ∧ move.incoming = start.incoming := by
    simp only [List.mem_cons, List.not_mem_nil, or_false] at starts
    rcases starts with rfl | rfl
    · exact ⟨.rotateLeft, rfl, rfl, rfl⟩
    · exact ⟨.left, rfl, rfl, rfl⟩
  have rippled := rippled_of_tasks shifts (congrArg _ direction.symm) some apart
    (List.Subset.refl places) run
  have exact := Shift.results_left_exact (start.incoming (first.status.get .carry))
    (places.map first.byteOf)
  rw [direction, incoming] at rippled
  rw [← rippled.bytes, ← rippled.carry, List.length_map] at exact
  exact exact

/-- To the right, twice the number and the carry below it are what was there, with a bit above. -/
theorem right_exact (starts : start ∈ [.ror, .lsr])
    (run : Interleaved (KeepsPlaces places) Does first (tasks start .ror places.reverse) last) :
    2 * last.numberIn places + (last.status.get .carry).toNat =
      first.numberIn places +
        256 ^ places.length * (start.incoming (first.status.get .carry)).toNat := by
  obtain ⟨move, shifts, direction, incoming⟩ : ∃ move, start.operation = .shift move ∧
      move.rotation = .rotateRight ∧ move.incoming = start.incoming := by
    simp only [List.mem_cons, List.not_mem_nil, or_false] at starts
    rcases starts with rfl | rfl
    · exact ⟨.rotateRight, rfl, rfl, rfl⟩
    · exact ⟨.right, rfl, rfl, rfl⟩
  have rippled := rippled_of_tasks shifts (congrArg _ direction.symm)
    (fun none => some (List.reverse_eq_nil_iff.mp none)) (List.nodup_reverse.mpr apart)
    (fun _ => List.mem_reverse.mp) run
  have exact := Shift.results_right_exact (start.incoming (first.status.get .carry))
    (places.reverse.map first.byteOf)
  rw [direction, incoming] at rippled
  rw [← rippled.bytes, ← rippled.carry, List.length_map, List.length_reverse, ← List.map_reverse,
    ← List.map_reverse, List.reverse_reverse] at exact
  exact exact

end

/-- Any cell can be the next to be moved, where there is room for an instruction elsewhere. -/
theorem exists_does {mnemonic : Mnemonic} (moving : mnemonic ∈ [.asl, .lsr, .rol, .ror])
    (first : Machine) {places : List Operand} {room : UInt16}
    (free : ∀ address ∈ [room, room + 1, room + 1 + 1], .address address ∉ places)
    (target : UInt16) : ∃ before after, KeepsPlaces places first before ∧
      Does (mnemonic, .address target) before after := by
  have opcode : ∃ byte cycles, Opcode.ofByte? byte = some ⟨mnemonic, .absolute, cycles⟩ := by
    simp only [List.mem_cons, List.not_mem_nil, or_false] at moving
    rcases moving with rfl | rfl | rfl | rfl
    · exact ⟨0x0E, 6, rfl⟩
    · exact ⟨0x4E, 6, rfl⟩
    · exact ⟨0x2E, 6, rfl⟩
    · exact ⟨0x6E, 6, rfl⟩
  obtain ⟨byte, cycles, found⟩ := opcode
  let memory := (first.memory.write room byte).writeWord (room + 1) target
  let before := { first with pc := room, initialized := true, memory }
  have apart : room ≠ room + 1 + 1 := by
    intro equal
    have numbers := congrArg UInt16.toNat equal
    have bound := room.toNat_lt
    simp only [UInt16.toNat_add, UInt16.reduceToNat] at numbers
    omega
  have next : before.nextOpcode = byte := by
    show memory.read room = byte
    dsimp only [memory, Memory.writeWord]
    rw [Memory.read_write_other _ _ apart,
      Memory.read_write_other _ _ (ne_add_one room), Memory.read_write_self]
  have operand : before.operand .absolute = .address target :=
    congrArg Operand.address (Memory.readWord_writeWord _ _ _)
  have aboutTo : before.AboutTo mnemonic (.address target) := ⟨rfl, _, next ▸ found, rfl, operand⟩
  obtain ⟨after, performs⟩ := aboutTo.performs
  refine ⟨before, after, { carry := rfl, bytes := fun place member => ?_ }, performs⟩
  cases place with
  | none | accumulator => rfl
  | address address =>
    have outside : ∀ other ∈ [room, room + 1, room + 1 + 1], address ≠ other :=
      fun other taken same => free other taken (same ▸ member)
    show memory.read address = first.memory.read address
    dsimp only [memory, Memory.writeWord]
    rw [Memory.read_write_other _ _ (outside _ (by simp)),
      Memory.read_write_other _ _ (outside _ (by simp)),
      Memory.read_write_other _ _ (outside _ (by simp))]

/-- Cells can be moved in any order, where there is room for an instruction elsewhere. -/
theorem exists_run (work : List (Mnemonic × UInt16))
    (moving : ∀ task ∈ work, task.1 ∈ [.asl, .lsr, .rol, .ror]) (first : Machine)
    {places : List Operand} {room : UInt16}
    (free : ∀ address ∈ [room, room + 1, room + 1 + 1], .address address ∉ places) :
    ∃ last, Interleaved (KeepsPlaces places) Does first
      (work.map fun task => (task.1, .address task.2)) last := by
  induction work generalizing first with
  | nil => exact ⟨first, .nil first⟩
  | cons task rest inductionHypothesis =>
    obtain ⟨movingTask, movingRest⟩ := List.forall_mem_cons.mp moving
    obtain ⟨before, after, kept, done⟩ := exists_does movingTask first free task.2
    obtain ⟨last, others⟩ := inductionHypothesis movingRest after
    exact ⟨last, .cons kept done others⟩

/-- Shifts and rotations of places one after the other move the number in them by one bit, exactly:
from the lowest to the left and from the highest to the right, with a bit coming in from the carry,
or zero if the first instruction is a shift. The carry ends up with the bit that does not fit any
more, and moving the other way then brings back the bytes and the bit that came in. No instruction
on the way is refused, and after each of them Zero and Negative describe the byte it has written. -/
theorem shifts_and_rotations_exact :
    (∀ {machine : Machine} {mnemonic : Mnemonic} {operand : Operand},
      machine.AboutTo mnemonic operand → ∃ after, Performs mnemonic operand machine after) ∧
    (∀ {mnemonic : Mnemonic} {place : Operand} {before after : Machine},
      mnemonic ∈ [.asl, .lsr, .rol, .ror] → Performs mnemonic place before after →
      after.status.get .zero = (after.byteOf place == 0) ∧
        after.status.get .negative = (after.byteOf place &&& 0x80 != 0)) ∧
    ∀ {places : List Operand} {first last : Machine} {start : Mnemonic},
      places ≠ [] → places.Nodup →
      let incoming := start.incoming (first.status.get .carry)
      let value := first.numberIn places
      (start ∈ [.rol, .asl] →
        (Interleaved (KeepsPlaces places) Does first (tasks start .rol places) last →
          last.numberIn places = (2 * value + incoming.toNat) % 256 ^ places.length ∧
            last.status.get .carry = value.testBit (8 * places.length - 1)) ∧
        (Interleaved (KeepsPlaces places) Does first
            (tasks start .rol places ++ tasks .ror .ror places.reverse) last →
          places.map last.byteOf = places.map first.byteOf ∧
            last.status.get .carry = incoming)) ∧
      (start ∈ [.ror, .lsr] →
        (Interleaved (KeepsPlaces places) Does first (tasks start .ror places.reverse) last →
          last.numberIn places = (incoming.toNat * 256 ^ places.length + value) / 2 ∧
            last.status.get .carry = value.testBit 0) ∧
        (Interleaved (KeepsPlaces places) Does first
            (tasks start .ror places.reverse ++ tasks .rol .rol places) last →
          places.map last.byteOf = places.map first.byteOf ∧
            last.status.get .carry = incoming)) := by
  refine ⟨AboutTo.performs, ?_, ?_⟩
  · intro mnemonic place before after member performs
    simp only [List.mem_cons, List.not_mem_nil, or_false] at member
    obtain ⟨move, shifts⟩ : ∃ move, mnemonic.operation = .shift move := by
      rcases member with rfl | rfl | rfl | rfl <;> exact ⟨_, rfl⟩
    exact ⟨(performs.moves shifts).zero, (performs.moves shifts).negative⟩
  · intro places first last start some apart incoming value
    have bytesSome : places.map first.byteOf ≠ [] := fun none => some (List.map_eq_nil_iff.mp none)
    have alike : (places.map last.byteOf).length = (places.map first.byteOf).length := by
      rw [List.length_map, List.length_map]
    have length : places.length = (places.map first.byteOf).length := (List.length_map _).symm
    refine ⟨fun starts => ⟨fun run => ?_, fun run => ?_⟩,
      fun starts => ⟨fun run => ?_, fun run => ?_⟩⟩
    · have exact := left_exact some apart starts run
      rw [length] at exact ⊢
      exact number_of_left_exact alike bytesSome exact
    · obtain ⟨middle, there, back⟩ := run.of_append
      refine eq_of_left_right_exact alike ?_
      exact (right_exact some apart (by decide) back).trans (left_exact some apart starts there)
    · have exact := right_exact some apart starts run
      rw [length] at exact ⊢
      exact number_of_right_exact bytesSome exact
    · obtain ⟨middle, there, back⟩ := run.of_append
      refine eq_of_right_left_exact alike ?_
      rw [← length]
      exact (left_exact some apart (by decide) back).trans (right_exact some apart starts there)

/-- A number across the end of the address space, moved to the left with the carry, to the right
without, and there and back; and a byte in the accumulator that becomes zero. -/
theorem shifts_and_rotations_exact_wrapped :
    let places : List Operand := [.address 0xFFFF, .address 0x0000]
    let first : Machine :=
      { memory := Memory.empty.write 0xFFFF 0xFF, status := Status.initial.set .carry true }
    let single : Machine := { a := 1, initialized := true, memory := Memory.empty.write 0 0x4A }
    (∃ last, Interleaved (KeepsPlaces places) Does first (tasks .rol .rol places) last ∧
      last.numberIn places = 0x01FF ∧ last.status.get .carry = false) ∧
    (∃ last, Interleaved (KeepsPlaces places) Does first (tasks .lsr .ror places.reverse) last ∧
      last.numberIn places = 0x007F ∧ last.status.get .carry = true) ∧
    (∃ last, Interleaved (KeepsPlaces places) Does first
        (tasks .asl .rol places ++ tasks .ror .ror places.reverse) last ∧
      places.map last.byteOf = [0xFF, 0x00] ∧ last.status.get .carry = false) ∧
    ∃ after, Performs .lsr .accumulator single after ∧ after.a = 0 ∧
      after.status.get .carry = true ∧ after.status.get .zero = true := by
  intro places first single
  have free : ∀ address ∈ [(0x0300 : UInt16), 0x0301, 0x0302], .address address ∉ places := by
    simp [places]
  have bytes : places.map first.byteOf = [0xFF, 0x00] := by
    simp [places, first, byteOf, Memory.read_write]
  have value : first.numberIn places = 0x00FF := congrArg number bytes
  obtain ⟨succeeds, describes, laws⟩ := shifts_and_rotations_exact
  refine ⟨?_, ?_, ?_, ?_⟩
  · obtain ⟨last, run⟩ := exists_run [(.rol, 0xFFFF), (.rol, 0x0000)] (by decide) first free
    obtain ⟨result, carry⟩ := ((laws (by decide) (by decide)).1 (by decide)).1 run
    rw [value] at result carry
    exact ⟨last, run, result.trans (by decide), carry.trans (by decide)⟩
  · obtain ⟨last, run⟩ := exists_run [(.lsr, 0x0000), (.ror, 0xFFFF)] (by decide) first free
    obtain ⟨result, carry⟩ := ((laws (by decide) (by decide)).2 (by decide)).1 run
    rw [value] at result carry
    exact ⟨last, run, result.trans (by decide), carry.trans (by decide)⟩
  · obtain ⟨last, run⟩ := exists_run
      [(.asl, 0xFFFF), (.rol, 0x0000), (.ror, 0x0000), (.ror, 0xFFFF)] (by decide) first free
    obtain ⟨restored, carry⟩ := ((laws (by decide) (by decide)).1 (by decide)).2 run
    exact ⟨last, run, restored.trans bytes, carry⟩
  · have next : single.nextOpcode = 0x4A := Memory.read_write_self _ _ _
    have aboutTo : single.AboutTo .lsr .accumulator :=
      ⟨rfl, ⟨.lsr, .accumulator, 2⟩, next ▸ rfl, rfl, rfl⟩
    obtain ⟨after, performs⟩ := succeeds aboutTo
    have kept : KeepsPlaces [.accumulator] single single :=
      { carry := rfl, bytes := fun _ _ => rfl }
    have run : Interleaved (KeepsPlaces [.accumulator]) Does single
      (tasks .lsr .ror [.accumulator]) after := .cons kept performs (.nil after)
    obtain ⟨result, carry⟩ :=
      ((laws (List.cons_ne_nil _ []) (List.nodup_singleton _)).2 (by decide)).1 run
    have one : single.numberIn [.accumulator] = 1 := number_singleton 1
    have accumulator : after.numberIn [.accumulator] = after.a.toNat := number_singleton after.a
    rw [one] at result carry
    rw [accumulator] at result
    have zero : after.a = 0 := UInt8.toNat_inj.mp (result.trans (by decide))
    refine ⟨after, performs, zero, carry.trans (by decide), ?_⟩
    rw [(describes (by decide) performs).1]
    exact beq_iff_eq.mpr zero

end Machine

end Mos6502
