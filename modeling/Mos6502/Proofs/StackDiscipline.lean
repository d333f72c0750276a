/-
This file proves that the stack page behaves like a stack. Pushes and pulls are compared with those
on a list, whose head is the top. As long as the list holds no more than 256 bytes, each of them has
a place of its own in the page, at its depth above the stack pointer, wherever that pointer has gone
round to. One more push takes the place of the oldest byte; a list that forgets its oldest byte at
that point is what the page holds after any calls.
-/

import Mathlib.Data.List.Infix
import Mos6502.Machine.Stack

namespace Mos6502

/-! ### Calls -/

/-- A call of the stack. -/
inductive StackCall where
  /-- Pushes a byte. -/
  | push (value : UInt8)
  /-- Pulls a byte. -/
  | pull

/-- The number of pushes minus the number of pulls. -/
def height : List StackCall → Int
  | [] => 0
  | .push _ :: rest => height rest + 1
  | .pull :: rest => height rest - 1

/-- The bytes that calls pull from a list, and the list after them, unless one of them finds the
list empty. After each push the list is cut to what it keeps. -/
def listRun (keep : List UInt8 → List UInt8) :
    List UInt8 → List StackCall → Option (List UInt8 × List UInt8)
  | held, [] => some ([], held)
  | held, .push value :: rest => listRun keep (keep (value :: held)) rest
  | [], .pull :: _ => none
  | value :: held, .pull :: rest =>
    (listRun keep held rest).map fun result => (value :: result.1, result.2)

/-- The bytes that calls pull from a machine, and the machine after them. -/
def Machine.stackRun (machine : Machine) : List StackCall → List UInt8 × Machine
  | [] => ([], machine)
  | .push value :: rest => (machine.push value).stackRun rest
  | .pull :: rest =>
    let result := machine.pull.2.stackRun rest
    (machine.pull.1 :: result.1, result.2)

/-! ### Lists -/

/-- What calls do to a list, they do above more bytes, too. -/
theorem listRun_above {held last pulled : List UInt8} {calls : List StackCall}
    (run : listRun id held calls = some (pulled, last)) (below : List UInt8) :
    listRun id (held ++ below) calls = some (pulled, last ++ below) := by
  induction calls generalizing held pulled with
  | nil =>
    cases run
    rfl
  | cons call calls inductionHypothesis =>
    cases call with
    | push value =>
      have deeper : listRun id (value :: held) calls = some (pulled, last) := run
      exact inductionHypothesis deeper
    | pull =>
      cases held with
      | nil => cases run
      | cons value held =>
        rw [listRun, Option.map_eq_some_iff] at run
        obtain ⟨⟨later, _⟩, deeper, same⟩ := run
        cases same
        rw [List.cons_append, listRun, inductionHypothesis deeper]
        rfl

/-- Calls that keep the height in range find every byte, and a list that is cut at the limit keeps
all of them. -/
theorem listRun_of_heights {limit : Nat} {held : List UInt8} {calls : List StackCall}
    (range : ∀ before, before <+: calls →
      0 ≤ held.length + height before ∧ held.length + height before ≤ limit) :
    ∃ pulled last, listRun id held calls = some (pulled, last) ∧
      listRun (List.take limit) held calls = some (pulled, last) ∧
      last.length = held.length + height calls := by
  induction calls generalizing held with
  | nil => exact ⟨[], held, rfl, rfl, (Int.add_zero _).symm⟩
  | cons call calls inductionHypothesis =>
    have later (before : List StackCall) (start : before <+: calls) :=
      range (call :: before) (List.prefix_cons_inj call |>.mpr start)
    have first := range [call] (List.prefix_cons_inj call |>.mpr List.nil_prefix)
    cases call with
    | push value =>
      simp only [height] at later first ⊢
      have fits : (value :: held).take limit = value :: held :=
        List.take_of_length_le (by rw [List.length_cons]; omega)
      have deeper (before : List StackCall) (start : before <+: calls) :
          0 ≤ (value :: held).length + height before ∧
            (value :: held).length + height before ≤ limit := by
        have inside := later before start
        rw [List.length_cons]
        omega
      obtain ⟨pulled, last, free, bounded, length⟩ := inductionHypothesis deeper
      refine ⟨pulled, last, free, ?_, ?_⟩
      · rw [listRun, fits]
        exact bounded
      · rw [length, List.length_cons]
        omega
    | pull =>
      simp only [height] at later first ⊢
      cases held with
      | nil =>
        simp only [List.length_nil] at first
        omega
      | cons value held =>
        have deeper (before : List StackCall) (start : before <+: calls) :
            0 ≤ held.length + height before ∧ held.length + height before ≤ limit := by
          have inside := later before start
          rw [List.length_cons] at inside
          omega
        obtain ⟨pulled, last, free, bounded, length⟩ := inductionHypothesis deeper
        refine ⟨value :: pulled, last, ?_, ?_, ?_⟩
        · rw [listRun, free]
          rfl
        · rw [listRun, bounded]
          rfl
        · rw [length, List.length_cons]
          omega

/-- The same from an empty list, whose height is that of the calls. -/
theorem listRun_nil_of_heights {limit : Nat} {calls : List StackCall}
    (range : ∀ before, before <+: calls → 0 ≤ height before ∧ height before ≤ limit) :
    ∃ pulled last, listRun id [] calls = some (pulled, last) ∧
      listRun (List.take limit) [] calls = some (pulled, last) ∧ last.length = height calls := by
  have run := @listRun_of_heights limit [] calls (by simpa using range)
  simpa using run

theorem listRun_pushes (keep : List UInt8 → List UInt8) (held bytes : List UInt8) :
    listRun keep held (bytes.map .push) =
      some ([], bytes.foldl (fun held value => keep (value :: held)) held) := by
  induction bytes generalizing held with
  | nil => rfl
  | cons value bytes inductionHypothesis => exact inductionHypothesis _

/-- A list that is cut at a limit keeps the bytes that were pushed last. -/
theorem foldl_take_cons (limit : Nat) (held bytes : List UInt8) :
    bytes.foldl (fun held value => (value :: held).take limit) (held.take limit) =
      (bytes.reverse ++ held).take limit := by
  induction bytes generalizing held with
  | nil => rfl
  | cons value bytes inductionHypothesis =>
    have cut : (value :: held.take limit).take limit = (value :: held).take limit := by
      cases limit with
      | zero => rfl
      | succ limit => simp [List.take_take]
    rw [List.foldl_cons, cut, inductionHypothesis, List.reverse_cons, List.append_assoc,
      List.singleton_append]

/-! ### The page holds a list -/

theorem sp_add_ofNat_succ (sp : UInt8) (distance : Nat) :
    sp + 1 + .ofNat distance = sp + .ofNat (distance + 1) := by
  rw [UInt8.ofNat_add, UInt8.add_assoc, UInt8.add_comm (.ofNat distance)]
  rfl

/-- Less than once round, one comes to another place. -/
theorem sp_add_ofNat_ne (sp : UInt8) {distance : Nat} (positive : 0 < distance)
    (near : distance < 256) : sp + .ofNat distance ≠ sp := by
  intro same
  have numbers := congrArg UInt8.toNat same
  rw [UInt8.toNat_add, UInt8.toNat_ofNat_of_lt' near] at numbers
  have bound := sp.toNat_lt
  omega

namespace Machine

/-- The bytes of a list lie in the page, each at its depth above the stack pointer. -/
def Holding (machine : Machine) (held : List UInt8) : Prop :=
  ∀ depth value, held[depth]? = some value →
    machine.memory.read (stackAddress (machine.sp + .ofNat (depth + 1))) = value

theorem holding_nil (machine : Machine) : machine.Holding [] :=
  nofun

section

variable {machine : Machine} {held : List UInt8}

/-- A push puts its byte on top; of 256 bytes below it, the oldest loses its place. -/
theorem holding_push (holds : machine.Holding held) (value : UInt8) :
    (machine.push value).Holding ((value :: held).take 256) := by
  intro depth byte found
  rw [List.getElem?_take, Option.ite_none_right_eq_some] at found
  obtain ⟨near, found⟩ := found
  show (machine.memory.write (stackAddress machine.sp) value).read
    (stackAddress (machine.sp - 1 + .ofNat (depth + 1))) = byte
  have place : machine.sp - 1 + .ofNat (depth + 1) = machine.sp + .ofNat depth := by
    rw [← sp_add_ofNat_succ, UInt8.sub_add_cancel]
  rw [place]
  cases depth with
  | zero =>
    cases found
    rw [show UInt8.ofNat 0 = 0 from rfl, UInt8.add_zero, Memory.read_write_self]
  | succ depth =>
    -- The written place comes again 257 above the new pointer, one further than what is kept.
    have apart := mt stackAddress_inj.mp (sp_add_ofNat_ne machine.sp (Nat.succ_pos depth) near)
    rw [Memory.read_write_other _ _ apart]
    exact holds depth byte found

/-- A pull returns the top byte and leaves the others. -/
theorem holding_pull {value : UInt8} (holds : machine.Holding (value :: held)) :
    machine.pull.1 = value ∧ machine.pull.2.Holding held := by
  refine ⟨holds 0 value rfl, ?_⟩
  intro depth byte found
  show machine.memory.read (stackAddress (machine.sp + 1 + .ofNat (depth + 1))) = byte
  rw [sp_add_ofNat_succ]
  exact holds (depth + 1) byte found

/-- Calls pull from a machine what they pull from the list that its page holds. -/
theorem stackRun_of_listRun {calls : List StackCall} {pulled last : List UInt8}
    (holds : machine.Holding held)
    (run : listRun (List.take 256) held calls = some (pulled, last)) :
    (machine.stackRun calls).1 = pulled ∧ (machine.stackRun calls).2.Holding last := by
  induction calls generalizing machine held pulled with
  | nil =>
    cases run
    exact ⟨rfl, holds⟩
  | cons call calls inductionHypothesis =>
    cases call with
    | push value => exact inductionHypothesis (holding_push holds value) run
    | pull =>
      cases held with
      | nil => cases run
      | cons value held =>
        rw [listRun, Option.map_eq_some_iff] at run
        obtain ⟨⟨later, _⟩, deeper, same⟩ := run
        cases same
        obtain ⟨top, rest⟩ := holding_pull holds
        obtain ⟨others, bottom⟩ := inductionHypothesis rest deeper
        exact ⟨List.cons_eq_cons.mpr ⟨top, others⟩, bottom⟩

/-- Calls that never go below a level and come back to it leave the bytes below it in their places,
if the page has room. -/
theorem holding_of_level (holds : machine.Holding held) {between : List StackCall}
    (range : ∀ before, before <+: between →
      0 ≤ height before ∧ held.length + height before ≤ 256)
    (level : height between = 0) : (machine.stackRun between).2.Holding held := by
  have within (before : List StackCall) (start : before <+: between) :
      0 ≤ held.length + height before ∧ held.length + height before ≤ (256 : Nat) := by
    have inside := range before start
    omega
  have alone (before : List StackCall) (start : before <+: between) :
      0 ≤ height before ∧ height before ≤ (256 : Nat) := by
    have inside := range before start
    omega
  obtain ⟨_, last, run, bounded, _⟩ := listRun_of_heights within
  obtain ⟨_, rest, free, _, length⟩ := listRun_nil_of_heights alone
  rw [level] at length
  obtain rfl : rest = [] := List.length_eq_zero_iff.mp (by omega)
  have same : last = held :=
    congrArg Prod.snd (Option.some.inj (run.symm.trans (listRun_above free held)))
  rw [← same]
  exact (stackRun_of_listRun holds bounded).2

end

/-! ### Pushes and pulls -/

section

variable (machine : Machine)

theorem stackRun_append (first second : List StackCall) :
    machine.stackRun (first ++ second) =
      ((machine.stackRun first).1 ++ ((machine.stackRun first).2.stackRun second).1,
        ((machine.stackRun first).2.stackRun second).2) := by
  induction first generalizing machine with
  | nil => rfl
  | cons call first inductionHypothesis =>
    cases call with
    | push value => exact inductionHypothesis _
    | pull =>
      rw [List.cons_append, stackRun, inductionHypothesis]
      rfl

theorem stackRun_pulls (count : Nat) :
    (machine.stackRun (List.replicate count .pull)).1 = (List.range count).map fun depth =>
      machine.memory.read (stackAddress (machine.sp + .ofNat (depth + 1))) := by
  induction count generalizing machine with
  | zero => rfl
  | succ count inductionHypothesis =>
    have later := inductionHypothesis machine.pull.2
    rw [List.replicate_succ, stackRun, later, List.range_succ_eq_map, List.map_cons, List.map_map]
    refine List.cons_eq_cons.mpr ⟨rfl, List.map_congr_left fun depth _ => ?_⟩
    show machine.memory.read (stackAddress (machine.sp + 1 + .ofNat (depth + 1))) = _
    rw [sp_add_ofNat_succ]
    rfl

/-- Of bytes that were pushed, the last 256 are pulled, the latest first, and then they come round
again. -/
theorem stackRun_pushes_pulls {bytes : List UInt8} (many : 256 ≤ bytes.length) {count place : Nat}
    (inside : place < count) :
    (machine.stackRun (bytes.map .push ++ List.replicate count .pull)).1[place]? =
      bytes.reverse[place % 256]? := by
  obtain ⟨silent, holds⟩ := stackRun_of_listRun machine.holding_nil (listRun_pushes _ [] bytes)
  have kept := foldl_take_cons 256 [] bytes
  rw [List.append_nil, List.take_nil] at kept
  rw [kept] at holds
  have round : UInt8.ofNat (place + 1) = .ofNat (place % 256 + 1) := by
    refine UInt8.toNat_inj.mp ?_
    rw [UInt8.toNat_ofNat', UInt8.toNat_ofNat']
    omega
  have near : place % 256 < bytes.reverse.length := by
    rw [List.length_reverse]
    omega
  have found : (bytes.reverse.take 256)[place % 256]? = some bytes.reverse[place % 256] := by
    rw [List.getElem?_take_of_lt (Nat.mod_lt _ (by decide)), List.getElem?_eq_getElem near]
  rw [stackRun_append, silent, List.nil_append, stackRun_pulls, List.getElem?_map,
    List.getElem?_range inside, Option.map_some, round, holds _ _ found,
    List.getElem?_eq_getElem near]

/-! ### The stack pointer and the rest of memory -/

/-- The stack pointer goes down with each push and up with each pull, round the page. -/
theorem sp_stackRun (calls : List StackCall) :
    ((machine.stackRun calls).2.sp.toNat : Int) = (machine.sp.toNat - height calls) % 256 := by
  induction calls generalizing machine with
  | nil =>
    have bound := machine.sp.toNat_lt
    show (machine.sp.toNat : Int) = (machine.sp.toNat - 0) % 256
    omega
  | cons call calls inductionHypothesis =>
    cases call with
    | push value =>
      have down : (machine.push value).sp.toNat = (255 + machine.sp.toNat) % 256 :=
        UInt8.toNat_sub _ _
      rw [stackRun, inductionHypothesis, down, height]
      omega
    | pull =>
      have up : machine.pull.2.sp.toNat = (machine.sp.toNat + 1) % 256 := UInt8.toNat_add _ _
      rw [stackRun, inductionHypothesis, up, height]
      omega

/-- Nothing but the stack pointer and the memory changes. -/
theorem stackRun_eq_with (calls : List StackCall) :
    (machine.stackRun calls).2 = { machine with
      sp := (machine.stackRun calls).2.sp
      memory := (machine.stackRun calls).2.memory } := by
  induction calls generalizing machine with
  | nil => rfl
  | cons call calls inductionHypothesis =>
    cases call with
    | push value => exact inductionHypothesis (machine.push value)
    | pull => exact inductionHypothesis machine.pull.2

/-- No byte outside the page changes. -/
theorem read_stackRun (calls : List StackCall) {address : UInt16}
    (outside : address.toNat < 0x0100 ∨ 0x0200 ≤ address.toNat) :
    (machine.stackRun calls).2.memory.read address = machine.memory.read address := by
  induction calls generalizing machine with
  | nil => rfl
  | cons call calls inductionHypothesis =>
    cases call with
    | push value =>
      have apart : address ≠ stackAddress machine.sp := by
        rintro rfl
        have place := toNat_stackAddress machine.sp
        have bound := machine.sp.toNat_lt
        omega
      rw [stackRun, inductionHypothesis]
      exact Memory.read_write_other _ _ apart
    | pull => exact inductionHypothesis machine.pull.2

end

/-! ### Words -/

/-- A word is pushed as its two bytes, the high one first, and pulled as two bytes, the low one
first. -/
theorem stackRun_pullWord (machine : Machine) :
    machine.stackRun [.pull, .pull] =
      ([lowByte machine.pullWord.1, highByte machine.pullWord.1], machine.pullWord.2) := by
  show ([machine.top, machine.drop.top], machine.drop.drop) =
    ([lowByte (wordOf machine.top machine.drop.top),
      highByte (wordOf machine.top machine.drop.top)], machine.drop.drop)
  rw [lowByte_wordOf, highByte_wordOf]

/-! ### The stack -/

/-- The stack page is a stack. While it holds no more than 256 bytes, calls pull what they pull from
a list, so a pull returns the byte of the last push that is not yet pulled, and a word comes back
from its two bytes. The stack pointer follows the calls round the page, and nothing outside the
page changes. Of more bytes the page keeps the last 256, and they are pulled in reverse order. -/
theorem stack_is_lifo :
    (∀ (machine : Machine) (calls : List StackCall),
      (∀ before, before <+: calls → 0 ≤ height before ∧ height before ≤ 256) →
      ∃ held, listRun id [] calls = some ((machine.stackRun calls).1, held)) ∧
    (∀ (machine : Machine) (value : UInt8) (between : List StackCall),
      (∀ before, before <+: between → 0 ≤ height before ∧ height before ≤ 255) →
      height between = 0 → ((machine.push value).stackRun between).2.pull.1 = value) ∧
    (∀ (machine : Machine) (calls : List StackCall),
      let after := (machine.stackRun calls).2
      (after.sp.toNat : Int) = (machine.sp.toNat - height calls) % 256 ∧
      after = { machine with sp := after.sp, memory := after.memory } ∧
      ∀ address : UInt16, address.toNat < 0x0100 ∨ 0x0200 ≤ address.toNat →
        after.memory.read address = machine.memory.read address) ∧
    (∀ (machine : Machine) (word : UInt16),
      machine.stackRun [.push (highByte word), .push (lowByte word)] =
        ([], machine.pushWord word) ∧
      machine.stackRun [.pull, .pull] =
        ([lowByte machine.pullWord.1, highByte machine.pullWord.1], machine.pullWord.2) ∧
      ∀ between : List StackCall,
        (∀ before, before <+: between → 0 ≤ height before ∧ height before ≤ 254) →
        height between = 0 → ((machine.pushWord word).stackRun between).2.pullWord.1 = word) ∧
    (∀ (machine : Machine) (calls : List StackCall) (pulled held : List UInt8),
      listRun (List.take 256) [] calls = some (pulled, held) →
      (machine.stackRun calls).1 = pulled) ∧
    ∀ (machine : Machine) (bytes : List UInt8) (count place : Nat),
      256 ≤ bytes.length → place < count →
      (machine.stackRun (bytes.map .push ++ List.replicate count .pull)).1[place]? =
        bytes.reverse[place % 256]? := by
  refine ⟨?_, ?_, ?_, ?_, ?_, ?_⟩
  · intro machine calls range
    obtain ⟨pulled, held, free, bounded, _⟩ := @listRun_nil_of_heights 256 calls range
    rw [(stackRun_of_listRun machine.holding_nil bounded).1]
    exact ⟨held, free⟩
  · intro machine value between range level
    have holds : (machine.push value).Holding [value] := holding_push machine.holding_nil value
    refine (holding_pull (holding_of_level holds (fun before start => ?_) level)).1
    have inside := range before start
    rw [List.length_singleton]
    omega
  · exact fun machine calls => ⟨machine.sp_stackRun calls, machine.stackRun_eq_with calls,
      fun _ => machine.read_stackRun calls⟩
  · intro machine word
    refine ⟨rfl, machine.stackRun_pullWord, fun between range level => ?_⟩
    have holds : (machine.pushWord word).Holding [lowByte word, highByte word] :=
      holding_push (holding_push machine.holding_nil (highByte word)) (lowByte word)
    have later := holding_of_level holds (fun before start => by
      have inside := range before start
      rw [List.length_cons, List.length_singleton]
      omega) level
    obtain ⟨low, rest⟩ := holding_pull later
    obtain ⟨high, _⟩ := holding_pull rest
    show wordOf (pull _).1 (pull (pull _).2).1 = word
    rw [low, high, wordOf_lowByte_highByte]
  · exact fun machine calls pulled held run => (stackRun_of_listRun machine.holding_nil run).1
  · exact fun machine bytes count place many inside => machine.stackRun_pushes_pulls many inside

/-- Calls that go round the page, the byte and the word below them, and one byte more than the page
has places. -/
theorem stack_is_lifo_round_the_page :
    let machine : Machine := { memory := Memory.empty, sp := 1 }
    let calls : List StackCall :=
      [.push 1, .push 2, .pull, .push 3, .push 4, .push 5, .pull, .pull, .pull, .pull]
    let bytes : List UInt8 := 9 :: List.replicate 255 0 ++ [7]
    (∀ before, before <+: calls → 0 ≤ height before ∧ height before ≤ 254) ∧
      height calls = 0 ∧
    listRun id [] calls = some ([2, 5, 4, 3, 1], []) ∧
    (machine.stackRun calls).1 = [2, 5, 4, 3, 1] ∧
    ((machine.push 6).stackRun calls).2.pull.1 = 6 ∧
    ((machine.pushWord 0x1234).stackRun calls).2.pullWord.1 = 0x1234 ∧
    (machine.stackRun calls).2.memory.read 0xFFFC = machine.memory.read 0xFFFC ∧
    (machine.stackRun (bytes.map .push ++ [.pull])).1 = [7] ∧
    (machine.stackRun (bytes.map .push ++ List.replicate 300 .pull)).1[256]? = some 7 := by
  intro machine calls bytes
  have each : ∀ before ∈ calls.inits, 0 ≤ height before ∧ height before ≤ 254 := by decide
  have range (before : List StackCall) (start : before <+: calls) :
      0 ≤ height before ∧ height before ≤ 254 := each before ((List.mem_inits _ _).mpr start)
  obtain ⟨lifo, last, frame, words, bounded, deep⟩ := stack_is_lifo
  have wider {limit : Int} (room : 254 ≤ limit) (before : List StackCall)
      (start : before <+: calls) : 0 ≤ height before ∧ height before ≤ limit :=
    ⟨(range before start).1, Int.le_trans (range before start).2 room⟩
  obtain ⟨held, run⟩ := lifo machine calls (wider (by decide))
  have pulled : listRun id [] calls = some ([2, 5, 4, 3, 1], []) := rfl
  have kept : listRun (List.take 256) [] (bytes.map .push ++ [.pull]) =
      some ([7], List.replicate 255 0) := by decide +kernel
  refine ⟨range, rfl, pulled, ?_, ?_, ?_, ?_, ?_, ?_⟩
  · exact (congrArg Prod.fst (Option.some.inj (pulled.symm.trans run))).symm
  · exact last machine 6 calls (wider (by decide)) rfl
  · exact (words machine 0x1234).2.2 calls range rfl
  · exact (frame machine calls).2.2 0xFFFC (Or.inr (by decide))
  · exact bounded machine _ _ _ kept
  · exact (deep machine bytes 300 256 (by decide +kernel) (by decide)).trans
      (by decide +kernel)

end Machine

end Mos6502
