/-
This file proves that three flags can be stored and shown, but steer nothing. Decimal,
Interrupt-disable and Break are bits of the same byte as the flags that branches test and sums
carry; still, of two machines that agree in everything else, each instruction makes two that agree
in everything else. Only the instructions that push the status register let the three be seen, and
then only in the byte that they push.
-/

import Mos6502.Proofs.Course
import Mos6502.Proofs.Lockstep

namespace Mos6502

/-! ### Blind changes -/

/-- What a change does, as far as it is still seen once something is cleared, does not depend on
what is cleared. -/
def Blind {State : Type} (clear change : State → State) : Prop :=
  ∀ state, clear (change state) = clear (change (clear state))

namespace Blind

variable {State : Type} {clear first second : State → State}

/-- Blind changes may be made one after the other. -/
theorem andThen (before : Blind clear first) (after : Blind clear second) :
    Blind clear fun state => second (first state) := by
  intro state
  rw [after (first state), before state, ← after]

/-- What may as well be cleared before a change as after it has nothing to do with the change. -/
theorem of_commutes (twice : ∀ state, clear (clear state) = clear state)
    (commutes : ∀ state, clear (first state) = first (clear state)) : Blind clear first := by
  intro state
  rw [← commutes, twice]

end Blind

/-! ### The flags that steer -/

/-- The flags that no instruction acts on. -/
def Flag.inert : List Flag :=
  [decimal, interruptDisable, brk]

namespace Status

/-- The register with the inert flags clear. -/
def plain (status : Status) : Status :=
  ⟨status.bits &&& 0xE3⟩

@[simp] theorem plain_plain (status : Status) : status.plain.plain = status.plain := by
  rw [plain, plain, UInt8.and_assoc]
  rfl

theorem get_plain (status : Status) {flag : Flag} (steers : flag ∉ Flag.inert) :
    status.plain.get flag = status.get flag := by
  have kept : 0xE3 &&& flag.mask = flag.mask := by
    revert steers
    cases flag <;> decide
  rw [get, plain, UInt8.and_assoc, kept, get]

theorem carryBit_plain (status : Status) : status.plain.carryBit = status.carryBit := by
  rw [carryBit, plain, UInt8.and_assoc, carryBit]
  rfl

theorem plain_set_inert (status : Status) {flag : Flag} (inert : flag ∈ Flag.inert) :
    (status.set flag true).plain = status.plain := by
  have hidden : flag.mask &&& 0xE3 = 0 := by
    revert inert
    cases flag <;> decide
  show Status.mk ((status.bits ||| flag.mask) &&& 0xE3) = _
  rw [or_and_distrib, hidden, UInt8.or_zero, plain]

theorem blind_set (flag : Flag) (on : Bool) : Blind plain (·.set flag on) := by
  intro status
  dsimp only [set]
  split
  · show Status.mk ((status.bits ||| flag.mask) &&& 0xE3) =
      ⟨((status.bits &&& 0xE3) ||| flag.mask) &&& 0xE3⟩
    rw [or_and_distrib, or_and_distrib, UInt8.and_assoc status.bits, UInt8.and_self]
  · split
    · exact status.plain_plain.symm
    · show Status.mk (status.bits &&& ~~~flag.mask &&& 0xE3) =
        ⟨status.bits &&& 0xE3 &&& ~~~flag.mask &&& 0xE3⟩
      rw [UInt8.and_assoc status.bits 0xE3, UInt8.and_comm 0xE3, ← UInt8.and_assoc,
        UInt8.and_assoc _ 0xE3, UInt8.and_self]

theorem blind_updateZeroNegative (result : UInt8) :
    Blind plain (·.updateZeroNegative result) := by
  have zero := blind_set .zero (result == 0)
  have negative := blind_set .negative (result &&& 0x80 != 0)
  have both := zero.andThen negative
  exact both

/-- In a pushed byte two of the inert flags are seen, and Break is not, for it is always set. -/
theorem pushed_and_eq (status : Status) :
    status.pushed &&& 0xF3 = status.plain.bits ||| 0x30 := by
  obtain ⟨bits⟩ := status
  show (bits ||| 0x30) &&& 0xF3 = (bits &&& 0xE3) ||| 0x30
  revert bits
  exact forall_byte (by decide +kernel)

end Status

/-! ### Operations -/

namespace Machine

/-- The machine with the inert flags clear. -/
def plain (machine : Machine) : Machine :=
  machine.mapStatus Status.plain

@[simp] theorem plain_plain (machine : Machine) : machine.plain.plain = machine.plain :=
  congrArg (fun status => { machine with status }) machine.status.plain_plain

/-- A change that has nothing to do with the status register is blind to the inert flags. -/
theorem blind_of_plain {change : Machine → Machine}
    (apart : ∀ machine, (change machine).plain = change machine.plain) : Blind plain change :=
  Blind.of_commutes plain_plain apart

theorem blind_mapStatus {change : Status → Status} (blind : Blind Status.plain change) :
    Blind plain (·.mapStatus change) :=
  fun machine => congrArg (fun status => { machine with status }) (blind machine.status)

theorem blind_loadRegister (register : Register) (value : UInt8) :
    Blind plain (·.loadRegister register value) := by
  have put : Blind plain (·.setRegister register value) := by
    refine blind_of_plain fun machine => ?_
    cases register <;> rfl
  exact put.andThen (blind_mapStatus (Status.blind_updateZeroNegative value))

theorem blind_storeResult (address : UInt16) (result : UInt8) :
    Blind plain (·.storeResult address result) := by
  have stored : Blind plain (·.mapMemory (·.write address result)) :=
    blind_of_plain fun _ => rfl
  exact stored.andThen (blind_mapStatus (Status.blind_updateZeroNegative result))

theorem blind_chargeCrossing : Blind plain chargeCrossing := by
  refine blind_of_plain fun machine => ?_
  unfold chargeCrossing
  split
  next strict => exact (if_pos strict).symm
  next free => exact (if_neg free).symm

theorem blind_branchIf {flag : Flag} (steers : flag ∉ Flag.inert) (wanted : Bool)
    (target : UInt16) : Blind plain (·.branchIf flag wanted target) := by
  refine blind_of_plain fun machine => ?_
  have same : machine.plain.status.get flag = machine.status.get flag :=
    machine.status.get_plain steers
  unfold branchIf
  rw [same]
  by_cases taken : machine.status.get flag = wanted
  · rw [if_pos taken, if_pos taken]
    dsimp only
    by_cases far : machine.timing = .strict ∧ crossesPage machine.pc target
    · have alsoFar : machine.plain.timing = .strict ∧ crossesPage machine.plain.pc target := far
      rw [if_pos far, if_pos alsoFar]
      rfl
    · have alsoNear : ¬(machine.plain.timing = .strict ∧ crossesPage machine.plain.pc target) := far
      rw [if_neg far, if_neg alsoNear]
      rfl
  · rw [if_neg taken, if_neg taken]

theorem register_plain (machine : Machine) (register : Register) :
    machine.plain.register register = machine.register register := by
  cases register <;> rfl

theorem blind_addWithCarry (value : UInt8) : Blind plain (·.addWithCarry value) := by
  intro machine
  dsimp only [addWithCarry]
  rw [show machine.plain.status.carryBit = _ from machine.status.carryBit_plain,
    show machine.plain.a = machine.a from rfl]
  generalize machine.a.toUInt16 + value.toUInt16 + machine.status.carryBit.toUInt16 = sum
  have carry := Status.blind_set .carry (0xFF < sum)
  have overflow := Status.blind_set .overflow
    (~~~(machine.a ^^^ value) &&& (machine.a ^^^ sum.toUInt8) &&& 0x80 != 0)
  have both := (blind_mapStatus (carry.andThen overflow)).andThen
    (blind_loadRegister .a sum.toUInt8)
  exact both machine

theorem blind_compare (register : Register) (value : UInt8) :
    Blind plain (·.compare register value) := by
  intro machine
  dsimp only [compare]
  rw [register_plain]
  have carry := Status.blind_set .carry (value ≤ machine.register register)
  have both := carry.andThen
    (Status.blind_updateZeroNegative (machine.register register - value))
  exact blind_mapStatus both machine

end Machine

theorem Reading.blind_effect (reading : Reading) (value : UInt8) :
    Blind Machine.plain (reading.effect value) := by
  cases reading with
  | load register => exact Machine.blind_loadRegister register value
  | add => exact Machine.blind_addWithCarry value
  | subtract => exact Machine.blind_addWithCarry (~~~value)
  | and => exact fun machine => Machine.blind_loadRegister .a (machine.a &&& value) machine
  | or => exact fun machine => Machine.blind_loadRegister .a (machine.a ||| value) machine
  | xor => exact fun machine => Machine.blind_loadRegister .a (machine.a ^^^ value) machine
  | compare register => exact Machine.blind_compare register value
  | test =>
    intro machine
    have zero := Status.blind_set .zero (machine.a &&& value == 0)
    have negative := Status.blind_set .negative (value &&& 0x80 != 0)
    have overflow := Status.blind_set .overflow (value &&& 0x40 != 0)
    exact Machine.blind_mapStatus ((zero.andThen negative).andThen overflow) machine

namespace Shift

theorem blind_effectAt (shift : Shift) (address : UInt16) :
    Blind Machine.plain (shift.effectAt address) := by
  intro machine
  dsimp only [effectAt]
  rw [show machine.plain.status.carryBit = _ from machine.status.carryBit_plain]
  have carry := Status.blind_set .carry (shift.carries (machine.memory.read address))
  have both := (Machine.blind_mapStatus carry).andThen (Machine.blind_storeResult address
    (shift.result (machine.memory.read address) machine.status.carryBit))
  exact both machine

theorem blind_effectOnAccumulator (shift : Shift) :
    Blind Machine.plain shift.effectOnAccumulator := by
  intro machine
  dsimp only [effectOnAccumulator]
  rw [show machine.plain.status.carryBit = _ from machine.status.carryBit_plain]
  have carry := Status.blind_set .carry (shift.carries machine.a)
  have both := (Machine.blind_mapStatus carry).andThen
    (Machine.blind_loadRegister .a (shift.result machine.a machine.status.carryBit))
  exact both machine

end Shift

/-- The actions that push the status register. -/
def Action.exposing : List Action :=
  [pushStatus, interrupt]

/-- An action that does not push the status register is blind to the inert flags. -/
theorem Machine.blind_act {action : Action} (hidden : action ∉ Action.exposing) :
    Blind plain (·.act action) := by
  cases action with
  | transfer source target =>
    intro machine
    dsimp only [act]
    rw [register_plain]
    exact blind_loadRegister _ _ machine
  | readStackPointer => exact fun machine => blind_loadRegister .x machine.sp machine
  | adjust register delta =>
    intro machine
    dsimp only [act]
    rw [register_plain]
    exact blind_loadRegister _ _ machine
  | assign flag on => exact blind_mapStatus (Status.blind_set flag on)
  | pullAccumulator => exact fun machine => blind_loadRegister .a machine.top machine.drop
  | pullStatus | returnFromInterrupt => exact fun _ => rfl
  | pushStatus | interrupt => exact absurd (by decide) hidden
  | _ => exact blind_of_plain fun _ => rfl

namespace Operation

/-- An operation that does not branch on an inert flag, and does not push the status register, is
blind to the inert flags. -/
theorem blind_effect {operation : Operation}
    (steers : ∀ flag wanted, operation = .branch flag wanted → flag ∉ Flag.inert)
    (hidden : ∀ action, operation = .implied action → action ∉ Action.exposing)
    (operand : Operand) : Blind Machine.plain (operation.effect operand) := by
  have nothing : Blind Machine.plain id := fun machine => machine.plain_plain.symm
  cases operation with
  | read reading =>
    cases operand with
    | address address =>
      intro machine
      have both := Machine.blind_chargeCrossing.andThen
        (reading.blind_effect (machine.memory.read address))
      exact both machine
    | _ => exact nothing
  | store register =>
    cases operand with
    | address address =>
      refine Machine.blind_of_plain fun machine => ?_
      dsimp only [effect]
      rw [Machine.register_plain]
      rfl
    | _ => exact nothing
  | adjust delta =>
    cases operand with
    | address address =>
      exact fun machine =>
        Machine.blind_storeResult address (machine.memory.read address + delta) machine
    | _ => exact nothing
  | shift move =>
    cases operand with
    | address address => exact move.blind_effectAt address
    | accumulator => exact move.blind_effectOnAccumulator
    | none => exact nothing
  | branch flag wanted =>
    cases operand with
    | address target => exact Machine.blind_branchIf (steers flag wanted rfl) wanted target
    | _ => exact nothing
  | implied action =>
    cases operand with
    | none => exact Machine.blind_act (hidden action rfl)
    | _ => exact nothing
  | jump | call => cases operand <;> exact Machine.blind_of_plain fun _ => rfl

theorem penalty_plain {operation : Operation}
    (steers : ∀ flag wanted, operation = .branch flag wanted → flag ∉ Flag.inert)
    (operand : Operand) (machine : Machine) :
    operation.penalty operand machine.plain = operation.penalty operand machine := by
  cases operation with
  | branch flag wanted =>
    cases operand with
    | address target =>
      dsimp only [penalty]
      rw [show machine.plain.status.get flag = _ from
        machine.status.get_plain (steers flag wanted rfl)]
      rfl
    | _ => rfl
  | _ => cases operand <;> rfl

end Operation

/-! ### Instructions -/

namespace Mnemonic

/-- The instructions that push the status register. -/
def exposing : List Mnemonic :=
  [php, brk]

theorem not_mem_inert_of_branch {mnemonic : Mnemonic} {flag : Flag} {wanted : Bool}
    (branches : mnemonic.operation = .branch flag wanted) : flag ∉ Flag.inert := by
  cases mnemonic <;> cases branches <;> decide

theorem not_mem_exposing_of_implied {mnemonic : Mnemonic} {action : Action}
    (hidden : mnemonic ∉ exposing) (acts : mnemonic.operation = .implied action) :
    action ∉ Action.exposing := by
  revert hidden
  cases mnemonic <;> cases acts <;> decide

end Mnemonic

namespace Machine

open Processor

theorem operand_plain (machine : Machine) (mode : Mode) :
    machine.plain.operand mode = machine.operand mode := by
  cases mode <;> rfl

theorem plain_executed (machine : Machine) {opcode : Opcode}
    (hidden : opcode.mnemonic ∉ Mnemonic.exposing) :
    (machine.executed opcode).plain = (machine.plain.executed opcode).plain := by
  rw [executed, executed, operand_plain]
  exact Operation.blind_effect (fun _ _ => Mnemonic.not_mem_inert_of_branch)
    (fun _ => Mnemonic.not_mem_exposing_of_implied hidden) _ _

/-- What an instruction costs does not depend on the inert flags. -/
theorem cost_plain (machine : Machine) (opcode : Opcode) :
    machine.plain.cost opcode = machine.cost opcode := by
  rw [cost, penalty_executed, operand_plain, cost, penalty_executed]
  exact congrArg _ (Operation.penalty_plain (fun _ _ => Mnemonic.not_mem_inert_of_branch) _
    (machine.fetch.clearPenalties.advance opcode.mode))

/-- Two machines agree in all but the inert flags. -/
def Agree (first second : Machine) : Prop :=
  first.plain = second.plain

/-- Machines that agree step alike, unless the instruction pushes the status register. -/
theorem step_agree {first second : Machine} (agree : Agree first second)
    (hidden : ∀ cost after opcode, first.step = .ok cost after →
      Opcode.ofByte? first.nextOpcode = some opcode → opcode.mnemonic ∉ Mnemonic.exposing) :
    Alike (· = ·) Agree first.step second.step := by
  have same : first.plain = second.plain := agree
  have sameReady : first.initialized = second.initialized := (congrArg initialized same :)
  have samePC : first.pc = second.pc := (congrArg pc same :)
  have sameOpcode : first.nextOpcode = second.nextOpcode := (congrArg nextOpcode same :)
  rcases first.step_cases with ⟨off, refused⟩ | ⟨on, unknown, refused⟩ | ⟨on, opcode, found, done⟩
  · rw [refused, step_of_not_initialized (sameReady ▸ off)]
    exact Alike.error agree
  · rw [refused, step_of_undocumented (sameReady ▸ on) (sameOpcode ▸ unknown), sameOpcode, samePC]
    exact Alike.error (congrArg fetch same)
  · have sameCost : first.cost opcode = second.cost opcode := by
      rw [← first.cost_plain, same, second.cost_plain]
    have sameEffect : (first.executed opcode).plain = (second.executed opcode).plain := by
      have quiet := hidden _ _ opcode done found
      rw [first.plain_executed quiet, same, second.plain_executed quiet]
    rw [done, step_of_opcode (sameReady ▸ on) (sameOpcode ▸ found)]
    refine Alike.ok sameCost ?_
    show (first.executed opcode).plain.count (first.cost opcode) =
      (second.executed opcode).plain.count (second.cost opcode)
    rw [sameEffect, sameCost]

/-! ### Runs -/

/-- No instruction that is executed in a number of steps pushes the status register. -/
def Discreet (machine : Machine) (count : Nat) : Prop :=
  ∀ index < count, ∀ state cost after opcode, stateAt? machine index = some state →
    state.step = .ok cost after → Opcode.ofByte? state.nextOpcode = some opcode →
      opcode.mnemonic ∉ Mnemonic.exposing

/-- Machines that agree run alike, as long as the status register is not pushed. -/
theorem steps_agree {first second : Machine} (agree : Agree first second) {count : Nat}
    (discreet : first.Discreet count) :
    Alike (· = ·) Agree (steps count first) (steps count second) := by
  induction count generalizing first second with
  | zero => exact Alike.ok rfl agree
  | succ count inductionHypothesis =>
    have start := step_agree agree fun cost after opcode =>
      discreet 0 (Nat.succ_pos _) first cost after opcode rfl
    cases stepped : first.step with
    | error fault left =>
      obtain ⟨otherLeft, refused, same⟩ := (stepped ▸ start).of_error
      rw [steps_succ_of_refused (σ := Machine) stepped,
        steps_succ_of_refused (σ := Machine) refused]
      exact Alike.error same
    | ok cost next =>
      obtain ⟨_, otherNext, done, rfl, same⟩ := (stepped ▸ start).of_ok
      -- The steps of the next state are those of this one, counted from the second on.
      have rest : Alike (· = ·) Agree (steps count next) (steps count otherNext) := by
        refine inductionHypothesis same fun index less state _ _ _ here => ?_
        refine discreet (index + 1) (Nat.succ_lt_succ less) state _ _ _ ?_
        rw [stateAt?_succ_of_step (σ := Machine) stepped, here]
      rw [steps_succ_of_step (σ := Machine) stepped, steps_succ_of_step (σ := Machine) done]
      generalize steps count next = result at rest ⊢
      generalize steps count otherNext = otherResult at rest ⊢
      cases rest with
      | ok sameCosts last => exact Alike.ok (congrArg (cost :: ·) sameCosts) last
      | error left => exact Alike.error left

/-! ### Instructions that push the status register -/

/-- What an action that pushes the status register does apart from that register, if it pushes the
given byte. -/
def pushing (machine : Machine) (action : Action) (byte : UInt8) : Machine :=
  match action with
  | .interrupt => ((machine.pushWord (machine.pc + 1)).push byte).goTo
      (machine.memory.readWord Memory.interruptVector)
  | _ => machine.push byte

/-- Where an action that pushes the status register puts its byte. -/
def pushedAt (machine : Machine) (action : Action) : UInt16 :=
  match action with
  | .interrupt => stackAddress (machine.sp - 2)
  | _ => stackAddress machine.sp

/-- Writing over the pushed byte is as good as pushing another one. -/
theorem write_pushing (machine : Machine) (action : Action) (first last : UInt8) :
    (machine.pushing action first).write (machine.pushedAt action) last =
      machine.pushing action last := by
  have covers (pushed : Machine) : (pushed.push first).write (stackAddress pushed.sp) last =
      pushed.push last :=
    congrArg (fun memory => { pushed with sp := pushed.sp - 1, memory })
      (pushed.memory.write_write _ first last)
  cases action with
  | interrupt =>
    have top := covers (machine.pushWord (machine.pc + 1))
    rw [show (machine.pushWord (machine.pc + 1)).sp = machine.sp - 1 - 1 from rfl,
      sub_one_sub_one] at top
    exact congrArg (·.goTo (machine.memory.readWord Memory.interruptVector)) top
  | _ => exact covers machine

theorem plain_act_of_pushes (machine : Machine) {action : Action}
    (pushes : action ∈ Action.exposing) :
    (machine.act action).plain = machine.plain.pushing action machine.status.pushed := by
  simp only [Action.exposing, List.mem_cons, List.not_mem_nil, or_false] at pushes
  rcases pushes with rfl | rfl
  · rfl
  · have course : machine.interrupt =
        (((machine.pushWord (machine.pc + 1)).push machine.status.pushed).mapStatus
          (·.set .interruptDisable true)).goTo machine.interrupt.pc := rfl
    have hidden : (machine.status.set .interruptDisable true).plain = machine.status.plain :=
      machine.status.plain_set_inert (by decide)
    rw [act, course, machine.pc_interrupt]
    exact congrArg (fun status =>
      (({ machine with status }.pushWord (machine.pc + 1)).push machine.status.pushed).goTo
        (machine.memory.readWord Memory.interruptVector)) hidden

section

variable {machine : Machine} {opcode : Opcode} {action : Action}
  (found : Opcode.ofByte? machine.nextOpcode = some opcode)
  (acts : opcode.mnemonic.operation = .implied action)
  (pushes : action ∈ Action.exposing)

include found acts pushes

theorem plain_stepped_of_pushes : (machine.stepped opcode).plain =
    ((machine.plain.fetch.clearPenalties.advance .implied).pushing action
      machine.status.pushed).count (machine.cost opcode) := by
  show (machine.executed opcode).plain.count _ = _
  rw [(executed_of_action found acts).2, plain_act_of_pushes _ pushes]
  rfl

/-- Afterwards the pushed byte may be replaced by that of another machine. -/
theorem plain_write_stepped_of_pushes (byte : UInt8) :
    ((machine.stepped opcode).write (machine.pushedAt action) byte).plain =
      ((machine.plain.fetch.clearPenalties.advance .implied).pushing action byte).count
        (machine.cost opcode) := by
  let start := machine.plain.fetch.clearPenalties.advance .implied
  have place : machine.pushedAt action = start.pushedAt action := by
    cases action <;> rfl
  show (machine.stepped opcode).plain.write (machine.pushedAt action) byte = _
  rw [plain_stepped_of_pushes found acts pushes, place]
  exact congrArg (·.count (machine.cost opcode)) (start.write_pushing action _ byte)

theorem read_stepped_of_pushes :
    (machine.stepped opcode).memory.read (machine.pushedAt action) = machine.status.pushed := by
  have unchanged := (plain_write_stepped_of_pushes found acts pushes machine.status.pushed).trans
    (plain_stepped_of_pushes found acts pushes).symm
  have kept : ((machine.stepped opcode).write (machine.pushedAt action)
      machine.status.pushed).memory = (machine.stepped opcode).memory :=
    (congrArg memory unchanged :)
  rw [← kept]
  exact Memory.read_write_self _ _ _

/-- A machine that agrees with this one still does after an instruction that pushes the status
register, in all but the pushed byte, and that differs in no more than two of its bits. -/
theorem step_agree_of_pushes {other : Machine} (agree : Agree machine other)
    (on : machine.initialized = true) :
    ∃ cost after otherAfter byte,
      machine.step = .ok cost after ∧ other.step = .ok cost otherAfter ∧
      Agree (after.write (machine.pushedAt action) byte) otherAfter ∧
      byte &&& 0xF3 = after.memory.read (machine.pushedAt action) &&& 0xF3 := by
  have same : machine.plain = other.plain := agree
  have sameReady : machine.initialized = other.initialized := (congrArg initialized same :)
  have sameOpcode : machine.nextOpcode = other.nextOpcode := (congrArg nextOpcode same :)
  have otherFound : Opcode.ofByte? other.nextOpcode = some opcode := sameOpcode ▸ found
  have sameCost : machine.cost opcode = other.cost opcode := by
    rw [← machine.cost_plain, same, other.cost_plain]
  refine ⟨_, _, other.stepped opcode, other.status.pushed, step_of_opcode on found, ?_, ?_, ?_⟩
  · rw [sameCost]
    exact step_of_opcode (sameReady ▸ on) otherFound
  · exact (plain_write_stepped_of_pushes found acts pushes _).trans
      (same ▸ sameCost ▸ (plain_stepped_of_pushes otherFound acts pushes).symm)
  · rw [read_stepped_of_pushes found acts pushes, Status.pushed_and_eq, Status.pushed_and_eq]
    exact congrArg (fun plain => plain.status.bits ||| 0x30) same.symm

end

/-! ### Inert flags -/

/-- Decimal, Interrupt-disable and Break are inert. Two machines that agree in everything else run
alike for any number of steps among which none pushes the status register: after each of them both
stand before the same instruction and agree again, at the same costs, or both were refused at the
same step with the same fault. So sums and differences and the flags that describe them are the
same, whatever Decimal is. An instruction that pushes the status register makes two machines that
agree as well, in all but the byte on the stack, and that differs in bits 2 and 3 only. -/
theorem inert_flags {first second : Machine} (agree : Agree first second) :
    (∀ count, first.Discreet count → ∀ index ≤ count,
      Alike (· = ·) Agree (steps index first) (steps index second) ∧
      (stateAt? first index).map (fun state => (state.pc, state.nextOpcode)) =
        (stateAt? second index).map fun state => (state.pc, state.nextOpcode)) ∧
    (∀ opcode, first.initialized = true → Opcode.ofByte? first.nextOpcode = some opcode →
      opcode.mnemonic ∈ [.adc, .sbc] →
      ∃ cost after otherAfter, first.step = .ok cost after ∧ second.step = .ok cost otherAfter ∧
        after.a = otherAfter.a ∧ ∀ flag ∈ [.negative, .overflow, .zero, .carry],
          after.status.get flag = otherAfter.status.get flag) ∧
    ∀ opcode, first.initialized = true → Opcode.ofByte? first.nextOpcode = some opcode →
      opcode.mnemonic ∈ [.php, .brk] →
      ∃ place, place = stackAddress (if opcode.mnemonic = .php then first.sp else first.sp - 2) ∧
        ∃ cost after otherAfter byte, first.step = .ok cost after ∧
          second.step = .ok cost otherAfter ∧ Agree (after.write place byte) otherAfter ∧
          byte &&& 0xF3 = after.memory.read place &&& 0xF3 := by
  refine ⟨?_, ?_, ?_⟩
  · intro count discreet index few
    have alike : Alike (· = ·) Agree (steps index first) (steps index second) :=
      steps_agree agree fun earlier less =>
        discreet earlier (Nat.lt_of_lt_of_le less few)
    refine ⟨alike, ?_⟩
    unfold stateAt?
    generalize steps index first = result at alike ⊢
    generalize steps index second = otherResult at alike ⊢
    cases alike with
    | @ok _ _ last otherLast _ same =>
      have plain : last.plain = otherLast.plain := same
      exact congrArg some (congrArg (fun plain => (plain.pc, plain.nextOpcode)) plain :)
    | error _ => rfl
  · intro opcode on found sums
    have hidden : opcode.mnemonic ∉ Mnemonic.exposing := by
      simp only [List.mem_cons, List.not_mem_nil, or_false] at sums
      rcases sums with adc | sbc
      · rw [adc]
        decide
      · rw [sbc]
        decide
    have done := step_of_opcode on found
    have alike := step_agree agree fun _ _ other _ otherFound =>
      Option.some_inj.mp (found.symm.trans otherFound) ▸ hidden
    obtain ⟨_, otherAfter, otherDone, rfl, same⟩ := (done ▸ alike).of_ok
    refine ⟨_, _, otherAfter, done, otherDone, (congrArg a same :), ?_⟩
    intro flag describes
    have steers : flag ∉ Flag.inert := by
      revert flag
      decide
    rw [← Status.get_plain _ steers, ← otherAfter.status.get_plain steers]
    exact congrArg (fun plain => plain.status.get flag) same
  · intro opcode on found pushes
    simp only [List.mem_cons, List.not_mem_nil, or_false] at pushes
    rcases pushes with php | brk
    · rw [php]
      exact ⟨_, rfl, step_agree_of_pushes found (congrArg Mnemonic.operation php) (by decide) agree
        on⟩
    · rw [brk]
      exact ⟨_, rfl, step_agree_of_pushes found (congrArg Mnemonic.operation brk) (by decide) agree
        on⟩

/-- One and nine make ten with Decimal set, too, and not sixteen. After the sum comes the same
instruction; it pushes the status register, as a byte that is the same outside of bits 2 and 3. -/
theorem inert_flags_sum :
    let machine : Machine :=
      { a := 1, initialized := true, memory := Memory.empty.writeRange 0 [0x69, 0x09, 0x08] }
    machine.Discreet 1 ∧
    ∃ cost between, (machine.setFlag .decimal true).step = .ok cost between ∧ between.a = 10 ∧
      between.pc = 2 ∧ between.nextOpcode = 0x08 ∧
      ∃ cost after, between.step = .ok cost after ∧ after.memory.read 0x0100 &&& 0xF3 = 0x30 := by
  intro machine
  have agree : Agree machine (machine.setFlag .decimal true) := by
    have hidden : (machine.status.set .decimal true).plain = machine.status.plain :=
      machine.status.plain_set_inert (by decide)
    exact congrArg (fun status => { machine with status }) hidden.symm
  obtain ⟨adcByte, summand, phpByte⟩ : machine.memory.read 0 = 0x69 ∧
      machine.memory.read 1 = 9 ∧ machine.memory.read 2 = 0x08 := by
    simp [machine, Memory.writeRange, Memory.read_write]
  have adc : Opcode.ofByte? machine.nextOpcode = some ⟨.adc, .immediate, 2⟩ :=
    congrArg Opcode.ofByte? adcByte
  let summed := machine.stepped ⟨.adc, .immediate, 2⟩
  have stepped : machine.step = .ok _ summed := step_of_opcode rfl adc
  have sum : summed.a = 10 ∧ summed.status = .initial := by
    show ((machine.addWithCarry (machine.memory.read 1)).a = 10 ∧
      (machine.addWithCarry (machine.memory.read 1)).status = .initial)
    rw [summand]
    decide
  have there : summed.pc = 2 := by decide
  have next : summed.nextOpcode = 0x08 := by
    have kept : summed.memory = machine.memory := rfl
    rw [nextOpcode, there, kept, phpByte]
  have discreet : machine.Discreet 1 := by
    intro index less state _ _ opcode here _ found
    obtain rfl := Nat.lt_one_iff.mp less
    obtain rfl : machine = state := Option.some.inj here
    obtain rfl := Option.some.inj (adc.symm.trans found)
    decide
  obtain ⟨run, sums, _⟩ := inert_flags agree
  obtain ⟨_, _, between, done, otherDone, same, _⟩ := sums _ rfl adc (by decide)
  cases done.symm.trans stepped
  obtain ⟨alike, place⟩ := run 1 discreet 1 (Nat.le_refl 1)
  rw [stateAt?_succ_of_step (σ := Machine) stepped, stateAt?_succ_of_step (σ := Machine) otherDone]
    at place
  obtain ⟨pc, opcode⟩ := Prod.mk.inj (Option.some.inj place)
  rw [steps_succ_of_step (σ := Machine) stepped, steps_succ_of_step (σ := Machine) otherDone]
    at alike
  cases alike with | ok _ agreeLater =>
  have php : Opcode.ofByte? summed.nextOpcode = some ⟨.php, .implied, 3⟩ :=
    congrArg Opcode.ofByte? next
  obtain ⟨_, _, pushes⟩ := inert_flags agreeLater
  obtain ⟨place, rfl, _, after, otherAfter, byte, pushed, otherPushed, agreeAfter, bits⟩ :=
    pushes _ rfl php (by decide)
  cases pushed.symm.trans (step_of_opcode rfl php)
  have top : (summed.stepped ⟨.php, .implied, 3⟩).memory.read 0x0100 = 0x30 := by
    have place : summed.pushedAt .pushStatus = 0x0100 := by decide
    rw [← place, read_stepped_of_pushes php rfl (by decide), sum.2]
    rfl
  have held : otherAfter.memory.read 0x0100 = byte :=
    (congrArg (·.memory.read 0x0100) agreeAfter.symm :).trans (Memory.read_write_self _ _ _)
  refine ⟨discreet, _, between, otherDone, same.symm.trans sum.1, pc.symm.trans there,
    opcode.symm.trans next, _, otherAfter, otherPushed, ?_⟩
  rw [held]
  exact bits.trans (congrArg (· &&& 0xF3) top)

end Machine

end Mos6502
