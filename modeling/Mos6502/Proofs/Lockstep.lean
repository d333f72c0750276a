/-
This file proves that timing and bookkeeping never leak into execution. What an instruction does to
registers and memory, and whether it is refused, is a function of the registers and the memory
alone: it can be computed on a bare machine, which has noted nothing so far. What it costs depends
on the timing as well, and on nothing else. So two machines with the same registers and memory run
in lockstep, whatever they count and whatever they have counted before.
-/

import Mathlib.Data.List.Forall2
import Mos6502.Proofs.Run

namespace Mos6502

/-! ### Lockstep -/

/-- Two computations end alike: with related values and states, or with the same fault and related
states. -/
inductive Alike {α σ : Type} (values : α → α → Prop) (states : σ → σ → Prop) :
    EStateM.Result Fault σ α → EStateM.Result Fault σ α → Prop where
  /-- Both succeed. -/
  | ok {firstValue secondValue : α} {first second : σ} (value : values firstValue secondValue)
    (state : states first second) :
    Alike values states (.ok firstValue first) (.ok secondValue second)
  /-- Both are refused. -/
  | error {fault : Fault} {first second : σ} (state : states first second) :
    Alike values states (.error fault first) (.error fault second)

namespace Alike

variable {α β σ : Type} {values : α → α → Prop} {results : β → β → Prop} {states : σ → σ → Prop}
  {result : EStateM.Result Fault σ α}

/-- What ends like a success is a success. -/
theorem of_ok {value : α} {state : σ} (alike : Alike values states (.ok value state) result) :
    ∃ otherValue otherState, result = .ok otherValue otherState ∧ values value otherValue ∧
      states state otherState := by
  cases alike with
  | ok sameValue sameState => exact ⟨_, _, rfl, sameValue, sameState⟩

/-- What ends like a refusal is the same refusal. -/
theorem of_error {fault : Fault} {state : σ}
    (alike : Alike values states (.error fault state) result) :
    ∃ otherState, result = .error fault otherState ∧ states state otherState := by
  cases alike with
  | error sameState => exact ⟨_, rfl, sameState⟩

/-- What begins alike and goes on alike ends alike. -/
theorem bind {start otherStart : EStateM Fault σ α}
    {rest otherRest : α → EStateM Fault σ β} {first second : σ}
    (starts : Alike values states (start first) (otherStart second))
    (goesOn : ∀ value otherValue state otherState, values value otherValue →
      states state otherState →
        Alike results states (rest value state) (otherRest otherValue otherState)) :
    Alike results states ((start >>= rest) first) ((otherStart >>= otherRest) second) := by
  show Alike results states (EStateM.bind start rest first)
    (EStateM.bind otherStart otherRest second)
  unfold EStateM.bind
  cases firstStart : start first with
  | ok value state =>
    rw [firstStart] at starts
    obtain ⟨otherValue, otherState, secondStart, sameValue, sameState⟩ := starts.of_ok
    rw [secondStart]
    exact goesOn value otherValue state otherState sameValue sameState
  | error fault state =>
    rw [firstStart] at starts
    obtain ⟨otherState, secondStart, sameState⟩ := starts.of_error
    rw [secondStart]
    exact Alike.error sameState

end Alike

/-- Where single steps from related states end alike, so do any number of steps. -/
theorem Processor.steps_alike {σ : Type} [Processor σ] {costs : UInt8 → UInt8 → Prop}
    {states : σ → σ → Prop}
    (stepAlike : ∀ first second : σ, states first second →
      Alike costs states (step first) (step second))
    (count : Nat) {first second : σ} (related : states first second) :
    Alike (List.Forall₂ costs) states (steps count first) (steps count second) := by
  induction count generalizing first second with
  | zero => exact Alike.ok List.Forall₂.nil related
  | succ count inductionHypothesis =>
    refine (stepAlike first second related).bind fun _ _ _ _ cost next => ?_
    refine (inductionHypothesis next).bind fun _ _ _ _ others last => ?_
    exact Alike.ok (List.Forall₂.cons cost others) last

/-! ### Registers and memory -/

/-- What instructions work on. -/
structure Core where
  /-- The accumulator. -/
  a : UInt8
  /-- The X index register. -/
  x : UInt8
  /-- The Y index register. -/
  y : UInt8
  /-- The stack pointer. -/
  sp : UInt8
  /-- The program counter. -/
  pc : UInt16
  /-- The status register. -/
  status : Status
  /-- Whether the program counter was ever loaded from the reset vector. -/
  initialized : Bool
  /-- The memory. -/
  memory : Memory

/-- The part of the machine that instructions work on. -/
def Machine.core (machine : Machine) : Core where
  a := machine.a
  x := machine.x
  y := machine.y
  sp := machine.sp
  pc := machine.pc
  status := machine.status
  initialized := machine.initialized
  memory := machine.memory

/-- The machine that has counted and noted nothing so far. -/
def Core.bare (core : Core) (timing : Timing) : Machine where
  a := core.a
  x := core.x
  y := core.y
  sp := core.sp
  pc := core.pc
  status := core.status
  initialized := core.initialized
  timing := timing
  memory := core.memory

section Bare

variable (machine : Machine) (timing : Timing)

theorem Machine.core_loadRegister (register : Register) (value : UInt8) :
    (machine.loadRegister register value).core =
      ((machine.core.bare timing).loadRegister register value).core := by
  cases register <;> rfl

theorem Machine.core_chargeCrossing : machine.chargeCrossing.core = machine.core := by
  unfold Machine.chargeCrossing
  split <;> rfl

theorem Machine.core_branchIf (flag : Flag) (wanted : Bool) (target : UInt16) :
    (machine.branchIf flag wanted target).core =
      if machine.status.get flag = wanted then (machine.goTo target).core else machine.core := by
  unfold Machine.branchIf
  split
  · dsimp only
    split <;> rfl
  · rfl

theorem Machine.core_act (action : Action) :
    (machine.act action).core = ((machine.core.bare timing).act action).core := by
  cases action with
  | transfer source target => cases source <;> cases target <;> rfl
  | adjust register delta => cases register <;> rfl
  | _ => rfl

theorem Reading.core_effect (reading : Reading) (value : UInt8) :
    (reading.effect value machine).core =
      (reading.effect value (machine.core.bare timing)).core := by
  cases reading with
  | load register => exact machine.core_loadRegister timing register value
  | compare register => cases register <;> rfl
  | _ => rfl

/-- What an operation does to registers and memory depends on registers and memory only. -/
theorem Operation.core_effect (operation : Operation) (operand : Operand) :
    (operation.effect operand machine).core =
      (operation.effect operand (machine.core.bare timing)).core := by
  cases operation with
  | read reading =>
    cases operand with
    | address address =>
      have charged (charging : Machine) (value : UInt8) :
          (reading.effect value charging.chargeCrossing).core =
            (reading.effect value (charging.core.bare timing)).core := by
        rw [reading.core_effect _ timing, charging.core_chargeCrossing]
      exact (charged machine _).trans (charged (machine.core.bare timing) _).symm
    | _ => rfl
  | store register =>
    cases operand with
    | address address => cases register <;> rfl
    | _ => rfl
  | branch flag wanted =>
    cases operand with
    | address target =>
      rw [effect, machine.core_branchIf, effect, Machine.core_branchIf]
      rfl
    | _ => rfl
  | implied action =>
    cases operand with
    | none => exact machine.core_act timing action
    | _ => rfl
  | _ => cases operand <;> rfl

theorem Machine.operand_bare (mode : Mode) :
    (machine.core.bare timing).operand mode = machine.operand mode := by
  cases mode <;> rfl

theorem Machine.core_executed (opcode : Opcode) :
    (machine.executed opcode).core = ((machine.core.bare timing).executed opcode).core := by
  rw [executed, Operation.core_effect _ timing, executed, machine.operand_bare,
    Operation.core_effect ((machine.core.bare timing).fetch.clearPenalties.advance _) timing]
  rfl

/-- What an instruction costs depends on registers, memory and timing only. -/
theorem Machine.cost_bare (opcode : Opcode) :
    (machine.core.bare machine.timing).cost opcode = machine.cost opcode := by
  rw [cost, cost, penalty_executed, penalty_executed, machine.operand_bare]
  cases opcode.mode <;> rfl

end Bare

/-! ### Costs -/

/-- In strict timing an operation takes the cycles of base timing, or one more. -/
theorem Operation.penalty_strict (operation : Operation) (operand : Operand) (machine : Machine) :
    let base := operation.penalty operand (machine.setTiming .base)
    let strict := operation.penalty operand (machine.setTiming .strict)
    strict = base ∨ strict = base + 1 := by
  cases operation with
  | read reading =>
    cases operand with
    | address address =>
      cases crossed : machine.pageCrossed with
      | false => exact Or.inl (by simp [penalty, Machine.setTiming, crossed])
      | true => exact Or.inr (by simp [penalty, Machine.setTiming, crossed])
    | _ => exact Or.inl rfl
  | branch flag wanted =>
    cases operand with
    | address target =>
      by_cases taken : machine.status.get flag = wanted
      · cases far : crossesPage machine.pc target with
        | false => exact Or.inl (by simp [penalty, Machine.setTiming, taken, far])
        | true => exact Or.inr (by simp [penalty, Machine.setTiming, taken, far])
      · exact Or.inl (by simp [penalty, Machine.setTiming, taken])
    | _ => exact Or.inl rfl
  | _ => cases operand <;> exact Or.inl rfl

namespace Machine

open Processor

/-- An instruction that costs so much in base timing costs so much in strict timing, or one more. -/
theorem cost_strict {core : Core} {opcode : Opcode}
    (found : Opcode.ofByte? (core.bare .base).nextOpcode = some opcode) :
    let base := ((core.bare .base).cost opcode).toNat
    let strict := ((core.bare .strict).cost opcode).toNat
    strict = base ∨ strict = base + 1 := by
  intro base strict
  obtain ⟨baseSum, _, baseSmall⟩ := toNat_cost found
  obtain ⟨strictSum, _, _⟩ :=
    toNat_cost (show Opcode.ofByte? (core.bare .strict).nextOpcode = some opcode from found)
  have penalties : ((core.bare .strict).executed opcode).penalty =
        ((core.bare .base).executed opcode).penalty ∨
      ((core.bare .strict).executed opcode).penalty =
        ((core.bare .base).executed opcode).penalty + 1 := by
    rw [penalty_executed, penalty_executed]
    exact opcode.mnemonic.operation.penalty_strict _
      ((core.bare .base).fetch.clearPenalties.advance opcode.mode)
  rcases penalties with same | more
  · rw [same] at strictSum
    exact Or.inl (strictSum.trans baseSum.symm)
  · rw [more, UInt8.toNat_add] at strictSum
    have one : (1 : UInt8).toNat = 1 := rfl
    omega

/-- Two machines, counting in two ways, have the same registers and memory. -/
structure Paired (firstTiming secondTiming : Timing) (first second : Machine) : Prop where
  /-- They agree in what instructions work on. -/
  core : first.core = second.core
  /-- The first counts in the first way. -/
  firstCounts : first.timing = firstTiming
  /-- The second counts in the second way. -/
  secondCounts : second.timing = secondTiming

/-- What one instruction can cost in two ways of counting: the same in the same way, and in strict
timing the same as in base timing or one more. -/
def Comparable (firstTiming secondTiming : Timing) (firstCost secondCost : UInt8) : Prop :=
  (firstTiming = secondTiming → firstCost = secondCost) ∧
    (firstTiming = .base → secondTiming = .strict →
      secondCost.toNat = firstCost.toNat ∨ secondCost.toNat = firstCost.toNat + 1)

theorem comparable_cost {firstTiming secondTiming : Timing} {first second : Machine}
    (paired : Paired firstTiming secondTiming first second) {opcode : Opcode}
    (found : Opcode.ofByte? first.nextOpcode = some opcode) :
    Comparable firstTiming secondTiming (first.cost opcode) (second.cost opcode) := by
  obtain ⟨core, rfl, rfl⟩ := paired
  rw [← first.cost_bare, ← second.cost_bare, ← core]
  constructor
  · intro same
    rw [same]
  · intro base strict
    rw [base, strict]
    exact cost_strict found

theorem core_stepped {first second : Machine} (agree : first.core = second.core) (opcode : Opcode) :
    (first.stepped opcode).core = (second.stepped opcode).core := by
  show (first.executed opcode).core = (second.executed opcode).core
  rw [first.core_executed .base, second.core_executed .base, agree]

/-- Paired machines step alike, and stay paired. -/
theorem step_alike {firstTiming secondTiming : Timing} (first second : Machine)
    (paired : Paired firstTiming secondTiming first second) :
    Alike (Comparable firstTiming secondTiming) (Paired firstTiming secondTiming)
      first.step second.step := by
  have sameReady : first.initialized = second.initialized := congrArg Core.initialized paired.core
  have samePC : first.pc = second.pc := congrArg Core.pc paired.core
  have sameOpcode : first.nextOpcode = second.nextOpcode :=
    congrArg (fun core => core.memory.read core.pc) paired.core
  rcases first.step_cases with ⟨off, refused⟩ | ⟨on, unknown, refused⟩ | ⟨on, opcode, found, done⟩
  · rw [refused, step_of_not_initialized (sameReady ▸ off)]
    exact Alike.error paired
  · rw [refused, step_of_undocumented (sameReady ▸ on) (sameOpcode ▸ unknown), sameOpcode, samePC]
    exact Alike.error ⟨paired.core, paired.firstCounts, paired.secondCounts⟩
  · rw [done, step_of_opcode (sameReady ▸ on) (sameOpcode ▸ found)]
    exact Alike.ok (comparable_cost paired found) ⟨core_stepped paired.core opcode,
      (first.timing_stepped opcode).trans paired.firstCounts,
      (second.timing_stepped opcode).trans paired.secondCounts⟩

/-- Timing and bookkeeping never leak into execution. Two machines with the same registers and
memory succeed with any number of steps or are refused at the same one of them with the same fault,
and agree in registers and memory afterwards. In the same timing every step costs the same, whatever
was noted before; in strict timing it costs what it costs in base timing, or one more. -/
theorem steps_lockstep {first second : Machine} (agree : first.core = second.core) (count : Nat) :
    (∃ firstCosts firstLast secondCosts secondLast,
      steps count first = .ok firstCosts firstLast ∧
      steps count second = .ok secondCosts secondLast ∧
      firstLast.core = secondLast.core ∧
      (first.timing = second.timing → firstCosts = secondCosts) ∧
      (first.timing = .base → second.timing = .strict →
        List.Forall₂ (fun base strict => strict.toNat = base.toNat ∨
          strict.toNat = base.toNat + 1) firstCosts secondCosts)) ∨
    ∃ completed < count, ∃ firstCosts firstBefore secondCosts secondBefore,
      steps completed first = .ok firstCosts firstBefore ∧
      steps completed second = .ok secondCosts secondBefore ∧
      firstBefore.core = secondBefore.core ∧
      ∃ fault firstLeft secondLeft,
        firstBefore.step = .error fault firstLeft ∧
        secondBefore.step = .error fault secondLeft ∧
        steps count first = .error fault firstLeft ∧
        steps count second = .error fault secondLeft ∧
        firstLeft.core = secondLeft.core := by
  have paired : Paired first.timing second.timing first second := ⟨agree, rfl, rfl⟩
  have alike := fun count => steps_alike (σ := Machine) step_alike count paired
  cases firstRun : steps count first with
  | ok firstCosts firstLast =>
    obtain ⟨secondCosts, secondLast, secondRun, costs, last⟩ := (firstRun ▸ alike count).of_ok
    refine Or.inl ⟨firstCosts, firstLast, secondCosts, secondLast, rfl, secondRun, last.core,
      ?_, ?_⟩
    · intro same
      rw [← List.forall₂_eq_eq_eq]
      exact costs.imp fun _ _ comparable => comparable.1 same
    · intro base strict
      exact costs.imp fun _ _ comparable => comparable.2 base strict
  | error fault firstLeft =>
    obtain ⟨completed, less, firstCosts, firstBefore, firstDone, firstRefused⟩ :=
      refused_of_steps (σ := Machine) firstRun
    obtain ⟨secondCosts, secondBefore, secondDone, _, before⟩ :=
      (firstDone ▸ alike completed).of_ok
    have next : Alike _ _ (Processor.step firstBefore) _ :=
      step_alike firstBefore secondBefore before
    obtain ⟨secondLeft, secondRefused, left⟩ := (firstRefused ▸ next).of_error
    exact Or.inr ⟨completed, less, firstCosts, firstBefore, secondCosts, secondBefore, firstDone,
      secondDone, before.core, fault, firstLeft, secondLeft, firstRefused, secondRefused, rfl,
      steps_of_refused (σ := Machine) secondDone secondRefused less, left.core⟩

/-- A BRK costs the same in strict timing whatever penalties were noted before. -/
theorem steps_lockstep_stale_penalties :
    let fresh : Machine := { memory := Memory.empty, initialized := true, timing := .strict }
    let stale : Machine := { fresh with penalty := 9, pageCrossed := true, cycles := 5 }
    ∃ costs freshLast staleLast, steps 1 fresh = .ok costs freshLast ∧
      steps 1 stale = .ok costs staleLast ∧ freshLast.core = staleLast.core := by
  intro fresh stale
  have stepped : fresh.step = .ok _ _ := step_of_opcode rfl (ofByte?_nextOpcode_of_empty rfl)
  rcases steps_lockstep (show fresh.core = stale.core from rfl) 1 with
    ⟨freshCosts, freshLast, staleCosts, staleLast, freshDone, staleDone, agree, same, _⟩ |
    ⟨completed, less, _, _, _, _, done, _, _, _, _, _, refused, _⟩
  · rw [same rfl] at freshDone
    exact ⟨staleCosts, freshLast, staleLast, freshDone, staleDone, agree⟩
  · cases Nat.lt_one_iff.mp less
    cases done
    cases stepped.symm.trans refused

end Machine

end Mos6502
