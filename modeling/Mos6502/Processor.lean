/-
This file runs anything that holds a machine and can be stepped: for a budget of cycles, or until a
breakpoint, a trap or a limit. Both runs count cycles by the machine's own counter and stop between
instructions, so a run may go over its budget by part of one instruction. A refused step ends a run
and leaves what the step left.

The loops count down a number that cannot run out before the budget does, since every instruction
takes at least one cycle.
-/

import Mos6502.Machine.Step

namespace Mos6502

/-- Something that holds a machine and steps it. -/
class Processor (σ : Type) where
  /-- The machine. -/
  machine : σ → Machine
  /-- Executes one instruction and returns the cycles it took. -/
  step : EStateM Fault σ UInt8

/-- Why a run stopped. -/
inductive Stop where
  /-- The program counter reached the breakpoint. -/
  | breakpoint (pc : UInt16)
  /-- An instruction went to itself. -/
  | trapped (pc : UInt16)
  /-- The cycles were spent. -/
  | cycleLimit
deriving DecidableEq

/-- The cause and its address. -/
def Stop.describe : Stop → String
  | breakpoint pc => "Breakpoint(" ++ pc.toNat.repr ++ ")"
  | trapped pc => "Trapped(" ++ pc.toNat.repr ++ ")"
  | cycleLimit => "CycleLimit"

namespace Processor

variable {σ : Type} [Processor σ]

/-! ### Running for a number of cycles -/

/-- Steps until the cycle counter reaches a target. -/
@[specialize] def spend (target : UInt64) : Nat → EStateM Fault σ Unit
  | 0, state => .ok () state
  | fuel + 1, state =>
    if (machine state).cycles < target then
      match step state with
      | .ok _ state => spend target fuel state
      | .error fault state => .error fault state
    else .ok () state

/-- The counter reading at which a budget is spent, or the last reading if the counter cannot get
that far. -/
def target (start budget : UInt64) : UInt64 :=
  if start.toNat + budget.toNat < 0x10000000000000000 then start + budget else 0xFFFFFFFFFFFFFFFF

/-- Steps until a budget of cycles is spent, and returns the cycles that were taken. -/
@[specialize] def runForCycles (budget : UInt64) : EStateM Fault σ UInt64 := fun state =>
  let start := (machine state).cycles
  let target := target start budget
  match spend target (target - start).toNat state with
  | .ok _ state => .ok ((machine state).cycles - start) state
  | .error fault state => .error fault state

/-! ### Running to a place -/

/-- Steps until the program counter reaches the breakpoint, an instruction goes to itself, or the
cycle counter is the limit past its start. The breakpoint is looked for first, also before the first
step; a trap is noticed right after the step. -/
@[specialize] def seek (breakpoint : Option UInt16) (start limit : UInt64) :
    Nat → EStateM Fault σ Stop
  | fuel, state =>
    let pc := (machine state).pc
    if breakpoint = some pc then .ok (.breakpoint pc) state
    else if limit ≤ (machine state).cycles - start then .ok .cycleLimit state
    else match fuel with
      | 0 => .ok .cycleLimit state
      | fuel + 1 =>
        match step state with
        | .ok _ state =>
          if (machine state).pc = pc then .ok (.trapped pc) state
          else seek breakpoint start limit fuel state
        | .error fault state => .error fault state

/-- Steps until the program counter reaches the breakpoint, an instruction goes to itself, or the
limit of cycles is spent. -/
@[specialize] def runUntil (breakpoint : Option UInt16) (limit : UInt64) :
    EStateM Fault σ Stop := fun state =>
  seek breakpoint (machine state).cycles limit limit.toNat state

end Processor

/-! ### The bare machine -/

instance : Processor Machine where
  machine machine := machine
  step := Machine.step

namespace Machine

/-- Runs until a budget of cycles is spent, and returns the cycles that were taken. -/
def runForCycles (budget : UInt64) : Exec UInt64 :=
  Processor.runForCycles budget

/-- Runs to the breakpoint, to an instruction that goes to itself, or to the limit of cycles. -/
def runUntil (breakpoint : Option UInt16) (limit : UInt64) : Exec Stop :=
  Processor.runUntil breakpoint limit

end Machine

end Mos6502
