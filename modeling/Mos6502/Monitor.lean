/-
This file holds the monitor: a machine together with the records of what it did. Stepping and
running a monitor does to its machine what stepping and running the machine does; the records are
all that is added, and how many are added depends on the level alone.
-/

import Mos6502.Journal

namespace Mos6502

/-- A machine that is watched. -/
structure Monitor where
  /-- The machine. -/
  machine : Machine
  /-- How much is written down. -/
  level : Level := .off
  /-- What was written down so far, oldest first. -/
  records : Array Record := #[]
deriving Inhabited

namespace Monitor

/-- Writes a record down. -/
def note (monitor : Monitor) (record : Record) : Monitor :=
  { monitor with records := monitor.records.push record }

/-- Changes the machine. -/
@[inline] def mapMachine (monitor : Monitor) (change : Machine → Machine) : Monitor :=
  { monitor with machine := change monitor.machine }

/-- Runs a computation on the machine; nothing is written down. -/
@[inline] def lift {α : Type} (action : Exec α) : EStateM Fault Monitor α :=
  fun ⟨machine, level, records⟩ =>
    match action machine with
    | .ok value machine => .ok value ⟨machine, level, records⟩
    | .error fault machine => .error fault ⟨machine, level, records⟩

/-- Loads the program counter from the reset vector. -/
def reset (monitor : Monitor) : Monitor :=
  let monitor := monitor.mapMachine (·.reset)
  if monitor.level = .off then monitor else monitor.note (.reset monitor.machine.pc)

/-- Writes down the instruction that is executed next, if there is one and the level asks for it. -/
def announce (monitor : Monitor) : Monitor :=
  if monitor.level = .trace ∧ monitor.machine.ready then
    monitor.note monitor.machine.announcement
  else monitor

/-- Executes one instruction and returns the cycles it took. -/
def step : EStateM Fault Monitor UInt8 := fun monitor =>
  lift Machine.step monitor.announce

instance : Processor Monitor where
  machine := machine
  step := step

/-- Runs until a budget of cycles is spent, and returns the cycles that were taken. -/
def runForCycles (budget : UInt64) : EStateM Fault Monitor UInt64 :=
  Processor.runForCycles budget

/-- Runs to the breakpoint, to an instruction that goes to itself, or to the limit of cycles. Why it
stopped is written down unless it was refused. -/
def runUntil (breakpoint : Option UInt16) (limit : UInt64) : EStateM Fault Monitor Stop :=
  fun monitor =>
    let start := monitor.machine.cycles
    match Processor.runUntil breakpoint limit monitor with
    | .ok stop monitor =>
      if monitor.level = .off then .ok stop monitor
      else .ok stop (monitor.note (.stopped (monitor.machine.cycles - start) stop))
    | .error fault monitor => .error fault monitor

end Monitor

end Mos6502
