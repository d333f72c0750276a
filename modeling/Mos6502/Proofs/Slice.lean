/-
This file proves that a run can be cut into slices. A run for a number of cycles looks at nothing
but the counter, and its goal is a reading of the counter: the first slice passes no state in which
the whole run would end, and the second slice has the goal of the whole run, since the budget of
the whole run counts what the first slice really took. The same holds of runs to a place, whose
tests at the seam were made by the first slice already. Where a run to a place ends at its limit or
with a fault, a run for as many cycles ends, too.
-/

import Mos6502.Proofs.Budget
import Mos6502.Proofs.Stop

namespace Mos6502.Machine

open Processor

/-! ### The seam -/

/-- The goal of the second slice is that of a run whose budget counts what the first one took. -/
theorem toNat_seam {start seam second : UInt64} (later : start.toNat ≤ seam.toNat)
    (room : start.toNat + (seam - start).toNat + second.toNat + 6 < UInt64.size) :
    (seam - start).toNat = seam.toNat - start.toNat ∧
      start.toNat + (seam - start + second).toNat = seam.toNat + second.toNat := by
  have elapsed : (seam - start).toNat = seam.toNat - start.toNat :=
    UInt64.toNat_sub_of_le _ _ (UInt64.le_iff_toNat_le.mpr later)
  have fits : (seam - start).toNat + second.toNat < UInt64.size := by omega
  refine ⟨elapsed, ?_⟩
  rw [UInt64.toNat_add, show _ % _ = _ from Nat.mod_eq_of_lt fits]
  omega

/-! ### Runs for a number of cycles -/

/-- What a run returns that has left its loop: the cycles taken since its start. -/
def counted (start : UInt64) :
    EStateM.Result Fault Machine Unit → EStateM.Result Fault Machine UInt64
  | .ok _ last => .ok (last.cycles - start) last
  | .error fault left => .error fault left

variable {machine next : Machine}

theorem runForCycles_eq_counted (machine : Machine) (budget : UInt64) :
    machine.runForCycles budget = counted machine.cycles
      (spend (target machine.cycles budget) (target machine.cycles budget - machine.cycles).toNat
        machine) := by
  show Processor.runForCycles budget machine = _
  dsimp only [Processor.runForCycles]
  cases spend _ _ machine <;> rfl

/-- The result of a run is that of its first settlement, whatever came before it. -/
theorem runForCycles_firstAnswer (machine : Machine) (budget : UInt64) (previous : Option Machine)
    (roomy : machine.cycles.toNat + budget.toNat + 6 < UInt64.size) :
    ∃ count loop, machine.runForCycles budget = counted machine.cycles loop ∧
      FirstAnswer (settlement? (machine.cycles.toNat + budget.toNat)) previous machine count
        loop := by
  have room : machine.cycles.toNat + budget.toNat < UInt64.size := by omega
  have goal := toNat_target room
  have fuel := toNat_target_sub room
  obtain ⟨count, _, first⟩ := spend_firstAnswer (target machine.cycles budget) (by omega)
    (target machine.cycles budget - machine.cycles).toNat previous machine (by omega)
  rw [goal] at first
  exact ⟨count, _, runForCycles_eq_counted machine budget, first⟩

theorem settlement?_mono {goal later : Nat} (le : goal ≤ later) (previous : Option Machine)
    (machine : Machine) (unsettled : settlement? goal previous machine = none) :
    settlement? later previous machine = none := by
  obtain ⟨unmet, goesOn⟩ := settlement?_eq_none_iff.mp unsettled
  exact settlement?_eq_none_iff.mpr ⟨Nat.lt_of_lt_of_le unmet le, goesOn⟩

/-- A run that succeeds has settled where it ends, and its budget is spent there. -/
theorem firstAnswer_of_runForCycles {budget spent : UInt64}
    (roomy : machine.cycles.toNat + budget.toNat + 6 < UInt64.size)
    (done : machine.runForCycles budget = .ok spent next) :
    ∃ count, FirstAnswer (settlement? (machine.cycles.toNat + budget.toNat)) none machine count
        (.ok () next) ∧
      stateAt? machine count = some next ∧ spent = next.cycles - machine.cycles ∧
      machine.cycles.toNat + budget.toNat ≤ next.cycles.toNat := by
  obtain ⟨count, loop, result, first⟩ := runForCycles_firstAnswer machine budget none roomy
  rw [result] at done
  cases loop with
  | error fault left => cases done
  | ok _ last =>
    cases done
    obtain ⟨here, reached, settled⟩ := first.reached
    obtain ⟨rfl, met⟩ := met_of_settlement? settled
    exact ⟨count, first, reached, rfl, met⟩

/-- The loop of a run goes through the end of its first slice. -/
theorem runForCycles_slice {first second spent : UInt64}
    (roomy : machine.cycles.toNat + first.toNat + 6 < UInt64.size)
    (done : machine.runForCycles first = .ok spent next)
    (room : machine.cycles.toNat + spent.toNat + second.toNat + 6 < UInt64.size) :
    spent = next.cycles - machine.cycles ∧ machine.cycles.toNat ≤ next.cycles.toNat ∧
      ∃ loop, next.runForCycles second = counted next.cycles loop ∧
        machine.runForCycles (spent + second) = counted machine.cycles loop ∧
        ∀ last, loop = .ok () last → next.cycles.toNat ≤ last.cycles.toNat := by
  obtain ⟨count, slice, reached, rfl, met⟩ := firstAnswer_of_runForCycles roomy done
  obtain ⟨elapsed, goal⟩ := toNat_seam (by omega) room
  obtain ⟨_, loop, result, rest⟩ := runForCycles_firstAnswer next second
    (stateBefore? none machine count) (by omega)
  obtain ⟨_, whole, wholeResult, direct⟩ := runForCycles_firstAnswer machine
    (next.cycles - machine.cycles + second) none (by omega)
  rw [goal] at direct
  have joined := slice.extend (settlement?_mono (by omega)) reached rest
  obtain ⟨_, rfl⟩ := direct.unique joined
  refine ⟨rfl, by omega, whole, result, wholeResult, ?_⟩
  rintro last rfl
  obtain ⟨_, _, settled⟩ := rest.reached
  obtain ⟨rfl, spentAll⟩ := met_of_settlement? settled
  omega

section Successive

variable {first second spent : UInt64}
  (roomy : machine.cycles.toNat + first.toNat + 6 < UInt64.size)
  (done : machine.runForCycles first = .ok spent next)
  (room : machine.cycles.toNat + spent.toNat + second.toNat + 6 < UInt64.size)

include roomy done room

theorem runForCycles_of_slices {more : UInt64} {last : Machine}
    (goesOn : next.runForCycles second = .ok more last) :
    ∃ sum, machine.runForCycles (spent + second) = .ok sum last ∧
      sum.toNat = spent.toNat + more.toNat := by
  obtain ⟨rfl, later, loop, rest, whole, grown⟩ := runForCycles_slice roomy done room
  rw [rest] at goesOn
  cases loop with
  | error fault left => cases goesOn
  | ok _ last =>
    cases goesOn
    have farther := grown last rfl
    refine ⟨_, whole, ?_⟩
    rw [UInt64.toNat_sub_of_le _ _ (UInt64.le_iff_toNat_le.mpr later),
      UInt64.toNat_sub_of_le _ _ (UInt64.le_iff_toNat_le.mpr farther),
      UInt64.toNat_sub_of_le _ _ (UInt64.le_iff_toNat_le.mpr (Nat.le_trans later farther))]
    omega

theorem runForCycles_of_refused_slice {fault : Fault} {left : Machine}
    (fails : next.runForCycles second = .error fault left) :
    machine.runForCycles (spent + second) = .error fault left := by
  obtain ⟨_, _, loop, rest, whole, _⟩ := runForCycles_slice roomy done room
  rw [rest] at fails
  cases loop with
  | error fault left =>
    cases fails
    exact whole
  | ok _ last => cases fails

end Successive

/-! ### Runs to a place -/

theorem runUntil_firstAnswer (machine : Machine) (breakpoint : Option UInt16) (limit : UInt64)
    (roomy : machine.cycles.toNat + limit.toNat + 6 < UInt64.size) :
    ∃ count, FirstAnswer (exit? breakpoint (machine.cycles.toNat + limit.toNat)) none machine count
      (machine.runUntil breakpoint limit) := by
  obtain ⟨count, _, first⟩ := seek_firstAnswer breakpoint machine.cycles limit roomy
    limit.toNat none machine nofun (Nat.le_refl _) (Nat.le_refl _)
  exact ⟨count, first⟩

theorem exit?_mono {breakpoint : Option UInt16} {goal later : Nat} (le : goal ≤ later)
    (previous : Option Machine) (machine : Machine)
    (unended : exit? breakpoint goal previous machine = none) :
    exit? breakpoint later previous machine = none := by
  obtain ⟨moved, elsewhere, unspent, _, _, done⟩ := of_exit?_eq_none unended
  exact exit?_of_step moved elsewhere (Nat.lt_of_lt_of_le unspent le) done

/-- A run whose limit is spent can go on, since the state it ends in was not reached by an
instruction that goes to itself: a run from there makes the tests that the longer run makes. -/
theorem runUntil_slice {breakpoint : Option UInt16} {first second : UInt64}
    (roomy : machine.cycles.toNat + first.toNat + 6 < UInt64.size)
    (done : machine.runUntil breakpoint first = .ok .cycleLimit next)
    (room : machine.cycles.toNat + (next.cycles - machine.cycles).toNat + second.toNat + 6 <
      UInt64.size) :
    machine.runUntil breakpoint (next.cycles - machine.cycles + second) =
      next.runUntil breakpoint second := by
  obtain ⟨count, slice⟩ := runUntil_firstAnswer machine breakpoint first roomy
  rw [done] at slice
  obtain ⟨here, reached, ended⟩ := slice.reached
  obtain ⟨rfl, moved, met⟩ := of_exit?_eq_limit ended
  obtain ⟨elapsed, goal⟩ := toNat_seam (by omega) room
  obtain ⟨more, _, rest⟩ := seek_firstAnswer breakpoint next.cycles second (by omega)
    second.toNat (stateBefore? none machine count) next moved (Nat.le_refl _) (Nat.le_refl _)
  obtain ⟨_, direct⟩ := runUntil_firstAnswer machine breakpoint
    (next.cycles - machine.cycles + second) (by omega)
  rw [goal] at direct
  exact (direct.unique (slice.extend (exit?_mono (by omega)) reached rest)).2

/-! ### Runs to no place -/

theorem settlement?_of_exit?_eq_none {breakpoint : Option UInt16} {goal : Nat}
    (previous : Option Machine) (machine : Machine)
    (unended : exit? breakpoint goal previous machine = none) :
    settlement? goal previous machine = none :=
  settlement?_eq_none_iff.mpr (of_exit?_eq_none unended).2.2

/-- If a run to a place ends where a run for as many cycles would settle, the latter ends there. -/
theorem runForCycles_of_settlement? {breakpoint : Option UInt16} {limit : UInt64} {count : Nat}
    {result : EStateM.Result Fault Machine Stop} {loop : EStateM.Result Fault Machine Unit}
    (roomy : machine.cycles.toNat + limit.toNat + 6 < UInt64.size)
    (first : FirstAnswer (exit? breakpoint (machine.cycles.toNat + limit.toNat)) none machine count
      result)
    (reached : stateAt? machine count = some next)
    (settled : settlement? (machine.cycles.toNat + limit.toNat) (stateBefore? none machine count)
      next = some loop) :
    machine.runForCycles limit = counted machine.cycles loop := by
  obtain ⟨_, _, returned, direct⟩ := runForCycles_firstAnswer machine limit none roomy
  have joined := first.extend settlement?_of_exit?_eq_none reached (FirstAnswer.now settled)
  rw [returned, (direct.unique joined).2]

theorem runForCycles_of_limit {breakpoint : Option UInt16} {limit : UInt64}
    (roomy : machine.cycles.toNat + limit.toNat + 6 < UInt64.size)
    (done : machine.runUntil breakpoint limit = .ok .cycleLimit next) :
    machine.runForCycles limit = .ok (next.cycles - machine.cycles) next := by
  obtain ⟨count, first⟩ := runUntil_firstAnswer machine breakpoint limit roomy
  rw [done] at first
  obtain ⟨here, reached, ended⟩ := first.reached
  obtain ⟨rfl, _, met⟩ := of_exit?_eq_limit ended
  exact runForCycles_of_settlement? roomy first reached (settlement?_of_met met)

theorem runForCycles_of_fault {breakpoint : Option UInt16} {limit : UInt64} {fault : Fault}
    {left : Machine} (roomy : machine.cycles.toNat + limit.toNat + 6 < UInt64.size)
    (failed : machine.runUntil breakpoint limit = .error fault left) :
    machine.runForCycles limit = .error fault left := by
  obtain ⟨count, first⟩ := runUntil_firstAnswer machine breakpoint limit roomy
  rw [failed] at first
  obtain ⟨here, reached, ended⟩ := first.reached
  obtain ⟨unspent, refused⟩ := of_exit?_eq_error ended
  exact runForCycles_of_settlement? roomy first reached (settlement?_of_refused unspent refused)

/-- One instruction spends a limit of one cycle. -/
theorem runUntil_one_of_step {cost : UInt8} (stepped : machine.step = .ok cost next)
    (moves : next.pc ≠ machine.pc) (roomy : machine.cycles.toNat + 7 < UInt64.size) :
    machine.runUntil none 1 = .ok .cycleLimit next := by
  obtain ⟨grown, least, _⟩ := cycles_of_step stepped roomy
  have one : (1 : UInt64).toNat = 1 := rfl
  have unspent : ¬(1 : UInt64) ≤ machine.cycles - machine.cycles := by
    rw [limit_le_sub_iff (Nat.le_refl _)]
    omega
  have spent : (1 : UInt64) ≤ next.cycles - machine.cycles := by
    rw [limit_le_sub_iff (by omega)]
    omega
  have elsewhere (pc : UInt16) : none ≠ some pc := nofun
  exact (seek_of_step (σ := Machine) (elsewhere _) unspent stepped moves 0).trans
    (seek_of_limit (σ := Machine) (elsewhere _) spent 0)

/-! ### Slices -/

/-- Runs can be cut into slices while the cycle counter has room. A run for a number of cycles that
goes on for more is one run for the cycles the first really took and those: it ends in the same
state, with the cycles of both or with the same fault. A run to a place that ends at its limit and
goes on is one run, too. And if it ends at its limit or with a fault, a run for as many cycles
as the limit ends so, in the same state. -/
theorem runs_in_slices (machine : Machine) :
    (∀ first second spent next, machine.cycles.toNat + first.toNat + 6 < UInt64.size →
      machine.runForCycles first = .ok spent next →
      machine.cycles.toNat + spent.toNat + second.toNat + 6 < UInt64.size →
        (∀ more last, next.runForCycles second = .ok more last →
          ∃ sum, machine.runForCycles (spent + second) = .ok sum last ∧
            sum.toNat = spent.toNat + more.toNat) ∧
        ∀ fault left, next.runForCycles second = .error fault left →
          machine.runForCycles (spent + second) = .error fault left) ∧
    (∀ breakpoint first second spent next,
      machine.cycles.toNat + first.toNat + 6 < UInt64.size →
      machine.runUntil breakpoint first = .ok .cycleLimit next →
      spent = next.cycles - machine.cycles →
      machine.cycles.toNat + spent.toNat + second.toNat + 6 < UInt64.size →
        machine.runUntil breakpoint (spent + second) = next.runUntil breakpoint second) ∧
    ∀ limit, machine.cycles.toNat + limit.toNat + 6 < UInt64.size →
      (∀ next, machine.runUntil none limit = .ok .cycleLimit next →
        ∃ spent, machine.runForCycles limit = .ok spent next) ∧
      ∀ fault left, machine.runUntil none limit = .error fault left →
        machine.runForCycles limit = .error fault left := by
  refine ⟨?_, ?_, ?_⟩
  · intro first second spent next roomy done room
    exact ⟨fun more last goesOn => runForCycles_of_slices roomy done room goesOn,
      fun fault left fails => runForCycles_of_refused_slice roomy done room fails⟩
  · rintro breakpoint first second spent next roomy done rfl room
    exact runUntil_slice roomy done room
  · intro limit roomy
    exact ⟨fun next done => ⟨_, runForCycles_of_limit roomy done⟩,
      fun fault left failed => runForCycles_of_fault roomy failed⟩

/-- A NOP in one slice and a BRK in the next: one run for three cycles takes the nine of both. A
machine that was never reset refuses its first step in the second slice as in the whole. -/
theorem runs_in_slices_interrupt : ∃ machine next last : Machine,
    machine.runUntil none 1 = .ok .cycleLimit next ∧
      (∃ spent, machine.runForCycles 1 = .ok spent next) ∧
      next.runForCycles 1 = .ok 7 last ∧
      (∃ sum, machine.runForCycles (2 + 1) = .ok sum last ∧ sum.toNat = 9) ∧
      machine.runUntil none (2 + 1) = .ok .cycleLimit last ∧
      ∃ off : Machine, off.runForCycles 1 = .error .notInitialized off ∧
        off.runForCycles (0 + 1) = .error .notInitialized off := by
  let machine : Machine := { memory := Memory.empty.write 0 0xEA, initialized := true }
  have nop : Opcode.ofByte? machine.nextOpcode = some ⟨.nop, .implied, 2⟩ := by
    have fetched : machine.nextOpcode = 0xEA := Memory.read_write_self _ _ _
    rw [fetched]
    rfl
  have first := step_of_opcode (show machine.initialized = true from rfl) nop
  let next := machine.stepped ⟨.nop, .implied, 2⟩
  have brk : Opcode.ofByte? next.nextOpcode = some ⟨.brk, .implied, 7⟩ := by
    have fetched : next.nextOpcode = 0 := by
      show (Memory.empty.write 0 0xEA).read 1 = 0
      rw [Memory.read_write_other _ _ (by decide), Memory.read_empty]
    rw [fetched]
    rfl
  have second := step_of_opcode (show next.initialized = true from rfl) brk
  let last := next.stepped ⟨.brk, .implied, 7⟩
  have vector : last.pc = 0 := by
    show (next.fetch.clearPenalties.advance .implied).interrupt.pc = 0
    rw [pc_interrupt]
    show wordOf ((Memory.empty.write 0 0xEA).read _) ((Memory.empty.write 0 0xEA).read _) = 0
    rw [Memory.read_write_other _ _ (by decide), Memory.read_write_other _ _ (by decide),
      Memory.read_empty, Memory.read_empty]
    rfl
  have one : machine.runUntil none 1 = .ok .cycleLimit next :=
    runUntil_one_of_step first (by decide) (by decide)
  have other : next.runUntil none 1 = .ok .cycleLimit last :=
    runUntil_one_of_step second (by rw [vector]; decide) (by decide)
  have two : next.cycles - machine.cycles = 2 := by decide
  have seven : last.cycles - next.cycles = 7 := by decide
  have slice : machine.runForCycles 1 = .ok 2 next := by
    rw [runForCycles_of_limit (by decide) one, two]
  have rest : next.runForCycles 1 = .ok 7 last := by
    rw [runForCycles_of_limit (by decide) other, seven]
  let off : Machine := { memory := Memory.empty }
  have elsewhere : none ≠ some off.pc := nofun
  have unspent : ¬(1 : UInt64) ≤ off.cycles - off.cycles := by decide
  have fails : off.runUntil none 1 = .error .notInitialized off :=
    seek_of_refused (σ := Machine) elsewhere unspent rfl 0
  have met : ¬off.cycles < target off.cycles 0 := by decide
  have nothing : off.runForCycles 0 = .ok 0 off :=
    runForCycles_of_ok (σ := Machine) (spend_of_met (σ := Machine) met _)
  obtain ⟨slices, places, alike⟩ := runs_in_slices machine
  obtain ⟨slicesOff, _, alikeOff⟩ := runs_in_slices off
  have refused := (alikeOff 1 (by decide)).2 _ _ fails
  have same := (alike 1 (by decide)).1 next one
  refine ⟨machine, next, last, one, same, rest, ?_, ?_, off, refused, ?_⟩
  · exact (slices 1 1 2 next (by decide) slice (by decide)).1 7 last rest
  · exact (places none 1 1 2 next (by decide) one two.symm (by decide)).trans other
  · exact (slicesOff 0 1 0 off (by decide) nothing (by decide)).2 _ _ refused

end Mos6502.Machine
