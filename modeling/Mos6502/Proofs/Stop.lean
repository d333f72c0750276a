/-
This file proves where a run to a place stops, and why. There are four ways to end, tested in each
state in a fixed order: the instruction before went to itself, the program counter is at the
breakpoint, the limit of cycles is spent, or the next step is refused. The run ends in the first
state that one of them applies to, and the first one that applies there is the outcome. There is
such a state, since every instruction brings the limit nearer by two cycles at least.
-/

import Mos6502.Proofs.Course
import Mos6502.Proofs.Run

namespace Mos6502

namespace Machine

open Processor

/-- How a run ends in a state, if it does, given the state before it and the counter reading at
which the limit is spent. -/
def exit? (breakpoint : Option UInt16) (goal : Nat) (previous : Option Machine)
    (machine : Machine) : Option (EStateM.Result Fault Machine Stop) :=
  if previous.map (·.pc) = some machine.pc then some (.ok (.trapped machine.pc) machine)
  else if breakpoint = some machine.pc then some (.ok (.breakpoint machine.pc) machine)
  else if goal ≤ machine.cycles.toNat then some (.ok .cycleLimit machine)
  else match machine.step with
    | .ok _ _ => none
    | .error fault left => some (.error fault left)

section Order

variable {breakpoint : Option UInt16} {goal : Nat} {previous : Option Machine} {machine : Machine}

theorem exit?_of_trap (stays : previous.map (·.pc) = some machine.pc) :
    exit? breakpoint goal previous machine = some (.ok (.trapped machine.pc) machine) :=
  if_pos stays

variable (moved : previous.map (·.pc) ≠ some machine.pc)

include moved

theorem exit?_of_breakpoint (here : breakpoint = some machine.pc) :
    exit? breakpoint goal previous machine = some (.ok (.breakpoint machine.pc) machine) :=
  (if_neg moved).trans (if_pos here)

variable (elsewhere : breakpoint ≠ some machine.pc)

include elsewhere

theorem exit?_of_limit (spent : goal ≤ machine.cycles.toNat) :
    exit? breakpoint goal previous machine = some (.ok .cycleLimit machine) :=
  (if_neg moved).trans ((if_neg elsewhere).trans (if_pos spent))

variable (unspent : machine.cycles.toNat < goal)

include unspent

theorem exit?_of_refused {left : Machine} {fault : Fault}
    (refused : machine.step = .error fault left) :
    exit? breakpoint goal previous machine = some (.error fault left) := by
  rw [exit?, if_neg moved, if_neg elsewhere, if_neg (Nat.not_le_of_lt unspent), refused]

theorem exit?_of_step {next : Machine} {cost : UInt8} (done : machine.step = .ok cost next) :
    exit? breakpoint goal previous machine = none := by
  rw [exit?, if_neg moved, if_neg elsewhere, if_neg (Nat.not_le_of_lt unspent), done]

end Order

section Cases

variable (breakpoint : Option UInt16) (goal : Nat) (previous : Option Machine) (machine : Machine)

/-- The ways to end in a state, and the one to go on, each with what the tests before it found. -/
theorem exit?_cases :
    (previous.map (·.pc) = some machine.pc ∧
      exit? breakpoint goal previous machine = some (.ok (.trapped machine.pc) machine)) ∨
    previous.map (·.pc) ≠ some machine.pc ∧
      ((breakpoint = some machine.pc ∧
        exit? breakpoint goal previous machine = some (.ok (.breakpoint machine.pc) machine)) ∨
      breakpoint ≠ some machine.pc ∧
        ((goal ≤ machine.cycles.toNat ∧
          exit? breakpoint goal previous machine = some (.ok .cycleLimit machine)) ∨
        machine.cycles.toNat < goal ∧
          ((∃ fault left, machine.step = .error fault left ∧
            exit? breakpoint goal previous machine = some (.error fault left)) ∨
          ∃ cost next, machine.step = .ok cost next ∧
            exit? breakpoint goal previous machine = none))) := by
  by_cases moved : previous.map (·.pc) = some machine.pc
  · exact Or.inl ⟨moved, exit?_of_trap moved⟩
  refine Or.inr ⟨moved, ?_⟩
  by_cases elsewhere : breakpoint = some machine.pc
  · exact Or.inl ⟨elsewhere, exit?_of_breakpoint moved elsewhere⟩
  refine Or.inr ⟨elsewhere, ?_⟩
  by_cases spent : goal ≤ machine.cycles.toNat
  · exact Or.inl ⟨spent, exit?_of_limit moved elsewhere spent⟩
  have unspent := Nat.lt_of_not_le spent
  refine Or.inr ⟨unspent, ?_⟩
  cases stepped : machine.step with
  | error fault left =>
    exact Or.inl ⟨fault, left, rfl, exit?_of_refused moved elsewhere unspent stepped⟩
  | ok cost next => exact Or.inr ⟨cost, next, rfl, exit?_of_step moved elsewhere unspent stepped⟩

variable {breakpoint goal previous machine}

theorem of_exit?_eq_none (unended : exit? breakpoint goal previous machine = none) :
    previous.map (·.pc) ≠ some machine.pc ∧ breakpoint ≠ some machine.pc ∧
      machine.cycles.toNat < goal ∧ ∃ cost next, machine.step = .ok cost next := by
  rcases exit?_cases breakpoint goal previous machine with ⟨_, known⟩ | ⟨moved, ⟨_, known⟩ |
    ⟨elsewhere, ⟨_, known⟩ | ⟨unspent, ⟨_, _, _, known⟩ | ⟨cost, next, done, _⟩⟩⟩⟩
  · cases known.symm.trans unended
  · cases known.symm.trans unended
  · cases known.symm.trans unended
  · cases known.symm.trans unended
  · exact ⟨moved, elsewhere, unspent, cost, next, done⟩

theorem of_exit?_eq_limit {last : Machine}
    (ended : exit? breakpoint goal previous machine = some (.ok .cycleLimit last)) :
    last = machine ∧ previous.map (·.pc) ≠ some machine.pc ∧ goal ≤ machine.cycles.toNat := by
  rcases exit?_cases breakpoint goal previous machine with ⟨_, known⟩ | ⟨moved, ⟨_, known⟩ |
    ⟨_, ⟨spent, known⟩ | ⟨_, ⟨_, _, _, known⟩ | ⟨_, _, _, known⟩⟩⟩⟩
  · cases known.symm.trans ended
  · cases known.symm.trans ended
  · cases known.symm.trans ended
    exact ⟨rfl, moved, spent⟩
  · cases known.symm.trans ended
  · cases known.symm.trans ended

theorem of_exit?_eq_error {fault : Fault} {left : Machine}
    (ended : exit? breakpoint goal previous machine = some (.error fault left)) :
    machine.cycles.toNat < goal ∧ machine.step = .error fault left := by
  rcases exit?_cases breakpoint goal previous machine with ⟨_, known⟩ | ⟨_, ⟨_, known⟩ |
    ⟨_, ⟨_, known⟩ | ⟨unspent, ⟨_, _, refused, known⟩ | ⟨_, _, _, known⟩⟩⟩⟩
  · cases known.symm.trans ended
  · cases known.symm.trans ended
  · cases known.symm.trans ended
  · cases known.symm.trans ended
    exact ⟨unspent, refused⟩
  · cases known.symm.trans ended

end Cases

/-- The cycles since the start as a word are those of the counter, as long as it does not wrap. -/
theorem limit_le_sub_iff {start limit cycles : UInt64} (later : start.toNat ≤ cycles.toNat) :
    limit ≤ cycles - start ↔ start.toNat + limit.toNat ≤ cycles.toNat := by
  rw [UInt64.le_iff_toNat_le,
    UInt64.toNat_sub_of_le _ _ (UInt64.le_iff_toNat_le.mpr later)]
  omega

/-- The loop ends with the first exit, if it may take as many steps as there are cycles left to the
limit; it takes a step for every two of them at most. -/
theorem seek_firstAnswer (breakpoint : Option UInt16) (start limit : UInt64)
    (roomy : start.toNat + limit.toNat + 6 < UInt64.size) (fuel : Nat) (previous : Option Machine)
    (machine : Machine) (moved : previous.map (·.pc) ≠ some machine.pc)
    (later : start.toNat ≤ machine.cycles.toNat)
    (enough : start.toNat + limit.toNat ≤ machine.cycles.toNat + fuel) :
    ∃ count, 2 * count ≤ start.toNat + limit.toNat - machine.cycles.toNat + 1 ∧
      FirstAnswer (exit? breakpoint (start.toNat + limit.toNat)) previous machine count
        (seek breakpoint start limit fuel machine) := by
  induction fuel generalizing machine previous with
  | zero =>
    refine ⟨0, Nat.zero_le _, FirstAnswer.now ?_⟩
    by_cases here : breakpoint = some machine.pc
    · rw [seek_of_breakpoint (σ := Machine) here]
      exact exit?_of_breakpoint moved here
    · rw [seek_of_limit (σ := Machine) here ((limit_le_sub_iff later).mpr enough)]
      exact exit?_of_limit moved here enough
  | succ fuel inductionHypothesis =>
    by_cases here : breakpoint = some machine.pc
    · rw [seek_of_breakpoint (σ := Machine) here]
      exact ⟨0, Nat.zero_le _, FirstAnswer.now (exit?_of_breakpoint moved here)⟩
    by_cases spent : limit ≤ machine.cycles - start
    · rw [seek_of_limit (σ := Machine) here spent]
      exact ⟨0, Nat.zero_le _,
        FirstAnswer.now (exit?_of_limit moved here ((limit_le_sub_iff later).mp spent))⟩
    have unspent : machine.cycles.toNat < start.toNat + limit.toNat :=
      Nat.lt_of_not_le fun reached => spent ((limit_le_sub_iff later).mpr reached)
    cases stepped : machine.step with
    | error fault left =>
      rw [seek_of_refused (σ := Machine) here spent stepped]
      exact ⟨0, Nat.zero_le _, FirstAnswer.now (exit?_of_refused moved here unspent stepped)⟩
    | ok cost next =>
      obtain ⟨grown, least, _⟩ := cycles_of_step stepped (by omega)
      have quiet := exit?_of_step moved here unspent stepped
      by_cases stays : next.pc = machine.pc
      · rw [seek_of_trap (σ := Machine) here spent stepped stays]
        have trapped : exit? breakpoint (start.toNat + limit.toNat) (some machine) next =
            some (.ok (.trapped next.pc) next) := exit?_of_trap (congrArg some stays.symm)
        rw [stays] at trapped
        exact ⟨1, by omega, (FirstAnswer.now trapped).later quiet stepped⟩
      · obtain ⟨count, bound, first⟩ := inductionHypothesis (some machine) next
          (fun same => stays (Option.some_inj.mp same).symm) (by omega) (by omega)
        rw [seek_of_step (σ := Machine) here spent stepped stays]
        exact ⟨count + 1, by omega, first.later quiet stepped⟩

/-- A run to a place, with room for its limit in the cycle counter, takes the fewest steps to a
state in which it ends, at most one for every two cycles of the limit. In each state the tests are
made in the order of `exit?`: for a trap, which takes a step, for the breakpoint, for the limit, and
for a refused step. -/
theorem runUntil_fewest_steps (machine : Machine) (breakpoint : Option UInt16) (limit : UInt64)
    (roomy : machine.cycles.toNat + limit.toNat + 6 < UInt64.size) :
    ∃ count costs last, steps count machine = .ok costs last ∧
      count ≤ (limit.toNat + 1) / 2 ∧
      exit? breakpoint (machine.cycles.toNat + limit.toNat) (stateBefore? none machine count)
        last = some (machine.runUntil breakpoint limit) ∧
      ∀ fewer < count, ∃ costs state, steps fewer machine = .ok costs state ∧
        exit? breakpoint (machine.cycles.toNat + limit.toNat) (stateBefore? none machine fewer)
          state = none := by
  obtain ⟨count, bound, first⟩ := seek_firstAnswer breakpoint machine.cycles limit roomy
    limit.toNat none machine nofun (Nat.le_refl _) (Nat.le_refl _)
  obtain ⟨last, here, ended⟩ := first.reached
  obtain ⟨costs, done⟩ := stateAt?_eq_some_iff.mp here
  refine ⟨count, costs, last, done, by omega, ended, ?_⟩
  intro fewer less
  obtain ⟨between, there, unended⟩ := first.passed less
  obtain ⟨spent, reached⟩ := stateAt?_eq_some_iff.mp there
  exact ⟨spent, between, reached, unended⟩

/-- Where an instruction goes to itself just as the limit is spent, the run is trapped: in memory
full of zeros the BRK at address zero goes to address zero, in seven cycles. -/
theorem runUntil_fewest_steps_interrupt :
    ∃ machine last : Machine, machine.cycles.toNat + (7 : UInt64).toNat + 6 < UInt64.size ∧
      machine.runUntil none 7 = .ok (.trapped 0) last := by
  let machine : Machine := { memory := Memory.empty, initialized := true }
  have roomy : machine.cycles.toNat + (7 : UInt64).toNat + 6 < UInt64.size := by decide
  have stepped : machine.step = .ok _ _ := step_of_opcode rfl (ofByte?_nextOpcode_of_empty rfl)
  have stays : (machine.stepped ⟨.brk, .implied, 7⟩).pc = 0 := by
    show (machine.fetch.clearPenalties.advance .implied).interrupt.pc = 0
    rw [pc_interrupt]
    show wordOf (Memory.empty.read _) (Memory.empty.read _) = 0
    rw [Memory.read_empty, Memory.read_empty]
    rfl
  obtain ⟨count, costs, last, done, bound, ended, silent⟩ :=
    runUntil_fewest_steps machine none 7 roomy
  have trapped : exit? none (machine.cycles.toNat + (7 : UInt64).toNat) (some machine)
      (machine.stepped ⟨.brk, .implied, 7⟩) =
        some (.ok (.trapped 0) (machine.stepped ⟨.brk, .implied, 7⟩)) := by
    rw [← stays]
    exact exit?_of_trap (congrArg some stays.symm)
  have first : steps 1 machine = .ok [machine.cost ⟨.brk, .implied, 7⟩]
      (machine.stepped ⟨.brk, .implied, 7⟩) :=
    steps_succ_of_step (σ := Machine) stepped 0
  rcases Nat.lt_trichotomy count 1 with less | rfl | more
  · have nowhere : count = 0 := Nat.lt_one_iff.mp less
    subst nowhere
    cases done
    have quiet : exit? none (machine.cycles.toNat + (7 : UInt64).toNat) none machine = none :=
      exit?_of_step (fun same => nomatch same) (fun same => nomatch same) (by decide) stepped
    cases quiet.symm.trans ended
  · cases first.symm.trans done
    exact ⟨machine, _, roomy, (Option.some_inj.mp (ended.symm.trans trapped))⟩
  · obtain ⟨_, _, reached, unended⟩ := silent 1 more
    cases first.symm.trans reached
    cases trapped.symm.trans unended

end Machine

end Mos6502
