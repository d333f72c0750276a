/-
This file proves that a run for a budget of cycles is the shortest run of steps that meets the
budget. The run ends at the first state where the counter has reached its goal or a step is refused;
since every instruction takes at least two cycles, half the budget bounds the number of steps, and
since none takes more than seven, the run goes over the budget by six cycles at most.
-/

import Mos6502.Proofs.Run

namespace Mos6502

namespace Machine

open Processor

/-- How a run for a budget of cycles ends in a state, if it does: without a fault at the counter
reading that is its goal, and with the fault of a refused step before that. -/
def settlement? (goal : Nat) (_ : Option Machine) (machine : Machine) :
    Option (EStateM.Result Fault Machine Unit) :=
  if goal ≤ machine.cycles.toNat then some (.ok () machine)
  else match machine.step with
    | .ok _ _ => none
    | .error fault left => some (.error fault left)

variable {goal : Nat} {previous : Option Machine} {machine : Machine}

theorem settlement?_of_met (met : goal ≤ machine.cycles.toNat) :
    settlement? goal previous machine = some (.ok () machine) :=
  if_pos met

theorem settlement?_of_step {next : Machine} {cost : UInt8}
    (unmet : machine.cycles.toNat < goal) (done : machine.step = .ok cost next) :
    settlement? goal previous machine = none := by
  rw [settlement?, if_neg (Nat.not_le_of_lt unmet), done]

theorem settlement?_of_refused {left : Machine} {fault : Fault}
    (unmet : machine.cycles.toNat < goal) (refused : machine.step = .error fault left) :
    settlement? goal previous machine = some (.error fault left) := by
  rw [settlement?, if_neg (Nat.not_le_of_lt unmet), refused]

/-- A run does not end where it has not met its goal and a step succeeds. -/
theorem settlement?_eq_none_iff : settlement? goal previous machine = none ↔
    machine.cycles.toNat < goal ∧ ∃ cost next, machine.step = .ok cost next := by
  constructor
  · intro unsettled
    have unmet : machine.cycles.toNat < goal := by
      refine Nat.lt_of_not_le fun met => ?_
      rw [settlement?_of_met met] at unsettled
      cases unsettled
    cases stepped : machine.step with
    | ok cost next => exact ⟨unmet, cost, next, rfl⟩
    | error fault left =>
      rw [settlement?_of_refused unmet stepped] at unsettled
      cases unsettled
  · rintro ⟨unmet, cost, next, done⟩
    exact settlement?_of_step unmet done

/-- A run ends without a fault in a state that has met the goal. -/
theorem met_of_settlement? {last : Machine}
    (settled : settlement? goal previous machine = some (.ok () last)) :
    last = machine ∧ goal ≤ machine.cycles.toNat := by
  by_cases met : goal ≤ machine.cycles.toNat
  · rw [settlement?_of_met met] at settled
    cases settled
    exact ⟨rfl, met⟩
  · have unmet := Nat.lt_of_not_le met
    cases stepped : machine.step with
    | ok cost next =>
      rw [settlement?_of_step unmet stepped] at settled
      cases settled
    | error fault left =>
      rw [settlement?_of_refused unmet stepped] at settled
      cases settled

/-- The loop ends with the first settlement, if it may take as many steps as there are cycles left
to the goal; it takes a step for every two of them at most. -/
theorem spend_firstAnswer (goal : UInt64) (roomy : goal.toNat + 6 < UInt64.size) (fuel : Nat)
    (previous : Option Machine) (machine : Machine)
    (enough : goal.toNat ≤ machine.cycles.toNat + fuel) :
    ∃ count, 2 * count ≤ goal.toNat - machine.cycles.toNat + 1 ∧
      FirstAnswer (settlement? goal.toNat) previous machine count (spend goal fuel machine) := by
  induction fuel generalizing machine previous with
  | zero => exact ⟨0, Nat.zero_le _, FirstAnswer.now (settlement?_of_met enough)⟩
  | succ fuel inductionHypothesis =>
    by_cases met : machine.cycles < goal
    · have unmet : machine.cycles.toNat < goal.toNat := UInt64.lt_iff_toNat_lt.mp met
      cases stepped : machine.step with
      | error fault left =>
        rw [spend_of_refused (σ := Machine) met stepped]
        exact ⟨0, Nat.zero_le _, FirstAnswer.now (settlement?_of_refused unmet stepped)⟩
      | ok cost next =>
        obtain ⟨grown, least, _⟩ := cycles_of_step stepped (by omega)
        obtain ⟨count, bound, first⟩ := inductionHypothesis (some machine) next (by omega)
        rw [spend_of_step (σ := Machine) met stepped]
        exact ⟨count + 1, by omega, first.later (settlement?_of_step unmet stepped) stepped⟩
    · have reached : goal.toNat ≤ machine.cycles.toNat :=
        UInt64.le_iff_toNat_le.mp (UInt64.not_lt.mp met)
      rw [spend_of_met (σ := Machine) met]
      exact ⟨0, Nat.zero_le _, FirstAnswer.now (settlement?_of_met reached)⟩

theorem toNat_target {start budget : UInt64} (roomy : start.toNat + budget.toNat < UInt64.size) :
    (target start budget).toNat = start.toNat + budget.toNat := by
  rw [target, if_pos roomy, UInt64.toNat_add]
  exact Nat.mod_eq_of_lt roomy

/-- The loop of a run may take as many steps as its budget has cycles. -/
theorem toNat_target_sub {start budget : UInt64}
    (roomy : start.toNat + budget.toNat < UInt64.size) :
    (target start budget - start).toNat = budget.toNat := by
  rw [target, if_pos roomy, UInt64.add_comm, UInt64.add_sub_cancel]

/-- Steps that stay below a goal until the last of them go over it by less than that one takes, and
by six cycles at most. -/
theorem overshoot_of_steps {last : Machine} {count : Nat} {costs : List UInt8}
    (done : steps count machine = .ok costs last) (roomy : goal + 6 < UInt64.size)
    (start : machine.cycles.toNat ≤ goal)
    (below : ∀ fewer < count, ∀ state, stateAt? machine fewer = some state →
      state.cycles.toNat < goal) :
    last.cycles.toNat ≤ goal + 6 ∧
      ∀ cost ∈ costs.getLast?, last.cycles.toNat < goal + cost.toNat := by
  cases count with
  | zero =>
    cases done
    exact ⟨Nat.le_add_right_of_le start, nofun⟩
  | succ count =>
    obtain ⟨earlier, before, cost, reached, stepped, rfl⟩ := last_of_steps done
    have lower := below count (Nat.lt_succ_self _) before
      (stateAt?_eq_some_iff.mpr ⟨earlier, reached⟩)
    obtain ⟨grown, _, most⟩ := cycles_of_step stepped (by omega)
    refine ⟨by omega, fun final member => ?_⟩
    rw [List.getLast?_concat] at member
    cases member
    omega

/-- Where the loop of a run settles, the run returns the cycles taken, if they meet the budget, or
ends with the fault of the step that is refused there. -/
theorem returned_of_settled {budget : UInt64} {last : Machine} {spent : Nat}
    (goal : (target machine.cycles budget).toNat = machine.cycles.toNat + budget.toNat)
    (sum : last.cycles.toNat = machine.cycles.toNat + spent)
    (settled : settlement? (target machine.cycles budget).toNat previous last =
      some (spend (target machine.cycles budget)
        (target machine.cycles budget - machine.cycles).toNat machine)) :
    (budget.toNat ≤ spent ∧
        ∃ consumed, consumed.toNat = spent ∧ machine.runForCycles budget = .ok consumed last) ∨
      (spent < budget.toNat ∧
        ∃ fault left, last.step = .error fault left ∧ left.cycles = last.cycles ∧
          machine.runForCycles budget = .error fault left) := by
  by_cases met : (target machine.cycles budget).toNat ≤ last.cycles.toNat
  · rw [settlement?_of_met met] at settled
    have loop := (Option.some_inj.mp settled).symm
    refine Or.inl ⟨by omega, last.cycles - machine.cycles, ?_,
      runForCycles_of_ok (σ := Machine) loop⟩
    rw [UInt64.toNat_sub_of_le _ _ (UInt64.le_iff_toNat_le.mpr (by omega))]
    omega
  · have unmet := Nat.lt_of_not_le met
    cases stepped : last.step with
    | ok cost next =>
      rw [settlement?_of_step unmet stepped] at settled
      cases settled
    | error fault left =>
      rw [settlement?_of_refused unmet stepped] at settled
      have loop := (Option.some_inj.mp settled).symm
      exact Or.inr ⟨by omega, fault, left, rfl, cycles_of_refused stepped,
        runForCycles_of_refused (σ := Machine) loop⟩

/-- A run for a budget of cycles, with room for it in the cycle counter, takes the fewest steps that
meet the budget, at most one for every two cycles. It returns the sum of their costs, which goes
over the budget by less than the last of them; or it ends before, with the fault of the first step
that is refused, and then it has taken the cycles of the steps before that one. -/
theorem runForCycles_fewest_steps (machine : Machine) (budget : UInt64)
    (roomy : machine.cycles.toNat + budget.toNat + 6 < UInt64.size) :
    ∃ count costs last, steps count machine = .ok costs last ∧
      count ≤ (budget.toNat + 1) / 2 ∧
      (∀ fewer < count, ∃ costs state, steps fewer machine = .ok costs state ∧
        state.cycles.toNat - machine.cycles.toNat < budget.toNat) ∧
      last.cycles.toNat = machine.cycles.toNat + total costs ∧
      ((budget.toNat ≤ total costs ∧ total costs ≤ budget.toNat + 6 ∧
          (∀ cost ∈ costs.getLast?, total costs - budget.toNat < cost.toNat) ∧
          ∃ consumed, consumed.toNat = total costs ∧
            machine.runForCycles budget = .ok consumed last) ∨
        (total costs < budget.toNat ∧
          ∃ fault left, last.step = .error fault left ∧ left.cycles = last.cycles ∧
            machine.runForCycles budget = .error fault left)) ∧
      (budget = 0 → count = 0 ∧ machine.runForCycles budget = .ok 0 machine) := by
  have room : machine.cycles.toNat + budget.toNat < UInt64.size := by omega
  have goal := toNat_target room
  have fuel := toNat_target_sub room
  obtain ⟨count, bound, first⟩ := spend_firstAnswer (target machine.cycles budget) (by omega)
    (target machine.cycles budget - machine.cycles).toNat none machine (by omega)
  obtain ⟨last, here, settled⟩ := first.reached
  obtain ⟨costs, done⟩ := stateAt?_eq_some_iff.mp here
  -- Before the end of the run the counter is below the goal, so it has room for an instruction.
  have below : ∀ fewer < count, ∀ state, stateAt? machine fewer = some state →
      state.cycles.toNat < machine.cycles.toNat + budget.toNat := by
    intro fewer less state between
    obtain ⟨known, same, unsettled⟩ := first.passed less
    cases same.symm.trans between
    rw [← goal]
    exact (settlement?_eq_none_iff.mp unsettled).1
  have sum : last.cycles.toNat = machine.cycles.toNat + total costs :=
    cycles_of_steps done fun fewer less state between => by
      have lower := below fewer less state between
      omega
  obtain ⟨most, overshoot⟩ := overshoot_of_steps done roomy (Nat.le_add_right _ _) below
  have ending := returned_of_settled goal sum settled
  refine ⟨count, costs, last, done, by omega, ?_, sum, ?_, ?_⟩
  · intro fewer less
    obtain ⟨between, there, _⟩ := first.passed less
    obtain ⟨spent, reached⟩ := stateAt?_eq_some_iff.mp there
    have lower := below fewer less between there
    exact ⟨spent, between, reached, by omega⟩
  · rcases ending with ⟨enough, returned⟩ | refused
    · refine Or.inl ⟨enough, by omega, fun cost member => ?_, returned⟩
      have lower := overshoot cost member
      omega
    · exact Or.inr refused
  · intro nothing
    subst nothing
    have noSteps : count = 0 := by
      have zero : (0 : UInt64).toNat = 0 := rfl
      omega
    subst noSteps
    cases done
    rcases ending with ⟨_, consumed, amount, returned⟩ | ⟨negative, _⟩
    · have zero : consumed = 0 := UInt64.toNat_inj.mp amount
      rw [returned, zero]
      exact ⟨rfl, rfl⟩
    · exact absurd negative (Nat.not_lt_zero _)

/-- A budget of one cycle is gone over by six where a BRK is executed. -/
theorem runForCycles_fewest_steps_interrupt :
    ∃ machine last : Machine, machine.cycles.toNat + (1 : UInt64).toNat + 6 < UInt64.size ∧
      machine.runForCycles 1 = .ok 7 last := by
  let machine : Machine := { memory := Memory.empty, initialized := true }
  have roomy : machine.cycles.toNat + (1 : UInt64).toNat + 6 < UInt64.size := by decide
  have stepped : machine.step = .ok _ _ := step_of_opcode rfl (ofByte?_nextOpcode_of_empty rfl)
  obtain ⟨count, costs, last, done, bound, _, _, ending, _⟩ :=
    runForCycles_fewest_steps machine 1 roomy
  have few : count = 0 ∨ count = 1 := by
    have one : (1 : UInt64).toNat = 1 := rfl
    omega
  rcases few with rfl | rfl
  · cases done
    rcases ending with ⟨enough, _⟩ | ⟨_, fault, left, refused, _⟩
    · exact absurd enough (by decide)
    · cases stepped.symm.trans refused
  · obtain ⟨cost, next, rest, first, others, rfl⟩ := first_of_steps done
    cases others
    cases stepped.symm.trans first
    rcases ending with ⟨_, _, _, consumed, amount, returned⟩ | ⟨less, _⟩
    · have seven : consumed = 7 := UInt64.toNat_inj.mp amount
      exact ⟨machine, _, roomy, seven ▸ returned⟩
    · exact absurd less (by decide)

end Machine

end Mos6502
