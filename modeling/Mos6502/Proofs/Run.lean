/-
This file takes runs apart into steps. A run that only steps has a state after every number of steps
until one is refused. Other runs look at each state before they go on: they put a test to it, and to
the state before it, and end with the first answer. The file says what a first answer is, and how
the cycle counter moves along the steps of a machine: it grows by the sum of their costs as long as
it has room for one more instruction.
-/

import Mos6502.Processor
import Mos6502.Proofs.Step

namespace Mos6502

namespace Processor

variable {σ ρ : Type} [Processor σ]

/-! ### Steps -/

/-- Executes a number of instructions, and returns the cycles that each of them took. -/
def steps : Nat → EStateM Fault σ (List UInt8)
  | 0 => pure []
  | count + 1 => do
    let cost ← step
    let costs ← steps count
    return cost :: costs

theorem steps_succ_of_step {state next : σ} {cost : UInt8} (done : step state = .ok cost next)
    (count : Nat) : steps (count + 1) state =
      match steps count next with
      | .ok costs last => .ok (cost :: costs) last
      | .error fault left => .error fault left := by
  show EStateM.bind step _ state = _
  rw [EStateM.bind, done]
  show EStateM.bind (steps count) _ next = _
  rw [EStateM.bind]
  cases steps count next <;> rfl

theorem steps_succ_of_refused {state left : σ} {fault : Fault}
    (refused : step state = .error fault left) (count : Nat) :
    steps (count + 1) state = .error fault left := by
  show EStateM.bind step _ state = _
  rw [EStateM.bind, refused]

/-- The first of several steps, and the others. -/
theorem first_of_steps {state last : σ} {count : Nat} {costs : List UInt8}
    (done : steps (count + 1) state = .ok costs last) :
    ∃ cost next rest, step state = .ok cost next ∧ steps count next = .ok rest last ∧
      costs = cost :: rest := by
  cases first : step state with
  | error fault left =>
    rw [steps_succ_of_refused first] at done
    cases done
  | ok cost next =>
    rw [steps_succ_of_step first] at done
    cases others : steps count next with
    | error fault left =>
      rw [others] at done
      cases done
    | ok rest final =>
      rw [others] at done
      cases done
      exact ⟨cost, next, rest, rfl, others, rfl⟩

/-- The last of several steps, and those before it. -/
theorem last_of_steps {state last : σ} {count : Nat} {costs : List UInt8}
    (done : steps (count + 1) state = .ok costs last) :
    ∃ earlier before cost, steps count state = .ok earlier before ∧ step before = .ok cost last ∧
      costs = earlier ++ [cost] := by
  induction count generalizing state costs with
  | zero =>
    obtain ⟨cost, next, rest, first, others, rfl⟩ := first_of_steps done
    cases others
    exact ⟨[], state, cost, rfl, first, rfl⟩
  | succ count inductionHypothesis =>
    obtain ⟨cost, next, rest, first, others, rfl⟩ := first_of_steps done
    obtain ⟨earlier, before, final, start, stepped, rfl⟩ := inductionHypothesis others
    refine ⟨cost :: earlier, before, final, ?_, stepped, rfl⟩
    rw [steps_succ_of_step first, start]

/-- Steps that end with a fault lead to a state in which it refuses the next. -/
theorem refused_of_steps {state left : σ} {fault : Fault} {count : Nat}
    (failed : steps count state = .error fault left) : ∃ completed < count, ∃ costs before,
      steps completed state = .ok costs before ∧ step before = .error fault left := by
  induction count generalizing state with
  | zero => cases failed
  | succ count inductionHypothesis =>
    cases first : step state with
    | error otherFault otherLeft =>
      rw [steps_succ_of_refused first] at failed
      cases failed
      exact ⟨0, Nat.succ_pos _, [], state, rfl, first⟩
    | ok cost next =>
      rw [steps_succ_of_step first] at failed
      cases others : steps count next with
      | ok costs last =>
        rw [others] at failed
        cases failed
      | error otherFault otherLeft =>
        rw [others] at failed
        cases failed
        obtain ⟨completed, less, costs, before, done, refused⟩ := inductionHypothesis others
        refine ⟨completed + 1, Nat.succ_lt_succ less, cost :: costs, before, ?_, refused⟩
        rw [steps_succ_of_step first, done]

/-- More steps than there can be end with the fault that refuses the next of them. -/
theorem steps_of_refused {state before left : σ} {fault : Fault} {completed count : Nat}
    {costs : List UInt8} (done : steps completed state = .ok costs before)
    (refused : step before = .error fault left) (less : completed < count) :
    steps count state = .error fault left := by
  induction completed generalizing state count costs with
  | zero =>
    cases count with
    | zero => exact absurd less (Nat.lt_irrefl _)
    | succ count =>
      cases done
      exact steps_succ_of_refused refused count
  | succ completed inductionHypothesis =>
    cases count with
    | zero => exact absurd less (Nat.not_lt_zero _)
    | succ count =>
      obtain ⟨cost, next, rest, first, others, _⟩ := first_of_steps done
      rw [steps_succ_of_step first, inductionHypothesis others (Nat.lt_of_succ_lt_succ less)]

/-- The state after a number of steps, if none of them is refused. -/
def stateAt? (state : σ) (count : Nat) : Option σ :=
  match steps count state with
  | .ok _ last => some last
  | .error _ _ => none

theorem stateAt?_eq_some_iff {state last : σ} {count : Nat} :
    stateAt? state count = some last ↔ ∃ costs, steps count state = .ok costs last := by
  unfold stateAt?
  cases steps count state with
  | ok costs final =>
    constructor
    · intro same
      cases same
      exact ⟨costs, rfl⟩
    · rintro ⟨_, same⟩
      cases same
      rfl
  | error fault left => exact ⟨nofun, nofun⟩

theorem stateAt?_succ_of_step {state next : σ} {cost : UInt8} (done : step state = .ok cost next)
    (count : Nat) : stateAt? state (count + 1) = stateAt? next count := by
  unfold stateAt?
  rw [steps_succ_of_step done]
  cases steps count next <;> rfl

/-- Several steps pass through a state after each smaller number of steps. -/
theorem step_of_steps {state last : σ} {count index : Nat} {costs : List UInt8}
    (done : steps count state = .ok costs last) (less : index < count) :
    ∃ before cost after, stateAt? state index = some before ∧ step before = .ok cost after ∧
      stateAt? state (index + 1) = some after := by
  induction count generalizing last costs with
  | zero => exact absurd less (Nat.not_lt_zero _)
  | succ count inductionHypothesis =>
    obtain ⟨earlier, before, cost, start, stepped, _⟩ := last_of_steps done
    rcases Nat.lt_succ_iff_lt_or_eq.mp less with fewer | rfl
    · exact inductionHypothesis start fewer
    · exact ⟨before, cost, last, stateAt?_eq_some_iff.mpr ⟨earlier, start⟩, stepped,
        stateAt?_eq_some_iff.mpr ⟨costs, done⟩⟩

/-- Several steps begin with any smaller number of them. -/
theorem steps_of_le {state last : σ} {count index : Nat} {costs : List UInt8}
    (done : steps count state = .ok costs last) (le : index ≤ count) :
    ∃ before, steps index state = .ok (costs.take index) before := by
  induction index generalizing state count costs with
  | zero => exact ⟨state, rfl⟩
  | succ index inductionHypothesis =>
    cases count with
    | zero => exact absurd le (Nat.not_succ_le_zero _)
    | succ count =>
      obtain ⟨cost, next, rest, first, others, rfl⟩ := first_of_steps done
      obtain ⟨before, start⟩ := inductionHypothesis others (Nat.le_of_succ_le_succ le)
      refine ⟨before, ?_⟩
      rw [steps_succ_of_step first, start]
      rfl

/-! ### First answers -/

/-- The state before the one after a number of steps; at first, a state from before the run. -/
def stateBefore? (previous : Option σ) (state : σ) : Nat → Option σ
  | 0 => previous
  | count + 1 => stateAt? state count

/-- The answer of a test to the state after a number of steps and the one before that, if the steps
lead to a state and it has an answer. -/
def answerAt? (test : Option σ → σ → Option ρ) (previous : Option σ) (state : σ) (count : Nat) :
    Option ρ :=
  (stateAt? state count).bind (test (stateBefore? previous state count))

theorem stateBefore?_succ_of_step (previous : Option σ) {state next : σ} {cost : UInt8}
    (done : step state = .ok cost next) (count : Nat) :
    stateBefore? previous state (count + 1) = stateBefore? (some state) next count := by
  cases count with
  | zero => rfl
  | succ count => exact stateAt?_succ_of_step done count

theorem answerAt?_succ_of_step (test : Option σ → σ → Option ρ) (previous : Option σ)
    {state next : σ} {cost : UInt8} (done : step state = .ok cost next) (count : Nat) :
    answerAt? test previous state (count + 1) = answerAt? test (some state) next count := by
  rw [answerAt?, answerAt?, stateBefore?_succ_of_step previous done, stateAt?_succ_of_step done]

/-- A test has its first answer after a number of steps. -/
structure FirstAnswer (test : Option σ → σ → Option ρ) (previous : Option σ) (state : σ)
    (count : Nat) (answer : ρ) : Prop where
  /-- There it has this answer. -/
  given : answerAt? test previous state count = some answer
  /-- There is a state after fewer steps, but no answer to it. -/
  silent : ∀ fewer < count, (stateAt? state fewer).isSome = true ∧
    answerAt? test previous state fewer = none

namespace FirstAnswer

variable {test : Option σ → σ → Option ρ} {previous : Option σ} {state next : σ} {answer : ρ}

theorem now (given : test previous state = some answer) :
    FirstAnswer test previous state 0 answer :=
  ⟨given, fun _ negative => absurd negative (Nat.not_lt_zero _)⟩

/-- Where the test is silent and a step succeeds, the first answer comes after that step. -/
theorem later {cost : UInt8} {count : Nat} (quiet : test previous state = none)
    (done : step state = .ok cost next) (rest : FirstAnswer test (some state) next count answer) :
    FirstAnswer test previous state (count + 1) answer := by
  refine ⟨(answerAt?_succ_of_step test previous done count).trans rest.given, ?_⟩
  intro fewer bound
  cases fewer with
  | zero => exact ⟨rfl, quiet⟩
  | succ fewer =>
    rw [stateAt?_succ_of_step done, answerAt?_succ_of_step test previous done]
    exact rest.silent fewer (Nat.lt_of_succ_lt_succ bound)

/-- The first answer is given to a state. -/
theorem reached {count : Nat} (first : FirstAnswer test previous state count answer) :
    ∃ last, stateAt? state count = some last ∧
      test (stateBefore? previous state count) last = some answer :=
  Option.bind_eq_some_iff.mp first.given

/-- On the way to the first answer there are states without one. -/
theorem passed {count fewer : Nat} (first : FirstAnswer test previous state count answer)
    (bound : fewer < count) : ∃ between, stateAt? state fewer = some between ∧
      test (stateBefore? previous state fewer) between = none := by
  obtain ⟨present, unanswered⟩ := first.silent fewer bound
  obtain ⟨between, here⟩ := Option.isSome_iff_exists.mp present
  rw [answerAt?, here] at unanswered
  exact ⟨between, here, unanswered⟩

theorem unique {count other : Nat} {result : ρ}
    (first : FirstAnswer test previous state count answer)
    (second : FirstAnswer test previous state other result) : count = other ∧ answer = result := by
  rcases Nat.lt_trichotomy count other with less | rfl | more
  · cases first.given.symm.trans (second.silent count less).2
  · exact ⟨rfl, Option.some_inj.mp (first.given.symm.trans second.given)⟩
  · cases second.given.symm.trans (first.silent other more).2

/-- Steps without an answer can stand before a first answer. -/
theorem after {earlier count : Nat} {costs : List UInt8} {middle : σ}
    (done : steps earlier state = .ok costs middle)
    (quiet : ∀ fewer < earlier, answerAt? test previous state fewer = none)
    (rest : FirstAnswer test (stateBefore? previous state earlier) middle count answer) :
    FirstAnswer test previous state (earlier + count) answer := by
  induction earlier generalizing state previous costs with
  | zero =>
    cases done
    rw [Nat.zero_add]
    exact rest
  | succ earlier inductionHypothesis =>
    obtain ⟨cost, next, others, start, goesOn, _⟩ := first_of_steps done
    rw [Nat.add_right_comm]
    refine later (quiet 0 (Nat.succ_pos _)) start (inductionHypothesis goesOn ?_ ?_)
    · intro fewer less
      rw [← answerAt?_succ_of_step test previous start]
      exact quiet (fewer + 1) (Nat.succ_lt_succ less)
    · rw [← stateBefore?_succ_of_step previous start]
      exact rest

/-- A test that is silent where another one is may go on from the state that has the answer of the
other one. -/
theorem extend {τ : Type} {other : Option σ → σ → Option τ} {count more : Nat} {middle : σ}
    {result : τ} (first : FirstAnswer test previous state count answer)
    (quieter : ∀ before here, test before here = none → other before here = none)
    (reached : stateAt? state count = some middle)
    (rest : FirstAnswer other (stateBefore? previous state count) middle more result) :
    FirstAnswer other previous state (count + more) result := by
  obtain ⟨costs, done⟩ := stateAt?_eq_some_iff.mp reached
  refine after done (fun fewer less => ?_) rest
  obtain ⟨between, there, silent⟩ := first.passed less
  rw [answerAt?, there]
  exact quieter _ _ silent

end FirstAnswer

/-! ### One turn of a loop -/

section Loops

variable {state next left : σ} {cost : UInt8} {fault : Fault} {goal start limit : UInt64}
  {breakpoint : Option UInt16}

theorem spend_of_met (met : ¬(machine state).cycles < goal) (fuel : Nat) :
    spend goal fuel state = .ok () state := by
  cases fuel with
  | zero => rfl
  | succ fuel => rw [spend, if_neg met]

theorem spend_of_step (unmet : (machine state).cycles < goal) (done : step state = .ok cost next)
    (fuel : Nat) : spend goal (fuel + 1) state = spend goal fuel next := by
  rw [spend, if_pos unmet, done]

theorem spend_of_refused (unmet : (machine state).cycles < goal)
    (refused : step state = .error fault left) (fuel : Nat) :
    spend goal (fuel + 1) state = .error fault left := by
  rw [spend, if_pos unmet, refused]

theorem runForCycles_of_ok {budget : UInt64}
    (spent : spend (target (machine state).cycles budget)
      (target (machine state).cycles budget - (machine state).cycles).toNat state = .ok () next) :
    runForCycles budget state = .ok ((machine next).cycles - (machine state).cycles) next := by
  dsimp only [runForCycles]
  rw [spent]

theorem runForCycles_of_refused {budget : UInt64}
    (spent : spend (target (machine state).cycles budget)
      (target (machine state).cycles budget - (machine state).cycles).toNat state =
        .error fault left) : runForCycles budget state = .error fault left := by
  dsimp only [runForCycles]
  rw [spent]

theorem seek_of_breakpoint (here : breakpoint = some (machine state).pc) (fuel : Nat) :
    seek breakpoint start limit fuel state = .ok (.breakpoint (machine state).pc) state := by
  cases fuel <;> rw [seek] <;> exact if_pos here

theorem seek_of_limit (elsewhere : breakpoint ≠ some (machine state).pc)
    (spent : limit ≤ (machine state).cycles - start) (fuel : Nat) :
    seek breakpoint start limit fuel state = .ok .cycleLimit state := by
  cases fuel <;> rw [seek] <;> exact (if_neg elsewhere).trans (if_pos spent)

variable (elsewhere : breakpoint ≠ some (machine state).pc)
  (unspent : ¬limit ≤ (machine state).cycles - start)

include elsewhere unspent

theorem seek_of_trap (done : step state = .ok cost next)
    (stays : (machine next).pc = (machine state).pc) (fuel : Nat) :
    seek breakpoint start limit (fuel + 1) state = .ok (.trapped (machine state).pc) next := by
  rw [seek]
  refine (if_neg elsewhere).trans ((if_neg unspent).trans ?_)
  rw [done]
  exact if_pos stays

theorem seek_of_step (done : step state = .ok cost next)
    (moves : (machine next).pc ≠ (machine state).pc) (fuel : Nat) :
    seek breakpoint start limit (fuel + 1) state = seek breakpoint start limit fuel next := by
  rw [seek]
  refine (if_neg elsewhere).trans ((if_neg unspent).trans ?_)
  rw [done]
  exact if_neg moves

theorem seek_of_refused (refused : step state = .error fault left) (fuel : Nat) :
    seek breakpoint start limit (fuel + 1) state = .error fault left := by
  rw [seek]
  refine (if_neg elsewhere).trans ((if_neg unspent).trans ?_)
  rw [refused]

end Loops

end Processor

/-! ### Cycles along the steps of a machine -/

/-- The sum of costs. -/
def total : List UInt8 → Nat
  | [] => 0
  | cost :: costs => cost.toNat + total costs

theorem total_append (first second : List UInt8) :
    total (first ++ second) = total first + total second := by
  induction first with
  | nil => exact (Nat.zero_add _).symm
  | cons cost costs inductionHypothesis =>
    rw [List.cons_append, total, inductionHypothesis, total, Nat.add_assoc]

namespace Machine

open Processor

/-- The cycle counter grows by the sum of the costs, if it has room for one more instruction before
each of them. -/
theorem cycles_of_steps {machine last : Machine} {count : Nat} {costs : List UInt8}
    (done : steps count machine = .ok costs last)
    (roomy : ∀ fewer < count, ∀ state, stateAt? machine fewer = some state →
      state.cycles.toNat + 7 < UInt64.size) :
    last.cycles.toNat = machine.cycles.toNat + total costs := by
  induction count generalizing last costs with
  | zero =>
    cases done
    rfl
  | succ count inductionHypothesis =>
    obtain ⟨earlier, before, cost, start, stepped, rfl⟩ := last_of_steps done
    have reached : stateAt? machine count = some before :=
      stateAt?_eq_some_iff.mpr ⟨earlier, start⟩
    have sum := inductionHypothesis start fun fewer bound =>
      roomy fewer (Nat.lt_succ_of_lt bound)
    have grown := (cycles_of_step stepped (roomy count (Nat.lt_succ_self _) before reached)).1
    rw [grown, sum, total_append, Nat.add_assoc]
    rfl

/-- A refused step takes no cycles. -/
theorem cycles_of_refused {machine left : Machine} {fault : Fault}
    (refused : machine.step = .error fault left) : left.cycles = machine.cycles := by
  rcases machine.step_cases with ⟨_, known⟩ | ⟨_, _, known⟩ | ⟨_, _, _, known⟩
  · cases refused.symm.trans known
    rfl
  · cases refused.symm.trans known
    rfl
  · cases refused.symm.trans known

end Machine

end Mos6502
