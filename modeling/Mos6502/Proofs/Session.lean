/-
This file follows a machine through the hands of a host: it is built in one of three ways, and then
any calls are made in any order, refused ones included. Whether a machine is ready depends on the
calls alone, since nothing but a reset makes it so and nothing undoes that. From this follows when a
step is refused, and why: before the first reset, and at a byte that is no opcode. A refusal changes
nothing but the note of the fetched byte, so it repeats for as long as the host only steps.
-/

import Mos6502.Processor
import Mos6502.Proofs.Step

namespace Mos6502

/-- The state that a computation leaves, whether it was refused or not. -/
def finalState {ε σ α : Type} : EStateM.Result ε σ α → σ
  | .ok _ state => state
  | .error _ state => state

/-! ### Runs keep what steps keep -/

namespace Processor

variable {σ : Type} [Processor σ] {P : σ → Prop}

theorem spend_keeps (stepKeeps : ∀ state : σ, P state → P (finalState (step state)))
    (target : UInt64) (fuel : Nat) (state : σ) (held : P state) :
    P (finalState (spend target fuel state)) := by
  induction fuel generalizing state with
  | zero => exact held
  | succ fuel inductionHypothesis =>
    have next := stepKeeps state held
    rw [spend]
    split
    · split
      · rename_i stepped
        rw [stepped] at next
        exact inductionHypothesis _ next
      · rename_i stepped
        rw [stepped] at next
        exact next
    · exact held

theorem runForCycles_keeps (stepKeeps : ∀ state : σ, P state → P (finalState (step state)))
    (budget : UInt64) (state : σ) (held : P state) :
    P (finalState (runForCycles budget state)) := by
  have spent := spend_keeps stepKeeps (target (machine state).cycles budget)
    (target (machine state).cycles budget - (machine state).cycles).toNat state held
  dsimp only [runForCycles]
  split <;> rename_i result <;> rw [result] at spent <;> exact spent

theorem seek_keeps (stepKeeps : ∀ state : σ, P state → P (finalState (step state)))
    (breakpoint : Option UInt16) (start limit : UInt64) (fuel : Nat) (state : σ)
    (held : P state) : P (finalState (seek breakpoint start limit fuel state)) := by
  induction fuel generalizing state with
  | zero =>
    rw [seek]
    split
    · exact held
    · split <;> exact held
  | succ fuel inductionHypothesis =>
    have next := stepKeeps state held
    rw [seek]
    split
    · exact held
    · split
      · exact held
      · split
        · rename_i stepped
          rw [stepped] at next
          split
          · exact next
          · exact inductionHypothesis _ next
        · rename_i stepped
          rw [stepped] at next
          exact next

theorem runUntil_keeps (stepKeeps : ∀ state : σ, P state → P (finalState (step state)))
    (breakpoint : Option UInt16) (limit : UInt64) (state : σ) (held : P state) :
    P (finalState (runUntil breakpoint limit state)) :=
  seek_keeps stepKeeps _ _ _ _ state held

end Processor

/-! ### Sessions -/

/-- What a host can ask of a machine. -/
inductive Call where
  /-- Loads the program counter from the reset vector. -/
  | reset
  /-- Executes one instruction. -/
  | step
  /-- Runs until a budget of cycles is spent. -/
  | runForCycles (budget : UInt64)
  /-- Runs to a place, or until a limit of cycles is spent. -/
  | runUntil (breakpoint : Option UInt16) (limit : UInt64)
  /-- Puts a byte into A, X or Y. -/
  | setRegister (register : Register) (value : UInt8)
  /-- Sets the stack pointer. -/
  | setSP (value : UInt8)
  /-- Sets the program counter. -/
  | setPC (address : UInt16)
  /-- Sets the status register from a byte. -/
  | setStatus (bits : UInt8)
  /-- Sets or clears a flag. -/
  | setFlag (flag : Flag) (on : Bool)
  /-- Sets how cycles are counted. -/
  | setTiming (timing : Timing)
  /-- Stores a byte in memory. -/
  | write (address : UInt16) (value : UInt8)
  /-- Stores a word in memory. -/
  | writeWord (address value : UInt16)
  /-- Stores an image in memory. -/
  | load (image : List UInt8) (loadAddress : UInt16)
deriving DecidableEq

/-- The machine after a call, whether the call was refused or not. -/
def Call.apply (call : Call) (machine : Machine) : Machine :=
  match call with
  | .reset => machine.reset
  | .step => finalState machine.step
  | .runForCycles budget => finalState (Machine.runForCycles budget machine)
  | .runUntil breakpoint limit => finalState (Machine.runUntil breakpoint limit machine)
  | .setRegister register value => machine.setRegister register value
  | .setSP value => machine.setSP value
  | .setPC address => machine.setPC address
  | .setStatus bits => machine.setStatus bits
  | .setFlag flag on => machine.setFlag flag on
  | .setTiming timing => machine.setTiming timing
  | .write address value => machine.write address value
  | .writeWord address value => machine.writeWord address value
  | .load image loadAddress =>
    match machine.load image loadAddress with
    | .ok loaded => loaded
    | .error _ => machine

namespace Machine

/-- The machine after calls made one after the other. -/
def afterCalls (machine : Machine) (calls : List Call) : Machine :=
  calls.foldl (fun machine call => call.apply machine) machine

/-- What every call keeps, a session keeps. -/
theorem afterCalls_keeps {P : Machine → Prop} {calls : List Call}
    (callKeeps : ∀ call ∈ calls, ∀ machine, P machine → P (call.apply machine))
    {machine : Machine} (held : P machine) : P (machine.afterCalls calls) := by
  induction calls generalizing machine with
  | nil => exact held
  | cons call rest inductionHypothesis =>
    have first := callKeeps call List.mem_cons_self machine held
    exact inductionHypothesis (fun later member => callKeeps later (List.mem_cons_of_mem _ member))
      first

/-- The machines that a host starts from. -/
inductive Built : Machine → Prop where
  /-- Only an image is given. -/
  | ofImage {machine : Machine} {image : List UInt8} {loadAddress : UInt16}
    (built : Machine.ofImage image loadAddress = .ok machine) : Built machine
  /-- An image and an entry point are given. -/
  | ofEntryPoint {machine : Machine} {image : List UInt8} {loadAddress entryPoint : UInt16}
    (built : Machine.ofEntryPoint image loadAddress entryPoint = .ok machine) : Built machine
  /-- An image and every setting are given. -/
  | ofConfig {machine : Machine} {image : List UInt8} {config : Config}
    (built : Machine.ofConfig image config = .ok machine) : Built machine

/-! ### Built machines -/

theorem eq_of_ofImage {machine : Machine} {image : List UInt8} {loadAddress : UInt16}
    (built : ofImage image loadAddress = .ok machine) : ∃ memory, machine = { memory } := by
  unfold ofImage at built
  cases loaded : Memory.empty.load image loadAddress with
  | error fault =>
    rw [loaded] at built
    cases built
  | ok memory =>
    rw [loaded] at built
    cases built
    exact ⟨memory, rfl⟩

theorem eq_of_ofEntryPoint {machine : Machine} {image : List UInt8}
    {loadAddress entryPoint : UInt16}
    (built : ofEntryPoint image loadAddress entryPoint = .ok machine) :
    ∃ memory, machine = { memory } := by
  unfold ofEntryPoint at built
  cases loaded : ofImage image loadAddress with
  | error fault =>
    rw [loaded] at built
    cases built
  | ok plain =>
    obtain ⟨memory, rfl⟩ := eq_of_ofImage loaded
    rw [loaded] at built
    change (if entryPoint = 0 then Except.ok _ else _) = _ at built
    split at built <;> cases built <;> exact ⟨_, rfl⟩

/-- A built machine is one at power-on, apart from its memory, its stack pointer and its timing. -/
theorem eq_of_built {machine : Machine} (built : Built machine) :
    ∃ memory sp timing, machine = { memory, sp, timing } := by
  cases built with
  | ofImage built =>
    obtain ⟨memory, rfl⟩ := eq_of_ofImage built
    exact ⟨memory, 0, .base, rfl⟩
  | ofEntryPoint built =>
    obtain ⟨memory, rfl⟩ := eq_of_ofEntryPoint built
    exact ⟨memory, 0, .base, rfl⟩
  | @ofConfig image config built =>
    unfold ofConfig at built
    cases loaded : ofEntryPoint image config.loadAddress (config.effectiveEntryPoint.getD 0) with
    | error fault =>
      rw [loaded] at built
      cases built
    | ok plain =>
      obtain ⟨memory, rfl⟩ := eq_of_ofEntryPoint loaded
      rw [loaded] at built
      cases built
      exact ⟨_, _, _, rfl⟩

theorem status_of_built {machine : Machine} (built : Built machine) :
    machine.status = .initial := by
  obtain ⟨_, _, _, rfl⟩ := eq_of_built built
  rfl

/-! ### Readiness depends on the calls alone -/

theorem initialized_of_built {machine : Machine} (built : Built machine) :
    machine.initialized = false := by
  obtain ⟨_, _, _, rfl⟩ := eq_of_built built
  rfl

/-- A step does not change whether the machine is ready, be it refused or not. -/
theorem initialized_finalState_step (machine : Machine) :
    (finalState machine.step).initialized = machine.initialized := by
  rcases machine.step_cases with ⟨_, refused⟩ | ⟨_, _, refused⟩ | ⟨_, opcode, _, succeeded⟩
  · rw [refused]
    rfl
  · rw [refused]
    rfl
  · rw [succeeded]
    exact machine.initialized_stepped opcode

/-- Only a reset makes a machine ready, and no call undoes it. -/
theorem initialized_apply (machine : Machine) (call : Call) :
    (call.apply machine).initialized = (machine.initialized || decide (call = .reset)) := by
  have stepKeeps (ready : Bool) (machine : Machine) (held : machine.initialized = ready) :
      (finalState machine.step).initialized = ready :=
    machine.initialized_finalState_step.trans held
  have others (other : call ≠ .reset) : (machine.initialized || decide (call = .reset)) =
      machine.initialized := by
    rw [decide_eq_false other, Bool.or_false]
  cases call with
  | reset => exact (Bool.or_true _).symm
  | step =>
    rw [others nofun]
    exact machine.initialized_finalState_step
  | runForCycles budget =>
    rw [others nofun]
    exact Processor.runForCycles_keeps (σ := Machine) (stepKeeps machine.initialized) budget
      machine rfl
  | runUntil breakpoint limit =>
    rw [others nofun]
    exact Processor.runUntil_keeps (σ := Machine) (stepKeeps machine.initialized) breakpoint limit
      machine rfl
  | setRegister register value =>
    rw [others nofun]
    cases register <;> rfl
  | load image loadAddress =>
    rw [others nofun]
    dsimp only [Call.apply, load]
    cases machine.memory.load image loadAddress <;> rfl
  | _ =>
    rw [others nofun]
    rfl

theorem initialized_afterCalls (machine : Machine) (calls : List Call) :
    (machine.afterCalls calls).initialized =
      (machine.initialized || decide (Call.reset ∈ calls)) := by
  induction calls generalizing machine with
  | nil => simp [afterCalls]
  | cons call rest inductionHypothesis =>
    have first := inductionHypothesis (call.apply machine)
    rw [initialized_apply, Bool.or_assoc] at first
    rw [afterCalls, List.foldl_cons, ← afterCalls, first]
    simp [List.mem_cons, Bool.decide_or, eq_comm]

/-- A built machine is ready exactly after a reset. -/
theorem initialized_afterCalls_iff {origin : Machine} (built : Built origin) (calls : List Call) :
    (origin.afterCalls calls).initialized = true ↔ Call.reset ∈ calls := by
  rw [initialized_afterCalls, initialized_of_built built, Bool.false_or, decide_eq_true_iff]

/-! ### Refused steps of a session -/

/-- A refusal repeats: however often the host steps after it, the machine stays as it is. -/
theorem afterCalls_replicate_step {machine : Machine} {fault : Fault}
    (stuck : machine.step = .error fault machine) (count : Nat) :
    machine.afterCalls (List.replicate count .step) = machine := by
  induction count with
  | zero => rfl
  | succ count inductionHypothesis =>
    have stays : Call.step.apply machine = machine := by
      rw [Call.apply, stuck]
      rfl
    rw [List.replicate_succ, afterCalls, List.foldl_cons, stays]
    exact inductionHypothesis

/-- When a step is refused in a session, and what that leaves. It is refused as not initialized
exactly if the calls so far hold no reset, and then nothing changes; it is refused as unimplemented
exactly if they do and the byte at the program counter is no opcode, and then that byte is noted and
nothing else changes; otherwise it succeeds. There is no other fault, and a refusal repeats. -/
theorem step_refusals {origin : Machine} (built : Built origin) (calls : List Call) :
    let machine := origin.afterCalls calls
    let byte := machine.memory.read machine.pc
    (∀ left, machine.step = .error .notInitialized left ↔
      Call.reset ∉ calls ∧ left = machine) ∧
    (∀ opcode pc left, machine.step = .error (.unimplementedOpcode opcode pc) left ↔
      Call.reset ∈ calls ∧ Opcode.ofByte? byte = none ∧ opcode = byte ∧ pc = machine.pc ∧
        left = { machine with currentOpcode := byte }) ∧
    ((∃ cost after, machine.step = .ok cost after) ↔
      Call.reset ∈ calls ∧ Opcode.ofByte? byte ≠ none) ∧
    (∀ mnemonic mode left, machine.step ≠ .error (.invalidMode mnemonic mode) left) ∧
    (∀ flag value left, machine.step ≠ .error (.flagValueOutOfRange flag value) left) ∧
    (∀ fault left, machine.step = .error fault left → ∀ count,
      left.afterCalls (List.replicate count .step) = left ∧ left.step = .error fault left) := by
  intro machine byte
  have ready : machine.initialized = true ↔ Call.reset ∈ calls :=
    initialized_afterCalls_iff built calls
  have unready : machine.initialized = false ↔ Call.reset ∉ calls := by
    rw [← ready, Bool.not_eq_true]
  refine ⟨?_, ?_, ?_, ?_, ?_, ?_⟩
  · intro left
    rw [step_eq_notInitialized_iff, unready]
  · intro opcode pc left
    rw [step_eq_unimplementedOpcode_iff, ready]
    rfl
  · rw [step_succeeds_iff, ready]
    rfl
  · intro mnemonic mode left refused
    rcases fault_of_step refused with same | ⟨_, _, same⟩ <;> cases same
  · intro flag value left refused
    rcases fault_of_step refused with same | ⟨_, _, same⟩ <;> cases same
  · intro fault left refused count
    have stuck := step_of_refused refused
    exact ⟨afterCalls_replicate_step stuck count, stuck⟩

/-- A byte that is no opcode at the entry point: the first step after the reset is refused there. -/
theorem step_refusals_first_step : ∃ origin, ofImage [0x02] 0 = .ok origin ∧
    (origin.afterCalls [.reset]).step = .error (.unimplementedOpcode 0x02 0)
      { origin.afterCalls [.reset] with currentOpcode := 0x02 } := by
  refine ⟨{ memory := Memory.empty.writeRange 0 [0x02] }, rfl, ?_⟩
  have built : Built { memory := Memory.empty.writeRange 0 [0x02] } :=
    .ofImage (show ofImage [0x02] 0 = .ok _ from rfl)
  obtain ⟨_, undocumented, _⟩ := step_refusals built [.reset]
  refine (undocumented 0x02 0 _).mpr ?_
  simp [afterCalls, Call.apply, reset, Memory.writeRange, Memory.readWord, Memory.read_write,
    Memory.resetVector, Opcode.ofByte?, Opcode.matrix, wordOf]

end Machine

end Mos6502
