/-
This file proves that a monitor watches faithfully and changes nothing. However much it writes down,
a run ends as it ends on the bare machine, with the same result or the same fault. What is written
down along the way is one record for every instruction that is executed, made of the machine just
before it, and none for a step that is refused; a run to a place adds why it stopped, and after how
many cycles. For this it is enough to follow the loops of both runs turn by turn. The line that a
record is written as tells of the machine itself: the instruction is found again from the text in
it, and the registers and the cycles from the rest.
-/

import Mos6502.Monitor
import Mos6502.Proofs.AssemblyText
import Mos6502.Proofs.MemoryListing
import Mos6502.Proofs.RegisterLine
import Mos6502.Proofs.Run

namespace Mos6502

open Processor

/-! ### One watched step -/

/-- The instruction at the program counter is executed exactly if a step succeeds. -/
theorem Machine.ready_iff (machine : Machine) :
    machine.ready = true ↔ ∃ cost next, machine.step = .ok cost next := by
  rw [step_succeeds_iff, ready, Bool.and_eq_true, Option.isSome_iff_ne_none]

namespace Monitor

/-- The monitor after instructions were executed in some states of the machine and led to another
one. -/
def watch (monitor : Monitor) (passed : List Machine) (last : Machine) : Monitor where
  machine := last
  level := monitor.level
  records := monitor.records ++
    (if monitor.level = .trace then passed.map Machine.announcement else []).toArray

theorem watch_nil (monitor : Monitor) (last : Machine) :
    monitor.watch [] last = { monitor with machine := last } := by
  rw [watch, List.map_nil, ite_self, Array.append_empty]

theorem watch_watch (monitor : Monitor) (earlier later : List Machine) (between last : Machine) :
    (monitor.watch earlier between).watch later last = monitor.watch (earlier ++ later) last := by
  unfold watch
  by_cases tracing : monitor.level = .trace
  · simp [tracing]
  · simp [tracing]

theorem step_of_refused {monitor : Monitor} {fault : Fault} {left : Machine}
    (refused : monitor.machine.step = .error fault left) :
    step monitor = .error fault (monitor.watch [] left) := by
  have notReady : ¬(monitor.level = .trace ∧ monitor.machine.ready = true) := by
    rintro ⟨_, executes⟩
    obtain ⟨cost, next, done⟩ := monitor.machine.ready_iff.mp executes
    cases refused.symm.trans done
  rw [step, announce, if_neg notReady, lift, refused, watch_nil]

theorem step_of_done {monitor : Monitor} {cost : UInt8} {next : Machine}
    (done : monitor.machine.step = .ok cost next) :
    step monitor = .ok cost (monitor.watch [monitor.machine] next) := by
  have isReady : monitor.machine.ready = true :=
    monitor.machine.ready_iff.mpr ⟨cost, next, done⟩
  rw [step, announce, watch]
  by_cases tracing : monitor.level = .trace
  · rw [if_pos ⟨tracing, isReady⟩, if_pos tracing, lift]
    simp [note, done]
  · rw [if_neg fun both => tracing both.1, if_neg tracing, lift]
    simp [done]

/-- What was written down so far, as lines. -/
def lines (monitor : Monitor) : List String :=
  monitor.records.toList.map Record.line

theorem lines_watch (monitor : Monitor) (passed : List Machine) (last : Machine) :
    (monitor.watch passed last).lines = monitor.lines ++
      (if monitor.level = .trace then passed else []).map fun state => state.announcement.line := by
  unfold lines watch
  rw [Array.toList_append, List.map_append]
  split
  · rw [List.map_map]
    rfl
  · rfl

theorem lines_note (monitor : Monitor) (record : Record) :
    (monitor.note record).lines = monitor.lines ++ [record.line] := by
  rw [lines, note, Array.toList_push, List.map_append, lines]
  rfl

end Monitor

/-! ### What a line tells -/

theorem Record.toList_executing (text : String) (snapshot : Snapshot) :
    (executing text snapshot).line.toList = "TRACE ".toList ++ text.toList ++
      List.replicate (14 - text.toList.length) ' ' ++ ' ' :: snapshot.line.toList := by
  show ("TRACE " ++ Text.padRight 14 text ++ " " ++ snapshot.line).toList = _
  rw [String.toList_append, String.toList_append, String.toList_append, Text.toList_padRight,
    List.append_assoc, List.append_assoc, List.append_assoc, List.append_assoc]
  rfl

/-- A line tells of a machine that is about to execute an instruction. It has the assembly text at
the program counter in a column of fourteen characters, and behind it the register line; the text
stands for the very instruction, and the register line shows the registers and the cycles. -/
structure TellsOf (line : String) (state : Machine) : Prop where
  /-- The assembly text is filled up with blanks, and one more is in front of the register line. -/
  columns :
    let text := (state.textAt state.pc).toList
    line.toList = "TRACE ".toList ++ text ++ List.replicate (14 - text.length) ' ' ++
      ' ' :: state.snapshot.line.toList
  /-- The assembly text stands for the instruction at the program counter. -/
  instruction : ∃ opcode, Opcode.ofByte? state.nextOpcode = some opcode ∧
    Entry.assemble? state.pc (state.textAt state.pc) = some ⟨state.pc, state.nextOpcode,
      .instruction opcode.mnemonic opcode.mode
        (state.memory.readRange (state.pc + 1) opcode.mode.operandBytes) opcode.cycles⟩
  /-- The register line shows what the registers hold, and the cycles so far. -/
  registers : Shown.ofLine? state.snapshot.line = some {
    pc := state.pc.toNat
    a := state.a.toNat
    x := state.x.toNat
    y := state.y.toNat
    sp := state.sp.toNat
    status := state.status.bits.toNat
    letters := maskLetters (state.status.bits ||| 0x20).toNat
    cycles := state.cycles.toNat }

namespace Machine

/-- The text at the program counter is read back as the instruction there. -/
theorem assemble?_textAt {machine : Machine} {opcode : Opcode}
    (found : Opcode.ofByte? machine.nextOpcode = some opcode) :
    Entry.assemble? machine.pc (machine.textAt machine.pc) = some ⟨machine.pc, machine.nextOpcode,
      .instruction opcode.mnemonic opcode.mode
        (machine.memory.readRange (machine.pc + 1) opcode.mode.operandBytes) opcode.cycles⟩ := by
  have proper : (machine.memory.entryAt machine.pc).Proper := Entry.proper_ofBytes _ _ _
  have read := Entry.assemble?_text proper
  rw [Memory.address_entryAt, ← textAt_eq_text_entryAt] at read
  rw [read, machine.memory.entryAt_of_opcode _ found]
  rfl

/-- What is written down of a machine that is about to execute an instruction tells of it. -/
theorem tellsOf_announcement {machine : Machine} {opcode : Opcode}
    (found : Opcode.ofByte? machine.nextOpcode = some opcode) :
    TellsOf machine.announcement.line machine where
  columns := Record.toList_executing _ _
  instruction := ⟨opcode, found, assemble?_textAt found⟩
  registers := by
    rw [Snapshot.ofLine?_line, Status.letters_eq_maskLetters]
    rfl

end Machine

/-! ### Watched runs -/

/-- The end of a computation with another value, which may depend on the state. -/
def withValue {σ α β : Type} (change : α → σ → β) :
    EStateM.Result Fault σ α → EStateM.Result Fault σ β
  | .ok value last => .ok (change value last) last
  | .error fault left => .error fault left

namespace Processor

variable {σ : Type} [Processor σ]

theorem steps_succ_eq {state next : σ} {cost : UInt8} (done : step state = .ok cost next)
    (count : Nat) : steps (count + 1) state =
      withValue (fun costs _ => cost :: costs) (steps count next) := by
  rw [steps_succ_of_step done]
  cases steps count next <;> rfl

theorem runForCycles_eq (budget : UInt64) (state : σ) : runForCycles budget state =
    withValue (fun _ last => (machine last).cycles - (machine state).cycles)
      (spend (target (machine state).cycles budget)
        (target (machine state).cycles budget - (machine state).cycles).toNat state) := by
  dsimp only [runForCycles]
  split <;> rename_i result <;> rw [result] <;> rfl

theorem seek_zero {breakpoint : Option UInt16} {state : σ}
    (elsewhere : breakpoint ≠ some (machine state).pc) (start limit : UInt64) :
    seek breakpoint start limit 0 state = .ok .cycleLimit state := by
  rw [seek]
  exact (if_neg elsewhere).trans (ite_self _)

end Processor

/-- A computation on a machine and the same one on its monitor come to the same end, by executing
instructions in the same states, in each of which something holds. -/
inductive Watched {α : Type} (goesOn : Machine → Prop) : Monitor → List Machine →
    EStateM.Result Fault Machine α → EStateM.Result Fault Monitor α → Prop where
  /-- Both end with a value. -/
  | stop (monitor : Monitor) (value : α) :
    Watched goesOn monitor [] (.ok value monitor.machine) (.ok value monitor)
  /-- The step that comes next is refused to both. -/
  | refused {monitor : Monitor} {fault : Fault} {left : Machine}
    (refused : monitor.machine.step = .error fault left) :
    Watched goesOn monitor [] (.error fault left) (.error fault (monitor.watch [] left))
  /-- Both take a step and go on. -/
  | step {monitor : Monitor} {cost : UInt8} {next : Machine} {passed : List Machine}
    {bare : EStateM.Result Fault Machine α} {watched : EStateM.Result Fault Monitor α}
    (here : goesOn monitor.machine) (done : monitor.machine.step = .ok cost next)
    (rest : Watched goesOn (monitor.watch [monitor.machine] next) passed bare watched) :
    Watched goesOn monitor (monitor.machine :: passed) bare watched

namespace Watched

variable {α β : Type} {goesOn : Machine → Prop} {monitor : Monitor} {passed : List Machine}
  {bare : EStateM.Result Fault Machine α} {watched : EStateM.Result Fault Monitor α}

/-- Both values may be changed in the same way, also by looking at the machine. -/
theorem map (change : α → Machine → β) (both : Watched goesOn monitor passed bare watched) :
    Watched goesOn monitor passed (withValue change bare)
      (withValue (fun value last => change value last.machine) watched) := by
  induction both with
  | stop monitor value => exact .stop monitor (change value monitor.machine)
  | refused refused => exact .refused refused
  | step here done _ inductionHypothesis => exact .step here done inductionHypothesis

/-- Both take the steps that the machine takes on its own, and what comes after them is the same to
both. -/
theorem outcome (both : Watched goesOn monitor passed bare watched) :
    ∃ costs last, steps passed.length monitor.machine = .ok costs last ∧
      (∀ index (inside : index < passed.length),
        stateAt? monitor.machine index = some passed[index] ∧ goesOn passed[index]) ∧
      ((∃ value, bare = .ok value last ∧ watched = .ok value (monitor.watch passed last)) ∨
        ∃ fault left, last.step = .error fault left ∧ bare = .error fault left ∧
          watched = .error fault (monitor.watch passed left)) := by
  induction both with
  | stop monitor value =>
    exact ⟨[], monitor.machine, rfl, nofun, Or.inl ⟨value, rfl, by rw [Monitor.watch_nil]⟩⟩
  | refused refused => exact ⟨[], _, rfl, nofun, Or.inr ⟨_, _, refused, rfl, rfl⟩⟩
  | @step monitor cost next passed _ _ here done _ inductionHypothesis =>
    obtain ⟨costs, last, others, states, ending⟩ := inductionHypothesis
    refine ⟨cost :: costs, last, ?_, ?_, ?_⟩
    · exact (steps_succ_eq (σ := Machine) done passed.length).trans
        (congrArg (withValue fun costs _ => cost :: costs) others)
    · intro index inside
      cases index with
      | zero => exact ⟨rfl, here⟩
      | succ index =>
        rw [stateAt?_succ_of_step (σ := Machine) done]
        exact states index (Nat.lt_of_succ_lt_succ inside)
    · simp only [Monitor.watch_watch] at ending
      exact ending

end Watched

section

variable (monitor : Monitor)

theorem watched_steps (count : Nat) : ∃ passed,
    Watched (fun _ => True) monitor passed (steps count monitor.machine) (steps count monitor) ∧
      ∀ costs last, steps count monitor.machine = .ok costs last → passed.length = count := by
  induction count generalizing monitor with
  | zero => exact ⟨[], .stop monitor [], fun _ _ _ => rfl⟩
  | succ count inductionHypothesis =>
    cases stepped : monitor.machine.step with
    | error fault left =>
      rw [steps_succ_of_refused (σ := Machine) stepped,
        steps_succ_of_refused (σ := Monitor) (Monitor.step_of_refused stepped)]
      exact ⟨[], .refused stepped, nofun⟩
    | ok cost next =>
      obtain ⟨passed, both, length⟩ := inductionHypothesis (monitor.watch [monitor.machine] next)
      rw [steps_succ_eq (σ := Machine) stepped,
        steps_succ_eq (σ := Monitor) (Monitor.step_of_done stepped)]
      refine ⟨_, .step trivial stepped (both.map fun costs _ => cost :: costs), ?_⟩
      intro costs last done
      rw [← steps_succ_eq (σ := Machine) stepped] at done
      obtain ⟨_, _, rest, first, others, _⟩ := first_of_steps done
      cases first.symm.trans stepped
      rw [List.length_cons, length rest last others]

theorem watched_spend (goal : UInt64) (fuel : Nat) : ∃ passed,
    Watched (fun state => state.cycles < goal) monitor passed (spend goal fuel monitor.machine)
      (spend goal fuel monitor) := by
  induction fuel generalizing monitor with
  | zero => exact ⟨[], .stop monitor ()⟩
  | succ fuel inductionHypothesis =>
    by_cases met : monitor.machine.cycles < goal
    · cases stepped : monitor.machine.step with
      | error fault left =>
        rw [spend_of_refused (σ := Machine) met stepped,
          spend_of_refused (σ := Monitor) met (Monitor.step_of_refused stepped)]
        exact ⟨[], .refused stepped⟩
      | ok cost next =>
        obtain ⟨passed, both⟩ := inductionHypothesis (monitor.watch [monitor.machine] next)
        rw [spend_of_step (σ := Machine) met stepped,
          spend_of_step (σ := Monitor) met (Monitor.step_of_done stepped)]
        exact ⟨_, .step met stepped both⟩
    · rw [spend_of_met (σ := Machine) met, spend_of_met (σ := Monitor) met]
      exact ⟨[], .stop monitor ()⟩

theorem watched_seek (breakpoint : Option UInt16) (start limit : UInt64) (fuel : Nat) : ∃ passed,
    Watched (fun state => breakpoint ≠ some state.pc ∧ ¬limit ≤ state.cycles - start) monitor passed
      (seek breakpoint start limit fuel monitor.machine)
      (seek breakpoint start limit fuel monitor) := by
  induction fuel generalizing monitor with
  | zero =>
    -- Without fuel both stop, whatever is left of the limit.
    by_cases here : breakpoint = some monitor.machine.pc
    · rw [seek_of_breakpoint (σ := Machine) here, seek_of_breakpoint (σ := Monitor) here]
      exact ⟨[], .stop monitor _⟩
    · rw [seek_zero (σ := Machine) here, seek_zero (σ := Monitor) here]
      exact ⟨[], .stop monitor _⟩
  | succ fuel inductionHypothesis =>
    by_cases here : breakpoint = some monitor.machine.pc
    · rw [seek_of_breakpoint (σ := Machine) here, seek_of_breakpoint (σ := Monitor) here]
      exact ⟨[], .stop monitor _⟩
    by_cases spent : limit ≤ monitor.machine.cycles - start
    · rw [seek_of_limit (σ := Machine) here spent, seek_of_limit (σ := Monitor) here spent]
      exact ⟨[], .stop monitor _⟩
    cases stepped : monitor.machine.step with
    | error fault left =>
      rw [seek_of_refused (σ := Machine) here spent stepped,
        seek_of_refused (σ := Monitor) here spent (Monitor.step_of_refused stepped)]
      exact ⟨[], .refused stepped⟩
    | ok cost next =>
      by_cases stays : next.pc = monitor.machine.pc
      · rw [seek_of_trap (σ := Machine) here spent stepped stays,
          seek_of_trap (σ := Monitor) here spent (Monitor.step_of_done stepped) stays]
        exact ⟨_, .step ⟨here, spent⟩ stepped (.stop (monitor.watch [monitor.machine] next) _)⟩
      · obtain ⟨passed, both⟩ := inductionHypothesis (monitor.watch [monitor.machine] next)
        rw [seek_of_step (σ := Machine) here spent stepped stays,
          seek_of_step (σ := Monitor) here spent (Monitor.step_of_done stepped) stays]
        exact ⟨_, .step ⟨here, spent⟩ stepped both⟩

end

/-! ### Cycles of a watched run -/

namespace Machine

variable {machine last : Machine} {count : Nat} {costs : List UInt8}

/-- The counter moves by the sum of the costs, going round where it has no room for it. -/
theorem cycles_of_steps_around (done : steps count machine = .ok costs last) :
    last.cycles = machine.cycles + UInt64.ofNat (total costs) := by
  induction count generalizing machine costs with
  | zero =>
    cases done
    exact (UInt64.add_zero _).symm
  | succ count inductionHypothesis =>
    obtain ⟨cost, next, rest, first, others, rfl⟩ := first_of_steps done
    obtain ⟨_, opcode, found, rfl, rfl⟩ := opcode_of_step first
    rw [inductionHypothesis others, cycles_stepped, total, UInt64.ofNat_add,
      UInt64.ofNat_uInt8ToNat, UInt64.add_assoc]

theorem toNat_cycles_sub (done : steps count machine = .ok costs last) :
    (last.cycles - machine.cycles).toNat = total costs % UInt64.size := by
  rw [cycles_of_steps_around done, UInt64.add_comm, UInt64.add_sub_cancel]
  exact UInt64.toNat_ofNat'

/-- On the way the counter has moved by the costs so far. -/
theorem cycles_of_stateAt? {state : Machine} {index : Nat}
    (done : steps count machine = .ok costs last) (le : index ≤ count)
    (there : stateAt? machine index = some state) :
    state.cycles = machine.cycles + UInt64.ofNat (total (costs.take index)) := by
  obtain ⟨before, start⟩ := steps_of_le done le
  cases there.symm.trans (stateAt?_eq_some_iff.mpr ⟨_, start⟩)
  exact cycles_of_steps_around start

/-- Steps that are taken only below a limit go over it by six cycles at most. -/
theorem total_le_of_below {limit : UInt64} (done : steps count machine = .ok costs last)
    (roomy : limit.toNat + 6 < UInt64.size)
    (below : ∀ index < count, ∀ state, stateAt? machine index = some state →
      ¬limit ≤ state.cycles - machine.cycles) : total costs ≤ limit.toNat + 6 := by
  induction count generalizing last costs with
  | zero =>
    cases done
    exact Nat.zero_le _
  | succ count inductionHypothesis =>
    obtain ⟨earlier, before, cost, start, stepped, rfl⟩ := last_of_steps done
    have sum := inductionHypothesis start fun index less =>
      below index (Nat.lt_succ_of_lt less)
    -- The sum so far fits a word, so the counter has moved by the sum itself, which is below the
    -- limit.
    have unspent := below count (Nat.lt_succ_self _) before
      (stateAt?_eq_some_iff.mpr ⟨earlier, start⟩)
    rw [UInt64.le_iff_toNat_le, toNat_cycles_sub start,
      Nat.mod_eq_of_lt (Nat.lt_of_le_of_lt sum roomy)] at unspent
    obtain ⟨_, opcode, found, rfl, rfl⟩ := opcode_of_step stepped
    have most := (toNat_cost found).2.2
    rw [total_append, total, total]
    omega

end Machine

/-! ### Runs -/

/-- A way to run. -/
inductive Run where
  /-- A number of steps. -/
  | steps (count : Nat)
  /-- Until a budget of cycles is spent. -/
  | forCycles (budget : UInt64)
  /-- To a place, or until a limit of cycles is spent. -/
  | toPlace (breakpoint : Option UInt16) (limit : UInt64)
deriving DecidableEq

namespace Run

/-- What a run returns. -/
def Value : Run → Type
  | steps _ => List UInt8
  | forCycles _ => UInt64
  | toPlace _ _ => Stop

/-- The run on anything that can be stepped. -/
def on {σ : Type} [Processor σ] : (run : Run) → EStateM Fault σ run.Value
  | steps count => Processor.steps count
  | forCycles budget => Processor.runForCycles budget
  | toPlace breakpoint limit => Processor.runUntil breakpoint limit

/-- The run on a bare machine. -/
def onMachine : (run : Run) → EStateM Fault Machine run.Value
  | steps count => Processor.steps count
  | forCycles budget => Machine.runForCycles budget
  | toPlace breakpoint limit => Machine.runUntil breakpoint limit

/-- The run on a monitor. -/
def onMonitor : (run : Run) → EStateM Fault Monitor run.Value
  | steps count => Processor.steps count
  | forCycles budget => Monitor.runForCycles budget
  | toPlace breakpoint limit => Monitor.runUntil breakpoint limit

/-- A run that began with one machine takes another step where it has come to another one. -/
def GoesOn (run : Run) (start state : Machine) : Prop :=
  match run with
  | steps _ => True
  | forCycles budget => state.cycles < target start.cycles budget
  | toPlace breakpoint limit =>
    breakpoint ≠ some state.pc ∧ ¬limit ≤ state.cycles - start.cycles

/-- The monitor that a run leaves, once it has written down why it stopped. -/
def close (start : UInt64) : (run : Run) → run.Value → Monitor → Monitor
  | toPlace _ _, stop, last =>
    if last.level = .off then last else last.note (.stopped (last.machine.cycles - start) stop)
  | _, _, last => last

/-- The line that a run adds at its end: if it is one to a place, and unless nothing is to be
written down, how many cycles it took, as a number of 64 bits, and why it stopped. -/
def closing (level : Level) (cycles : Nat) : (run : Run) → run.Value → List String
  | toPlace _ _, stop =>
    if level = .off then []
    else ["DEBUG run stopped after " ++ (cycles % UInt64.size).repr ++ " cycles: " ++
      Stop.describe stop]
  | _, _ => []

section

variable (run : Run) {monitor last : Monitor} {value : run.Value}

theorem onMonitor_of_ok (done : run.on monitor = .ok value last) :
    run.onMonitor monitor = .ok value (run.close monitor.machine.cycles value last) := by
  cases run with
  | steps count => exact done
  | forCycles budget => exact done
  | toPlace breakpoint limit =>
    have stopped : Processor.runUntil breakpoint limit monitor = .ok value last := done
    dsimp only [onMonitor, Monitor.runUntil, close]
    rw [stopped]
    dsimp only
    split <;> rfl

theorem onMonitor_of_refused {fault : Fault} (refused : run.on monitor = .error fault last) :
    run.onMonitor monitor = .error fault last := by
  cases run with
  | steps count => exact refused
  | forCycles budget => exact refused
  | toPlace breakpoint limit =>
    have stopped : Processor.runUntil breakpoint limit monitor = .error fault last := refused
    dsimp only [onMonitor, Monitor.runUntil]
    rw [stopped]
    rfl

theorem machine_close (start : UInt64) :
    (run.close start value last).machine = last.machine := by
  cases run with
  | toPlace breakpoint limit =>
    dsimp only [close]
    split <;> rfl
  | _ => rfl

theorem lines_close {start : UInt64} {spent : Nat}
    (sum : (last.machine.cycles - start).toNat = spent % UInt64.size) :
    (run.close start value last).lines = last.lines ++ run.closing last.level spent value := by
  cases run with
  | toPlace breakpoint limit =>
    dsimp only [close, closing]
    rw [← sum]
    split
    · exact (List.append_nil _).symm
    · exact last.lines_note _
  | _ => exact (List.append_nil _).symm

end

/-- Every run is the same on a machine and on its monitor, up to its end. -/
theorem watched (run : Run) (monitor : Monitor) : ∃ passed,
    Watched (run.GoesOn monitor.machine) monitor passed (run.onMachine monitor.machine)
      (run.on monitor) ∧
    ∀ value last, run.onMachine monitor.machine = .ok value last →
      ∀ count, run = .steps count → passed.length = count := by
  cases run with
  | steps count =>
    obtain ⟨passed, both, length⟩ := watched_steps monitor count
    refine ⟨passed, both, ?_⟩
    rintro value last done _ ⟨⟩
    exact length value last done
  | forCycles budget =>
    obtain ⟨passed, both⟩ := watched_spend monitor (target monitor.machine.cycles budget)
      (target monitor.machine.cycles budget - monitor.machine.cycles).toNat
    dsimp only [onMachine, Machine.runForCycles, on]
    rw [runForCycles_eq, runForCycles_eq]
    exact ⟨passed, both.map fun _ last => last.cycles - monitor.machine.cycles, nofun⟩
  | toPlace breakpoint limit =>
    obtain ⟨passed, both⟩ :=
      watched_seek monitor breakpoint monitor.machine.cycles limit limit.toNat
    exact ⟨passed, both, nofun⟩

end Run

namespace Monitor

/-- Stepping again where a step was refused changes nothing and writes nothing down. -/
theorem step_watch_of_refused (monitor : Monitor) (passed : List Machine) {machine left : Machine}
    {fault : Fault} (refused : machine.step = .error fault left) :
    step (monitor.watch passed left) = .error fault (monitor.watch passed left) := by
  have again : (monitor.watch passed left).machine.step = .error fault left :=
    Machine.step_of_refused refused
  rw [step_of_refused again, watch_nil]
  rfl

/-- If everything is written down, there is a line for each state in which an instruction was
executed, and it tells of that state. -/
theorem tellsOf_passed {monitor : Monitor} {passed : List Machine} {costs : List UInt8}
    {last : Machine} (done : steps passed.length monitor.machine = .ok costs last)
    (states : ∀ index (inside : index < passed.length),
      stateAt? monitor.machine index = some passed[index]) :
    let told := if monitor.level = .trace then passed else []
    List.Forall₂ TellsOf (told.map fun state => state.announcement.line) told := by
  intro told
  have fromPassed : ∀ state ∈ told, state ∈ passed := by
    intro state member
    dsimp only [told] at member
    split at member
    · exact member
    · cases member
  refine List.forall₂_map_left_iff.mpr (List.forall₂_same.mpr fun state member => ?_)
  obtain ⟨index, inside, rfl⟩ := List.mem_iff_getElem.mp (fromPassed state member)
  obtain ⟨before, cost, after, there, stepped, _⟩ := step_of_steps done inside
  cases there.symm.trans (states index inside)
  obtain ⟨_, opcode, found, _⟩ := Machine.opcode_of_step stepped
  exact Machine.tellsOf_announcement found

/-- Tracing is faithful and has no effect. However much is written down, a run on a monitor returns
what it returns on the bare machine and leaves the same machine, or both are refused with the same
fault. If everything is to be written down, one line is added for each instruction that is executed,
in order, which tells of the state of the machine just before it, with the sum of the costs so far
as its cycles; a refused step adds none, however often it is tried. A run to a place that is not
refused adds one line more unless nothing is to be written down, with the sum of the costs of its
steps. -/
theorem tracing_faithful (monitor : Monitor) (run : Run) :
    ∃ passed costs last traced,
      steps passed.length monitor.machine = .ok costs last ∧
      (∀ index (inside : index < passed.length),
        stateAt? monitor.machine index = some passed[index] ∧
          run.GoesOn monitor.machine passed[index] ∧
          passed[index].cycles =
            monitor.machine.cycles + UInt64.ofNat (total (costs.take index))) ∧
      List.Forall₂ TellsOf traced (if monitor.level = .trace then passed else []) ∧
      ((∃ value after, run.onMachine monitor.machine = .ok value last ∧
          run.onMonitor monitor = .ok value after ∧ after.machine = last ∧
          after.lines = monitor.lines ++ traced ++
            run.closing monitor.level (total costs) value ∧
          ∀ count, run = .steps count → passed.length = count) ∨
        ∃ fault left after, last.step = .error fault left ∧
          run.onMachine monitor.machine = .error fault left ∧
          run.onMonitor monitor = .error fault after ∧ after.machine = left ∧
          after.lines = monitor.lines ++ traced ∧ step after = .error fault after) ∧
      ∀ breakpoint limit, run = .toPlace breakpoint limit → limit.toNat + 6 < UInt64.size →
        total costs < UInt64.size := by
  obtain ⟨passed, both, counted⟩ := run.watched monitor
  obtain ⟨costs, last, done, states, ending⟩ := both.outcome
  have tells := tellsOf_passed done fun index inside => (states index inside).1
  refine ⟨passed, costs, last, _, done, ?_, tells, ?_, ?_⟩
  · intro index inside
    obtain ⟨there, goesOn⟩ := states index inside
    exact ⟨there, goesOn, Machine.cycles_of_stateAt? done (Nat.le_of_lt inside) there⟩
  · rcases ending with ⟨value, bare, watched⟩ | ⟨fault, left, refused, bare, watched⟩
    · refine Or.inl ⟨value, _, bare, run.onMonitor_of_ok watched, run.machine_close _, ?_,
        counted value last bare⟩
      have sum := Machine.toNat_cycles_sub done
      exact (run.lines_close sum).trans (congrArg (· ++ _) (monitor.lines_watch passed last))
    · exact Or.inr ⟨fault, left, _, refused, bare, run.onMonitor_of_refused watched, rfl,
        monitor.lines_watch passed left, monitor.step_watch_of_refused passed refused⟩
  · rintro breakpoint limit rfl roomy
    refine Nat.lt_of_le_of_lt (Machine.total_le_of_below done roomy ?_) roomy
    intro index inside state here
    obtain ⟨there, _, unspent⟩ := states index inside
    cases here.symm.trans there
    exact unspent

/-- A run to a breakpoint that begins with an instruction across the end of the address space. The
line of its second instruction tells of two cycles, which are those of the first. -/
theorem tracing_faithful_breakpoint :
    let start : Machine :=
      { pc := 0xFFFF, initialized := true,
        memory := Memory.empty.writeRange 0xFFFF [0xA9, 0x05, 0xEA] }
    let between := start.stepped ⟨.lda, .immediate, 2⟩
    let monitor : Monitor := { machine := start, level := .trace }
    (100 : UInt64).toNat + 6 < UInt64.size ∧
    ∃ costs last after first second, steps 2 start = .ok costs last ∧
      total costs < UInt64.size ∧ monitor.runUntil (some 2) 100 = .ok (.breakpoint 2) after ∧
      after.lines = [first, second, "DEBUG run stopped after 4 cycles: Breakpoint(2)"] ∧
      TellsOf first start ∧ TellsOf second between ∧ between.a = 5 ∧ between.cycles = 2 := by
  intro start between monitor
  have roomy : (100 : UInt64).toNat + 6 < UInt64.size := by decide
  have lda : Opcode.ofByte? start.nextOpcode = some ⟨.lda, .immediate, 2⟩ := by
    have byte : start.nextOpcode = 0xA9 := by
      simp [start, Machine.nextOpcode, Memory.writeRange, Memory.read_write]
    rw [byte]
    rfl
  have nop : Opcode.ofByte? between.nextOpcode = some ⟨.nop, .implied, 2⟩ := by
    have there : between.pc = 1 := by decide
    have kept : between.memory = start.memory := rfl
    have byte : between.nextOpcode = 0xEA := by
      rw [Machine.nextOpcode, there, kept]
      simp [start, Memory.writeRange]
    rw [byte]
    rfl
  have first := Machine.step_of_opcode (show start.initialized = true from rfl) lda
  have second := Machine.step_of_opcode (show between.initialized = true from rfl) nop
  let finish := between.stepped ⟨.nop, .implied, 2⟩
  have arrived : finish.pc = 2 := by decide
  have bare : Machine.runUntil (some 2) 100 start = .ok (.breakpoint 2) finish := by
    show seek (some 2) start.cycles 100 100 start = _
    rw [seek_of_step (σ := Machine) (by decide) (by decide) first (by decide),
      seek_of_step (σ := Machine) (by decide) (by decide) second (by decide),
      seek_of_breakpoint (σ := Machine) (by decide)]
    exact congrArg (fun pc => EStateM.Result.ok (Stop.breakpoint pc) finish) arrived
  have one : stateAt? start 1 = some between := stateAt?_succ_of_step (σ := Machine) first 0
  have two : stateAt? start 2 = some finish :=
    (stateAt?_succ_of_step (σ := Machine) first 1).trans
      (stateAt?_succ_of_step (σ := Machine) second 0)
  obtain ⟨passed, costs, last, traced, done, states, told, ending, spent⟩ :=
    monitor.tracing_faithful (.toPlace (some 2) 100)
  rcases ending with ⟨_, after, onMachine, onMonitor, _, lines, _⟩ | ⟨_, _, _, _, refused, _⟩
  · cases bare.symm.trans onMachine
    have reached : stateAt? start passed.length = some finish :=
      stateAt?_eq_some_iff.mpr ⟨costs, done⟩
    -- The run is over at the breakpoint, not before it and not after it.
    rcases passed with _ | ⟨here, _ | ⟨there, _ | ⟨beyond, rest⟩⟩⟩
    · have same : start = finish := Option.some.inj reached
      exact absurd (congrArg Machine.pc same) (by rw [arrived]; decide)
    · have same : between = finish := Option.some.inj (one.symm.trans reached)
      exact absurd (congrArg Machine.pc same) (by rw [arrived]; decide)
    · obtain rfl : here = start := (Option.some.inj (states 0 (by simp)).1).symm
      obtain rfl : there = between := Option.some.inj ((states 1 (by simp)).1.symm.trans one)
      cases told with | cons tellsFirst others =>
      cases others with | cons tellsSecond nothing =>
      cases nothing
      have sum : total costs = 4 := by
        have both : steps 2 start = .ok [2, 2] finish := by
          rw [steps_succ_of_step (σ := Machine) first, steps_succ_of_step (σ := Machine) second]
          rfl
        cases both.symm.trans done
        rfl
      rw [sum] at lines
      exact ⟨roomy, costs, finish, after, _, _, done, spent _ _ rfl roomy, onMonitor, lines,
        tellsFirst, tellsSecond, by decide, by decide⟩
    · have late := Option.some.inj ((states 2 (by simp)).1.symm.trans two)
      exact absurd (congrArg some arrived.symm) (late ▸ (states 2 (by simp)).2.1.1)
  · cases bare.symm.trans refused

end Monitor

end Mos6502
