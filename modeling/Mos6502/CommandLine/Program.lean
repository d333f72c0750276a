/-
This file says what the command does: it reads the settings and the image, runs the machine, writes
the registers to a file if it is asked to, and reports why the run stopped. Reading and writing
files is left to the caller, so that the command runs on a disk as well as on a directory held in
memory. The registers are written even if the run was refused; a file that cannot be written is
reported before the refusal.
-/

import Mos6502.CommandLine.Arguments
import Mos6502.CommandLine.Files
import Mos6502.Json.Settings
import Mos6502.Monitor

namespace Mos6502.CommandLine

/-! ### Reports -/

/-- Why a run has no result. -/
inductive Failure where
  /-- The settings cannot be read. -/
  | readingConfig (path : String)
  /-- The settings make no sense. -/
  | parsingConfig (path : String)
  /-- The image cannot be read. -/
  | readingRom (path : String)
  /-- The machine refused. -/
  | fault (cause : Fault)
  /-- The registers cannot be written. -/
  | writing (cause : FileFault)
deriving DecidableEq

/-- The message for a user. -/
def Failure.message : Failure → String
  | readingConfig path => "Error: reading config " ++ path
  | parsingConfig path => "Error: parsing config " ++ path
  | readingRom path => "Error: reading ROM " ++ path
  | fault cause => "Error: " ++ cause.message
  | writing cause => "Error: " ++ cause.message

/-- What the command says. -/
structure Report where
  /-- The exit code. -/
  exit : UInt8
  /-- The lines of standard output. -/
  output : List String := []
  /-- The message on standard error. -/
  complaint : Option String := none
  /-- What was written down about the run. -/
  records : Array Record := #[]
deriving DecidableEq

namespace Report

/-- A command line was refused. -/
def ofUsageError (error : UsageError) : Report :=
  { exit := 2, complaint := some error.message }

/-- A run has no result. -/
def ofFailure (failure : Failure) (records : Array Record) : Report :=
  { exit := 1, complaint := some failure.message, records }

end Report

/-! ### The command -/

/-- The cycles that a run may take if nothing else is asked for. -/
def defaultLimit : UInt64 :=
  100000000

/-- Why a run stopped, as a line of output. -/
def outcomeLine (limit : UInt64) : Stop → String
  | .breakpoint pc => "Breakpoint at $" ++ Text.hexWord pc
  | .trapped pc => "Trapped at $" ++ Text.hexWord pc
  | .cycleLimit => "Cycle limit of " ++ limit.toNat.repr ++ " reached"

/-- The settings with those of the command line in place of their own. -/
def Arguments.override (arguments : Arguments) (config : Config) : Config where
  loadAddress := arguments.loadAddress.getD config.loadAddress
  entryPoint := arguments.entry.or config.entryPoint
  stackPointer := arguments.stackPointer.or config.stackPointer
  timing := if arguments.strictTiming then .strict else config.timing

/-- The settings that a file holds. -/
def parseConfig (path : String) (bytes : ByteArray) : Except Failure Config :=
  match String.fromUTF8? bytes with
  | none => .error (.readingConfig path)
  | some text =>
    match Json.Value.parse? text >>= Config.ofJson? with
    | none => .error (.parsingConfig path)
    | some config => .ok config

variable {m : Type → Type} [Monad m]

/-- Reads the settings of a run, those of a file and those of the command line. -/
def readConfig (files : Files m) (arguments : Arguments) : ExceptT Failure m Config := do
  match arguments.config with
  | none => return arguments.override {}
  | some path =>
    match ← files.read path with
    | none => throw (.readingConfig path)
    | some bytes =>
      let config ← parseConfig path bytes
      return arguments.override config

/-- Builds the machine of a run, ready to start. -/
def prepare (files : Files m) (rom : String) (arguments : Arguments) :
    ExceptT Failure m Monitor := do
  let config ← readConfig files arguments
  match ← files.read rom with
  | none => throw (.readingRom rom)
  | some bytes =>
    match Machine.ofConfig bytes.toList config with
    | .error fault => throw (.fault fault)
    | .ok machine =>
      let monitor : Monitor := { machine, level := if arguments.trace then .trace else .off }
      return monitor.reset

/-- Writes the registers to a file, if one is named. -/
def writeState (files : Files m) (arguments : Arguments) (snapshot : Snapshot) :
    m (Except FileFault Unit) :=
  match arguments.stateOut with
  | none => return .ok ()
  | some path => files.write path snapshot.toJson.pretty

/-- What a finished run says. -/
def conclude (limit : UInt64) (written : Except FileFault Unit) (outcome : Except Fault Stop)
    (snapshot : Snapshot) (records : Array Record) : Report :=
  match written, outcome with
  | .error fault, _ => .ofFailure (.writing fault) records
  | .ok _, .error fault => .ofFailure (.fault fault) records
  | .ok _, .ok stop => { exit := 0, output := [outcomeLine limit stop, snapshot.line], records }

/-- Runs the machine. -/
def execute (files : Files m) (rom : String) (arguments : Arguments) : m Report := do
  match ← prepare files rom arguments with
  | .error failure => return .ofFailure failure #[]
  | .ok monitor =>
    let limit := arguments.maxCycles.getD defaultLimit
    let (outcome, monitor) := match monitor.runUntil arguments.breakAt limit with
      | .ok stop monitor => (Except.ok stop, monitor)
      | .error fault monitor => (Except.error fault, monitor)
    let snapshot := monitor.machine.snapshot
    let written ← writeState files arguments snapshot
    return conclude limit written outcome snapshot monitor.records

/-- The name and number of this version. -/
def versionLine : String :=
  "emu6502 0.1.0"

/-- How the command is used. -/
def usageLines : List String := [
  usageLine,
  "",
  "  <ROM>                            Image to run",
  "  --load-address <LOAD_ADDRESS>    Where the image goes",
  "  --entry <ENTRY>                  Where the program starts",
  "  --stack-pointer <STACK_POINTER>  Where the stack pointer starts",
  "  --strict-timing                  Count page crossings",
  "  --break-at <BREAK_AT>            Where the program stops",
  "  --max-cycles <MAX_CYCLES>        How long the program may run [default: 100000000]",
  "  --config <CONFIG>                Settings as JSON",
  "  --trace                          Write every instruction down",
  "  --state-out <STATE_OUT>          File for the registers after the run",
  "  -h, --help                       Show this text",
  "  -V, --version                    Show the version"]

/-- Does what a command line asks for. -/
def runCommand (files : Files m) (words : List String) : m Report :=
  match Request.ofWords words with
  | .error error => return .ofUsageError error
  | .ok .help => return { exit := 0, output := usageLines }
  | .ok .version => return { exit := 0, output := [versionLine] }
  | .ok (.run rom arguments) => execute files rom arguments

end Mos6502.CommandLine
