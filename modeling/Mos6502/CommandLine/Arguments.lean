/-
This file reads a command line. Words are taken from left to right. A parameter without an equals
sign waits for the next word as its value, and it is looked at only when the following option or the
end of the line settles it; so an option that does not exist is reported before a bad value that
stands to its left. The image file is the one word that belongs to no option.
-/

import Mos6502.CommandLine.Numeral
import Mos6502.CommandLine.Parameter
import Mos6502.Text.Terminal

namespace Mos6502.CommandLine

open Text

/-! ### Refusals -/

/-- Why a command line was refused. -/
inductive UsageError where
  /-- No option has this name, or there is no place for this word. -/
  | unexpected (word : String)
  /-- A switch was given a value. -/
  | unexpectedValue (value : String) (switch : Switch)
  /-- A parameter was given no value. -/
  | missingValue (parameter : Parameter)
  /-- A parameter was given twice. -/
  | repeatedParameter (parameter : Parameter)
  /-- A switch was given twice. -/
  | repeatedSwitch (switch : Switch)
  /-- A parameter was given a value that it cannot take. -/
  | invalidValue (value : String) (parameter : Parameter) (reason : String)
  /-- There is no image file. -/
  | missingRom
deriving DecidableEq

/-- What is wrong. The words of the user stand in it without their control sequences. -/
def UsageError.describe : UsageError → String
  | unexpected word => "unexpected argument '" ++ Terminal.plain word ++ "' found"
  | unexpectedValue value switch =>
    "unexpected value '" ++ Terminal.plain value ++ "' for '" ++ switch.usage ++
      "' found; no more were expected"
  | missingValue parameter =>
    "a value is required for '" ++ parameter.usage ++ "' but none was supplied"
  | repeatedParameter parameter =>
    "the argument '" ++ parameter.usage ++ "' cannot be used multiple times"
  | repeatedSwitch switch =>
    "the argument '" ++ switch.usage ++ "' cannot be used multiple times"
  | invalidValue value parameter _ =>
    "invalid value '" ++ Terminal.plain value ++ "' for '" ++ parameter.usage ++ "'"
  | missingRom => "the following required arguments were not provided:"

/-- What follows the description: the reason, if there is one, and where help is found. A control
sequence that the reason leaves open runs on to the emphasised word. -/
def UsageError.appendix (error : UsageError) : String :=
  let hint := "\n\nFor more information, try '" ++ Terminal.emphasised "--help" ++ "'."
  let usage := "\n\n" ++ usageLine ++ hint
  Terminal.plain (match error with
    | invalidValue _ _ reason => ": " ++ reason ++ hint
    | missingRom => "\n  " ++ Parameter.rom.usage ++ usage
    | _ => usage)

/-- The message for a user, with what is wrong in its first line. -/
def UsageError.message (error : UsageError) : String :=
  "error: " ++ error.describe ++ error.appendix

/-! ### Values -/

/-- The values that were given. -/
structure Arguments where
  /-- The path of the image. -/
  rom : Option String := none
  /-- Where the image goes. -/
  loadAddress : Option UInt16 := none
  /-- Where the program starts. -/
  entry : Option UInt16 := none
  /-- Where the stack pointer starts. -/
  stackPointer : Option UInt8 := none
  /-- Where the program stops. -/
  breakAt : Option UInt16 := none
  /-- How many cycles the program may take. -/
  maxCycles : Option UInt64 := none
  /-- The path of the settings. -/
  config : Option String := none
  /-- The path of the registers after the run. -/
  stateOut : Option String := none
  /-- Whether page crossings are counted. -/
  strictTiming : Bool := false
  /-- Whether every instruction is written down. -/
  trace : Bool := false
deriving DecidableEq, Inhabited

namespace Arguments

/-- Whether a parameter has its value. -/
def has (arguments : Arguments) : Parameter → Bool
  | .rom => arguments.rom.isSome
  | .loadAddress => arguments.loadAddress.isSome
  | .entry => arguments.entry.isSome
  | .stackPointer => arguments.stackPointer.isSome
  | .breakAt => arguments.breakAt.isSome
  | .maxCycles => arguments.maxCycles.isSome
  | .config => arguments.config.isSome
  | .stateOut => arguments.stateOut.isSome

/-- Reads the value of a parameter that takes a number. -/
def readValue {ε α : Type} (parameter : Parameter) (value : String) (message : ε → String)
    (result : Except ε α) : Except UsageError (Option α) :=
  match result with
  | .ok number => .ok (some number)
  | .error fault => .error (.invalidValue value parameter (message fault))

/-- Reads the name of a file, which is not empty. -/
def readPath (parameter : Parameter) (value : String) : Except UsageError (Option String) :=
  if value = "" then .error (.missingValue parameter) else .ok (some value)

/-- Gives a parameter its value. -/
def assign (arguments : Arguments) (parameter : Parameter) (value : String) :
    Except UsageError Arguments := do
  if arguments.has parameter then throw (.repeatedParameter parameter)
  match parameter with
  | .rom => return { arguments with rom := ← readPath .rom value }
  | .loadAddress =>
    return { arguments with
      loadAddress := ← readValue .loadAddress value Misfit.message (readWord value) }
  | .entry =>
    return { arguments with entry := ← readValue .entry value Misfit.message (readWord value) }
  | .stackPointer =>
    return { arguments with
      stackPointer := ← readValue .stackPointer value Misfit.message (readByte value) }
  | .breakAt =>
    return { arguments with breakAt := ← readValue .breakAt value Misfit.message (readWord value) }
  | .maxCycles =>
    return { arguments with
      maxCycles := ← readValue .maxCycles value NumeralFault.message (readCycles value) }
  | .config => return { arguments with config := ← readPath .config value }
  | .stateOut => return { arguments with stateOut := ← readPath .stateOut value }

end Arguments

/-! ### Reading a line -/

/-- What a command line asks for. -/
inductive Request where
  /-- How the command is used. -/
  | help
  /-- The version. -/
  | version
  /-- A run of an image. -/
  | run (rom : String) (arguments : Arguments)
deriving DecidableEq

/-- How far a command line has been read. -/
structure Progress where
  /-- The values that are settled. -/
  arguments : Arguments := {}
  /-- The parameter that waits to be settled, and the value it was given. -/
  waiting : Option (Parameter × Option String) := none
  /-- Whether the image file was named. -/
  placed : Bool := false
  /-- Whether no further word is an option. -/
  closed : Bool := false
deriving DecidableEq, Inhabited

namespace Progress

/-- Settles the parameter that waits, which has to have a value. -/
def settle (progress : Progress) : Except UsageError Progress :=
  match progress.waiting with
  | none => .ok progress
  | some (parameter, none) => .error (.missingValue parameter)
  | some (parameter, some value) => do
    let arguments ← progress.arguments.assign parameter value
    return { progress with arguments, waiting := none }

/-- Takes a word that belongs to no option. -/
def place (progress : Progress) (word : String) : Except UsageError Progress := do
  if progress.placed then throw (.unexpected word)
  let progress ← progress.settle
  return { progress with waiting := some (.rom, some word), placed := true }

/-- Takes a word that is no option: the value of the parameter that waits for one, or else the image
file. -/
def supply (progress : Progress) (word : String) : Except UsageError Progress :=
  match progress.waiting with
  | some (parameter, none) =>
    .ok { progress with waiting := some (parameter, some word) }
  | _ => progress.place word

/-- Takes a parameter and the value that stands with it, if there is one. -/
def begin (progress : Progress) (parameter : Parameter) (value : Option String) :
    Except UsageError Progress := do
  let progress ← progress.settle
  match value with
  | none => return { progress with waiting := some (parameter, none) }
  | some value =>
    let arguments ← progress.arguments.assign parameter value
    return { progress with arguments }

/-- Takes a switch. The two that ask for information end the reading. -/
def turnOn (progress : Progress) (switch : Switch) : Except UsageError (Request ⊕ Progress) := do
  let progress ← progress.settle
  let arguments := progress.arguments
  match switch with
  | .help => return .inl .help
  | .version => return .inl .version
  | .strictTiming =>
    if arguments.strictTiming then throw (.repeatedSwitch switch)
    return .inr { progress with arguments := { arguments with strictTiming := true } }
  | .trace =>
    if arguments.trace then throw (.repeatedSwitch switch)
    return .inr { progress with arguments := { arguments with trace := true } }

/-- Takes an option by its name. -/
def option (progress : Progress) (name : String) (value : Option String) :
    Except UsageError (Request ⊕ Progress) :=
  match Parameter.ofName? name, Switch.ofName? name, value with
  | some parameter, _, value => .inr <$> progress.begin parameter value
  | none, some switch, none => progress.turnOn switch
  | none, some switch, some value => .error (.unexpectedValue value switch)
  | none, none, _ => .error (.unexpected ("--" ++ name))

/-- Takes an option by its letter. -/
def letter (progress : Progress) (letter : Char) : Except UsageError (Request ⊕ Progress) :=
  match Switch.ofLetter? letter with
  | some switch => progress.turnOn switch
  | none => .error (.unexpected (String.ofList ['-', letter]))

/-- Takes a word. -/
def take (progress : Progress) (word : String) : Except UsageError (Request ⊕ Progress) :=
  if progress.closed then .inr <$> progress.place word
  else match Shape.ofWord word with
    | .separator => .ok (.inr { progress with closed := true })
    | .long name value => progress.option name value
    | .short letter => progress.letter letter
    | .plain => .inr <$> progress.supply word

/-- Takes the end of the line. -/
def finish (progress : Progress) : Except UsageError Request := do
  let progress ← progress.settle
  match progress.arguments.rom with
  | none => throw .missingRom
  | some rom => return .run rom progress.arguments

/-- Reads the rest of a command line. -/
def read (progress : Progress) : List String → Except UsageError Request
  | [] => progress.finish
  | word :: rest => do
    match ← progress.take word with
    | .inl request => return request
    | .inr progress => progress.read rest

end Progress

/-- What a command line asks for. -/
def Request.ofWords (words : List String) : Except UsageError Request :=
  Progress.read {} words

end Mos6502.CommandLine
