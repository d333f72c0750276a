/-
This file names what may stand on the command line: parameters that take a value, and switches that
take none. It also sorts the words of a command line by their shape, before anything is known about
their meaning.
-/

namespace Mos6502.CommandLine

/-! ### Parameters and switches -/

/-- What takes a value. -/
inductive Parameter where
  /-- The file with the image. -/
  | rom
  /-- Where the image goes. -/
  | loadAddress
  /-- Where the program starts. -/
  | entry
  /-- Where the stack pointer starts. -/
  | stackPointer
  /-- Where the program stops. -/
  | breakAt
  /-- How long the program may run. -/
  | maxCycles
  /-- The file with the settings. -/
  | config
  /-- The file for the registers after the run. -/
  | stateOut
deriving DecidableEq

namespace Parameter

/-- The parameter as it is written on the command line, with a name for its value. -/
def usage : Parameter → String
  | rom => "<ROM>"
  | loadAddress => "--load-address <LOAD_ADDRESS>"
  | entry => "--entry <ENTRY>"
  | stackPointer => "--stack-pointer <STACK_POINTER>"
  | breakAt => "--break-at <BREAK_AT>"
  | maxCycles => "--max-cycles <MAX_CYCLES>"
  | config => "--config <CONFIG>"
  | stateOut => "--state-out <STATE_OUT>"

/-- The parameter with the given name; the image file has none, it is known by its place. -/
def ofName? : String → Option Parameter
  | "load-address" => some loadAddress
  | "entry" => some entry
  | "stack-pointer" => some stackPointer
  | "break-at" => some breakAt
  | "max-cycles" => some maxCycles
  | "config" => some config
  | "state-out" => some stateOut
  | _ => none

end Parameter

/-- What takes no value. -/
inductive Switch where
  /-- Count page crossings. -/
  | strictTiming
  /-- Write every instruction down. -/
  | trace
  /-- Show how the command is used, and nothing else. -/
  | help
  /-- Show the version, and nothing else. -/
  | version
deriving DecidableEq

namespace Switch

/-- The switch as it is written on the command line. -/
def usage : Switch → String
  | strictTiming => "--strict-timing"
  | trace => "--trace"
  | help => "--help"
  | version => "--version"

/-- The switch with the given name. -/
def ofName? : String → Option Switch
  | "strict-timing" => some strictTiming
  | "trace" => some trace
  | "help" => some help
  | "version" => some version
  | _ => none

/-- The switch with the given letter. -/
def ofLetter? : Char → Option Switch
  | 'h' => some help
  | 'V' => some version
  | _ => none

end Switch

/-- How the command is used, in short. -/
def usageLine : String :=
  "Usage: emu6502 [OPTIONS] " ++ Parameter.rom.usage

/-! ### The shapes of words -/

/-- The shape of a word. -/
inductive Shape where
  /-- The two dashes after which no word is an option. -/
  | separator
  /-- A name after two dashes, and what follows an equals sign. -/
  | long (name : String) (value : Option String)
  /-- The first letter after one dash. -/
  | short (letter : Char)
  /-- Anything else; a single dash, too. -/
  | plain
deriving DecidableEq

/-- The name before the first equals sign and the value after it. -/
def splitValue (chars : List Char) : Shape :=
  match chars.dropWhile (· ≠ '=') with
  | [] => .long (String.ofList chars) none
  | _ :: value => .long (String.ofList (chars.takeWhile (· ≠ '='))) (some (String.ofList value))

/-- The shape of a word. -/
def Shape.ofWord (word : String) : Shape :=
  match word.toList with
  | ['-', '-'] => .separator
  | '-' :: '-' :: rest => splitValue rest
  | '-' :: letter :: _ => .short letter
  | _ => .plain

end Mos6502.CommandLine
