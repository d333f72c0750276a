/-
This file holds the settings with which a machine is built from an image. Every setting has a
default: the image starts at address zero, its own reset vector stays, the stack pointer is zero
and timing is basic.
-/

import Mos6502.Text.Basic
import Mos6502.Timing

namespace Mos6502

/-- The settings of a new machine. -/
structure Config where
  /-- Where the first byte of the image goes. -/
  loadAddress : UInt16 := 0
  /-- What to write into the reset vector, if anything. -/
  entryPoint : Option UInt16 := none
  /-- Where the stack pointer starts, if not at zero. -/
  stackPointer : Option UInt8 := none
  /-- How cycles are counted. -/
  timing : Timing := .base
deriving DecidableEq, Inhabited

namespace Config

/-- The entry point to install; zero keeps the vector of the image, just as none does. -/
def effectiveEntryPoint (config : Config) : Option UInt16 :=
  config.entryPoint.filter (· ≠ 0)

/-- An optional number as text. -/
def describeOptional : Option Nat → String
  | none => "None"
  | some value => "Some(" ++ value.repr ++ ")"

/-- The settings as a record. -/
def describe (config : Config) : String :=
  Text.record "CpuConfig" [
    ("load_address", config.loadAddress.toNat.repr),
    ("entry_point", describeOptional (config.entryPoint.map (·.toNat))),
    ("stack_pointer", describeOptional (config.stackPointer.map (·.toNat))),
    ("timing", config.timing.title)]

end Config

end Mos6502
