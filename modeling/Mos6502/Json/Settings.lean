/-
This file writes settings as JSON and reads them back. Timings and flags are names, a status
register is the number of its byte, and a configuration is an object with a field for each setting.
Numbers that are too large for their setting are refused, never reduced.
-/

import Mos6502.Config
import Mos6502.Json.Decode
import Mos6502.Status

namespace Mos6502

open Json

/-! ### Names and bytes -/

/-- The timing as JSON. -/
def Timing.toJson (timing : Timing) : Value :=
  .ofString timing.name

/-- The timing that a value holds. -/
def Timing.ofJson? (value : Value) : Option Timing :=
  value.choice? Timing.ofName?

/-- The flag as JSON. -/
def Flag.toJson (flag : Flag) : Value :=
  .ofString flag.name

/-- The flag that a value holds. -/
def Flag.ofJson? (value : Value) : Option Flag :=
  value.choice? Flag.ofName?

/-- The status register as JSON. -/
def Status.toJson (status : Status) : Value :=
  .natural status.bits.toNat

/-- The status register that a value holds; the reserved bit is set whatever the value says. -/
def Status.ofJson? (value : Value) : Option Status :=
  value.byte?.map Status.ofBits

/-! ### Configurations -/

namespace Config

/-- The configuration as JSON. -/
def toJson (config : Config) : Value :=
  .ofMembers [
    ("load_address", .natural config.loadAddress.toNat),
    ("entry_point", .ofOptional (config.entryPoint.map (·.toNat))),
    ("stack_pointer", .ofOptional (config.stackPointer.map (·.toNat))),
    ("timing", config.timing.toJson)]

/-- The configuration that a value holds, as an object or as an array of the fields in order. -/
def ofJson? : Value → Option Config
  | .object members => do
    let members ← Value.named? members
    let loadAddress ← Value.field? members "load_address" 0 Value.word?
    let entryPoint ← Value.field? members "entry_point" none (Value.optional? Value.word?)
    let stackPointer ← Value.field? members "stack_pointer" none (Value.optional? Value.byte?)
    let timing ← Value.field? members "timing" .base Timing.ofJson?
    return { loadAddress, entryPoint, stackPointer, timing }
  | .array items => do
    guard (items.length ≤ 4)
    let loadAddress ← Value.item? items 0 0 Value.word?
    let entryPoint ← Value.item? items 1 none (Value.optional? Value.word?)
    let stackPointer ← Value.item? items 2 none (Value.optional? Value.byte?)
    let timing ← Value.item? items 3 .base Timing.ofJson?
    return { loadAddress, entryPoint, stackPointer, timing }
  | _ => none

end Config

end Mos6502
