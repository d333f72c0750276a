/-
This file holds the causes for which the machine refuses to go on, and their two written forms: the
message that a user reads, and the description that names the cause and its data.
-/

import Mos6502.Flag
import Mos6502.Mnemonic
import Mos6502.Mode
import Mos6502.Text.Basic

namespace Mos6502

/-- Why an operation was refused. -/
inductive Fault where
  /-- The machine was stepped before its program counter was loaded from the reset vector. -/
  | notInitialized
  /-- The byte at the program counter is no documented opcode. -/
  | unimplementedOpcode (opcode : UInt8) (pc : UInt16)
  /-- The instruction cannot work on an operand of this mode. -/
  | invalidMode (mnemonic : Mnemonic) (mode : Mode)
  /-- A flag was to be set to a number that is no bit. -/
  | flagValueOutOfRange (flag : Flag) (value : UInt8)
  /-- An image would run past the last address. -/
  | imageTooLarge (length : Nat) (loadAddress : UInt16)
deriving DecidableEq

namespace Fault

open Text

/-- The message for a user. -/
def message : Fault → String
  | notInitialized => "CPU stepped before initialize()"
  | unimplementedOpcode opcode pc =>
    "opcode 0x" ++ hexByte opcode ++ " at 0x" ++ hexWord pc ++ " is not implemented"
  | invalidMode mnemonic mode =>
    mnemonic.name ++ " does not support " ++ mode.name ++ " addressing"
  | flagValueOutOfRange flag value =>
    "value " ++ value.toNat.repr ++ " out of range for flag " ++ flag.name
  | imageTooLarge length loadAddress =>
    length.repr ++ "-byte image does not fit at 0x" ++ hexWord loadAddress

/-- The cause and its data as a record. -/
def describe : Fault → String
  | notInitialized => "NotInitialized"
  | unimplementedOpcode opcode pc =>
    record "UnimplementedOpcode" [("opcode", opcode.toNat.repr), ("pc", pc.toNat.repr)]
  | invalidMode mnemonic mode =>
    record "InvalidAddressingMode" [("mnemonic", mnemonic.title), ("mode", mode.name)]
  | flagValueOutOfRange flag value =>
    record "FlagValueOutOfRange" [("flag", flag.name), ("value", value.toNat.repr)]
  | imageTooLarge length loadAddress =>
    record "ImageTooLarge" [("len", length.repr), ("load_address", loadAddress.toNat.repr)]

end Fault

end Mos6502
