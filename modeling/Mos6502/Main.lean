/-
This file is the command: it lets the program read and write real files, and prints what it says.
Records and complaints go to standard error, results to standard output.
-/

import Mos6502.CommandLine.Program

open Mos6502.CommandLine

/-- Why a file could not be written. -/
def fileFaultOf : IO.Error → FileFault
  | .noFileOrDirectory .. => .missing
  | .inappropriateType _ code _ => if code = 21 then .isDirectory else .notDirectory
  | .invalidArgument _ 36 _ => .nameTooLong
  | .resourceExhausted _ 28 _ => .noSpace
  | error => .other error.toString

/-- The files of the disk. -/
def disk : Files IO where
  read path := do
    try return some (← IO.FS.readBinFile path)
    catch _ => return none
  write path text := do
    try
      IO.FS.withFile path .write fun file => do
        file.putStr text
        file.flush
      return .ok ()
    catch error => return .error (fileFaultOf error)

def main (words : List String) : IO UInt32 := do
  let report ← runCommand disk words
  for record in report.records do
    IO.eprintln record.line
  for line in report.output do
    IO.println line
  for complaint in report.complaint do
    IO.eprintln complaint
  return report.exit.toUInt32
