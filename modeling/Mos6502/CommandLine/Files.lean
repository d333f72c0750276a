/-
This file says what the command needs of files: it reads them whole and writes them whole. A file
that cannot be read is only missed, but one that cannot be written is reported with the reason.
-/

namespace Mos6502.CommandLine

/-- Why a path leads to no file that could be written. -/
inductive FileFault where
  /-- There is no directory that it could be in. -/
  | missing
  /-- Something on the way to it is no directory. -/
  | notDirectory
  /-- It is a directory itself. -/
  | isDirectory
  /-- Its name, or the whole path, has too many bytes. -/
  | nameTooLong
  /-- There is no room for it. -/
  | noSpace
  /-- Something else. -/
  | other (reason : String)
deriving DecidableEq

/-- The reason as text. -/
def FileFault.message : FileFault → String
  | missing => "No such file or directory (os error 2)"
  | notDirectory => "Not a directory (os error 20)"
  | isDirectory => "Is a directory (os error 21)"
  | noSpace => "No space left on device (os error 28)"
  | nameTooLong => "File name too long (os error 36)"
  | other reason => reason

/-- How files are read and written. -/
structure Files (m : Type → Type) where
  /-- The bytes of a file, if it can be read. -/
  read : String → m (Option ByteArray)
  /-- Writes a text to a file. -/
  write : String → String → m (Except FileFault Unit)

end Mos6502.CommandLine
