/-
This file takes paths apart. A path is a row of steps between slashes, and empty steps do not count.
With a slash in front it starts at the root, and with a slash behind it can only mean a directory.
Lengths are counted in bytes: a path that is too long is refused before any of its steps is taken, a
step that is too long only when it is looked up.
-/

import Mos6502.CommandLine.Files

namespace Mos6502.CommandLine

/-- A path, taken apart. -/
structure Path where
  /-- Whether it starts at the root. -/
  absolute : Bool
  /-- The steps, in order. -/
  steps : List String
  /-- Whether it can only mean a directory. -/
  slashed : Bool
deriving DecidableEq

namespace Path

/-- The most bytes that a path may have. -/
def maxBytes : Nat :=
  4095

/-- The most bytes that a step may have. -/
def maxStepBytes : Nat :=
  255

/-- Takes a path apart. An empty one leads nowhere. -/
def ofString (path : String) : Except FileFault Path :=
  if path = "" then .error .missing
  else if maxBytes < path.utf8ByteSize then .error .nameTooLong
  else .ok {
    absolute := path.startsWith "/"
    steps := (path.splitOn "/").filter (· ≠ "")
    slashed := path.endsWith "/" }

end Path

end Mos6502.CommandLine
