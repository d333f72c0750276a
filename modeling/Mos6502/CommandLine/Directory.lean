/-
This file holds a directory in memory: files by name, in the order in which they were made, and no
directories below. It lets the command run where there is no disk. Of what lies outside the
directory only two devices are there; other directories are empty, and what is written to them is
not kept.
-/

import Mos6502.CommandLine.Path
import Mos6502.CommandLine.Program

namespace Mos6502.CommandLine

/-- Files by name. -/
abbrev Directory :=
  List (String × ByteArray)

namespace Directory

/-! ### Files by name -/

/-- The bytes of a file. -/
def find? (directory : Directory) (name : String) : Option ByteArray :=
  List.lookup name directory

/-- Puts a file in place of the one with its name, or at the end if there is none. -/
def put (name : String) (bytes : ByteArray) : Directory → Directory
  | [] => [(name, bytes)]
  | (other, kept) :: rest =>
    if other = name then (name, bytes) :: rest else (other, kept) :: put name bytes rest

/-! ### Places -/

/-- What a path can lead to. -/
inductive Place where
  /-- The directory itself. -/
  | here
  /-- Another directory, with nothing in it. -/
  | elsewhere
  /-- The directory at the root. -/
  | root
  /-- The directory of the devices. -/
  | devices
  /-- The device that holds nothing and takes everything. -/
  | null
  /-- The device that takes nothing. -/
  | full
  /-- A file of the directory. -/
  | file (name : String)
deriving DecidableEq

/-- Whether steps lead on from a place. -/
def Place.isDirectory : Place → Bool
  | here | elsewhere | root | devices => true
  | null | full | file _ => false

/-- The directory around a place. -/
def Place.parent : Place → Place
  | here | elsewhere => elsewhere
  | root | devices => root
  | null | full => devices
  | file _ => here

/-- The place of a name in a place. -/
def entry? (directory : Directory) : Place → String → Option Place
  | .here, name => if (directory.find? name).isSome then some (.file name) else none
  | .root, "dev" => some .devices
  | .root, "tmp" => some .elsewhere
  | .devices, "null" => some .null
  | .devices, "full" => some .full
  | _, _ => none

/-- Takes one step. -/
def enter (directory : Directory) (place : Place) (step : String) : Except FileFault Place :=
  if place.isDirectory = false then .error .notDirectory
  else if step = "." then .ok place
  else if step = ".." then .ok place.parent
  else if Path.maxStepBytes < step.utf8ByteSize then .error .nameTooLong
  else match directory.entry? place step with
    | some found => .ok found
    | none => .error .missing

/-- Takes steps from where a path starts. -/
def walk (directory : Directory) (path : Path) (steps : List String) : Except FileFault Place :=
  steps.foldlM directory.enter (if path.absolute then .root else .here)

/-! ### Reading and writing -/

/-- The place that a path leads to. -/
def locate (directory : Directory) (path : String) : Except FileFault Place := do
  let path ← Path.ofString path
  let place ← directory.walk path path.steps
  if path.slashed ∧ place.isDirectory = false then throw .notDirectory
  return place

/-- The bytes that a path leads to. -/
def read (directory : Directory) (path : String) : Option ByteArray :=
  match directory.locate path with
  | .ok (.file name) => directory.find? name
  | .ok .null => some .empty
  | _ => none

/-- Writes bytes where a path leads to. All steps but the last have to lead to a directory; there
the last is the name of a file, which is made if it is not there. -/
def write (directory : Directory) (path : String) (bytes : ByteArray) :
    Except FileFault Directory := do
  let path ← Path.ofString path
  match path.steps.getLast? with
  | none => throw .isDirectory
  | some last =>
    let base ← directory.walk path path.steps.dropLast
    if base.isDirectory = false then throw .notDirectory
    if path.slashed ∨ last = "." ∨ last = ".." then throw .isDirectory
    match directory.enter base last with
    | .ok (.file name) => return directory.put name bytes
    | .ok .null => return directory
    | .ok .full => throw .noSpace
    | .ok _ => throw .isDirectory
    | .error .missing => return if base = .here then directory.put last bytes else directory
    | .error fault => throw fault

/-- Reading and writing in a directory that is the state of a computation. -/
def files : Files (StateM Directory) where
  read path := do return (← get).read path
  write path text := do
    match (← get).write path text.toUTF8 with
    | .ok directory => set directory; return .ok ()
    | .error fault => return .error fault

/-- Runs the command in a directory. -/
def runCommand (directory : Directory) (words : List String) : Report × Directory :=
  (CommandLine.runCommand files words).run directory

end Directory

end Mos6502.CommandLine
