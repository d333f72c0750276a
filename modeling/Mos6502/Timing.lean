/-
This file names the two ways of counting cycles. Base timing charges what the opcode says and one
more for a branch that is taken; strict timing charges page crossings as well.
-/

namespace Mos6502

/-- How cycles are counted. -/
inductive Timing where
  /-- The opcode's own cycles, and one more for a taken branch. -/
  | base
  /-- Base timing, and one more where an indexed read or a taken branch crosses a page. -/
  | strict
deriving DecidableEq

namespace Timing

/-- Base timing unless something else is asked for. -/
instance : Inhabited Timing :=
  ⟨base⟩

/-- The name in settings. -/
def name : Timing → String
  | base => "base"
  | strict => "strict"

/-- The name in reports. -/
def title : Timing → String
  | base => "Base"
  | strict => "Strict"

/-- The timing with the given name in settings. -/
def ofName? (name : String) : Option Timing :=
  [base, strict].find? (·.name == name)

end Timing

end Mos6502
