/-
This file takes the control sequences of a terminal out of a text, so that what a user typed is
shown as the terminal would show it, without its colours. A sequence starts at an escape character
and ends where its kind says so; other characters that steer the terminal are left out as well.

A blank such as a tab may stand inside a short sequence. It is shown, and so is what follows it, but
the sequence is not over: it goes on at the next character that is not shown. A character beyond
ASCII ends it, if it is shown.
-/

namespace Mos6502.Text.Terminal

/-! ### Characters -/

/-- The character that starts a control sequence. -/
def escapeChar : Char :=
  '\x1b'

/-- The two characters that break a control sequence off. -/
def isCancel (char : Char) : Bool :=
  char = '\x18' ∨ char = '\x1a'

/-- The control characters that leave space: tab, line feed, form feed and carriage return. -/
def isBlankControl (char : Char) : Bool :=
  char = '\t' ∨ char = '\n' ∨ char = '\x0c' ∨ char = '\r'

/-- Whether a character outside control sequences is shown. -/
def isShown (char : Char) : Bool :=
  isBlankControl char ∨ (' ' ≤ char ∧ char ≠ '\x7f')

/-- Whether a character is between two others, ends included. -/
def isBetween (low high char : Char) : Bool :=
  low ≤ char ∧ char ≤ high

/-- Whether the byte that ends a string for a device is part of a character. -/
def hasStringEnd (char : Char) : Bool :=
  (String.singleton char).toUTF8.toList.contains 0x9c

/-! ### Control sequences -/

/-- The parts of control sequences, as far as they differ in what may follow. -/
inductive Part where
  /-- Text, outside of control sequences. -/
  | text
  /-- The escape character. -/
  | escape
  /-- Marks after the escape character, up to a letter or digit. -/
  | marks
  /-- Numbers and marks after a bracket, up to a letter. -/
  | numbers
  /-- The beginning of a string for a device. -/
  | request
  /-- Numbers in front of a string for a device. -/
  | requestNumbers
  /-- Marks in front of a string for a device. -/
  | requestMarks
  /-- A string for a device or a program, which only one byte ends. -/
  | device
  /-- A string for the window, which a bell ends. -/
  | title
deriving DecidableEq

namespace Part

/-- Whether blanks are shown in a part. -/
def showsBlanks : Part → Bool
  | text | escape | marks | numbers => true
  | request | requestNumbers | requestMarks | device | title => false

/-- The part after the escape character and another. -/
def afterEscape (char : Char) : Part :=
  if isBetween ' ' '/' char then marks
  else if char = '[' then numbers
  else if char = ']' then title
  else if char = 'P' then request
  else if char = 'X' ∨ char = '^' ∨ char = '_' then device
  else if isBetween '0' '~' char then text
  else escape

/-- The part after a character that is not shown and neither starts nor breaks off a sequence. -/
def follow : Part → Char → Part
  | text, _ => text
  | escape, char => afterEscape char
  | marks, char => if isBetween '0' '~' char then text else marks
  | numbers, char => if isBetween '@' '~' char then text else numbers
  | request, char =>
    if isBetween ' ' '/' char then requestMarks
    else if isBetween '0' '?' char then requestNumbers
    else if isBetween '@' '~' char then device
    else request
  | requestNumbers, char =>
    if isBetween ' ' '/' char then requestMarks
    else if isBetween '<' '~' char then device
    else requestNumbers
  | requestMarks, char => if isBetween '0' '~' char then device else requestMarks
  | device, char => if hasStringEnd char then text else device
  | title, char => if char = '\x07' then text else title

end Part

/-- Where a text stands with regard to control sequences. -/
structure State where
  /-- The part that comes next. -/
  part : Part
  /-- Whether a blank broke into it, so that text comes first. -/
  interrupted : Bool
deriving DecidableEq

namespace State

/-- Outside of control sequences. -/
def start : State :=
  ⟨.text, false⟩

/-- Whether text is shown. -/
def showsText (state : State) : Bool :=
  state.part = .text ∨ state.interrupted

/-- Whether a character is shown. -/
def shows (state : State) (char : Char) : Bool :=
  if state.showsText then isShown char else state.part.showsBlanks && isBlankControl char

/-- Where a character leads. -/
def next (state : State) (char : Char) : State :=
  if char = escapeChar then ⟨.escape, false⟩
  else if isCancel char then ⟨.text, false⟩
  else if state.shows char then ⟨if char.toNat < 0x80 then state.part else .text, true⟩
  else ⟨state.part.follow char, false⟩

/-- The characters that are shown. -/
def shown (state : State) : List Char → List Char
  | [] => []
  | char :: rest =>
    if state.shows char then char :: (state.next char).shown rest else (state.next char).shown rest

end State

/-- The text as a terminal shows it, without colours. -/
def plain (text : String) : String :=
  String.ofList (State.start.shown text.toList)

/-- The text between the sequences that turn emphasis on and off. -/
def emphasised (text : String) : String :=
  "\x1b[1m" ++ text ++ "\x1b[0m"

end Mos6502.Text.Terminal
