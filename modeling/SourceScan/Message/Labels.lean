import SourceScan.Message.Basic
import SourceScan.Text.Width

/-!
# Message/Labels.lean -- a message as a drawing tool takes it

A tool that draws messages takes labels, and refuses one that reaches past the text. So the position
of a message is cut to the text: its start, its length and its pointer.

* `Report`: a message cut to its text.
* `Report.labels`: `here` at the pointer, and the stretch as a second label if it is longer than one
  byte.
-/

namespace SourceScan

open Text

/-- A message whose position is cut to its text. -/
structure Report where
  text : String
  severity : Severity
  start : Nat
  length : Nat
  target : Nat
deriving DecidableEq, Repr

/-- A label on a stretch of a text. -/
structure Label where
  text : Option String
  start : Nat
  length : Nat
deriving DecidableEq, Repr

/-- The report of a message about a text. -/
def Message.report (m : Message) (source : List Char) : Report :=
  let start := min m.position.start (width source)
  { text := m.text
    severity := m.severity
    start := start
    length := min m.position.length (width source - start)
    target := min m.position.target (width source) }

namespace Report

/-- The code that all reports of this library carry. -/
def code : String := "detronade::lex"

/-- The name of a severity among drawing tools. -/
def grade (r : Report) : String :=
  match r.severity with
  | .note => "Advice"
  | .warning => "Warning"
  | .error => "Error"

/-- The labels of a report. -/
def labels (r : Report) : List Label :=
  ⟨some "here", r.target, 0⟩ :: if 1 < r.length then [⟨none, r.start, r.length⟩] else []

/-- **A report stays inside its text.** -/
theorem start_add_length_le (m : Message) (source : List Char) :
    (m.report source).start + (m.report source).length ≤ width source := by
  simp only [Message.report]
  omega

end Report

end SourceScan
