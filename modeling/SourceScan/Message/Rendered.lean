import SourceScan.Excerpt.Row
import SourceScan.Text.CodeRange

/-!
# Message/Rendered.lean -- a message as a reader sees it

A message is rendered as a header, `name:line:column: severity: text`, and an excerpt of the text it
is about. The name is that of the text; line and column are those of the position's start.
-/

namespace SourceScan

open Text

/-- How messages are rendered: with color or without, and how many lines around an excerpt. -/
structure Presentation where
  color : Bool
  context : Nat
deriving DecidableEq, Repr

/-- Where a message stands, as its header gives it. -/
def locator (name : String) (place : Place) : List Char :=
  name.toList ++ [':'] ++ Nat.toDigits 10 place.line ++ [':'] ++ Nat.toDigits 10 place.column

namespace Message

/-- The header of a message, without its newline. -/
def header (m : Message) (name : String) (source : List Char) : Painting :=
  [.styled .emphasis (locator name (placeAt source m.position.start)),
   .bare [':', ' '],
   .styled (.severity m.severity) m.severity.name.toList,
   .bare ([':', ' '] ++ m.text.toList)]

/-- A control character is in a header only if it is in the name or in the sentence. -/
theorem notMem_header {m : Message} {name : String} {c : Char} (hc : isControl c = true)
    (hname : c ∉ name.toList) (htext : c ∉ m.text.toList) (source : List Char) :
    c ∉ (m.header name source).text := by
  have hne : ∀ d : Char, isControl d = false → c ≠ d := fun d hd heq =>
    Bool.false_ne_true (hd.symm.trans (heq ▸ hc))
  have hdigits : ∀ n, c ∉ Nat.toDigits 10 n := fun n hmem => by
    have hdigit := Nat.isDigit_of_mem_toDigits (by decide) (by decide) hmem
    exact hne c (isControl_of_isDigit hdigit) rfl
  have hseverity : c ∉ m.severity.name.toList := by
    cases m.severity <;> simp [Severity.name, hne, isControl]
  simp [header, Painting.text, Stroke.bare, Stroke.styled, locator, hname, htext, hseverity, hdigits,
    hne, isControl]

/-- The excerpt of a message as it is printed. -/
def printedExcerpt (m : Message) (source : List Char) (options : Presentation) : List Char :=
  (excerptRows source m.position m.severity options.context).flatMap
    (Row.print options.color (gutterWidth source))

/-- A message as it is printed: header and excerpt, each row with its newline. -/
def rendered (m : Message) (name : String) (source : List Char) (options : Presentation) :
    List Char :=
  (m.header name source).print options.color ++ ['\n'] ++ m.printedExcerpt source options

end Message

/-- Messages one behind the other. -/
def renderedAll (messages : List Message) (name : String) (source : List Char)
    (options : Presentation) : List Char :=
  messages.flatMap fun m => m.rendered name source options

end SourceScan
