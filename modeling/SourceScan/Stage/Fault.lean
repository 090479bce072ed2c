import SourceScan.Binary32.Written
import SourceScan.Message.Basic
import SourceScan.Numeral.Radix
import SourceScan.Text.Quoted

/-!
# Stage/Fault.lean -- what can be wrong with a source text

Every reason to end a scan and the one reason to warn, and the sentence each is reported with. A
scan deals in reasons only; their wording is decided here.

* `Setting`: where a numeral stands, which decides what it may contain.
* `Fault`: the reasons to end a scan. `Failure` is a fault at a position.
* `Oversize`: an escape whose number is above 255.
-/

namespace SourceScan

open Text

/-- Where a numeral stands: on its own, or behind a backslash. -/
inductive Setting where
  | literal
  | escapeCode
deriving DecidableEq, Repr

/-- The name of what a numeral stands in. -/
def Setting.name : Setting → String
  | literal => "numerical literal"
  | escapeCode => "escape code"

/-- A reason to end a scan. -/
inductive Fault where
  /-- no token begins with the character -/
  | strayCharacter (c : Char)
  /-- a literal or an escape is not closed -/
  | unexpectedEnd
  /-- no escape begins with the character -/
  | unknownEscape (c : Char)
  /-- a letter that selects a radix, and no digit of it behind -/
  | missingDigits (radix : Radix)
  /-- a character that has no place in a numeral -/
  | strayDigit (c : Char) (radix : Radix) (setting : Setting)
  /-- a point behind a point -/
  | secondPoint (radix : Radix) (setting : Setting)
  /-- a char literal of no character -/
  | emptyCharLiteral
  /-- a char literal of more than one character -/
  | crowdedCharLiteral
deriving DecidableEq, Repr

/-- The sentence that reports a fault. -/
def Fault.text : Fault → String
  | strayCharacter c =>
    "invalid character `" ++ String.ofList (shownChar c) ++ "` in source code"
  | unexpectedEnd => "unexpected EOF"
  | unknownEscape c =>
    "invalid character `" ++ String.ofList (shownChar c) ++ "` in escape code"
  | missingDigits radix => "expected digits in " ++ radix.name ++ " escape code"
  | strayDigit c radix setting =>
    "invalid character `" ++ String.ofList [c] ++ "` in " ++ radix.name ++ " " ++ setting.name
  | secondPoint radix setting =>
    "multiple decimal points in " ++ radix.name ++ " " ++ setting.name
  | emptyCharLiteral => "char literal cannot be empty"
  | crowdedCharLiteral => "too many characters in char literal"

/-- A fault, the position it is reported at, and the offset where scanning stopped. -/
structure Failure where
  fault : Fault
  position : Position
  stop : Nat
deriving DecidableEq, Repr

/-- The error that reports the end of a scan. -/
def Failure.message (h : Failure) : Message :=
  ⟨h.fault.text, .error, h.position⟩

/-- An escape whose number does not fit a byte. -/
structure Oversize where
  value : Binary32
  position : Position
deriving DecidableEq, Repr

/-- The warning that reports such an escape. -/
def Oversize.message (w : Oversize) : Message :=
  ⟨"number `" ++ String.ofList w.value.shown ++ "` too large for character", .warning, w.position⟩

end SourceScan
