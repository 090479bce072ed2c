import SourceScan.Message.Rendered
import SourceScan.Pass.Tokens

/-!
# SourceUnit.lean -- a named text and what is known about it

A unit holds a name, a text, and the results of the last pass over the text: messages, tokens, the
number of lines, and whether the pass ended without an error. Its fields may be set freely;
`refresh` replaces all results.
-/

namespace SourceScan

open Text

/-- A named text with the results of the last pass over it. -/
structure SourceUnit where
  name : String
  source : String
  messages : List Message
  tokens : List Token
  lineCount : Nat
  succeeded : Bool
deriving DecidableEq, Repr

namespace SourceUnit

/-- A unit that no pass has been made over. -/
def fresh (name source : String) : SourceUnit :=
  ⟨name, source, [], [], 0, false⟩

/-- The unit without a name and a text. -/
def empty : SourceUnit := fresh "" ""

/-- Make a pass over the text. A pass that fails leaves no tokens. -/
def refresh (u : SourceUnit) : SourceUnit :=
  let pass := tokenize u.source.toList .empty
  { u with
    messages := pass.1.messages
    tokens := pass.2.getD []
    lineCount := Text.lineCount u.source.toList
    succeeded := pass.2.isSome }

/-- The unit of a name and a text, after a pass. -/
def ofSource (name source : String) : SourceUnit :=
  (fresh name source).refresh

/-- Whether a message of the unit is an error. -/
def anyError (u : SourceUnit) : Bool :=
  SourceScan.anyError u.messages

/-- How many messages of the unit are errors. -/
def errorCount (u : SourceUnit) : Nat :=
  (u.messages.filter fun m => m.severity.endsScan).length

/-- The messages of the unit as they are printed. -/
def rendered (u : SourceUnit) (options : Presentation) : String :=
  String.ofList (renderedAll u.messages u.name u.source.toList options)

end SourceUnit

end SourceScan
