import SourceScan.Binary32.Written
import SourceScan.Text.Quoted

/-!
# Token/Basic.lean -- tokens

A token is what a lexeme stands for, and the stretch of the text that the lexeme takes. There are
six kinds; each carries the value its kind has.

* `Lexeme`: the kind and value in one.
* `Lexeme.value`: the value alone, a number, a text or a character.
* `Token.shown`: the line that lists a token: kind, value, and `@` with the offset.
-/

namespace SourceScan

open Text

/-- What a token stands for. -/
inductive Lexeme where
  | numeral (value : Binary32)
  | charLiteral (c : Char)
  | stringLiteral (text : String)
  | operator (text : String)
  | punctuation (c : Char)
  | identifier (text : String)
deriving DecidableEq, Repr

/-- A value without its kind. -/
inductive Value where
  | number (value : Binary32)
  | text (text : String)
  | char (c : Char)
deriving DecidableEq, Repr

namespace Lexeme

/-- The name of a lexeme's kind. -/
def kind : Lexeme → String
  | numeral _ => "numeric_literal"
  | charLiteral _ => "char_literal"
  | stringLiteral _ => "string_literal"
  | operator _ => "operator"
  | punctuation _ => "punctuation"
  | identifier _ => "identifier"

/-- The value of a lexeme. -/
def value : Lexeme → Value
  | numeral x => .number x
  | charLiteral c => .char c
  | stringLiteral s => .text s
  | operator s => .text s
  | punctuation c => .char c
  | identifier s => .text s

end Lexeme

namespace Value

/-- A value as a listing shows it: numbers plainly, texts and characters in quoted form. -/
def shown : Value → List Char
  | number x => x.shown
  | text s => quotedString s.toList
  | char c => quotedChar c

/-- The number, if the value is one. -/
def number? : Value → Option Binary32
  | number x => some x
  | _ => none

/-- The text, if the value is one. -/
def text? : Value → Option String
  | text s => some s
  | _ => none

/-- The character, if the value is one. -/
def char? : Value → Option Char
  | char c => some c
  | _ => none

end Value

/-- A stretch of a text, in bytes. -/
structure Extent where
  offset : Nat
  length : Nat
deriving DecidableEq, Repr

/-- A lexeme and where it stands. -/
structure Token where
  lexeme : Lexeme
  extent : Extent
deriving DecidableEq, Repr

/-- The line that lists a token, without its newline. -/
def Token.shown (t : Token) : String :=
  t.lexeme.kind ++ " " ++ String.ofList t.lexeme.value.shown ++ " @" ++ toString t.extent.offset

/-- The lines that list tokens, in order. -/
def listing (tokens : List Token) : String :=
  String.join (tokens.map fun t => t.shown ++ "\n")

end SourceScan
