import SourceScan.Json.Basic
import SourceScan.SourceUnit

/-!
# Json/Dump.lean -- units, messages and tokens as documents

The fields of a document and their order are fixed here. The document of a unit leaves out its text.
-/

namespace SourceScan

/-- The document of a position. -/
def Position.json (p : Position) : Json :=
  .object [("begin", .natural p.start), ("length", .natural p.length),
    ("pointer", .natural p.pointer)]

/-- The document of a message. -/
def Message.json (m : Message) : Json :=
  .object [("text", .string m.text), ("severity", .string m.severity.name),
    ("pos", m.position.json)]

/-- The document of a value: its type and itself. -/
def Value.json : Value → Json
  | number x => .object [("type", .string "float"), ("value", .number x)]
  | text s => .object [("type", .string "str"), ("value", .string s)]
  | char c => .object [("type", .string "char"), ("value", .string (String.ofList [c]))]

/-- The document of a token. -/
def Token.json (t : Token) : Json :=
  .object [("kind", .string t.lexeme.kind), ("value", t.lexeme.value.json),
    ("span", .object [("offset", .natural t.extent.offset), ("len", .natural t.extent.length)])]

/-- The document of a unit. -/
def SourceUnit.json (u : SourceUnit) : Json :=
  .object [("name", .string u.name), ("messages", .list (u.messages.map Message.json)),
    ("tokens", .list (u.tokens.map Token.json)), ("line_count", .natural u.lineCount),
    ("success", .bool u.succeeded)]

/-- The text of a unit's document. -/
def SourceUnit.dump (u : SourceUnit) : String :=
  String.ofList (u.json.pretty 0)

/-- The text of a token's document, without any space. -/
def Token.dump (t : Token) : String :=
  String.ofList t.json.compact

end SourceScan
