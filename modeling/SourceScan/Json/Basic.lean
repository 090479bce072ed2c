import SourceScan.Binary32.Written

/-!
# Json/Basic.lean -- documents and their text

The documents of RFC 8259, objects with their fields in order, and two ways to write them:

* `Json.compact`: without any space.
* `Json.pretty`: one item or field a line, each level two spaces further in, a space behind the
  colon; empty lists and objects stay on their line.

A string writes the quotation mark, the backslash and the characters below U+0020 by escapes, all
else as it is. A number that is not finite is `null`.
-/

namespace SourceScan

/-- A document. -/
inductive Json where
  | null
  | bool (value : Bool)
  | natural (value : Nat)
  | number (value : Binary32)
  | string (value : String)
  | list (items : List Json)
  | object (fields : List (String × Json))

namespace Json

/-- A character inside a string. -/
def escaped (c : Char) : List Char :=
  if c = '"' then ['\\', '"']
  else if c = '\\' then ['\\', '\\']
  else if c = '\x08' then ['\\', 'b']
  else if c = '\x0c' then ['\\', 'f']
  else if c = '\n' then ['\\', 'n']
  else if c = '\r' then ['\\', 'r']
  else if c = '\t' then ['\\', 't']
  else if c.toNat < 0x20 then
    ['\\', 'u', '0', '0', Nat.digitChar (c.toNat / 16), Nat.digitChar (c.toNat % 16)]
  else [c]

/-- A string between quotation marks. -/
def quoted (s : String) : List Char :=
  ['"'] ++ s.toList.flatMap escaped ++ ['"']

/-- A number, or `null` for what has no decimal. -/
def writtenNumber (x : Binary32) : List Char :=
  (x.written? .document).getD ['n', 'u', 'l', 'l']

/-- The text of a document that has no parts. -/
def atom : Json → List Char
  | null => ['n', 'u', 'l', 'l']
  | bool true => ['t', 'r', 'u', 'e']
  | bool false => ['f', 'a', 'l', 's', 'e']
  | natural n => Nat.toDigits 10 n
  | number x => writtenNumber x
  | string s => quoted s
  | list _ => ['[', ']']
  | object _ => ['\x7b', '\x7d']

/-- A new line, `depth` levels in. -/
def newLine (depth : Nat) : List Char :=
  '\n' :: List.replicate (2 * depth) ' '

mutual

/-- The text of a document without any space. -/
def compact : Json → List Char
  | list (item :: items) => ['['] ++ compact item ++ compactItems items ++ [']']
  | object ((name, value) :: fields) =>
    ['\x7b'] ++ quoted name ++ [':'] ++ compact value ++ compactFields fields ++ ['\x7d']
  | j => atom j

/-- Further items. -/
def compactItems : List Json → List Char
  | [] => []
  | item :: items => [','] ++ compact item ++ compactItems items

/-- Further fields. -/
def compactFields : List (String × Json) → List Char
  | [] => []
  | (name, value) :: fields =>
    [','] ++ quoted name ++ [':'] ++ compact value ++ compactFields fields

end

mutual

/-- The text of a document, one item or field a line. -/
def pretty (depth : Nat) : Json → List Char
  | list (item :: items) =>
    ['['] ++ newLine (depth + 1) ++ pretty (depth + 1) item ++ prettyItems (depth + 1) items ++
      newLine depth ++ [']']
  | object ((name, value) :: fields) =>
    ['\x7b'] ++ newLine (depth + 1) ++ quoted name ++ [':', ' '] ++ pretty (depth + 1) value ++
      prettyFields (depth + 1) fields ++ newLine depth ++ ['\x7d']
  | j => atom j

/-- Further items. -/
def prettyItems (depth : Nat) : List Json → List Char
  | [] => []
  | item :: items => [','] ++ newLine depth ++ pretty depth item ++ prettyItems depth items

/-- Further fields. -/
def prettyFields (depth : Nat) : List (String × Json) → List Char
  | [] => []
  | (name, value) :: fields =>
    [','] ++ newLine depth ++ quoted name ++ [':', ' '] ++ pretty depth value ++
      prettyFields depth fields

end

end Json

end SourceScan
