import SourceScan.Message.Rendered
import SourceScan.Text.Checked

/-!
# Message/Checked.lean -- a message rendered by steps that can fail

The offsets of a message come from outside and need not fit the text: they may be past its end, inside
a character, or in any order with the ends of a line. Here a message is rendered the way a machine does
it, with a running sum for the starts of the lines and with cuts at byte offsets, and every sum,
difference and cut can fail.

* `Position.marksAt?`: the marks on a line from its start and its width; `Position.marksOf?`: those of
  all lines, one behind the other.
* `Marks.cut?`: a line cut at its marks by bytes.
* `excerptRows?`: the rows of the lines shown, found by the indices of those that are marked.
* `Message.rendered?`: the message.
-/

namespace SourceScan

open Text

/-- What a position marks on a line: on none if it does not meet the line. -/
def Position.marksAt? (limit : Nat) (p : Position) (lineStart lineWidth : Nat) (isLast : Bool) :
    Option (Option Marks) := do
  let slotEnd ← sum? limit (← sum? limit lineStart lineWidth) 1
  let stop ← sum? limit p.start p.length
  if slotEnd ≤ p.start ∨ stop ≤ lineStart then
    return none
  let start := p.start - lineStart
  let column := min (← difference? stop lineStart) (← sum? limit lineWidth 1)
  if column ≤ start then
    return none
  let target ← sum? limit p.start p.pointer
  if lineStart ≤ target ∧ (target < slotEnd ∨ isLast ∨ stop ≤ slotEnd) then
    let back ← difference? target lineStart
    return some ⟨start, column, some (min back lineWidth)⟩
  else
    return some ⟨start, column, none⟩

/-- What a position marks on lines: `last` is the index of the last one, `index` and `start` those of
    the first. -/
def Position.marksOf? (limit : Nat) (p : Position) (last : Nat) :
    Nat → Nat → List (List Char) → Option (List (Option Marks))
  | _, _, [] => some []
  | index, start, line :: lines => do
    let marks ← p.marksAt? limit start (width line) (index == last)
    let next ← sum? limit start (← sum? limit (width line) 1)
    return marks :: (← p.marksOf? limit last (index + 1) next lines)

/-- Cut a line at its marks, each brought down to a boundary. Only the part behind the character at the
    pointer may be out of order; it is empty then. -/
def Marks.cut? (limit : Nat) (m : Marks) (line : List Char) : Option Underlined := do
  let start ← floorBoundary? line m.start
  let stop := max (← floorBoundary? line m.stop) start
  let ahead ← between? line 0 start
  match m.pointer with
  | some column =>
    let p := max (← floorBoundary? line column) start
    let next ← sum? limit p (width ((← between? line p (width line)).take 1))
    let before ← between? line start p
    let after := (between? line next stop).getD []
    let point ← between? line p next
    let behind ← between? line (max stop next) (width line)
    return ⟨ahead, before, true, point, after, behind⟩
  | none =>
    let before ← between? line start stop
    let behind ← between? line stop (width line)
    return ⟨ahead, before, false, [], [], behind⟩

/-- The rows of the line at an index. -/
def rowsAt? (limit : Nat) (severity : Severity) (marks : List (Option Marks)) (line : List Char)
    (index : Nat) : Option (List Row) := do
  let number ← sum? limit index 1
  match ← marks[index]? with
  | some m =>
    let u ← m.cut? limit line
    return [⟨some number, u.painting severity⟩, ⟨none, u.underline severity⟩]
  | none => return [⟨some number, [.bare line]⟩]

/-- The rows of an excerpt. A sum of indices that is past the limit counts as the limit. -/
def excerptRows? (limit : Nat) (source : List Char) (p : Position) (severity : Severity)
    (context : Nat) : Option (List Row) := do
  let last ← difference? (lines source).length 1
  let marks ← p.marksOf? limit last 0 0 (lines source)
  match marks.findIdx? Option.isSome with
  | none => return []
  | some first =>
    let lastMarked := (lastIndex? Option.isSome marks).getD first
    let stop ← sum? limit (min (min (lastMarked + context) limit) last) 1
    let shown := ((lines source).zipIdx.take stop).drop (first - context)
    let rows ← shown.mapM fun (line, index) => rowsAt? limit severity marks line index
    return rows.flatten

/-- The header of a message that begins at a place, without its newline. -/
def Message.headed (m : Message) (name : String) (place : Place) : Painting :=
  [.styled .emphasis (locator name place),
   .bare [':', ' '],
   .styled (.severity m.severity) m.severity.name.toList,
   .bare ([':', ' '] ++ m.text.toList)]

theorem Message.headed_placeAt (m : Message) (name : String) (source : List Char) :
    m.headed name (placeAt source m.position.start) = m.header name source := rfl

/-- A message as it is printed. -/
def Message.rendered? (limit : Nat) (m : Message) (name : String) (source : List Char)
    (options : Presentation) : Option (List Char) := do
  let place ← placeAt? limit source m.position.start
  let rows ← excerptRows? limit source m.position m.severity options.context
  return (m.headed name place).print options.color ++ ['\n'] ++
    rows.flatMap (Row.print options.color (gutterWidth source))

end SourceScan
