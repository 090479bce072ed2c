import SourceScan.SourceUnit
import SourceScan.Text.Blank

/-!
# Program/Interactive.lean -- units of one line

Every line of an input is a unit of its own, named `<repl>`: its tokens are listed and its messages
rendered. Lines of blank characters are passed over. The lines come from a reader, which is not part
of the program.

* `LinesRead`: what a reader hands over for an input.
* `inputLines`: the lines of an input. What ends a line is a newline with or without a carriage
  return ahead of it; behind the last newline a line is left only if anything is. `plainReader` hands
  over these.
* `respondTo`, `respondToAll`: what is printed for one line, and for all of them.
-/

namespace SourceScan

open Text

/-- What a run prints, on its two channels. -/
structure Printed where
  stdout : String
  stderr : String
deriving DecidableEq, Repr

namespace Printed

/-- Nothing. -/
def nothing : Printed := ⟨"", ""⟩

/-- One print and then another. -/
def append (a b : Printed) : Printed :=
  ⟨a.stdout ++ b.stdout, a.stderr ++ b.stderr⟩

@[simp] theorem nothing_append (p : Printed) : nothing.append p = p := by
  simp [nothing, append]

@[simp] theorem append_nothing (p : Printed) : p.append nothing = p := by
  simp [nothing, append]

theorem append_assoc (a b c : Printed) : (a.append b).append c = a.append (b.append c) := by
  simp [append, String.append_assoc]

end Printed

/-- A line without the carriage return that belongs to its newline. -/
def withoutReturn (line : List Char) : List Char :=
  if line.getLast? = some '\r' then line.dropLast else line

/-- The lines among the stretches of an input between newlines. -/
def linesAmong : List (List Char) → List (List Char)
  | [] => []
  | [last] => if last.isEmpty then [] else [last]
  | line :: rest => withoutReturn line :: linesAmong rest

/-- The lines of an input, without what ends them. -/
def inputLines (input : List Char) : List (List Char) :=
  linesAmong (lines input)

/-- What a reader hands over for an input, line by line, and if it fails behind the last of them, what
    is printed about the causes. -/
structure LinesRead where
  lines : List (List Char)
  failure : Option String
deriving DecidableEq, Repr

/-- The reader that hands over the lines of an input as they stand. -/
def plainReader (input : String) : LinesRead :=
  ⟨inputLines input.toList, none⟩

theorem linesAmong_cons {rest : List (List Char)} (line : List Char) (h : rest ≠ []) :
    linesAmong (line :: rest) = withoutReturn line :: linesAmong rest := by
  cases rest with
  | nil => exact absurd rfl h
  | cons next rest => rfl

/-- Up to its first newline an input is a line; behind it come the lines of the rest. -/
theorem inputLines_newline {line : List Char} (h : '\n' ∉ line) (rest : List Char) :
    inputLines (line ++ '\n' :: rest) = withoutReturn line :: inputLines rest := by
  have hne : lines rest ≠ [] := stretches_ne_nil '\n' rest
  unfold inputLines
  rw [lines_append_newline h, linesAmong_cons line hne]

/-- An input without a newline is one line, if it is not empty. -/
theorem inputLines_of_notMem {line : List Char} (h : '\n' ∉ line) (hne : line ≠ []) :
    inputLines line = [line] := by
  unfold inputLines
  rw [lines_of_notMem h, linesAmong, if_neg (by simpa using hne)]

/-- **Whole lines are the same lines with more behind them.** -/
theorem inputLines_append {front : List Char} (h : front = [] ∨ front.getLast? = some '\n')
    (back : List Char) : inputLines (front ++ back) = inputLines front ++ inputLines back := by
  induction front using line_induction with
  | last line hline =>
    rcases h with rfl | hlast
    · rfl
    · exact absurd (List.mem_of_getLast? hlast) hline
  | newline line rest hline ih =>
    have hrest : rest = [] ∨ rest.getLast? = some '\n' := by
      cases rest with
      | nil => exact .inl rfl
      | cons c rest => exact .inr (by simpa using h)
    rw [List.append_assoc, List.cons_append, inputLines_newline hline, inputLines_newline hline,
      ih hrest, List.cons_append]

/-- A line is left without its carriage return. -/
theorem withoutReturn_append_return (line : List Char) : withoutReturn (line ++ ['\r']) = line := by
  rw [withoutReturn, if_pos List.getLast?_concat, List.dropLast_concat]

/-- The unit of one line. -/
def lineUnit (line : List Char) : SourceUnit :=
  .ofSource "<repl>" (String.ofList line)

/-- What is printed for one line: its tokens, and its messages. -/
def respondTo (options : Presentation) (line : List Char) : Printed :=
  let u := lineUnit line
  ⟨listing u.tokens, u.rendered options⟩

/-- What is printed for a line that is handed over. -/
def respondUnlessBlank (options : Presentation) (line : List Char) : Printed :=
  if isBlankLine line then .nothing else respondTo options line

/-- What is printed for all lines that are handed over. -/
def respondToAll (options : Presentation) (handed : List (List Char)) : Printed :=
  (handed.map (respondUnlessBlank options)).foldr Printed.append .nothing

/-- What is printed for lines of which some are answered first. -/
theorem foldr_append (front back : List Printed) :
    (front ++ back).foldr Printed.append .nothing =
      (front.foldr Printed.append .nothing).append (back.foldr Printed.append .nothing) := by
  induction front with
  | nil => rw [List.nil_append, List.foldr_nil, Printed.nothing_append]
  | cons p front ih => rw [List.cons_append, List.foldr_cons, List.foldr_cons, ih,
      Printed.append_assoc]

/-- **Lines are answered the same with more behind them.** -/
theorem respondToAll_append (options : Presentation) (front back : List (List Char)) :
    respondToAll options (front ++ back) =
      (respondToAll options front).append (respondToAll options back) := by
  unfold respondToAll
  rw [List.map_append, foldr_append]

/-- A line alone. -/
theorem respondToAll_singleton (options : Presentation) (line : List Char) :
    respondToAll options [line] = respondUnlessBlank options line :=
  Printed.append_nothing _

/-- What is printed about a reader that fails. -/
def LinesRead.report (handed : LinesRead) : Printed :=
  match handed.failure with
  | none => .nothing
  | some causes => ⟨"", "Error: run REPL\n\nCaused by:\n" ++ causes⟩

end SourceScan
