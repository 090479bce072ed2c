import SourceScan.Json.Dump
import SourceScan.Program.FileTree
import SourceScan.Program.Interactive
import SourceScan.Program.Options

/-!
# Program/Run.lean -- one run of the program

A run reads one file, or without a file its input line by line, and ends with a code: 0, 1 for a
file or an input that cannot be read and for a file that holds an error, 2 for a command line that
is refused.

* `runFile`: a file. In text format its messages are rendered and, on request, its tokens listed
  if there is no error; in JSON format its unit is printed as a document, and nothing is rendered.
* `runInput`: an input, as a reader hands it over.
* `run`: a command line.
-/

namespace SourceScan

open Text

/-- How a run ends, and what it prints. -/
structure Outcome where
  code : Nat
  printed : Printed
deriving DecidableEq, Repr

/-- The sentence that names a file that could not be read. -/
def unreadable (path : String) : String :=
  "unable to open file '" ++ path ++ "'"

/-- A text in a numbered list of causes: lines behind the first stand under its first character. -/
def hanging (text : String) : String :=
  String.ofList (text.toList.flatMap fun c => if c = '\n' then "\n       ".toList else [c])

/-- What is printed about a file that could not be read. -/
def readError (path : String) (failure : ReadFailure) : String :=
  "Error: read source file '" ++ path ++ "'\n\nCaused by:\n    0: " ++ hanging (unreadable path) ++
    "\n    1: " ++ hanging failure.text ++ "\n"

/-- The last line about a file that holds errors. -/
def errorSummary (u : SourceUnit) : String :=
  "Error: " ++ toString u.errorCount ++ " error(s)\n"

/-- The unit of a file, after a pass, unless it could not be read. -/
def unitOfFile (path : String) (content : Except ReadFailure String) :
    Except ReadFailure SourceUnit :=
  content.map (SourceUnit.ofSource path)

/-- What is printed about a unit. -/
def printedUnit (options : Options) (render : Presentation) (u : SourceUnit) : Printed :=
  match options.format with
  | .json => ⟨u.dump ++ "\n", ""⟩
  | .text => ⟨if options.dumpTokens && u.succeeded then listing u.tokens else "", u.rendered render⟩

/-- A run over a file with the given content. -/
def runFile (options : Options) (render : Presentation) (path : String)
    (content : Except ReadFailure String) : Outcome :=
  match unitOfFile path content with
  | .error failure => ⟨1, ⟨"", readError path failure⟩⟩
  | .ok u =>
    let printed := printedUnit options render u
    if u.succeeded then ⟨0, printed⟩ else ⟨1, printed.append ⟨"", errorSummary u⟩⟩

/-- A run over an input, of which `reader` hands over the lines. -/
def runInput (reader : String → LinesRead) (render : Presentation) (input : String) : Outcome :=
  let handed := reader input
  ⟨if handed.failure.isSome then 1 else 0,
    (respondToAll render handed.lines).append handed.report⟩

/-- How a run renders messages; `terminal` tells whether they go to one. -/
def Options.presentation (options : Options) (terminal : Bool) : Presentation :=
  ⟨options.color.isOn terminal, options.context⟩

/-- A run of a command line, where `read` gives the content of files and `reader` the lines of the
    input. -/
def run (read : String → Except ReadFailure String) (reader : String → LinesRead)
    (terminal : Bool) (input : String) (args : List String) : Outcome :=
  match Options.ofArgs? args with
  | none => ⟨2, .nothing⟩
  | some options =>
    let render := options.presentation terminal
    match options.file with
    | some path => runFile options render path (read path)
    | none => runInput reader render input

end SourceScan
