import SourceScan.Program.Run

/-!
# Main.lean -- the program

The outer layer: it reads the arguments, the file or the input, and prints what a run comes to. An
input is answered line by line as it comes.
-/

namespace SourceScan

/-- The failure that an error of the system stands for. -/
def ReadFailure.ofSystem : IO.Error → ReadFailure
  | .noFileOrDirectory .. => .notFound
  | .inappropriateType _ 20 _ => .notDirectory
  | .inappropriateType _ 21 _ => .isDirectory
  | .invalidArgument _ 36 _ => .nameTooLong
  | e => .other (toString e)

/-- The content of a file. -/
def readFile (path : String) : IO (Except ReadFailure String) := do
  try
    let bytes ← IO.FS.readBinFile path
    return decodeText bytes
  catch e =>
    return .error (.ofSystem e)

/-- Print on both channels. -/
def Printed.emit (p : Printed) : IO Unit := do
  IO.print p.stdout
  IO.eprint p.stderr

/-- Answer the lines of the standard input until it ends. -/
partial def answerLines (render : Presentation) : IO Unit := do
  let line ← (← IO.getStdin).getLine
  if !line.isEmpty then
    (runInput plainReader render line).printed.emit
    answerLines render

/-- Whether messages go to a terminal that may show color. -/
def showsColor : IO Bool := do
  let terminal ← (← IO.getStderr).isTty
  let refused ← IO.getEnv "NO_COLOR"
  return terminal && refused.isNone

end SourceScan

open SourceScan in
/-- Run a command line and end with its code. -/
def main (args : List String) : IO UInt32 := do
  match Options.ofArgs? args with
  | none =>
    IO.eprintln "error: the arguments were not understood"
    return 2
  | some options =>
    let render := options.presentation (← showsColor)
    match options.file with
    | none =>
      answerLines render
      return 0
    | some path =>
      let outcome := runFile options render path (← readFile path)
      outcome.printed.emit
      return UInt32.ofNat outcome.code
