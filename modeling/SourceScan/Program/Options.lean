/-!
# Program/Options.lean -- the options of the command line

A command line is a list of options and one file at most:

* `--dump-tokens` and `--fancy` are flags and take no value;
* `--format`, `--color` and `--context` take one, behind `=` or as the next argument, which then
  must not look like an option;
* behind `--` everything is a file.

`--fancy` asks that a tool which takes reports draw the messages. Where none is at hand they are
rendered as without it.

A command line is refused if it names anything else, gives an option or a file twice, leaves out a
value or gives a malformed one, or names the empty file.
-/

namespace SourceScan

/-- What is printed about a file. -/
inductive Format where
  | text
  | json
deriving DecidableEq, Repr

/-- When messages are colored. -/
inductive Coloring where
  | auto
  | always
  | never
deriving DecidableEq, Repr

/-- The options of a run. -/
structure Options where
  file : Option String
  dumpTokens : Bool
  format : Format
  color : Coloring
  context : Nat
  fancy : Bool
deriving DecidableEq, Repr

/-- What a command line has given so far. -/
structure Given where
  file : Option String
  dumpTokens : Bool
  format : Option Format
  color : Option Coloring
  context : Option Nat
  fancy : Bool
deriving DecidableEq, Repr

namespace Given

/-- Nothing yet. -/
def nothing : Given := ⟨none, false, none, none, none, false⟩

/-- The options, with the defaults for what was not given. -/
def options (g : Given) : Options :=
  { file := g.file
    dumpTokens := g.dumpTokens
    format := g.format.getD .text
    color := g.color.getD .auto
    context := g.context.getD 0
    fancy := g.fancy }

/-- A format by its name. -/
def format? : String → Option Format
  | "text" => some .text
  | "json" => some .json
  | _ => none

/-- A color choice by its name. -/
def color? : String → Option Coloring
  | "auto" => some .auto
  | "always" => some .always
  | "never" => some .never
  | _ => none

/-- The natural number that decimal digits spell. -/
def spelled (digits : List Char) : Nat :=
  digits.foldl (fun n c => 10 * n + (c.toNat - '0'.toNat)) 0

/-- A natural number of 64 bits in decimal digits, a plus sign ahead of them or not. -/
def natural? (text : String) : Option Nat :=
  let digits := match text.toList with
    | '+' :: cs => cs
    | cs => cs
  if !digits.isEmpty && digits.all Char.isDigit && spelled digits < 0x10000000000000000 then
    some (spelled digits)
  else none

/-- Set a value for the first time. -/
def once {α : Type} (old : Option α) (new : Option α) : Option α :=
  match old with
  | none => new
  | some _ => none

/-- Raise a flag that is not raised yet. -/
def raise? (g : Given) : String → Option Given
  | "dump-tokens" => if g.dumpTokens then none else some { g with dumpTokens := true }
  | "fancy" => if g.fancy then none else some { g with fancy := true }
  | _ => none

/-- Give an option its value, if it has none yet. -/
def set? (g : Given) (name value : String) : Option Given :=
  match name with
  | "format" => (once g.format (format? value)).map fun f => { g with format := some f }
  | "color" => (once g.color (color? value)).map fun c => { g with color := some c }
  | "context" => (once g.context (natural? value)).map fun n => { g with context := some n }
  | _ => none

/-- Name the file, if none is named yet. -/
def name? (g : Given) (file : String) : Option Given :=
  if file.isEmpty then none
  else (once g.file (some file)).map fun f => { g with file := some f }

/-- Take every argument as a file. -/
def files? (g : Given) : List String → Option Given
  | [] => some g
  | arg :: rest =>
    match g.name? arg with
    | some g => files? g rest
    | none => none

end Given

/-- Whether an argument looks like an option: a hyphen and something behind it. -/
def looksLikeOption (arg : String) : Bool :=
  match arg.toList with
  | '-' :: _ :: _ => true
  | _ => false

/-- The name and the value of an option in one argument, `--name=value` or `--name`. -/
def longOption? (arg : String) : Option (String × Option String) :=
  match arg.toList with
  | '-' :: '-' :: cs =>
    let name := String.ofList (cs.takeWhile (· ≠ '='))
    match cs.dropWhile (· ≠ '=') with
    | [] => some (name, none)
    | _ :: value => some (name, some (String.ofList value))
  | _ => none

/-- Read arguments from the front. -/
def Given.read? (g : Given) : List String → Option Given
  | [] => some g
  | arg :: rest =>
    if arg = "--" then g.files? rest
    else match longOption? arg with
      | some (name, some value) =>
        match g.set? name value with
        | some g => read? g rest
        | none => none
      | some (name, none) =>
        match g.raise? name with
        | some g => read? g rest
        | none =>
          match rest with
          | [] => none
          | value :: rest =>
            if looksLikeOption value then none
            else match g.set? name value with
              | some g => read? g rest
              | none => none
      | none =>
        if looksLikeOption arg then none
        else match g.name? arg with
          | some g => read? g rest
          | none => none

/-- The options of a command line, unless it is refused. -/
def Options.ofArgs? (args : List String) : Option Options :=
  (Given.nothing.read? args).map Given.options

/-- Whether messages are colored; `auto` colors them for a terminal. -/
def Coloring.isOn (choice : Coloring) (terminal : Bool) : Bool :=
  match choice with
  | auto => terminal
  | always => true
  | never => false

end SourceScan
