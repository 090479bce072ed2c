import SourceScan.Text.Line

/-!
# Program/FileTree.lean -- files by path

A directory with what lies in and below it, and what reading a path in it comes to. A path is
followed from the directory on, one name at a time; all names but the last have to be directories,
and so has a file that a slash follows.

* `ReadFailure`: why a path cannot be read as text, with the system's wording.
* `FileTree.read`: the text at a path.
-/

namespace SourceScan

open Text

/-- Why a path could not be read. -/
inductive ReadFailure where
  | notFound
  | notDirectory
  | isDirectory
  | nameTooLong
  | nulInName
  | notText
  | other (reason : String)
deriving DecidableEq, Repr

/-- The system's wording of a failure. -/
def ReadFailure.text : ReadFailure → String
  | notFound => "No such file or directory (os error 2)"
  | notDirectory => "Not a directory (os error 20)"
  | isDirectory => "Is a directory (os error 21)"
  | nameTooLong => "File name too long (os error 36)"
  | nulInName => "file name contained an unexpected NUL byte"
  | notText => "stream did not contain valid UTF-8"
  | other reason => reason

/-- The text of a file's bytes. -/
def decodeText (bytes : ByteArray) : Except ReadFailure String :=
  match String.fromUTF8? bytes with
  | some text => .ok text
  | none => .error .notText

/-- A directory: its files, and those of the directories below it, by path. -/
structure FileTree where
  files : List (String × ByteArray)

/-- What a name in a directory is. -/
inductive Entry where
  | file (bytes : ByteArray)
  | directory
  | absent

namespace FileTree

/-- The names a path is made of. -/
def names (path : String) : List String :=
  (stretches '/' path.toList).map String.ofList

/-- What lies at a list of names. -/
def entry (tree : FileTree) (path : List String) : Entry :=
  match tree.files.find? fun (name, _) => names name == path with
  | some (_, bytes) => .file bytes
  | none =>
    if tree.files.any fun (name, _) => path.isPrefixOf (names name) then .directory else .absent

/-- The greatest number of bytes of a name. -/
def maxName : Nat := 255

/-- The greatest number of bytes of a path. -/
def maxPath : Nat := 4095

/-- Why a name is not there. -/
def missing (name : String) : ReadFailure :=
  if maxName < width name.toList then .nameTooLong else .notFound

/-- Whether a name leads to no other directory than the one above. -/
def isTrivial (name : String) : Bool :=
  name == "" || name == "." || name == ".."

/-- Follow names outside the tree, where only directories on the way up are known. -/
def walkOutside (path : List String) : Except ReadFailure ByteArray :=
  match path.find? fun name => !isTrivial name with
  | none => .error .isDirectory
  | some name => .error (missing name)

/-- Follow names from the directory `here` on. -/
def walk (tree : FileTree) (here : List String) : List String → Except ReadFailure ByteArray
  | [] => .error .isDirectory
  | name :: rest =>
    if name = "" ∨ name = "." then walk tree here rest
    else if name = ".." then
      if here.isEmpty then walkOutside rest else walk tree here.dropLast rest
    else match tree.entry (here ++ [name]) with
      | .directory => walk tree (here ++ [name]) rest
      | .file bytes => if rest.isEmpty then .ok bytes else .error .notDirectory
      | .absent => .error (missing name)

/-- The text at a path. -/
def read (tree : FileTree) (path : String) : Except ReadFailure String := do
  if path.toList.contains '\x00' then throw .nulInName
  if path.isEmpty then throw .notFound
  if maxPath < width path.toList then throw .nameTooLong
  let bytes ← if path.toList.head? = some '/' then walkOutside (names path)
    else tree.walk [] (names path)
  decodeText bytes

end FileTree

end SourceScan
