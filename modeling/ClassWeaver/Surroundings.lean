import ClassWeaver.Archive.Entry
import ClassWeaver.Options
import ClassWeaver.Search.Access
import ClassWeaver.Search.FileTree

/-!
Surroundings to run in.

How files and archives are read and how log levels are spelled is up to the surroundings. In these,
the files are those of a tree, in whose top directory everything runs; archives are zip files; and a
log level is a name or a number.
-/

set_option autoImplicit false
set_option relaxedAutoImplicit false

namespace ClassWeaver

/-! ### Files -/

namespace Search

namespace FileTree

/-- A file system with the files of a tree in the current directory. -/
def system (tree : FileTree) : FileSystem where
  tree := .directory [("current", tree)]
  current := ["current".toList]

/-- The entry called `name` of the archive at the end of a path. -/
def readEntry? (tree : FileTree) (path name : String) : Except Unreadable (Option Bytes) := do
  match ← tree.system.read? path with
  | some archive => Archive.read? archive name
  | none => return none

def files (tree : FileTree) : Files where
  read? := tree.system.read?
  readEntry? := tree.readEntry?

instance : Coe FileTree Files :=
  ⟨files⟩

end FileTree

end Search

/-! ### Log levels -/

namespace LogLevel

/-- The levels by their names. -/
def names : List (String × LogLevel) :=
  [("off", off), ("error", error), ("warn", warn), ("info", info), ("debug", debug),
    ("trace", trace)]

/-- The level of a number from zero to five, with an optional plus sign. -/
def ofNumber? (text : List Char) : Option LogLevel := do
  let value ←
    match text with
    | '+' :: digits => natural? digits
    | digits => natural? digits
  (names.map Prod.snd)[value]?

/-- The level of a number or a name in any case of its letters; the empty text stands for
`error`. -/
def ofText? (text : List Char) : Option LogLevel :=
  if text = [] then some error
  else
    ofNumber? text <|>
      (names.find? fun (name, _) ↦ name.toList == text.map Char.toLower).map Prod.snd

instance : LevelSpelling :=
  ⟨ofText?⟩

end LogLevel

end ClassWeaver
