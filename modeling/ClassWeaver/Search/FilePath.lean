import ClassWeaver.Text.Fields

/-!
Paths of files, as texts.

Two texts are the same path if they have the same components. Repeated slashes, slashes at the
end and dots that are not in front do not count. An absolute path starts with a slash.
-/

set_option autoImplicit false
set_option relaxedAutoImplicit false

namespace ClassWeaver.Search

inductive Component where
  | root
  | here
  | up
  | named (name : String)
  deriving DecidableEq, Repr

namespace FilePath

/-- The component between two slashes. -/
def component? (piece : List Char) : Option Component :=
  if piece = [] ∨ piece = ['.'] then none
  else if piece = ['.', '.'] then some .up
  else some (.named (String.ofList piece))

/-- The components that the text in front of the first slash stands for. -/
def leading (piece : List Char) : List Component :=
  if piece = ['.'] then [.here] else (component? piece).toList

def components (path : String) : List Component :=
  match path.toList with
  | '/' :: rest => .root :: (Text.fields '/' rest).filterMap component?
  | text =>
    match Text.fields '/' text with
    | [] => []
    | first :: rest => leading first ++ rest.filterMap component?

/-- Whether a path starts at the top of the file system. -/
def isAbsolute (path : String) : Bool :=
  path.toList.head? == some '/'

/-- The path that `path` is when it starts from `base`; an absolute path is the same from
everywhere. -/
def join (base path : String) : String :=
  if isAbsolute path then path
  else if base = "" ∨ base.toList.getLast? = some '/' then base ++ path
  else base ++ "/" ++ path

/-- What follows the last dot of the last component, unless the name starts with that dot. -/
def extension? (path : String) : Option String :=
  match (components path).getLast? with
  | some (.named name) =>
    match Text.cutLast '.' name.toList with
    | some (stem, extension) => if stem = [] then none else some (String.ofList extension)
    | none => none
  | _ => none

/-- Whether the extension is that of an archive, in any case of its letters. -/
def namesArchive (path : String) : Bool :=
  match extension? path with
  | some extension =>
    let lower := extension.toList.map Char.toLower
    lower == "jar".toList || lower == "zip".toList
  | none => false

end FilePath

end ClassWeaver.Search
