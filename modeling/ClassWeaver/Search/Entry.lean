import ClassWeaver.Search.FilePath

/-!
Entries of a search path: directories, archives and class loaders.
-/

set_option autoImplicit false
set_option relaxedAutoImplicit false

namespace ClassWeaver.Search

inductive Entry (Loader : Type) where
  /-- A directory laid out by package. -/
  | directory (path : String)
  /-- A jar or zip file. -/
  | archive (path : String)
  | loader (handle : Loader)
  deriving DecidableEq, Repr

/-- An archive if the path has the extension of one, and a directory otherwise. -/
def Entry.ofPath {Loader : Type} (path : String) : Entry Loader :=
  if FilePath.namesArchive path then .archive path else .directory path

/-- Whether two entries are the same directory or the same archive. -/
def Entry.sameFile {Loader : Type} : Entry Loader → Entry Loader → Bool
  | .directory path, .directory other | .archive path, .archive other =>
    FilePath.components path == FilePath.components other
  | _, _ => false

end ClassWeaver.Search
