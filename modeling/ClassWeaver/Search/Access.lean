import ClassWeaver.Bytes
import ClassWeaver.ClassName
import ClassWeaver.Search.Entry

/-!
Looking for classes in the entries of a search path.

Files and archives are read in whatever way the system does it, and do not change. Class loaders are
asked, which may change the world they live in; whether two of them are the same loader is asked as
well.
-/

set_option autoImplicit false
set_option relaxedAutoImplicit false

namespace ClassWeaver.Search

/-- How files are read. -/
structure Files where
  /-- The content of the file at the end of a path, if there is one. -/
  read? (path : String) : Except Unreadable (Option Bytes)
  /-- The content of an entry of the archive at the end of a path, if there are both. -/
  readEntry? (path entry : String) : Except Unreadable (Option Bytes)

/-- There are no files at all. -/
def Files.none : Files where
  read? _ := .ok .none
  readEntry? _ _ := .ok .none

/-- How entries are reached in a world whose states are `World`. -/
structure Access (World Loader : Type) extends Files where
  findResource : Loader → String → StateM World (Except Unreadable (Option Bytes))
  sameLoader : Loader → Loader → StateM World Bool

namespace Entry

variable {World Loader : Type}

/-- The class file of `name`, if the entry has it. -/
def findClass (access : Access World Loader) (entry : Entry Loader) (name : String) :
    StateM World (Except Unreadable (Option Bytes)) :=
  match entry with
  | directory path => return access.read? (FilePath.join path (ClassName.resource name))
  | archive path => return access.readEntry? path (ClassName.resource name)
  | loader handle => access.findResource handle (ClassName.resource name)

/-- Whether two entries stand for the same thing. -/
def same (access : Access World Loader) : Entry Loader → Entry Loader → StateM World Bool
  | loader handle, loader other => access.sameLoader handle other
  | entry, other => return entry.sameFile other

end Entry

end ClassWeaver.Search
