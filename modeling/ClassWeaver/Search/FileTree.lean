import ClassWeaver.Bytes
import ClassWeaver.Search.FilePath

/-!
Files and directories, and how a path is followed through them.

A path is followed piece by piece, from the top if it is absolute and from the current directory
otherwise. A piece that is missing means that there is nothing there; a piece behind something that
is no directory, or one that is too long, means that the path cannot be read at all.
-/

set_option autoImplicit false
set_option relaxedAutoImplicit false

namespace ClassWeaver.Search

inductive FileTree where
  | file (content : Bytes)
  | directory (children : List (String × FileTree))

namespace FileTree

def empty : FileTree :=
  directory []

/-- The largest number of bytes in the name of a file. -/
def maxNameLength : Nat :=
  255

/-- The largest number of bytes in a path. -/
def maxPathLength : Nat :=
  4095

def child? (tree : FileTree) (name : String) : Option FileTree :=
  match tree with
  | directory children => children.lookup name
  | _ => none

/-- Puts `node` at the end of a path, with the directories that lead there. A directory that is
there already keeps what it holds. -/
def insert (node : FileTree) : List String → FileTree → FileTree
  | [], tree =>
    match node, tree with
    | directory _, directory children => directory children
    | _, _ => node
  | name :: rest, tree =>
    let children :=
      match tree with
      | directory children => children
      | _ => []
    let child := insert node rest ((children.lookup name).getD empty)
    directory ((name, child) :: children.filter (·.1 ≠ name))

/-- Follows the pieces of a path. `parents` are the directories that lead to `tree`, the closest
one first. -/
def follow (parents : List FileTree) (tree : FileTree) :
    List (List Char) → Except Unreadable (Option FileTree)
  | [] => .ok (some tree)
  | piece :: rest =>
    match tree with
    | directory _ =>
      let name := String.ofList piece
      if piece = [] ∨ piece = ['.'] then follow parents tree rest
      else if piece = ['.', '.'] then
        match parents with
        | [] => follow [] tree rest
        | parent :: others => follow others parent rest
      else if maxNameLength < name.utf8ByteSize then .error ⟨⟩
      else
        match tree.child? name with
        | some child => follow (tree :: parents) child rest
        | none => .ok none
    | _ => .error ⟨⟩

end FileTree

structure FileSystem where
  tree : FileTree
  /-- The pieces of the path from the top to the current directory. -/
  current : List (List Char)

namespace FileSystem

/-- The pieces of a path from the top. -/
def pieces (system : FileSystem) (path : String) : List (List Char) :=
  (if FilePath.isAbsolute path then [] else system.current) ++ Text.fields '/' path.toList

/-- What a path leads to, if anything. -/
def find? (system : FileSystem) (path : String) : Except Unreadable (Option FileTree) :=
  if path.toList.contains (Char.ofNat 0) || FileTree.maxPathLength < path.utf8ByteSize then
    .error ⟨⟩
  else system.tree.follow [] (system.pieces path)

/-- The content of the file at the end of a path. -/
def read? (system : FileSystem) (path : String) : Except Unreadable (Option Bytes) := do
  match ← system.find? path with
  | none => return none
  | some (.file content) => return some content
  | some (.directory _) => throw ⟨⟩

end FileSystem

end ClassWeaver.Search
