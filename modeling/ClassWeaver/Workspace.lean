import ClassWeaver.EditableClass
import ClassWeaver.Lock.Holds
import ClassWeaver.Search.Registry

/-!
The workspace: the pool of classes in use, and the search path that they come from.

A pool keeps every class that was read through it, so that all who ask for a name get the same
class. Renewing drops the pool; the next use builds another one, with or without the entries that
were added to the search path. Classes that were handed out stay where they are. The workspace
also knows how often the calling thread holds its lock.
-/

set_option autoImplicit false
set_option relaxedAutoImplicit false

namespace ClassWeaver

open Search

/-- A class that was read, by its number. -/
abbrev ClassId := Nat

structure ClassPool (Loader : Type) where
  /-- Pools are numbered as they are built. -/
  number : Nat
  path : List (Entry Loader)
  classes : List (String × ClassId)

/-- The class that the pool has for `name`, which is `id` unless it has one already. -/
def ClassPool.keep {Loader : Type} (pool : ClassPool Loader) (name : String) (id : ClassId) :
    ClassPool Loader × ClassId :=
  match pool.classes.lookup name with
  | some known => (pool, known)
  | none => ({ pool with classes := (name, id) :: pool.classes }, id)

structure Workspace (Loader : Type) where
  registry : Registry Loader
  pool : Option (ClassPool Loader)
  poolCount : Nat
  /-- All classes that were ever read. -/
  classes : Array EditableClass
  holds : Lock.Holds

/-- What is done in a workspace, within a world that loaders may change. -/
abbrev Work (World Loader α : Type) := StateT (Workspace Loader) (StateM World) α

/-- Work that may fail; what was done before the failure stays done. -/
abbrev FailingWork (World Loader α : Type) :=
  ExceptT Failure (StateT (Workspace Loader) (StateM World)) α

namespace Workspace

variable {World Loader α : Type}

def ofSystem (system : List (Entry Loader)) : Workspace Loader where
  registry := .ofSystem system
  pool := none
  poolCount := 0
  classes := #[]
  holds := .none

/-! ### The pool and its search path -/

/-- The pool, which is built if there is none. -/
def currentPool (access : Access World Loader) : Work World Loader (ClassPool Loader) := do
  let workspace ← get
  match workspace.pool with
  | some pool => return pool
  | none =>
    let (registry, path) ← (workspace.registry.newPath access : StateM World _)
    let pool := { number := workspace.poolCount, path, classes := [] }
    set { workspace with registry, pool := some pool, poolCount := workspace.poolCount + 1 }
    return pool

/-- The entries in the order in which they are asked. -/
def searchPath (access : Access World Loader) : Work World Loader (List (Entry Loader)) :=
  return (← currentPool access).path

/-- Changes the search path of the pool behind the back of the record. -/
def changePath (access : Access World Loader)
    (change : List (Entry Loader) → List (Entry Loader)) : Work World Loader Unit := do
  let pool ← currentPool access
  modify fun workspace ↦ { workspace with pool := some { pool with path := change pool.path } }

/-- Adds an entry at one end of the search path, unless it was added there before. -/
def addToPath (access : Access World Loader) (side : Side) (entry : Entry Loader) :
    Work World Loader Bool := do
  let pool ← currentPool access
  let workspace ← get
  match ← (workspace.registry.register access side entry pool.path : StateM World _) with
  | none => return false
  | some (registry, path) =>
    set { workspace with registry, pool := some { pool with path } }
    return true

/-- Adds an entry at the end of the system path, unless it is there. A pool that exists gets it
in front of the appended entries. -/
def addToSystem (access : Access World Loader) (entry : Entry Loader) :
    Work World Loader Bool := do
  let workspace ← get
  let registry := workspace.registry
  if ← (Registry.hasSame access entry registry.system : StateM World _) then return false
  let index := registry.prepended.length + registry.system.length
  let pool := workspace.pool.map fun pool ↦
    { pool with path := pool.path.insertIdx (min index pool.path.length) entry }
  set { workspace with registry := { registry with system := registry.system ++ [entry] }, pool }
  return true

/-- Drops the pool. -/
def renew (preserve : Bool) : Work World Loader Unit :=
  modify fun workspace ↦
    { workspace with pool := none, registry := workspace.registry.renew preserve }

/-! ### Classes -/

/-- The class file that the first entry to have one gives. -/
def readFirst (access : Access World Loader) (name : String) :
    List (Entry Loader) → FailingWork World Loader (Option Bytes)
  | [] => return none
  | entry :: rest => do
    match ← (entry.findClass access name : StateM World _) with
    | .error _ => throw (.unreadable name)
    | .ok (some bytes) => return some bytes
    | .ok none => readFirst access name rest

/-- The class called `name`, which is read if the pool does not have it. -/
def findInPool (access : Access World Loader) (name : String) :
    FailingWork World Loader (Option ClassId) := do
  let pool ← currentPool access
  match pool.classes.lookup name with
  | some id => return some id
  | none =>
    match ← readFirst access name pool.path with
    | none => return none
    | some bytes =>
      match EditableClass.parse name bytes with
      | .error failure => throw failure
      | .ok cls =>
        let workspace ← get
        let (pool, id) := pool.keep name workspace.classes.size
        set { workspace with classes := workspace.classes.push cls, pool := some pool }
        return some id

def getInPool (access : Access World Loader) (name : String) :
    FailingWork World Loader ClassId := do
  match ← findInPool access name with
  | some id => return id
  | none => throw (.classNotFound name)

/-- The class called `name`, in either spelling. -/
def getClass (access : Access World Loader) (name : String) : FailingWork World Loader ClassId :=
  getInPool access (ClassName.dotted name)

/-- The class called `name`, if it can be read. -/
def getClass? (access : Access World Loader) (name : String) :
    Work World Loader (Option ClassId) := do
  match ← (getClass access name).run with
  | .ok id => return some id
  | .error _ => return none

/-- The class called `name` for a class that `loader` defines. A loader that is asked for a class
not found so far joins the search path. -/
def getClassFor (access : Access World Loader) (loader : Option Loader) (name : String) :
    FailingWork World Loader ClassId := do
  match loader with
  | none => getClass access name
  | some loader =>
    match ← getClass? access name with
    | some id => return id
    | none =>
      let _ ← addToPath access .back (.loader loader)
      getClass access name

/-- Edits a class that was read. -/
def edit (id : ClassId) (change : ClassEdit Id α) : FailingWork World Loader α := do
  let workspace ← get
  match workspace.classes[id]? with
  | none => throw (.classNotFound ("#" ++ toString id))
  | some cls =>
    let (answer, cls) := (change.run.run cls).run
    set { workspace with classes := workspace.classes.setIfInBounds id cls }
    match answer with
    | .ok answer => return answer
    | .error failure => throw failure

/-! ### The lock -/

/-- Changes the holds of the calling thread, or says why not. -/
def changeHolds (change : Lock.Holds → Except StateError Lock.Holds) :
    FailingWork World Loader Unit := do
  let workspace ← get
  match change workspace.holds with
  | .ok holds => set { workspace with holds }
  | .error error => throw (.illegalState error)

def lock : FailingWork World Loader Unit := changeHolds Lock.Holds.lockExclusive

def unlock : FailingWork World Loader Unit := changeHolds Lock.Holds.unlockExclusive

/-- Releases a hold, if there is one. -/
def release (change : Lock.Holds → Except StateError Lock.Holds) : Work World Loader Unit :=
  modify fun workspace ↦
    match change workspace.holds with
    | .ok holds => { workspace with holds }
    | .error _ => workspace

def lockShared : Work World Loader Unit :=
  modify fun workspace ↦ { workspace with holds := workspace.holds.lockShared }

/-- Does `work` while the calling thread holds the lock in shared mode. -/
def shared (work : Work World Loader α) : Work World Loader α := do
  lockShared
  let answer ← work
  release Lock.Holds.unlockShared
  return answer

/-- Does `work` while the calling thread holds the lock exclusively. -/
def exclusively (work : Work World Loader α) : FailingWork World Loader α := do
  lock
  let answer ← work
  (release Lock.Holds.unlockExclusive : Work World Loader Unit)
  return answer

end Workspace

end ClassWeaver
