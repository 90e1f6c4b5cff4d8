import ClassWeaver.Redefinition
import ClassWeaver.Surroundings

/-!
A world to try things out in: class loaders that hold their resources in memory, and a machine
that only records what it is given to redefine.

The loaders count how often they are asked. Two of them are the same if they have the same
identity; one without an identity is the same as itself only.
-/

set_option autoImplicit false
set_option relaxedAutoImplicit false

namespace ClassWeaver

open Search

structure MemoryLoader where
  name : String
  identity : Option Int
  resources : List (String × Bytes)
  /-- Whether every look-up fails. -/
  fails : Bool

/-- What happened so far: which loaders were asked, and what was submitted for redefinition. -/
structure Rehearsal where
  asked : List String
  submitted : List (String × Bytes)

/-- A loaded class, as far as the machine can tell its name and loader. -/
structure RehearsedClass where
  name : Except Failure String
  loader : Except Failure (Option MemoryLoader)

namespace MemoryLoader

def same (loader other : MemoryLoader) : Bool :=
  loader.name == other.name || (loader.identity.isSome && loader.identity == other.identity)

/-- What a loader is called in a search path. -/
def description (loader : MemoryLoader) : String :=
  if loader.identity.isSome then loader.name else "class loader"

def findResource (loader : MemoryLoader) (resource : String) :
    StateM Rehearsal (Except Unreadable (Option Bytes)) := do
  modify fun rehearsal ↦ { rehearsal with asked := loader.name :: rehearsal.asked }
  if loader.fails then return .error ⟨⟩
  else return .ok (loader.resources.lookup resource)

end MemoryLoader

namespace Rehearsal

def start : Rehearsal :=
  ⟨[], []⟩

def lookups (rehearsal : Rehearsal) (loader : MemoryLoader) : Nat :=
  rehearsal.asked.count loader.name

def access (files : Files) : Access Rehearsal MemoryLoader where
  toFiles := files
  findResource := MemoryLoader.findResource
  sameLoader loader other := return loader.same other

/-- A machine that refuses every batch, if it has a reason to, and records it otherwise. -/
def instrumentation (supported : Bool) (refusal : Option String) :
    Instrumentation Rehearsal MemoryLoader RehearsedClass where
  className cls := return cls.name
  classLoader cls := return cls.loader
  canRedefine := return supported
  redefine batch := do
    match refusal with
    | some reason => return .error (.redefinitionRejected reason)
    | none =>
      let named := batch.map fun (cls, bytes) ↦ (cls.name.toOption.getD "", bytes)
      modify fun rehearsal ↦ { rehearsal with submitted := rehearsal.submitted ++ named }
      return .ok ()

end Rehearsal

end ClassWeaver
