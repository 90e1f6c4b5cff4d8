import ClassWeaver.Workspace

/-!
Redefining classes that a running machine has loaded.

Retransforming gives the machine the bytes that its classes are read from, so that its load hook
changes them again. The pool is renewed first, under the exclusive lock, and every class is read
afresh; so no earlier change is left in the bytes. Either all classes are submitted or none.
-/

set_option autoImplicit false
set_option relaxedAutoImplicit false

namespace ClassWeaver

open Search

/-- What a running machine tells about its classes, and what it can do to them. -/
structure Instrumentation (World Loader Class : Type) where
  /-- The name of a class, in either spelling. -/
  className : Class → StateM World (Except Failure String)
  /-- The loader that defined a class; none is the one built into the machine. -/
  classLoader : Class → StateM World (Except Failure (Option Loader))
  canRedefine : StateM World Bool
  /-- Gives classes new definitions, all of them or none. -/
  redefine : List (Class × Bytes) → StateM World (Except Failure Unit)

namespace Redefinition

variable {World Loader Class α : Type}

/-- Names the class that a failure is about. -/
def about (name : String) (work : FailingWork World Loader α) : FailingWork World Loader α :=
  tryCatch work fun cause ↦ throw (.retransform name cause)

/-- Something that the machine is asked. -/
def ask (query : StateM World (Except Failure α)) : FailingWork World Loader α := do
  match ← (query : StateM World _) with
  | .ok answer => return answer
  | .error failure => throw failure

/-- The bytes that a class is read from. -/
def sourceBytes (access : Access World Loader)
    (instrumentation : Instrumentation World Loader Class) (cls : Class) (name : String) :
    FailingWork World Loader Bytes := do
  let loader ← ask (instrumentation.classLoader cls)
  let id ← Workspace.getClassFor access loader name
  Workspace.edit id do
    let bytes ← ClassEdit.serialize
    ClassEdit.defrost
    return bytes

/-- A class with the bytes it is read from. The class has the number `index`. -/
def definition (access : Access World Loader)
    (instrumentation : Instrumentation World Loader Class) (index : Nat) (cls : Class) :
    FailingWork World Loader (Class × Bytes) := do
  let name ← about ("#" ++ toString index) (ask (instrumentation.className cls))
  let bytes ← about name (sourceBytes access instrumentation cls name)
  return (cls, bytes)

/-- The classes with the bytes they are read from; the first of them has the number `index`. -/
def definitions (access : Access World Loader)
    (instrumentation : Instrumentation World Loader Class) :
    (index : Nat) → List Class → FailingWork World Loader (List (Class × Bytes))
  | _, [] => return []
  | index, cls :: rest => do
    let first ← definition access instrumentation index cls
    return first :: (← definitions access instrumentation (index + 1) rest)

/-- The classes with the bytes they are read from, through a new pool. -/
def gather (access : Access World Loader)
    (instrumentation : Instrumentation World Loader Class) (classes : List Class) :
    Work World Loader (Except Failure (List (Class × Bytes))) := do
  Workspace.renew true
  (definitions access instrumentation 0 classes).run

/-- Gathers definitions while the calling thread holds the lock exclusively. -/
def freshDefinitions (access : Access World Loader)
    (instrumentation : Instrumentation World Loader Class) (classes : List Class) :
    FailingWork World Loader (List (Class × Bytes)) := do
  let outcome ← Workspace.exclusively (gather access instrumentation classes)
  match outcome with
  | .ok definitions => return definitions
  | .error failure => throw failure

/-- Installs a machine; only the first one is taken. -/
def install {Machine : Type} (installed : Option Machine) (machine : Machine) :
    Except Failure Machine :=
  match installed with
  | none => .ok machine
  | some _ => .error (.illegalState .alreadyInstrumented)

/-- The machine that is installed. -/
def required {Machine : Type} (installed : Option Machine) : Except Failure Machine :=
  match installed with
  | some machine => .ok machine
  | none => .error (.illegalState .notInstrumented)

/-- Redefines `classes` with the bytes they are read from, if there is a machine that can do it. -/
def retransform (access : Access World Loader)
    (installed : Option (Instrumentation World Loader Class)) (classes : List Class) :
    FailingWork World Loader Unit := do
  match required installed with
  | .error failure => throw failure
  | .ok instrumentation =>
    if ← (instrumentation.canRedefine : StateM World _) then
      if classes.isEmpty then return
      let definitions ← freshDefinitions access instrumentation classes
      ask (instrumentation.redefine definitions)
    else throw (.illegalState .redefinitionUnsupported)

end Redefinition

end ClassWeaver
