import ClassWeaver.Agent.Loader
import ClassWeaver.Redefinition
import ClassWeaver.Vm.Tool

/-!
Loaded classes of a running machine, and their redefinition.

A class is held by a global reference while something is done with it. Its name is read off its
signature. A class that is not modifiable is never submitted, nor is any other class of its batch.
-/

set_option autoImplicit false
set_option relaxedAutoImplicit false

namespace ClassWeaver.Agent

open Vm

/-- A global reference to a loaded class. -/
abbrev LoadedClass := Ref

namespace LoadedClass

variable {α : Type}

/-- Asks the machine something; a code that it answers is told in words. -/
def ask (function : ToolFunction) (query : Tool.Query α) :
    StateM Machine (Except Failure α) := do
  match ← query.run with
  | .ok answer => return .ok answer
  | .error code =>
    return .error (.illegalState (.refused function.name (← Tool.describeError code)))

/-- The name of a class, with slashes. -/
def name (cls : LoadedClass) : StateM Machine (Except Failure String) := do
  let signature ← ask .getClassSignature (Tool.getClassSignature cls.object)
  return signature.map ClassName.ofSignature

/-- A handle for the loader of a class, unless that is built into the machine. -/
def loader (cls : LoadedClass) : StateM Machine (Except Failure (Option LoaderHandle)) := do
  match ← ask .getClassLoader (Tool.getClassLoader cls.object) with
  | .error failure => return .error failure
  | .ok none => return .ok none
  | .ok (some loader) =>
    if ← Native.isAttached then
      let handle ← Native.newWeakGlobalRef loader.object
      Machine.deleteLocal loader
      match handle with
      | some handle => return .ok (some handle)
      | none => return .error (.illegalState (.noReference "NewWeakGlobalRef" "class loader"))
    else return .error (.illegalState .detached)

/-- Why a redefinition did not take place. -/
def refusal (code : ErrorCode) : StateM Machine Failure := do
  let reason ← Tool.describeError code
  if code.refusesRedefinition then return .redefinitionRejected reason
  else return .illegalState (.refused ToolFunction.redefineClasses.name reason)

/-- Fails at the first class that is not modifiable. -/
def requireModifiable : List LoadedClass → StateM Machine (Except Failure Unit)
  | [] => return .ok ()
  | cls :: rest => do
    match ← (Tool.isModifiableClass cls.object).run with
    | .ok true => requireModifiable rest
    | .ok false =>
      match ← name cls with
      | .ok name =>
        return .error (.redefinitionRejected ("class '" ++ name ++ "' isn't modifiable"))
      | .error failure => return .error failure
    | .error code => return .error (← refusal code)

/-- Gives classes new definitions, all of them or none. -/
def redefine (definitions : List (LoadedClass × Bytes)) :
    StateM Machine (Except Failure Unit) := do
  match ← requireModifiable (definitions.map Prod.fst) with
  | .error failure => return .error failure
  | .ok _ =>
    let batch := definitions.map fun (cls, bytes) ↦ (cls.object, bytes)
    match ← (Tool.redefineClasses batch).run with
    | .ok _ => return .ok ()
    | .error code => return .error (← refusal code)

/-- Whether the machine lets the agent redefine classes. -/
def canRedefine : StateM Machine Bool := do
  match ← Tool.getCapabilities.run with
  | .ok capabilities => return capabilities.has .redefineClasses
  | .error _ => return false

/-- Redefinition of classes of the machine. -/
def instrumentation : Instrumentation Machine LoaderHandle LoadedClass where
  className := name
  classLoader := loader
  canRedefine
  redefine

/-- Lets go of classes. -/
def release (classes : List LoadedClass) : StateM Machine Unit :=
  classes.forM Native.releaseGlobal

/-- Gets hold of classes, of all of them or none. -/
def hold : List (Option Object) → StateM Machine (Except Failure (List LoadedClass))
  | [] => return .ok []
  | object :: rest => do
    match ← Native.newGlobalRef object with
    | none => return .error (.illegalState (.noReference "NewGlobalRef" "class"))
    | some cls =>
      match ← hold rest with
      | .ok classes => return .ok (cls :: classes)
      | .error failure => do
        release [cls]
        return .error failure

end LoadedClass

end ClassWeaver.Agent
