import ClassWeaver.Search.Access
import ClassWeaver.Vm.Native

/-!
Class loaders of a running machine.

A loader is held by a weak reference, so that reading classes from it does not keep it in use; a
loader that was collected finds nothing and is the same as no other. On every path, whatever is
asked of a loader clears the exceptions that it met and lets go of its local references.
-/

set_option autoImplicit false
set_option relaxedAutoImplicit false

namespace ClassWeaver.Agent

open Search Vm

/-- A weak reference to a class loader. -/
abbrev LoaderHandle := Ref

/-- Native calls that are made to read something. -/
abbrev Reading (α : Type) := ExceptT Unreadable (StateM Machine) α

namespace Reading

variable {α : Type}

/-- Gives up, after clearing the exception that a call may have left. -/
def abandon : Reading α := do
  let _ ← (Native.takeException : StateM Machine Bool)
  throw ⟨⟩

/-- What a call gave; it gives up if that is nothing. -/
def orAbandon (call : StateM Machine (Option α)) : Reading α := do
  match ← (call : StateM Machine _) with
  | some answer => return answer
  | none => abandon

/-- What a method gave, which may be nothing; it gives up if there is an exception. -/
def unlessRaised (call : StateM Machine (Option Ref)) : Reading (Option Ref) := do
  let answer ← (call : StateM Machine _)
  if ← (Native.takeException : StateM Machine Bool) then throw ⟨⟩
  return answer

/-- What a method gave, which must be something. -/
def orFail (call : StateM Machine (Option Ref)) : Reading Ref := do
  match ← unlessRaised call with
  | some answer => return answer
  | none => throw ⟨⟩

end Reading

namespace LoaderHandle

open Reading

/-- Looks up a method of an object. -/
def resolve (object : Ref) (method : Method) : Reading Unit := do
  match ← (Native.getObjectClass object : StateM Machine _) with
  | none => throw ⟨⟩
  | some cls =>
    Native.withLocal cls do
      if ← (Native.hasMethod method : StateM Machine Bool) then return
      abandon

/-- All bytes of a stream. -/
def readStream (stream : Ref) : Reading Bytes := do
  resolve stream .readAllBytes
  let array ← orFail (Native.callMethod stream .readAllBytes [])
  Native.withLocal array (Native.getByteArray array)

/-- Closes a stream, if it can be closed. -/
def closeStream (stream : Ref) : StateM Machine Unit := do
  match ← (resolve stream .close).run with
  | .error _ => return
  | .ok _ =>
    Native.callVoidMethod stream .close
    let _ ← Native.takeException

/-- All bytes of a stream, which is closed whether it can be read or not. -/
def drainStream (stream : Ref) : Reading Bytes :=
  ExceptT.mk do
    let bytes ← (readStream stream).run
    closeStream stream
    return bytes

/-- Asks a loader that is in use for a resource. -/
def askLoader (loader : Ref) (resource : String) : Reading (Option Bytes) := do
  resolve loader .getResourceAsStream
  let name ← orAbandon (Native.newString resource)
  Native.withLocal name do
    match ← unlessRaised (Native.callMethod loader .getResourceAsStream [name]) with
    | none => return none
    | some stream => Native.withLocal stream (some <$> drainStream stream)

/-- The resource that a loader finds, if it is still in use. -/
def findResource (handle : LoaderHandle) (resource : String) : Reading (Option Bytes) := do
  if !(← (Native.isAttached : StateM Machine Bool)) then throw ⟨⟩
  match ← (Native.newLocalRef handle : StateM Machine _) with
  | none => return none
  | some loader => Native.withLocal loader (askLoader loader resource)

/-- Lets go of a local reference, if there is one. -/
def releaseLocal (ref : Option Ref) : StateM Machine Unit :=
  match ref with
  | some ref => Machine.deleteLocal ref
  | none => return

/-- Whether two handles lead to one loader that is still in use. -/
def sameLoader (handle other : LoaderHandle) : StateM Machine Bool := do
  if handle.id = other.id then return true
  if !(← Native.isAttached) then return false
  let first ← Native.newLocalRef handle
  let second ← Native.newLocalRef other
  let same ←
    match first, second with
    | some first, some second => Native.isSameObject first second
    | _, _ => pure false
  releaseLocal second
  releaseLocal first
  return same

/-- The loader that the machine starts programs with. -/
def system : Reading LoaderHandle := do
  let cls ← orAbandon (Native.findClass "java/lang/ClassLoader")
  Native.withLocal cls do
    if !(← (Native.hasStaticMethod .getSystemClassLoader : StateM Machine Bool)) then abandon
    let loader ← orFail (Native.callStaticMethod .getSystemClassLoader)
    Native.withLocal loader do
      match ← (Native.newWeakGlobalRef loader.object : StateM Machine _) with
      | some handle => return handle
      | none => throw ⟨⟩

/-- Files and loaders of a machine. -/
def access (files : Files) : Access Machine LoaderHandle where
  toFiles := files
  findResource handle resource := (findResource handle resource).run
  sameLoader

end LoaderHandle

end ClassWeaver.Agent
