import ClassWeaver.Vm.Machine

/-!
Tool calls: how an agent inspects and changes a machine.

A function that the machine lacks is not available. All others are called, and may fail with the
code that the script has for the call. Memory that the machine hands out is given back.
-/

set_option autoImplicit false
set_option relaxedAutoImplicit false

namespace ClassWeaver.Vm.Tool

open Machine

/-- A tool call that may fail with a code. -/
abbrev Query (α : Type) := ExceptT ErrorCode (StateM Machine) α

/-- Fails with a code, if it says that something went wrong. -/
def check (code : ErrorCode) : Query Unit :=
  if code = .success then pure () else throw code

/-- Fails if the machine lacks the function of a call. -/
def resolve (call : ToolCall) : Query Unit := do
  if (← get).script.missing.contains call.function then throw .notAvailable

/-- Makes a call that succeeds or fails. The answer is whether it gives anything. -/
def invoke (call : ToolCall) : Query Bool := do
  resolve call
  match ← (take (.tool call) : StateM Machine Fate) with
  | .answer | .raise => return true
  | .null => return false
  | .error code => do
    check code
    return true

/-- Makes a call that gives nothing but whether it succeeds. -/
def perform (call : ToolCall) : Query Unit := do
  let _ ← invoke call

/-- Gets hold of the tool interface, or fails with the status that the machine answers. -/
def connect : ExceptT Int (StateM Machine) Unit := do
  let status := (← get).script.toolStatus
  let _ ← (take (.getToolEnvironment status) : StateM Machine Fate)
  if status ≠ 0 then throw status

/-! ### Capabilities and events -/

def getCapabilities : Query Capabilities := do
  perform .getCapabilities
  return (← get).capabilities

def getPotentialCapabilities : Query Capabilities := do
  perform .getPotentialCapabilities
  return (← get).script.potential

def addCapabilities (added : Capabilities) : Query Unit := do
  perform (.addCapabilities added)
  modify fun machine ↦ { machine with capabilities := machine.capabilities.union added }

def setEventCallbacks : Query Unit := do
  perform .setEventCallbacks
  modify fun machine ↦ { machine with callbacks := true }

def setEventNotificationMode (on : Bool) (event : EventNumber) : Query Unit := do
  perform (.setEventNotificationMode on event)
  (enable event on : StateM Machine Unit)

def disposeEnvironment : Query Unit :=
  perform .disposeEnvironment

/-! ### Memory -/

/-- Gives a block of memory back. It is free afterwards even if the call then fails; calls of
this kind are not recorded. -/
def deallocate : Query Unit := do
  resolve .deallocate
  modify fun machine ↦ { machine with memory := machine.memory - 1 }
  let machine ← get
  match machine.script.fate machine.calls (.tool .deallocate) with
  | .error code => check code
  | _ => return

/-- A block of memory that holds `bytes`. -/
def allocateCopy (bytes : Bytes) : Query Unit := do
  if ← invoke (.allocate bytes.length) then
    modify fun machine ↦ { machine with memory := machine.memory + 1 }
  else throw .outOfMemory

/-- Reads a text that the machine made, and gives its memory back. -/
def takeText (content : Bytes) : Query String := do
  modify fun machine ↦ { machine with memory := machine.memory + 1 }
  deallocate
  return Text.Utf8.decodeLossy (Text.Utf8.untilZero content)

/-! ### Errors -/

/-- What the machine calls an error. A code without a name fails even where nothing would be
given. -/
def getErrorName (code : ErrorCode) : Query String := do
  let given ← invoke (.getErrorName code)
  match (← get).script.errorNames.lookup code with
  | none => throw .illegalArgument
  | some name => if given then takeText name else throw .nullPointer

/-- The name of an error with its number, or the number alone if it has no name. -/
def describeError (code : ErrorCode) : StateM Machine String := do
  match ← (getErrorName code).run with
  | .ok name => return name ++ " (" ++ toString code.value.toNat ++ ")"
  | .error _ => return "JVMTI error " ++ toString code.value.toNat

/-! ### Classes -/

def getClassSignature (cls : Object) : Query String := do
  if ← invoke (.getClassSignature cls) then
    takeText (((← get).classInfo? cls).elim [] (·.signature))
  else throw .nullPointer

/-- A local reference to the loader of a class, unless that is built into the machine. -/
def getClassLoader (cls : Object) : Query (Option Ref) := do
  perform (.getClassLoader cls)
  match ((← get).classInfo? cls).bind (·.loader) with
  | some loader => some <$> (newLocal (.loader loader) : StateM Machine Ref)
  | none => return none

def isModifiableClass (cls : Object) : Query Bool := do
  perform (.isModifiableClass cls)
  return ((← get).classInfo? cls).elim true (·.modifiable)

/-- Gives classes new definitions, all of them or none. -/
def redefineClasses (definitions : List (Object × Bytes)) : Query Unit :=
  perform (.redefineClasses definitions)

end ClassWeaver.Vm.Tool
