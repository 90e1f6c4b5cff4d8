import ClassWeaver.Vm.Machine

/-!
Native calls: how objects of a machine are reached.

A call that gives nothing may leave an exception pending, which `takeException` takes back. Every
object that a call gives is held by a new local reference; `withLocal` lets go of one at the end of
what is done with it.
-/

set_option autoImplicit false
set_option relaxedAutoImplicit false

namespace ClassWeaver.Vm.Native

open Machine

/-- Makes a call, and tells whether it is answered. -/
def call (native : NativeCall) : StateM Machine Bool := do
  match ← take (.native native) with
  | .answer => return true
  | .raise =>
    modify fun machine ↦ { machine with pending := machine.pending || native.mayRaise }
    return false
  | .null | .error _ => return false

/-- Makes a call that gives an object, if it is answered and there is one. -/
def callFor (native : NativeCall) (object : Option Object) : StateM Machine (Option Ref) := do
  if ← call native then
    match object with
    | some object => some <$> newLocal object
    | none => return none
  else return none

/-- Clears a pending exception, and tells whether there was one. -/
def takeException : StateM Machine Bool :=
  modifyGet fun machine ↦ (machine.pending, { machine with pending := false })

/-- Whether the current thread can make native calls at all. -/
def isAttached : StateM Machine Bool :=
  return (← get).script.attached

/-- The bytes of a text, which must not hold a zero: that would end it in memory. -/
def textBytes? (text : String) : Option Bytes :=
  if text.toList.contains (Char.ofNat 0) then none else some (Text.Utf8.encode text)

/-! ### Objects and methods -/

def findClass (name : String) : StateM Machine (Option Ref) :=
  match textBytes? name with
  | none => return none
  | some name => callFor (.findClass name) (some .classOfObject)

def getObjectClass (ref : Ref) : StateM Machine (Option Ref) := do
  callFor (.getObjectClass ((← get).target? ref)) (some .classOfObject)

/-- Whether a class has a method. -/
def hasMethod (method : Method) : StateM Machine Bool :=
  call (.getMethod method)

def hasStaticMethod (method : Method) : StateM Machine Bool :=
  call (.getStaticMethod method)

/-- What a static method gives. -/
def staticResult (script : Script) : Method → Option Object
  | .getSystemClassLoader => script.systemLoader.map .loader
  | _ => none

/-- What a method of an object gives. A loader knows its resources by their encoded names. -/
def result (script : Script) : Object → Method → List Object → Option Object
  | .loader name, .getResourceAsStream, [.text content] => do
    let resources ← script.loaders.lookup name
    let (_, bytes) ← resources.find? fun (resource, _) ↦ Text.Utf8.encode resource == content
    return .stream bytes
  | .stream content, .readAllBytes, [] => some (.array content)
  | _, _, _ => none

def callStaticMethod (method : Method) : StateM Machine (Option Ref) := do
  callFor (.callStaticMethod method) (staticResult (← get).script method)

def callMethod (ref : Ref) (method : Method) (arguments : List Ref) :
    StateM Machine (Option Ref) := do
  let objects := arguments.map (·.object)
  callFor (.callMethod ref.object method objects) (result (← get).script ref.object method objects)

def callVoidMethod (ref : Ref) (method : Method) : StateM Machine Unit := do
  let _ ← call (.callVoidMethod ref.object method)

/-- Whether two references lead to the same object. -/
def isSameObject (ref other : Ref) : StateM Machine Bool := do
  let _ ← call (.isSameObject (some ref.object) (some other.object))
  return ref.object == other.object

/-! ### Texts and arrays -/

def newString (text : String) : StateM Machine (Option Ref) :=
  match textBytes? text with
  | none => return none
  | some content => callFor (.newString content) (some (.text content))

/-- The content of an array of bytes. -/
def arrayContent : Object → Bytes
  | .array content => content
  | _ => []

def getArrayLength (ref : Ref) : StateM Machine Int := do
  let _ ← call .getArrayLength
  return (← get).script.arrayLength.getD (arrayContent ref.object).length

/-- The first `count` bytes of an array; behind its end, there are zeros. -/
def getArrayRegion (ref : Ref) (count : Nat) : StateM Machine Bytes := do
  let _ ← call (.getArrayRegion 0 count)
  let content := (arrayContent ref.object).take count
  return content ++ List.replicate (count - content.length) 0

/-- All of an array, as long as it is said to be. -/
def getByteArray (ref : Ref) : StateM Machine Bytes := do
  let length ← getArrayLength ref
  getArrayRegion ref length.toNat

/-! ### References -/

/-- A local reference to what `ref` leads to, unless that was collected. -/
def newLocalRef (ref : Ref) : StateM Machine (Option Ref) := do
  let object := (← get).target? ref
  callFor (.newLocalRef object) object

/-- A global reference to an object. -/
def newGlobalRef (object : Option Object) : StateM Machine (Option Ref) := do
  if ← call (.newGlobalRef object) then
    match object with
    | some object => some <$> newGlobal object
    | none => return none
  else return none

/-- A weak reference to an object, which it does not keep from being collected. -/
def newWeakGlobalRef (object : Object) : StateM Machine (Option Ref) := do
  if ← call (.newWeakGlobalRef (some object)) then some <$> newWeak object else return none

/-- Lets go of a global reference. A thread that is not attached cannot do so. -/
def releaseGlobal (ref : Ref) : StateM Machine Unit := do
  if ← isAttached then deleteGlobal ref

/-- Does `body`, and lets go of a local reference at its end, whether it failed or not. -/
def withLocal {ε α : Type} (ref : Ref) (body : ExceptT ε (StateM Machine) α) :
    ExceptT ε (StateM Machine) α :=
  ExceptT.mk do
    let outcome ← body.run
    deleteLocal ref
    return outcome

end ClassWeaver.Vm.Native
