import ClassWeaver.Text.Utf8
import ClassWeaver.Vm.Capabilities
import ClassWeaver.Vm.ErrorCode

/-!
Calls that an agent makes into a running machine.

There are native calls, by which objects are reached, and tool calls, by which the machine itself
is inspected and changed. `Call.text` is the line that stands for a call in a record of them.
-/

set_option autoImplicit false
set_option relaxedAutoImplicit false

namespace ClassWeaver.Vm

/-- What a reference can lead to. -/
inductive Object where
  | loader (name : String)
  | loadedClass (name : String)
  /-- The class of some object, as far as methods are looked up in it. -/
  | classOfObject
  | text (content : Bytes)
  | stream (content : Bytes)
  | array (content : Bytes)
  deriving DecidableEq, Repr

def Object.name : Object → String
  | loader name | loadedClass name => name
  | classOfObject => "Class"
  | text _ => "String"
  | stream _ => "Stream"
  | array _ => "Array"

/-- The methods that an agent calls. -/
inductive Method where
  | getSystemClassLoader
  | getResourceAsStream
  | readAllBytes
  | close
  deriving DecidableEq, Repr

namespace Method

def name : Method → String
  | getSystemClassLoader => "getSystemClassLoader"
  | getResourceAsStream => "getResourceAsStream"
  | readAllBytes => "readAllBytes"
  | close => "close"

def signature : Method → String
  | getSystemClassLoader => "()Ljava/lang/ClassLoader;"
  | getResourceAsStream => "(Ljava/lang/String;)Ljava/io/InputStream;"
  | readAllBytes => "()[B"
  | close => "()V"

end Method

/-- The functions of the tool interface. A machine may lack any of them. -/
inductive ToolFunction where
  | setEventNotificationMode
  | isModifiableClass
  | allocate
  | deallocate
  | getClassSignature
  | getClassLoader
  | redefineClasses
  | getCapabilities
  | setEventCallbacks
  | disposeEnvironment
  | getErrorName
  | getPotentialCapabilities
  | addCapabilities
  deriving DecidableEq, Repr

namespace ToolFunction

def all : List ToolFunction :=
  [setEventNotificationMode, isModifiableClass, allocate, deallocate, getClassSignature,
    getClassLoader, redefineClasses, getCapabilities, setEventCallbacks, disposeEnvironment,
    getErrorName, getPotentialCapabilities, addCapabilities]

def name : ToolFunction → String
  | setEventNotificationMode => "SetEventNotificationMode"
  | isModifiableClass => "IsModifiableClass"
  | allocate => "Allocate"
  | deallocate => "Deallocate"
  | getClassSignature => "GetClassSignature"
  | getClassLoader => "GetClassLoader"
  | redefineClasses => "RedefineClasses"
  | getCapabilities => "GetCapabilities"
  | setEventCallbacks => "SetEventCallbacks"
  | disposeEnvironment => "DisposeEnvironment"
  | getErrorName => "GetErrorName"
  | getPotentialCapabilities => "GetPotentialCapabilities"
  | addCapabilities => "AddCapabilities"

end ToolFunction

/-- The events that an agent handles, by their numbers. -/
abbrev EventNumber := Nat

namespace EventNumber

def machineInit : EventNumber := 50

def machineDeath : EventNumber := 51

def classFileLoadHook : EventNumber := 54

end EventNumber

/-- The calls of the tool interface, with what they are given. -/
inductive ToolCall where
  | setEventNotificationMode (on : Bool) (event : EventNumber)
  | isModifiableClass (cls : Object)
  | allocate (size : Nat)
  | deallocate
  | getClassSignature (cls : Object)
  | getClassLoader (cls : Object)
  | redefineClasses (definitions : List (Object × Bytes))
  | getCapabilities
  | setEventCallbacks
  | disposeEnvironment
  | getErrorName (code : ErrorCode)
  | getPotentialCapabilities
  | addCapabilities (capabilities : Capabilities)
  deriving DecidableEq, Repr

namespace ToolCall

def function : ToolCall → ToolFunction
  | setEventNotificationMode _ _ => .setEventNotificationMode
  | isModifiableClass _ => .isModifiableClass
  | allocate _ => .allocate
  | deallocate => .deallocate
  | getClassSignature _ => .getClassSignature
  | getClassLoader _ => .getClassLoader
  | redefineClasses _ => .redefineClasses
  | getCapabilities => .getCapabilities
  | setEventCallbacks => .setEventCallbacks
  | disposeEnvironment => .disposeEnvironment
  | getErrorName _ => .getErrorName
  | getPotentialCapabilities => .getPotentialCapabilities
  | addCapabilities _ => .addCapabilities

/-- What the call is given, in words. -/
def arguments : ToolCall → List String
  | setEventNotificationMode on event => [if on then "1" else "0", toString event, "all"]
  | isModifiableClass cls | getClassSignature cls | getClassLoader cls => [cls.name]
  | allocate size => [toString size]
  | getErrorName code => [toString code.value.toNat]
  | addCapabilities capabilities =>
    ["[" ++ ", ".intercalate (capabilities.toList.map toString) ++ "]"]
  | _ => []

end ToolCall

/-- The native calls. An absent object is a reference whose object was collected. -/
inductive NativeCall where
  | findClass (name : Bytes)
  | getObjectClass (object : Option Object)
  | getMethod (method : Method)
  | getStaticMethod (method : Method)
  | callStaticMethod (method : Method)
  | callMethod (receiver : Object) (method : Method) (arguments : List Object)
  | callVoidMethod (receiver : Object) (method : Method)
  | isSameObject (object other : Option Object)
  | newString (content : Bytes)
  | getArrayLength
  | getArrayRegion (start count : Nat)
  | newGlobalRef (object : Option Object)
  | newWeakGlobalRef (object : Option Object)
  | newLocalRef (object : Option Object)
  deriving DecidableEq, Repr

namespace NativeCall

/-- Whether the call can leave an exception pending. -/
def mayRaise : NativeCall → Bool
  | findClass _ | getMethod _ | getStaticMethod _ | callStaticMethod _ | callMethod _ _ _
  | callVoidMethod _ _ | newString _ | newWeakGlobalRef _ => true
  | _ => false

def function : NativeCall → String
  | findClass _ => "FindClass"
  | getObjectClass _ => "GetObjectClass"
  | getMethod _ => "GetMethodID"
  | getStaticMethod _ => "GetStaticMethodID"
  | callStaticMethod _ => "CallStaticObjectMethodA"
  | callMethod _ _ _ => "CallObjectMethodA"
  | callVoidMethod _ _ => "CallVoidMethodA"
  | isSameObject _ _ => "IsSameObject"
  | newString _ => "NewStringUTF"
  | getArrayLength => "GetArrayLength"
  | getArrayRegion _ _ => "GetByteArrayRegion"
  | newGlobalRef _ => "NewGlobalRef"
  | newWeakGlobalRef _ => "NewWeakGlobalRef"
  | newLocalRef _ => "NewLocalRef"

/-- An object as the argument of a call. -/
def objectText : Option Object → String
  | none => "null"
  | some (.text content) => Text.Utf8.decodeLossy content
  | some object => object.name

/-- What the call is given, in words. The object whose method is called is left out. -/
def arguments : NativeCall → List String
  | findClass name => [Text.Utf8.decodeLossy name]
  | newString content => [Text.Utf8.decodeLossy content]
  | getObjectClass object | newGlobalRef object | newWeakGlobalRef object
  | newLocalRef object => [objectText object]
  | getMethod method | getStaticMethod method => [method.name, method.signature]
  | callStaticMethod method | callVoidMethod _ method => [method.name]
  | callMethod _ method objects => method.name :: objects.map fun object ↦ objectText (some object)
  | isSameObject object other => [objectText object, objectText other]
  | getArrayLength => []
  | getArrayRegion start count => [toString start, toString count]

end NativeCall

inductive Call where
  /-- Asks for the environment of the tool interface; the machine answers with a status. -/
  | getToolEnvironment (status : Int)
  | tool (call : ToolCall)
  | native (call : NativeCall)
  deriving DecidableEq, Repr

/-- The name of the function and what it is given. -/
def Call.text : Call → String
  | getToolEnvironment status => "GetEnv JVMTI " ++ toString status
  | tool call => " ".intercalate (call.function.name :: call.arguments)
  | native call => " ".intercalate (call.function :: call.arguments)

end ClassWeaver.Vm
