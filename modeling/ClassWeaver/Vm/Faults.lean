import ClassWeaver.Vm.Machine

/-!
Scripts that make calls of certain functions fail, whatever was called before.
-/

set_option autoImplicit false
set_option relaxedAutoImplicit false

namespace ClassWeaver.Vm

/-- How a method of an object fails. -/
inductive MethodFault where
  /-- Looking it up raises an exception. -/
  | absent
  /-- Calling it raises an exception. -/
  | throws
  /-- It gives nothing. -/
  | null
  deriving DecidableEq, Repr

/-- What fails, by the names of functions and methods. -/
structure Faults where
  /-- The codes with which tool functions fail. Changing the mode of an event has the number of
  the event behind its name. -/
  errors : List (String × ErrorCode)
  /-- Tool functions that succeed and give nothing. -/
  nullResults : List String
  /-- Native functions that give nothing. -/
  refused : List String
  methods : List (String × MethodFault)

namespace Faults

def none : Faults :=
  ⟨[], [], [], []⟩

/-- The name under which a tool call fails. -/
def toolKey : ToolCall → String
  | .setEventNotificationMode _ event =>
    ToolFunction.setEventNotificationMode.name ++ toString event
  | call => call.function.name

def toolFate (faults : Faults) (call : ToolCall) : Fate :=
  match faults.errors.lookup (toolKey call) with
  | some code => .error code
  | .none => if faults.nullResults.contains call.function.name then .null else .answer

/-- Looking up classes and making texts raise an exception when they fail; making references and
asking for the class of an object do not. -/
def nativeFate (faults : Faults) (call : NativeCall) : Fate :=
  match call with
  | .getMethod method | .getStaticMethod method =>
    if faults.methods.lookup method.name = some .absent then .raise else .answer
  | .callMethod _ method _ | .callStaticMethod method | .callVoidMethod _ method =>
    match faults.methods.lookup method.name with
    | some .throws => .raise
    | some .null => .null
    | _ => .answer
  | .findClass _ | .newString _ =>
    if faults.refused.contains call.function then .raise else .answer
  | _ => if faults.refused.contains call.function then .null else .answer

/-- How every call goes. -/
def fate (faults : Faults) : Call → Fate
  | .getToolEnvironment _ => .answer
  | .tool call => faults.toolFate call
  | .native call => faults.nativeFate call

end Faults

end ClassWeaver.Vm
