import ClassWeaver.Vm.Call

/-!
A running machine, as an agent meets it.

A machine follows a script: it says which class loaders and classes there are, and how each call
goes. The script may look at all calls made before. The machine counts what an agent holds:
references to objects, which are local, global or weak, and blocks of memory. It also keeps the
calls that were made, for whoever looks on.
-/

set_option autoImplicit false
set_option relaxedAutoImplicit false

namespace ClassWeaver.Vm

/-- How a call goes. -/
inductive Fate where
  /-- As the objects of the machine have it. -/
  | answer
  /-- It gives nothing. -/
  | null
  /-- It gives nothing and leaves an exception pending, if the call can do so. -/
  | raise
  /-- A tool call fails with a code. -/
  | error (code : ErrorCode)
  deriving DecidableEq, Repr

/-- What a machine knows about a class. -/
structure ClassInfo where
  /-- As `Lcom/example/Counter;`, in the encoding that the machine uses. -/
  signature : Bytes
  /-- The loader that defined the class, unless it is built into the machine. -/
  loader : Option String
  modifiable : Bool
  deriving DecidableEq, Repr

structure Script where
  /-- The loaders by their names, with the resources that they find. -/
  loaders : List (String × List (String × Bytes))
  systemLoader : Option String
  classes : List (String × ClassInfo)
  /-- The status with which the environment of the tool interface is handed out; zero is success. -/
  toolStatus : Int
  /-- Whether the current thread can make native calls. -/
  attached : Bool
  /-- The capabilities that the machine offers. -/
  potential : Capabilities
  /-- The tool functions that the machine lacks. -/
  missing : List ToolFunction
  errorNames : List (ErrorCode × Bytes)
  /-- What is told as the length of every array, if it is not the true one. -/
  arrayLength : Option Int
  /-- How a call goes after others, of which the latest one comes first. -/
  fate : List Call → Call → Fate

/-- A reference to an object. Its number tells it from all others. -/
structure Ref where
  id : Nat
  object : Object
  deriving DecidableEq, Repr

structure Machine where
  script : Script
  /-- The latest call comes first. -/
  calls : List Call
  /-- Whether an exception is pending. -/
  pending : Bool
  /-- The number of the next reference. -/
  nextRef : Nat
  locals : List Ref
  globals : List Ref
  weaks : List Ref
  /-- The numbers of the weak references whose objects were collected. -/
  cleared : List Nat
  /-- How many blocks of memory are in use. -/
  memory : Nat
  /-- Whether the callbacks of an agent are installed. -/
  callbacks : Bool
  /-- The events that are sent to the callbacks. -/
  enabled : List EventNumber
  capabilities : Capabilities

namespace Machine

def start (script : Script) : Machine where
  script
  calls := []
  pending := false
  nextRef := 0
  locals := []
  globals := []
  weaks := []
  cleared := []
  memory := 0
  callbacks := false
  enabled := []
  capabilities := .none

/-- Records a call; the answer is how it goes. -/
def take (call : Call) : StateM Machine Fate :=
  modifyGet fun machine ↦
    (machine.script.fate machine.calls call, { machine with calls := call :: machine.calls })

/-- What a reference leads to, unless that was collected. -/
def target? (machine : Machine) (ref : Ref) : Option Object :=
  if machine.cleared.contains ref.id then none else some ref.object

/-- The class that an object is. -/
def classInfo? (machine : Machine) (cls : Object) : Option ClassInfo :=
  machine.script.classes.lookup cls.name

/-! ### References -/

def newLocal (object : Object) : StateM Machine Ref :=
  modifyGet fun machine ↦
    let ref := ⟨machine.nextRef, object⟩
    (ref, { machine with nextRef := machine.nextRef + 1, locals := ref :: machine.locals })

def newGlobal (object : Object) : StateM Machine Ref :=
  modifyGet fun machine ↦
    let ref := ⟨machine.nextRef, object⟩
    (ref, { machine with nextRef := machine.nextRef + 1, globals := ref :: machine.globals })

def newWeak (object : Object) : StateM Machine Ref :=
  modifyGet fun machine ↦
    let ref := ⟨machine.nextRef, object⟩
    (ref, { machine with nextRef := machine.nextRef + 1, weaks := ref :: machine.weaks })

def deleteLocal (ref : Ref) : StateM Machine Unit :=
  modify fun machine ↦ { machine with locals := machine.locals.erase ref }

def deleteGlobal (ref : Ref) : StateM Machine Unit :=
  modify fun machine ↦ { machine with globals := machine.globals.erase ref }

/-- Keeps the weak references for which `kept` holds. -/
def keepWeaks (kept : Ref → Bool) : StateM Machine Unit :=
  modify fun machine ↦ { machine with weaks := machine.weaks.filter kept }

/-- Collects a class loader: the weak references to it lead nowhere any more. -/
def collect (loader : String) : StateM Machine Unit :=
  modify fun machine ↦
    let lost := machine.weaks.filter (·.object == .loader loader)
    { machine with cleared := lost.map (·.id) ++ machine.cleared }

/-! ### Events -/

def isEnabled (machine : Machine) (event : EventNumber) : Bool :=
  machine.callbacks && machine.enabled.contains event

def enable (event : EventNumber) (on : Bool) : StateM Machine Unit :=
  modify fun machine ↦
    let others := machine.enabled.filter (· ≠ event)
    { machine with enabled := if on then event :: others else others }

end Machine

/-- What can be seen of a machine after an event. -/
structure Observation where
  /-- The calls since the last observation, in order. -/
  calls : List Call
  pending : Bool
  memory : Nat
  locals : Nat
  globals : Nat
  weaks : Nat

/-- Observes the machine, which then forgets its calls and a pending exception. -/
def Machine.observe : StateM Machine Observation :=
  modifyGet fun machine ↦
    (⟨machine.calls.reverse, machine.pending, machine.memory, machine.locals.length,
        machine.globals.length, machine.weaks.length⟩,
      { machine with calls := [], pending := false })

end ClassWeaver.Vm
